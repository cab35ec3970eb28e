/-
  ItbCpp.Eitb.Files
  ─────────────────
  **WHAT `eitb` READS AND WRITES** (`eitb/eitb.cpp`).

  `read_file` and `write_file` over a system that is honest about its calls.
  A file that was read is there, byte for byte; a file that was written holds
  the buffer; and whatever goes wrong, no other file has changed and nothing
  is left open.

    • `Truthful` — what the system promises,
    • `wp_readFile_disk` — reading a file,
    • `wp_writeFile_disk` — writing one.
-/
import ItbCpp.Lib.Disk
import ItbCpp.Lib.Within
import ItbCpp.Eitb

namespace ItbCpp.Eitb

/-! ## §1. The system. -/

/-- The calls on the open file, and those that open one. -/
def SysCall.onFile : SysCall → Bool
  | .fopen _ _ | .fread _ | .ferror | .fwrite _ | .fclose => true
  | _ => false

/-- **An honest system.**  `disk s` is what the files hold in its state `s`,
those apart that the standard streams are redirected to; `same` says which
paths may name one file.  A call may fail at any time. -/
structure Truthful {φ : Type} (S : Sys φ) (disk : φ → Disk Bytes UInt8)
    (same : Bytes → Bytes → Prop) : Prop where
  openRead : ∀ path s, (disk s).stream = .closed →
    disk (S (.fopen path "rb") s).2 =
      if (S (.fopen path "rb") s).1.ok then (disk s).openedToRead path else disk s
  fread : ∀ n s rest bad, (disk s).stream = .reading rest bad →
    (S (.fread n) s).1.bytes.length ≤ n ∧
      (disk s).Reads n (S (.fread n) s).1.bytes (disk (S (.fread n) s).2)
  ferror : ∀ s rest bad, (disk s).stream = .reading rest bad →
    (S .ferror s).1.ok = !bad ∧ disk (S .ferror s).2 = disk s
  openWrite : ∀ path s, (disk s).stream = .closed →
    (disk s).OpensToWrite same path (S (.fopen path "wb") s).1.ok
      (disk (S (.fopen path "wb") s).2)
  fwrite : ∀ buf s path put bad, (disk s).stream = .writing path put bad →
    (disk s).Writes same buf (S (.fwrite buf) s).1.count (disk (S (.fwrite buf) s).2)
  fclose : ∀ s, (disk s).stream ≠ .closed →
    (disk s).Closes same (S .fclose s).1.ok (disk (S .fclose s).2)
  other : ∀ c s, c.onFile = false → disk (S c s).2 = disk s

section Files

variable {σ φ α β : Type} {S : Sys φ} {disk : φ → Disk Bytes UInt8}
  {same : Bytes → Bytes → Prop} {p q : Proc σ φ}

/-- The process after a call. -/
def Proc.called (S : Sys φ) (c : SysCall) (p : Proc σ φ) : Proc σ φ :=
  { p with sys := (S c p.sys).2, done := p.done ++ [c] }

/-- One system call, and what is done with its answer. -/
theorem wp_call_bind {c : SysCall} {f : SysReply → Prog Exn (Proc σ φ) β}
    {Q : Prog.Post Exn (Proc σ φ) β} :
    Prog.wp (call S c >>= f) Q p ↔ Prog.wp (f (S c p.sys).1) Q (p.called S c) := by
  rw [Prog.wp_bind]
  rfl

/-- The library and the files are as they were. -/
structure Calm (disk : φ → Disk Bytes UInt8) (p q : Proc σ φ) : Prop where
  world : q.world = p.world
  disk : disk q.sys = disk p.sys

instance (disk : φ → Disk Bytes UInt8) : IsPreorder (Proc σ φ) (Calm disk) where
  refl _ := ⟨rfl, rfl⟩
  trans _ _ _ h h' := ⟨h'.world.trans h.world, h'.disk.trans h.disk⟩

/-- A call that is not on a file leaves the files. -/
theorem Truthful.calm (hS : Truthful S disk same) {c : SysCall} (hc : c.onFile = false)
    (p : Proc σ φ) : Calm disk p (p.called S c) :=
  ⟨rfl, hS.other c p.sys hc⟩

/-- The calls that are not on a file stay within `R`. -/
def Quiet (S : Sys φ) (R : Proc σ φ → Proc σ φ → Prop) : Prop :=
  ∀ c, c.onFile = false → Prog.Within R (call S c : Prog Exn (Proc σ φ) SysReply)

theorem Truthful.quiet (hS : Truthful S disk same) :
    Quiet S (Calm disk : Proc σ φ → Proc σ φ → Prop) :=
  fun _ hc p => hS.calm hc p

section Printing

variable {R : Proc σ φ → Proc σ φ → Prop} [IsPreorder (Proc σ φ) R]

/-- Printing makes no call on a file, on either stream. -/
theorem within_printErr (hR : Quiet S R) (b : Bytes) :
    Prog.Within R (printErr S b : Prog Exn (Proc σ φ) Unit) :=
  .bind (hR _ rfl) fun _ => .pure ()

theorem within_print (hR : Quiet S R) (b : Bytes) :
    Prog.Within R (print S b : Prog Exn (Proc σ φ) Unit) :=
  .bind (hR _ rfl) fun _ => .pure ()

theorem within_printBlob (hR : Quiet S R) (blob : Bytes) :
    Prog.Within R (printBlob S blob : Prog Exn (Proc σ φ) Unit) := by
  induction blob with
  | nil => exact .pure ()
  | cons b blob ih => exact .bind (within_printErr hR _) fun _ => ih

theorem within_printLines (hR : Quiet S R) (lines : List Bytes) :
    Prog.Within R (printLines S lines : Prog Exn (Proc σ φ) Unit) := by
  induction lines with
  | nil => exact .pure ()
  | cons b lines ih => exact .bind (within_print hR _) fun _ => ih

theorem within_capGoRuntime (hR : Quiet S R) :
    Prog.Within R (capGoRuntime S : Prog Exn (Proc σ φ) Unit) :=
  .bind (hR _ rfl) fun _ => .bind (hR _ rfl) fun _ => .pure ()

end Printing

/-- All calls stay within `R`. -/
def Enduring (S : Sys φ) (R : Proc σ φ → Proc σ φ → Prop) : Prop :=
  ∀ c, Prog.Within R (call S c : Prog Exn (Proc σ φ) SysReply)

section Enduring

variable {R : Proc σ φ → Proc σ φ → Prop} [IsPreorder (Proc σ φ) R]

omit [IsPreorder (Proc σ φ) R] in
/-- What every call keeps is kept by those that are not on files. -/
theorem Enduring.quiet (hR : Enduring S R) : Quiet S R := fun c _ => hR c

/-- The loop of reads: by induction on its fuel. -/
theorem within_freadLoop (hR : Enduring S R) (fuel : Nat) : ∀ out : Bytes,
    Prog.Within R (freadLoop S out fuel : Prog Exn (Proc σ φ) Bytes) := by
  induction fuel with
  | zero => exact fun _ p => refl_of R p
  | succ fuel ih => exact fun out => .bind (hR _) fun r => .ite (.pure _) (ih _)

/-- A message, and what is returned. -/
theorem within_failed (hR : Enduring S R) (msg : Bytes) (a : α) :
    Prog.Within R (do printErr S msg; pure a : Prog Exn (Proc σ φ) α) :=
  .bind (within_printErr hR.quiet msg) fun _ => .pure a

theorem within_readFile (hR : Enduring S R) (path : Bytes) (fuel : Nat) :
    Prog.Within R (readFile S path fuel : Prog Exn (Proc σ φ) (Option Bytes)) := by
  refine .bind (hR _) fun f => .ite (within_failed hR _ _) ?_
  refine .bind (within_freadLoop hR fuel []) fun out => .bind (hR _) fun bad => ?_
  exact .bind (hR _) fun _ => .ite (within_failed hR _ _) (.pure _)

/-- The parent directory is made by one call, if there is one. -/
theorem within_ensureParentDir (hR : Enduring S R) (path : Bytes) :
    Prog.Within R (ensureParentDir S path : Prog Exn (Proc σ φ) Nat) := by
  refine .ite (.pure 0) (.bind (hR _) fun ec => ?_)
  exact .ite (within_failed hR _ _) (.pure 0)

/-- A file is opened, written, closed. -/
theorem within_writeFile (hR : Enduring S R) (path buf : Bytes) :
    Prog.Within R (writeFile S path buf : Prog Exn (Proc σ φ) Nat) := by
  refine .bind (within_ensureParentDir hR path) fun rc => .ite (.pure 1) ?_
  refine .bind (hR _) fun f => .ite (within_failed hR _ _) ?_
  refine .bind (.ite (.bind (hR _) fun _ => .pure _) (.pure 0)) fun n => ?_
  refine .ite (.bind (hR _) fun _ => within_failed hR _ _) ?_
  exact .bind (hR _) fun closed => .ite (within_failed hR _ _) (.pure 0)

end Enduring

/-- A message, and what is returned. -/
theorem wp_printErr_pure (hS : Truthful S disk same) (b : Bytes) (a : α)
    {Q : Prog.Post Exn (Proc σ φ) α} (h : ∀ q, Calm disk p q → Q.ok a q) :
    Prog.wp (do printErr S b; pure a) Q p :=
  h _ (hS.calm rfl p)

/-! ## §2. Reading. -/

/-- The file that is being read was met with no error. -/
def Sound (d : Disk Bytes UInt8) : Prop := ∀ rest, d.stream ≠ .reading rest true

/-- How the loop of `read_file` stands, from `p` on: it has taken some of the
file, all of it if no error was met. -/
def LoopRead (disk : φ → Disk Bytes UInt8) (d₀ : Disk Bytes UInt8) (path : Bytes)
    (p : Proc σ φ) (fuel : Nat) : Prog.Post Exn (Proc σ φ) Bytes where
  ok out q := q.world = p.world ∧ d₀.Taking path out (disk q.sys) ∧
    (Sound (disk q.sys) → d₀.file path = some out)
  threw _ _ := False
  running q := q.world = p.world ∧ (disk q.sys).file = d₀.file ∧ fuel ≤ (disk p.sys).left

theorem wp_freadLoop_disk (hS : Truthful S disk same) {d₀ : Disk Bytes UInt8} {path : Bytes}
    (fuel : Nat) : ∀ (out : Bytes) (p : Proc σ φ), d₀.Taking path out (disk p.sys) →
    Prog.wp (freadLoop S out fuel) (LoopRead disk d₀ path p fuel) p := by
  induction fuel with
  | zero =>
      intro out p h
      exact ⟨rfl, h.file, Nat.zero_le _⟩
  | succ fuel ih =>
      intro out p h
      obtain ⟨rest, bad, hstream, -⟩ := h.stream
      obtain ⟨hlen, hreads⟩ := hS.fread 65536 p.sys rest bad hstream
      have htaking := h.read hreads
      unfold freadLoop
      rw [wp_call_bind]
      dsimp only
      rw [List.take_of_length_le hlen, Prog.wp_ite]
      split
      -- nothing came: the end of the file, or an error
      · rename_i hnone
        have hnil := List.length_eq_zero_iff.mp hnone
        refine ⟨rfl, htaking, fun hgood => ?_⟩
        rw [hnil] at hreads ⊢
        rw [List.append_nil]
        exact h.whole (by decide) hreads hgood
      · rename_i hsome
        have hless := hreads.left_lt fun hnil => hsome (by rw [hnil]; rfl)
        refine (ih _ (p.called S (.fread 65536)) htaking).mono (fun _ _ h => h) (fun _ _ h => h)
          fun q hq => ?_
        obtain ⟨hworld, hfile, hfuel⟩ := hq
        refine ⟨hworld, hfile, ?_⟩
        show fuel + 1 ≤ (disk p.sys).left
        have hfuel : fuel ≤ (disk (S (.fread 65536) p.sys).2).left := hfuel
        omega

/-- How much there is to read at a path. -/
def sizeAt (d : Disk Bytes UInt8) (path : Bytes) : Nat := ((d.file path).getD []).length

/-- How `read_file` stands: the file is closed again, and what was returned is
what it holds. -/
def FileRead (disk : φ → Disk Bytes UInt8) (path : Bytes) (fuel : Nat) (p : Proc σ φ) :
    Prog.Post Exn (Proc σ φ) (Option Bytes) where
  ok r q := Calm disk p q ∧ ∀ b, r = some b → (disk p.sys).file path = some b
  threw _ _ := False
  running q := q.world = p.world ∧ (disk q.sys).file = (disk p.sys).file ∧
    fuel ≤ sizeAt (disk p.sys) path

/-- **`read_file`.** -/
theorem wp_readFile_disk (hS : Truthful S disk same) (path : Bytes) (fuel : Nat) (p : Proc σ φ)
    (hclosed : (disk p.sys).stream = .closed) :
    Prog.wp (readFile S path fuel) (FileRead disk path fuel p) p := by
  have hopen := hS.openRead path p.sys hclosed
  unfold readFile
  rw [wp_call_bind, Prog.wp_ite]
  cases hok : (S (.fopen path "rb") p.sys).1.ok with
  | false =>
      rw [hok] at hopen
      have hsame : Calm disk p (p.called S (.fopen path "rb")) := ⟨rfl, hopen⟩
      rw [if_pos Bool.not_false]
      exact wp_printErr_pure hS _ none fun q hq => ⟨trans_of (Calm disk) hsame hq, nofun⟩
  | true =>
      rw [hok] at hopen
      have hopen : disk (p.called S (.fopen path "rb")).sys =
          (disk p.sys).openedToRead path := hopen
      have htaking : (disk p.sys).Taking path [] (disk (p.called S (.fopen path "rb")).sys) := by
        rw [hopen]
        exact Disk.taking_opened _ _
      have hleft : (disk (p.called S (.fopen path "rb")).sys).left = sizeAt (disk p.sys) path := by
        rw [hopen]
        unfold Disk.left Disk.openedToRead sizeAt
        cases (disk p.sys).file path <;> rfl
      rw [if_neg (by decide), Prog.wp_bind]
      refine (wp_freadLoop_disk hS fuel [] _ htaking).mono (fun out q hq => ?_) (fun _ _ h => h)
        fun q hq => ?_
      · obtain ⟨hworld, htook, hwhole⟩ := hq
        obtain ⟨rest, bad, hstream, -⟩ := htook.stream
        obtain ⟨herror, hkept⟩ := hS.ferror q.sys rest bad hstream
        dsimp only
        rw [wp_call_bind, wp_call_bind]
        -- the disk as `fclose` finds it, and as it leaves it
        generalize hq₁ : (q.called S .ferror) = q₁
        have hdisk₁ : disk q₁.sys = disk q.sys := by
          rw [← hq₁]
          exact hkept
        have hopen₁ : (disk q₁.sys).stream = .reading rest bad := by
          rw [hdisk₁]
          exact hstream
        have hcloses := hS.fclose q₁.sys (by rw [hopen₁]; exact nofun)
        have hsame : Calm disk p (q₁.called S .fclose) := by
          refine ⟨?_, ?_⟩
          · rw [← hq₁]
            exact hworld
          · have hfile : (disk (S .fclose q₁.sys).2).file = (disk p.sys).file := by
              rw [hcloses.read rest bad hopen₁, hdisk₁]
              exact htook.file
            have hstate : (disk (S .fclose q₁.sys).2).stream = (disk p.sys).stream := by
              rw [hcloses.stream, hclosed]
            exact Disk.ext hfile hstate
        rw [Prog.wp_ite, herror, Bool.not_not]
        cases bad with
        | true =>
            rw [if_pos rfl]
            exact wp_printErr_pure hS _ none fun q' hq' => ⟨trans_of (Calm disk) hsame hq', nofun⟩
        | false =>
            rw [if_neg (by decide)]
            refine ⟨hsame, fun b hb => ?_⟩
            obtain rfl : out = b := Option.some.inj hb
            refine hwhole fun rest' hbad => ?_
            rw [hstream] at hbad
            cases hbad
      · obtain ⟨hworld, hfile, hfuel⟩ := hq
        rw [hleft] at hfuel
        exact ⟨hworld, hfile, hfuel⟩

/-! ## §3. Writing. -/

/-- How `write_file` ends: the file is closed, no other has changed, and with a
0 it holds the buffer. -/
structure FileWritten (disk : φ → Disk Bytes UInt8) (same : Bytes → Bytes → Prop)
    (path buf : Bytes) (p : Proc σ φ) (rc : Nat) (q : Proc σ φ) : Prop where
  world : q.world = p.world
  closed : (disk q.sys).stream = .closed
  spares : (disk p.sys).Spares same path (disk q.sys)
  code : rc ≤ 1
  kept : rc = 0 → (disk q.sys).file path = some buf

/-- A message, and a 1. -/
theorem FileWritten.failed (hS : Truthful S disk same) {path buf : Bytes} (msg : Bytes)
    (hworld : q.world = p.world) (hclosed : (disk q.sys).stream = .closed)
    (hspares : (disk p.sys).Spares same path (disk q.sys)) :
    Prog.wp (do printErr S msg; pure 1)
      ⟨FileWritten disk same path buf p, fun _ _ => False, fun _ => False⟩ q := by
  refine wp_printErr_pure hS msg 1 fun q' hcalm => ?_
  have hdisk := hcalm.disk
  refine ⟨hcalm.world.trans hworld, ?_, ?_, Nat.le_refl 1, nofun⟩
  · rw [hdisk]
    exact hclosed
  · rw [hdisk]
    exact hspares

/-- The directories above a file are made, or not: no file is touched. -/
theorem wp_ensureParentDir_disk (hS : Truthful S disk same) (path : Bytes) (p : Proc σ φ) :
    Prog.wp (ensureParentDir S path)
      ⟨fun _ q => Calm disk p q, fun _ _ => False, fun _ => False⟩ p := by
  unfold ensureParentDir
  dsimp only
  rw [Prog.wp_ite]
  split
  · exact refl_of (Calm disk) p
  · have hmade := hS.calm (c := .createDirectories (parentPath path)) rfl p
    rw [wp_call_bind, Prog.wp_ite]
    split
    · exact wp_printErr_pure hS _ 1 fun q hq => trans_of (Calm disk) hmade hq
    · exact hmade

/-- **`write_file`.** -/
theorem wp_writeFile_disk (hS : Truthful S disk same) (path buf : Bytes) (p : Proc σ φ)
    (hclosed : (disk p.sys).stream = .closed) :
    Prog.wp (writeFile S path buf)
      ⟨FileWritten disk same path buf p, fun _ _ => False, fun _ => False⟩ p := by
  unfold writeFile
  rw [Prog.wp_bind]
  refine (wp_ensureParentDir_disk hS path p).mono_ok fun rc p₁ h₁ => ?_
  have hclosed₁ : (disk p₁.sys).stream = .closed := by
    rw [h₁.disk]
    exact hclosed
  rw [Prog.wp_ite]
  split
  · refine ⟨h₁.world, hclosed₁, ?_, Nat.le_refl 1, nofun⟩
    rw [h₁.disk]
    exact .refl same path _
  · have hopen := hS.openWrite path p₁.sys hclosed₁
    rw [h₁.disk] at hopen
    rw [wp_call_bind, Prog.wp_ite]
    cases hok : (S (.fopen path "wb") p₁.sys).1.ok with
    | false =>
        rw [hok] at hopen
        rw [if_pos Bool.not_false]
        exact .failed hS _ h₁.world hopen.stream hopen.spares
    | true =>
        rw [hok] at hopen
        have hput : (disk p.sys).Putting same path []
            (disk (p₁.called S (.fopen path "wb")).sys) := hopen.putting
        generalize hp₂ : p₁.called S (.fopen path "wb") = p₂ at hput
        have hworld₂ : p₂.world = p.world := by
          rw [← hp₂]
          exact h₁.world
        rw [Bool.not_true, if_neg Bool.false_ne_true, Prog.wp_bind]
        refine Prog.wp.mono_ok (Q := ⟨fun n p₃ => p₃.world = p.world ∧
          (disk p.sys).Spares same path (disk p₃.sys) ∧
          (∃ put bad, (disk p₃.sys).stream = .writing path put bad) ∧
          (n = buf.length → (disk p.sys).Putting same path buf (disk p₃.sys)),
          fun _ _ => False, fun _ => False⟩) ?_ fun n p₃ h₃ => ?_
        · unfold fwriteAll
          rw [Prog.wp_ite]
          split
          · have hwrites := hS.fwrite buf p₂.sys path [] false hput.stream
            obtain ⟨hspares, hopen₃⟩ := hput.spares_write hwrites
            exact ⟨hworld₂, hspares, hopen₃, fun hn => hput.write hwrites hn⟩
          · rename_i hnil
            rw [not_not.mp hnil]
            exact ⟨hworld₂, hput.spares, ⟨[], false, hput.stream⟩, fun _ => hput⟩
        · obtain ⟨hworld₃, hspares₃, hopen₃, hput₃⟩ := h₃
          obtain ⟨put, bad, hstream₃⟩ := hopen₃
          have hcloses := hS.fclose p₃.sys (by rw [hstream₃]; exact nofun)
          have hspares : (disk p.sys).Spares same path (disk (p₃.called S .fclose).sys) :=
            hspares₃.trans (hcloses.spares path put bad hstream₃)
          rw [Prog.wp_ite]
          split
          · rw [wp_call_bind]
            exact .failed hS _ hworld₃ hcloses.stream hspares
          · rename_i hall
            have hkept := (hput₃ (not_not.mp hall)).close hcloses
            rw [wp_call_bind, Prog.wp_ite]
            split
            · exact .failed hS _ hworld₃ hcloses.stream hspares
            · rename_i hfine
              have hfine : (S .fclose p₃.sys).1.ok = true := by simpa using hfine
              exact ⟨hworld₃, hcloses.stream, hspares, Nat.zero_le 1, fun _ => hkept.2.2 hfine⟩

end Files

/-! ## §4. Files in memory. -/

/-- A system whose files are in memory, and whose calls go well as long as there
is something to be read. -/
def shelf : Sys (Disk Bytes UInt8) := fun c s =>
  match c with
  | .fopen path mode =>
      if mode = "rb" then ({}, s.openedToRead path)
      else ({}, { s with stream := .writing path [] false })
  | .fread n =>
      match s.stream with
      | .reading (some rest) bad =>
          ({ bytes := rest.take n }, { s with stream := .reading (some (rest.drop n)) bad })
      | .reading none _ => ({}, { s with stream := .reading none true })
      | _ => ({}, s)
  | .ferror =>
      match s.stream with
      | .reading _ bad => ({ ok := !bad }, s)
      | _ => ({}, s)
  | .fwrite b =>
      match s.stream with
      | .writing path put bad =>
          ({ count := b.length }, { s with stream := .writing path (put ++ b) bad })
      | _ => ({}, s)
  | .fclose =>
      match s.stream with
      | .writing path put _ => ({}, ⟨Function.update s.file path (some put), .closed⟩)
      | _ => ({}, { s with stream := .closed })
  | _ => ({}, s)

/-- Files in memory do what a truthful system promises. -/
theorem shelf_truthful : Truthful shelf id Eq where
  openRead path s _ := rfl
  fread n s rest bad h := by
    simp only [id_eq] at h
    cases rest with
    | none =>
        have hread : shelf (.fread n) s = ({}, { s with stream := .reading none true }) := by
          simp only [shelf, h]
        rw [hread]
        exact ⟨Nat.zero_le n, .never h⟩
    | some rest =>
        have hread : shelf (.fread n) s =
            ({ bytes := rest.take n }, { s with stream := .reading (some (rest.drop n)) bad }) := by
          simp only [shelf, h]
        rw [hread]
        exact ⟨List.length_take_le n rest, .next h⟩
  ferror s rest bad h := by
    simp only [id_eq] at h
    have herror : shelf .ferror s = ({ ok := !bad }, s) := by
      simp only [shelf, h]
    rw [herror]
    exact ⟨rfl, rfl⟩
  openWrite path s _ := by
    have hopen : shelf (.fopen path "wb") s =
        ({}, { s with stream := .writing path [] false }) := by
      simp [shelf]
    rw [hopen]
    exact ⟨fun _ _ => rfl, rfl⟩
  fwrite buf s path put bad h := by
    simp only [id_eq] at h
    have hwrite : shelf (.fwrite buf) s =
        ({ count := buf.length }, { s with stream := .writing path (put ++ buf) bad }) := by
      simp only [shelf, h]
    rw [hwrite]
    refine ⟨Nat.le_refl _, fun path' put' bad' h' => ?_⟩
    rw [id_eq, h] at h'
    cases h'
    exact ⟨fun _ _ => rfl, by simp⟩
  fclose s h := by
    simp only [id_eq] at h ⊢
    cases hs : s.stream with
    | closed => exact (h hs).elim
    | reading rest bad =>
        have hclose : shelf .fclose s = ({}, { s with stream := .closed }) := by
          simp only [shelf, hs]
        rw [hclose]
        refine ⟨rfl, fun _ _ _ => rfl, fun _ _ _ _ _ _ => rfl, fun _ _ h' => ?_⟩
        rw [hs] at h'
        cases h'
    | writing path put bad =>
        have hclose : shelf .fclose s =
            ({}, ⟨Function.update s.file path (some put), .closed⟩) := by
          simp only [shelf, hs]
        rw [hclose]
        refine ⟨rfl, fun _ _ h' => ?_, fun path' put' bad' h' x hx => ?_, fun path' put' h' _ => ?_⟩
        · rw [hs] at h'
          cases h'
        · rw [hs] at h'
          cases h'
          exact Function.update_of_ne (fun heq => hx heq.symm) ..
        · rw [hs] at h'
          cases h'
          exact Function.update_self ..
  other c s hc := by
    cases c with
    | fopen | fread | ferror | fwrite | fclose => cases hc
    | _ => rfl

end ItbCpp.Eitb
