/-
  ItbCpp.Eitb.Endings
  ───────────────────
  **`eitb` ENDS, AND ITS EXIT CODE SAYS HOW** (`eitb/eitb.cpp`).

  The loops of the program are those of `read_file` and of the pumps.  Over a
  library whose reads block once the input has ended and a system that tells
  the truth about its files, a file's size bounds them all; every other call
  ends by itself.

    • `done_of_restarts` — the passes of a pump end,
    • `wp_command_ends` — so does a command, with 0 or 1,
    • `less_main` — more fuel changes nothing,
    • `eitb_ends` — the program comes to one end; its exit code is 2 exactly
      when the command line is none of those that `usage` prints.
-/
import ItbCpp.Lib.Fuel
import ItbCpp.Eitb.Roundtrip
import Mathlib.Algebra.Order.BigOperators.Group.List
import Mathlib.Algebra.Order.Group.Nat

namespace ItbCpp.Eitb

/-- The fuel that a file of this size asks for. -/
def enough (size : Nat) : Nat := size + outCap size * 2 ^ 2 + 1

/-! ## §1. The entries. -/

section Worlds

variable {σ : Type} {L : Lib σ} {junk : Nat → Nat → UInt8} {fuel : Nat}

/-- A check has no loop. -/
theorem check_ends (rc : Int) (what : String) (w : World σ) :
    Prog.wp (check L rc what) ending w :=
  wp_check_threw rc what w (fun _ => trivial) fun _ _ _ _ _ _ => trivial

/-- A message entry calls the library twice at most. -/
theorem cipherCall_ends (h : Handle) (fn : CipherFn) (src : Bytes) (what : String)
    (w : World σ) : Prog.wp (cipherCall L junk h fn src what) ending w := by
  rw [cipherCall_eq_retryOnce, Prog.wp_bind]
  exact wp_retryOnce (length_uninit junk) rfl (fun _ => trivial) fun _ _ _ _ => trivial

/-- `init` does so too. -/
theorem init_ends (profile : Bytes) (opts : Opts) (w : World σ) :
    Prog.wp (Pipeline.init L profile opts) ending w := by
  unfold Pipeline.init
  rw [Prog.wp_bind]
  exact (bufCall_ends _ _ w).mono (fun _ _ _ => trivial) (fun _ _ h => h) fun _ h => h

/-- `load` calls it once. -/
theorem load_ends (blob perm wrap : Bytes) (w : World σ) :
    Prog.wp (Pipeline.load L blob perm wrap) ending w := by
  unfold Pipeline.load
  rw [Prog.wp_bind, wp_ffi]
  show Prog.wp _ _ _
  rw [Prog.wp_bind]
  exact (check_ends _ _ _).mono (fun _ _ _ => trivial) (fun _ _ h => h) fun _ h => h

theorem version_ends (w : World σ) : Prog.wp (version L) ending w := by
  unfold version
  rw [Prog.wp_bind, wp_ffi]
  show Prog.wp _ _ _
  rw [Prog.wp_bind]
  exact (check_ends _ _ _).mono (fun _ _ _ => trivial) (fun _ _ h => h) fun _ h => h

theorem profiles_ends (w : World σ) : Prog.wp (profiles L) ending w := by
  unfold profiles
  rw [Prog.wp_bind]
  exact (bufCall_ends _ _ w).mono (fun _ _ _ => trivial) (fun _ _ h => h) fun _ h => h

/-- **The passes of a pump end**, given fuel for the source and for the largest
buffer that they may come to. -/
theorem done_of_restarts (hblock : ∀ h s, ReadsBlock L h s)
    {begin_ : Prog Exn (World σ) Stream} {src : Bytes} {left cap : Nat} {w : World σ}
    {ts : List (Pass σ)} {res : Prog.Result Exn (World σ) Bytes} (hsrc : src.length < fuel)
    (h : Restarts L junk begin_ src fuel left cap w ts res) :
    cap * 2 ^ left < fuel → res.done = true := by
  induction h with
  | notBegun _ => exact fun _ => rfl
  | returned _ _ => exact fun _ => rfl
  | failed _ _ => exact fun _ => rfl
  | gaveUp _ _ _ => exact fun _ => rfl
  -- a pass less, and a buffer twice as large
  | @again left _ _ _ _ _ t _ _ _ _ ih =>
      intro hfuel
      refine ih ?_
      rw [Nat.pow_succ] at hfuel
      rw [Nat.mul_comm 2 t.cap, Nat.mul_assoc, Nat.mul_comm 2]
      exact hfuel
  | @running left w p t ht hres =>
      intro hfuel
      exfalso
      have hrun := wp_pumpInto_any L t.session src (uninit junk t.cap) t.begun fuel
      unfold Prog.wp at hrun
      rw [ht.2, hres] at hrun
      obtain ⟨-, -, -, -, hbound⟩ := hrun
      have hsmall := hbound (hblock _ _) hsrc
      rw [length_uninit] at hsmall
      have hcap : t.cap ≤ t.cap * 2 ^ left := Nat.le_mul_of_pos_right _ (Nat.two_pow_pos left)
      omega

/-- A pump ends, on fuel for its source: it restarts at most twice, and each
pass is bounded. -/
theorem streamPump_ends (hblock : ∀ h s, ReadsBlock L h s) (encrypt : Bool) (pipe : Pipeline)
    {src : Bytes} (hfuel : enough src.length ≤ fuel) (w : World σ) :
    Prog.wp (pumpAlloc L junk ((beginOf encrypt pipe).run L) src fuel) ending w := by
  obtain ⟨ts, hts⟩ : ∃ ts, Restarts L junk ((beginOf encrypt pipe).run L) src fuel 2
      (outCap src.length) w ts (pumpAlloc L junk ((beginOf encrypt pipe).run L) src fuel w) :=
    pumpAttempts_restarts _ 2 _ w
  unfold enough at hfuel
  have hdone := done_of_restarts hblock (by omega) hts (by omega)
  unfold Prog.wp
  cases hres : pumpAlloc L junk ((beginOf encrypt pipe).run L) src fuel w with
  | ok bytes w' => exact trivial
  | threw e w' => exact trivial
  | running w' =>
      rw [hres] at hdone
      cases hdone

/-- The cipher of `encrypt`, on either surface. -/
theorem encryptPair_ends (hblock : ∀ h s, ReadsBlock L h s) (profile : Bytes) (pipe : Pipeline)
    {plain : Bytes} (hfuel : enough plain.length ≤ fuel) (w : World σ) :
    Prog.wp (encryptPair L junk profile fuel pipe plain) ending w := by
  unfold encryptPair
  rw [Prog.wp_ite]
  split
  · exact streamPump_ends hblock true pipe hfuel w
  · exact cipherCall_ends pipe.handle .encryptMessage plain _ w

/-- The cipher of `decrypt`, on either surface. -/
theorem decryptPair_ends (hblock : ∀ h s, ReadsBlock L h s) (profile : Bytes) (pipe : Pipeline)
    {wire : Bytes} (hfuel : enough wire.length ≤ fuel) (w : World σ) :
    Prog.wp (decryptPair L junk profile fuel pipe wire) ending w := by
  unfold decryptPair
  rw [Prog.wp_ite]
  split
  · exact streamPump_ends hblock false pipe hfuel w
  · exact cipherCall_ends pipe.handle .decryptMessage wire _ w

end Worlds

/-! ## §2. The process. -/

section Processes

variable {σ φ : Type} {L : Lib σ} {S : Sys φ} {junk : Nat → Nat → UInt8}
  {disk : φ → Disk Bytes UInt8} {same : Bytes → Bytes → Prop} {fuel : Nat} {p q : Proc σ φ}

/-- It ends with a code of at most 1, or by an exception. -/
abbrev exiting : Prog.Post Exn (Proc σ φ) Nat where
  ok rc _ := rc ≤ 1
  threw _ _ := True
  running _ := False

/-- **A command ends.** -/
theorem wp_command_ends (hS : Truthful S disk same) {infile outfile : Bytes}
    {open_ : Prog Exn (World σ) Pipeline} {cipher : Pipeline → Bytes → Prog Exn (World σ) Bytes}
    {after : Pipeline → Bytes → Bytes → Prog Exn (Proc σ φ) Unit}
    (hopen : ∀ w, Prog.wp open_ ending w)
    (hcipher : ∀ pipe src w, enough src.length ≤ fuel → Prog.wp (cipher pipe src) ending w)
    (hafter : ∀ pipe src out q, Prog.wp (after pipe src out) ending q)
    (hclosed : (disk p.sys).stream = .closed)
    (hfuel : enough (sizeAt (disk p.sys) infile) ≤ fuel) :
    Prog.wp (command L S infile outfile fuel open_ cipher after) exiting p := by
  unfold command
  rw [Prog.wp_bind]
  refine (wp_readFile_disk hS infile fuel p hclosed).mono (fun r p₁ h₁ => ?_)
    (fun _ _ h => h.elim) fun q hq => ?_
  · obtain ⟨hcalm, hread⟩ := h₁
    cases r with
    | none => exact Nat.le_refl 1
    | some src =>
        have hsize : sizeAt (disk p.sys) infile = src.length := by
          unfold sizeAt
          rw [hread src rfl]
          rfl
        rw [hsize] at hfuel
        dsimp only
        rw [Prog.wp_bind, wp_onWorld_iff]
        refine (hopen _).mono (fun pipe w _ => ?_) (fun _ _ _ => trivial) fun _ h => h
        dsimp only
        generalize hp₂ : ({ p₁ with world := w } : Proc σ φ) = p₂
        have hclosed₂ : (disk p₂.sys).stream = .closed := by
          rw [← hp₂, hcalm.disk]
          exact hclosed
        have hinner : Prog.wp (do
            let out ← onWorld (cipher pipe src)
            let rc ← writeFile S outfile out
            if rc = 0 then do
              after pipe src out
              pure rc
            else pure rc) exiting p₂ := by
          rw [Prog.wp_bind, wp_onWorld_iff]
          refine (hcipher pipe src p₂.world hfuel).mono (fun out w₃ _ => ?_)
            (fun _ _ _ => trivial) fun _ h => h
          dsimp only
          rw [Prog.wp_bind]
          refine (wp_writeFile_disk hS outfile out { p₂ with world := w₃ } hclosed₂).mono
            (fun rc q h => ?_) (fun _ _ h => h.elim) fun _ h => h
          dsimp only
          rw [Prog.wp_ite]
          split
          · rw [Prog.wp_bind]
            exact (hafter pipe src out q).mono (fun _ _ _ => h.code) (fun _ _ h => h) fun _ h => h
          · exact h.code
        unfold transcode
        rw [Prog.wp_ensuring]
        refine hinner.mono (fun rc q h => ?_) (fun _ q _ => ?_) fun _ h => h
        · exact (wp_destroyed pipe q).mono (fun _ _ _ => h) (fun _ _ h => h.elim) fun _ h => h
        · exact (wp_destroyed pipe q).mono (fun _ _ _ => trivial) (fun _ _ h => h.elim)
            fun _ h => h
  -- the loop of `read_file` takes something each time
  · have hleft := hq.2.2
    unfold enough at hfuel
    omega

/-- **`encrypt` ends** with a code, on fuel for the file it reads. -/
theorem wp_cmdEncrypt_ends (hS : Truthful S disk same) (hblock : ∀ h s, ReadsBlock L h s)
    (profile : Bytes) {infile outfile : Bytes} (hclosed : (disk p.sys).stream = .closed)
    (hfuel : enough (sizeAt (disk p.sys) infile) ≤ fuel) :
    Prog.wp (cmdEncrypt L S junk profile infile outfile fuel) exiting p := by
  rw [cmdEncrypt_eq, Prog.wp_bind]
  refine (wp_capGoRuntime hS p).mono (fun _ p₁ h => ?_) (fun _ _ h => h.elim) fun _ h => h
  have hdisk := h.1.disk
  refine wp_command_ends hS (init_ends profile {})
    (fun pipe plain w hfuel => encryptPair_ends hblock profile pipe hfuel w)
    (fun pipe plain wire q => ?_) (hdisk ▸ hclosed) (hdisk ▸ hfuel)
  exact (announces_any hS pipe infile outfile plain wire).mono (fun _ _ _ => trivial)
    (fun _ _ _ => trivial) fun _ h => h

/-- **`decrypt` ends**, in the same way. -/
theorem wp_cmdDecrypt_ends (hS : Truthful S disk same) (hblock : ∀ h s, ReadsBlock L h s)
    (profile hex : Bytes) {infile outfile : Bytes} (hclosed : (disk p.sys).stream = .closed)
    (hfuel : enough (sizeAt (disk p.sys) infile) ≤ fuel) :
    Prog.wp (cmdDecrypt L S junk profile hex infile outfile fuel) exiting p := by
  unfold cmdDecrypt
  rw [Prog.wp_bind]
  refine (wp_capGoRuntime hS p).mono (fun _ p₁ h => ?_) (fun _ _ h => h.elim) fun _ h => h
  have hdisk := h.1.disk
  cases blobOfHex hex with
  | error msg => exact Nat.le_refl 1
  | ok blob =>
      show Prog.wp (decryptWith L S junk blob profile infile outfile fuel) exiting p₁
      rw [decryptWith_eq]
      exact wp_command_ends hS (load_ends blob [] [])
        (fun pipe wire w hfuel => decryptPair_ends hblock profile pipe hfuel w)
        (fun _ _ _ _ => trivial) (hdisk ▸ hclosed) (hdisk ▸ hfuel)

/-- As many lines as there are. -/
theorem printLines_ends (lines : List Bytes) (p : Proc σ φ) :
    Prog.wp (printLines S lines) ending p := by
  induction lines generalizing p with
  | nil => exact trivial
  | cons b lines ih => exact ih _

theorem wp_cmdVersion_ends (p : Proc σ φ) : Prog.wp (cmdVersion L S) exiting p := by
  unfold cmdVersion
  rw [Prog.wp_bind, wp_onWorld_iff]
  exact (version_ends _).mono (fun _ _ _ => Nat.zero_le 1) (fun _ _ h => h) fun _ h => h

theorem wp_cmdProfiles_ends (p : Proc σ φ) : Prog.wp (cmdProfiles L S) exiting p := by
  unfold cmdProfiles
  rw [Prog.wp_bind, wp_onWorld_iff]
  refine (profiles_ends _).mono (fun json w _ => ?_) (fun _ _ h => h) fun _ h => h
  dsimp only
  rw [Prog.wp_bind]
  exact (printLines_ends (quotedRuns json) _).mono (fun _ _ _ => Nat.zero_le 1)
    (fun _ _ h => h) fun _ h => h

/-- The command lines that `usage` prints. -/
inductive Spelled : List Bytes → Prop
  | version (prog : Bytes) : Spelled [prog, text "version"]
  | profiles (prog : Bytes) : Spelled [prog, text "profiles"]
  | encrypt (prog profile infile outfile : Bytes) :
      Spelled [prog, text "encrypt", profile, infile, outfile]
  | decrypt (prog profile hex infile outfile : Bytes) :
      Spelled [prog, text "decrypt", profile, hex, infile, outfile]

/-- What the exit code says of the command line. -/
def Coded (argv : List Bytes) (rc : Nat) : Prop := rc ≤ 2 ∧ (rc = 2 ↔ ¬ Spelled argv)

/-- A code of at most 1 is right for a command line that is spelled out. -/
theorem coded_of_spelled {argv : List Bytes} {rc : Nat} (hargv : Spelled argv) (hrc : rc ≤ 1) :
    Coded argv rc :=
  ⟨by omega, fun htwo => by omega, fun hnot => (hnot hargv).elim⟩

/-- How the dispatch ends: only a command throws. -/
abbrev dispatched (argv : List Bytes) : Prog.Post Exn (Proc σ φ) Nat where
  ok rc _ := Coded argv rc
  threw _ _ := Spelled argv
  running _ := False

/-- A command that is spelled out reports what the command does. -/
theorem wp_dispatched {m : Prog Exn (Proc σ φ) Nat} {argv : List Bytes} (hargv : Spelled argv)
    (hm : Prog.wp m exiting p) : Prog.wp m (dispatched argv) p :=
  hm.mono (fun _ _ h => coded_of_spelled hargv h) (fun _ _ _ => hargv) fun _ h => h

/-- Any other command line reports 2. -/
theorem wp_usage {argv : List Bytes} (hargv : ¬ Spelled argv) (p : Proc σ φ) :
    Prog.wp (usage S) (dispatched argv) p :=
  ⟨Nat.le_refl 2, fun _ => hargv, fun _ => rfl⟩

/-- **`main` ends**, behind its handler, on every command line. -/
theorem wp_dispatch_ends (hS : Truthful S disk same) (hblock : ∀ h s, ReadsBlock L h s)
    {argv : List Bytes} (hclosed : (disk p.sys).stream = .closed)
    (hfuel : ∀ path ∈ argv, enough (sizeAt (disk p.sys) path) ≤ fuel) :
    Prog.wp (dispatch L S junk argv fuel) (dispatched argv) p := by
  unfold dispatch
  split
  · rename_i prog cmd
    rw [Prog.wp_ite]
    split
    · rename_i hcmd
      subst hcmd
      exact wp_dispatched (.version prog) (wp_cmdVersion_ends p)
    · rename_i hversion
      rw [Prog.wp_ite]
      split
      · rename_i hcmd
        subst hcmd
        exact wp_dispatched (.profiles prog) (wp_cmdProfiles_ends p)
      · rename_i hprofiles
        refine wp_usage (fun h => ?_) p
        cases h with
        | version => exact hversion rfl
        | profiles => exact hprofiles rfl
  · rename_i prog cmd profile infile outfile
    rw [Prog.wp_ite]
    split
    · rename_i hcmd
      subst hcmd
      exact wp_dispatched (.encrypt prog profile infile outfile)
        (wp_cmdEncrypt_ends hS hblock profile hclosed (hfuel infile (by simp)))
    · rename_i hencrypt
      refine wp_usage (fun h => ?_) p
      cases h with
      | encrypt => exact hencrypt rfl
  · rename_i prog cmd profile hex infile outfile
    rw [Prog.wp_ite]
    split
    · rename_i hcmd
      subst hcmd
      exact wp_dispatched (.decrypt prog profile hex infile outfile)
        (wp_cmdDecrypt_ends hS hblock profile hex hclosed (hfuel infile (by simp)))
    · rename_i hdecrypt
      refine wp_usage (fun h => ?_) p
      cases h with
      | decrypt => exact hdecrypt rfl
  · rename_i htwo hfive hsix
    refine wp_usage (fun h => ?_) p
    cases h with
    | version => exact htwo _ _ rfl
    | profiles => exact htwo _ _ rfl
    | encrypt => exact hfive _ _ _ _ _ rfl
    | decrypt => exact hsix _ _ _ _ _ _ rfl

/-- `main` catches what a command throws. -/
theorem main_ends (junk : Nat → Nat → UInt8) (hS : Truthful S disk same)
    (hblock : ∀ h s, ReadsBlock L h s) {argv : List Bytes}
    (hclosed : (disk p.sys).stream = .closed)
    (hfuel : ∀ path ∈ argv, enough (sizeAt (disk p.sys) path) ≤ fuel) :
    ∃ rc q, main L S junk argv fuel p = .ok rc q ∧ Coded argv rc := by
  refine Prog.wp.returns ?_
  unfold main
  rw [Prog.wp_handle]
  refine (wp_dispatch_ends hS hblock hclosed hfuel).mono (fun _ _ h => h) (fun e q h => ?_)
    fun _ h => h
  exact coded_of_spelled h (Nat.le_refl 1)

end Processes

/-! ## §3. More fuel. -/

section Fuel

variable {σ φ : Type} {L : Lib σ} {S : Sys φ} {junk : Nat → Nat → UInt8} {fuel fuel' : Nat}

/-- More fuel only goes on where less has stopped: the loop of reads. -/
theorem less_freadLoop (h : fuel ≤ fuel') : ∀ out : Bytes,
    Prog.Less (freadLoop S out fuel : Prog Exn (Proc σ φ) Bytes) (freadLoop S out fuel') := by
  induction fuel generalizing fuel' with
  | zero =>
      intro out p hp
      cases hp
  | succ fuel ih =>
      obtain ⟨k, hk⟩ := Nat.exists_eq_add_of_le h
      obtain rfl : fuel' = (fuel + k) + 1 := by omega
      exact fun out => .bind .rfl fun r => .ite .rfl (ih (Nat.le_add_right fuel k) _)

/-- So does everything that is built from loops: the file read, -/
theorem less_readFile (h : fuel ≤ fuel') (path : Bytes) :
    Prog.Less (readFile S path fuel : Prog Exn (Proc σ φ) (Option Bytes))
      (readFile S path fuel') :=
  .bind .rfl fun _ => .ite .rfl (.bind (less_freadLoop h []) fun _ => .rfl)

/-- one pass of a pump, -/
theorem less_pumpInto (h : fuel ≤ fuel') (session : Stream) (src : Bytes) :
    Prog.Less (pumpInto L session src fuel) (pumpInto L session src fuel') := by
  refine .bind (.while_ (.bind .rfl fun _ => .loop .rfl h) h) fun _ => ?_
  exact .bind .rfl fun _ => .bind (.loop .rfl h) fun _ => .rfl

theorem less_pumpAttempt (h : fuel ≤ fuel') (begin_ : Prog Exn (World σ) Stream) (src : Bytes)
    (last : Bool) (cap : Nat) :
    Prog.Less (pumpAttempt L junk begin_ src fuel last cap)
      (pumpAttempt L junk begin_ src fuel' last cap) := by
  refine .zoom (.ensuring (.bind .rfl fun session => .ensuring (.handle ?_ fun _ => .rfl)))
  exact .bind (less_pumpInto h session src) fun _ => .rfl

/-- and the passes with the capacities they try. -/
theorem less_pumpAttempts (h : fuel ≤ fuel') (begin_ : Prog Exn (World σ) Stream)
    (src : Bytes) (left : Nat) : ∀ cap,
    Prog.Less (pumpAttempts L junk begin_ src fuel left cap)
      (pumpAttempts L junk begin_ src fuel' left cap) := by
  induction left with
  | zero =>
      intro cap
      unfold pumpAttempts
      exact .bind (less_pumpAttempt h begin_ src _ cap) fun _ => .rfl
  | succ left ih =>
      intro cap
      unfold pumpAttempts
      refine .bind (less_pumpAttempt h begin_ src _ cap) fun r => ?_
      cases r with
      | none => exact ih _
      | some bytes => exact .rfl

/-- What the two commands share, over ciphers of which it is known. -/
theorem less_command (h : fuel ≤ fuel') {infile outfile : Bytes}
    {open_ : Prog Exn (World σ) Pipeline}
    {cipher cipher' : Pipeline → Bytes → Prog Exn (World σ) Bytes}
    {after : Pipeline → Bytes → Bytes → Prog Exn (Proc σ φ) Unit}
    (hcipher : ∀ pipe src, Prog.Less (cipher pipe src) (cipher' pipe src)) :
    Prog.Less (command L S infile outfile fuel open_ cipher after)
      (command L S infile outfile fuel' open_ cipher' after) := by
  refine .bind (less_readFile h infile) fun r => ?_
  cases r with
  | none => exact .rfl
  | some src =>
      refine .bind .rfl fun pipe => .ensuring ?_
      exact .bind (.zoom (hcipher pipe src)) fun _ => .rfl

theorem less_cmdEncrypt (h : fuel ≤ fuel') (profile infile outfile : Bytes) :
    Prog.Less (cmdEncrypt L S junk profile infile outfile fuel)
      (cmdEncrypt L S junk profile infile outfile fuel') := by
  rw [cmdEncrypt_eq, cmdEncrypt_eq]
  refine .bind .rfl fun _ => less_command h fun pipe plain => ?_
  exact .ite (less_pumpAttempts h _ plain 2 _) .rfl

theorem less_cmdDecrypt (h : fuel ≤ fuel') (profile hex infile outfile : Bytes) :
    Prog.Less (cmdDecrypt L S junk profile hex infile outfile fuel)
      (cmdDecrypt L S junk profile hex infile outfile fuel') := by
  unfold cmdDecrypt
  refine .bind .rfl fun _ => ?_
  cases blobOfHex hex with
  | error msg => exact .rfl
  | ok blob =>
      show Prog.Less (decryptWith L S junk blob profile infile outfile fuel)
        (decryptWith L S junk blob profile infile outfile fuel')
      rw [decryptWith_eq, decryptWith_eq]
      refine less_command h fun pipe wire => ?_
      exact .ite (less_pumpAttempts h _ wire 2 _) .rfl

/-- **A result is the result with any more fuel.** -/
theorem less_main (h : fuel ≤ fuel') (argv : List Bytes) :
    Prog.Less (main L S junk argv fuel) (main L S junk argv fuel') := by
  refine .handle ?_ fun _ => .rfl
  unfold dispatch
  split
  · exact .rfl
  · exact .ite (less_cmdEncrypt h _ _ _) .rfl
  · exact .ite (less_cmdDecrypt h _ _ _ _) .rfl
  · exact .rfl

end Fuel

/-! ## §4. The program. -/

section Results

variable {σ φ : Type} {L : Lib σ} {S : Sys φ} {disk : φ → Disk Bytes UInt8}
  {same : Bytes → Bytes → Prop} {p : Proc σ φ}

/-- **`eitb` ends.**  Over any library whose reads block once the input has
ended and any system that tells the truth about its files, every command line
comes to an exit code, with no exception, and to the same end whatever the
fuel, if it covers the files that the command line names.  The code is at most
2, and it is 2 exactly when the command line is none of those that `usage`
prints. -/
theorem eitb_ends (junk : Nat → Nat → UInt8) (hS : Truthful S disk same)
    (hblock : ∀ h s, ReadsBlock L h s) (hclosed : (disk p.sys).stream = .closed)
    (argv : List Bytes) :
    ∃ rc q, rc ≤ 2 ∧ (rc = 2 ↔ ¬ Spelled argv) ∧
      ∀ fuel, (∀ path ∈ argv, enough (sizeAt (disk p.sys) path) ≤ fuel) →
        main L S junk argv fuel p = .ok rc q := by
  obtain ⟨n, hn⟩ : ∃ n, ∀ path ∈ argv, enough (sizeAt (disk p.sys) path) ≤ n :=
    ⟨(argv.map fun path => enough (sizeAt (disk p.sys) path)).sum,
      fun _ hpath => List.le_sum_of_mem (List.mem_map_of_mem hpath)⟩
  obtain ⟨rc, q, hrun, hcoded⟩ := main_ends junk hS hblock hclosed hn
  refine ⟨rc, q, hcoded.1, hcoded.2, fun fuel hfuel => ?_⟩
  -- both runs are the one on the fuel of both
  obtain ⟨rc', q', hrun', -⟩ := main_ends junk hS hblock hclosed hfuel
  have hmore := less_main (Nat.le_add_right n fuel) argv p (by rw [hrun]; rfl)
  have hmore' := less_main (Nat.le_add_left fuel n) argv p (by rw [hrun']; rfl)
  rw [← hmore', hmore, hrun]

end Results

section Desk

open Loop (Echo echo)

/-- A session of the echo that was ended stays ended. -/
theorem echo_ended {h : Handle} {s₀ s : Echo} {e : Bool} (hr : Reached echo h s₀ e s) :
    e = true → s.ended h = true := by
  induction hr with
  | start =>
      intro he
      cases he
  | write s src _ ih => exact ih
  | read s e cap _ ih => exact ih
  | end_ s _ _ => exact fun _ => Function.update_self ..

/-- Its reads block: one that brings nothing finds the spool empty. -/
theorem echo_readsBlock (h : Handle) (s₀ : Echo) : ReadsBlock echo h s₀ := by
  intro s cap hr hcap _ hlen
  have hended := echo_ended hr rfl
  have hnone : min cap (s.spool h).length = 0 := hlen
  have hempty : min cap (s.spool h).length = (s.spool h).length := by omega
  show (if s.ended h ∧ min cap (s.spool h).length = (s.spool h).length then (1 : Int) else 0) ≠ 0
  rw [if_pos ⟨hended, hempty⟩]
  decide

/-- A stream of the file on the desk. -/
theorem eitb_ends_desk :
    ∃ rc q, rc ≤ 2 ∧
      (rc = 2 ↔ ¬ Spelled [[], text "encrypt", text "streaming-", text "plain", text "wire"]) ∧
      main echo shelf (fun _ _ => 0)
        [[], text "encrypt", text "streaming-", text "plain", text "wire"] (enough 2)
        (fresh desk) = .ok rc q := by
  have hends := eitb_ends (p := fresh desk) (fun _ _ => 0) shelf_truthful echo_readsBlock rfl
    [[], text "encrypt", text "streaming-", text "plain", text "wire"]
  obtain ⟨rc, q, hrc, hcode, hrun⟩ := hends
  refine ⟨rc, q, hrc, hcode, hrun (enough 2) fun path _ => ?_⟩
  show enough (sizeAt desk path) ≤ enough 2
  by_cases hplain : path = text "plain"
  · rw [hplain]
    decide
  · have hnone : desk.file path = none := if_neg hplain
    unfold sizeAt
    rw [hnone]
    decide

end Desk

end ItbCpp.Eitb
