/-
  ItbCpp.Eitb.Roundtrip
  ─────────────────────
  **THE FILE COMES BACK** (`eitb/eitb.cpp`).

  `eitb encrypt` writes a wire to a file and prints a blob; `eitb decrypt`
  takes the two, in another process and over another library, and writes a
  file.  When both exit with 0 that file is the one that was encrypted, byte
  for byte, whatever calls of the library and of the system failed on the
  way, and under whichever of the two cipher pairs.

    • `transcode` — what the two commands share,
    • `wp_command` — where they leave the files, however they end,
    • `file_comes_back` — the round trip,
    • `outputs_are_whole` — a file is not touched for an output that is not
      all there.
-/
import ItbCpp.Eitb.Files
import ItbCpp.Eitb.Passes
import ItbCpp.Loop.Alarms

namespace ItbCpp.Eitb

open Loop (Shape Kept returning wp_init wp_save CipherLib Returns returns_bufCall Echo echo
  echoDrill echo_init echo_save echo_cipherLib deliver returns_deliver)

section Commands

variable {σ φ : Type} (L : Lib σ) (S : Sys φ) (junk : Nat → Nat → UInt8)

/-! ## §1. What the commands share. -/

/-- The entry `cmd_encrypt` chooses. -/
def encryptPair (profile : Bytes) (fuel : Nat) (pipe : Pipeline) (plain : Bytes) :
    Prog Exn (World σ) Bytes :=
  if isStreamingProfile profile then pipe.encryptStreamPump L junk plain fuel
  else pipe.encryptMessage L junk plain

/-- The entry `cmd_decrypt` chooses. -/
def decryptPair (profile : Bytes) (fuel : Nat) (pipe : Pipeline) (wire : Bytes) :
    Prog Exn (World σ) Bytes :=
  if isStreamingProfile profile then pipe.decryptStreamPump L junk wire fuel
  else pipe.decryptMessage L junk wire

/-- From the cipher on: the output is written, then `after` says so, and the
Pipeline is destroyed on every way out. -/
def transcode (pipe : Pipeline) (cipher : Prog Exn (World σ) Bytes) (outfile : Bytes)
    (after : Bytes → Prog Exn (Proc σ φ) Unit) : Prog Exn (Proc σ φ) Nat :=
  Prog.ensuring (do
      let out ← onWorld cipher
      let rc ← writeFile S outfile out
      if rc = 0 then do
        after out
        pure rc
      else pure rc)
    (onWorld (pipe.destroy L))

/-- What `cmd_encrypt` says: the blob, and the two sizes. -/
def announce (pipe : Pipeline) (infile outfile plain wire : Bytes) :
    Prog Exn (Proc σ φ) Unit := do
  let blob ← onWorld (pipe.save L)
  printBlob S blob
  printErr S (text "\n")
  print S (summaryLine "encrypted" infile outfile plain wire)

/-- A command, once the runtime is capped and the arguments are read. -/
def command (infile outfile : Bytes) (fuel : Nat) (open_ : Prog Exn (World σ) Pipeline)
    (cipher : Pipeline → Bytes → Prog Exn (World σ) Bytes)
    (after : Pipeline → Bytes → Bytes → Prog Exn (Proc σ φ) Unit) :
    Prog Exn (Proc σ φ) Nat := do
  match ← readFile S infile fuel with
  | none => pure 1
  | some src => do
      let pipe ← onWorld open_
      transcode L S pipe (cipher pipe src) outfile (after pipe src)

theorem cmdEncrypt_eq (profile infile outfile : Bytes) (fuel : Nat) :
    cmdEncrypt L S junk profile infile outfile fuel = (do
      capGoRuntime S
      command L S infile outfile fuel (Pipeline.init L profile {})
        (encryptPair L junk profile fuel)
        fun pipe plain => announce L S pipe infile outfile plain) := by
  unfold cmdEncrypt command
  refine congrArg (capGoRuntime S >>= ·) (funext fun _ => ?_)
  refine congrArg (readFile S infile fuel >>= ·) (funext fun r => ?_)
  cases r with
  | none => rfl
  | some plain =>
      unfold transcode encryptPair
      refine congrArg (onWorld _ >>= ·) (funext fun pipe => congrArg (Prog.ensuring · _) ?_)
      refine congrArg (onWorld _ >>= ·) (funext fun wire => ?_)
      refine congrArg (writeFile S outfile wire >>= ·) (funext fun rc => ?_)
      -- the four calls of `announce` are one before the code is returned
      unfold announce
      simp only [Prog.bind_bind]

theorem decryptWith_eq (blob profile infile outfile : Bytes) (fuel : Nat) :
    decryptWith L S junk blob profile infile outfile fuel =
      command L S infile outfile fuel (Pipeline.load L blob [] [])
        (decryptPair L junk profile fuel)
        fun _ wire plain => print S (summaryLine "decrypted" infile outfile wire plain) := rfl

end Commands

section Runs

variable {σ φ : Type} {L : Lib σ} {S : Sys φ} {junk : Nat → Nat → UInt8}
  {disk : φ → Disk Bytes UInt8} {same : Bytes → Bytes → Prop} {p p₁ q q₁ : Proc σ φ}

/-! ## §2. Where the files are left. -/

/-- Where a command leaves the files: nothing is open, no file has changed but
the output, and not even that before the cipher had returned all of it. -/
structure Tidied (disk : φ → Disk Bytes UInt8) (same : Bytes → Bytes → Prop) (outfile : Bytes)
    (returned : Prop) (p q : Proc σ φ) : Prop where
  closed : (disk q.sys).stream = .closed
  spares : (disk p.sys).Spares same outfile (disk q.sys)
  whole : (disk q.sys).file = (disk p.sys).file ∨ returned

theorem Tidied.untouched {outfile : Bytes} {returned : Prop}
    (hclosed : (disk p.sys).stream = .closed) (h : disk q.sys = disk p.sys) :
    Tidied disk same outfile returned p q := by
  have hfile : (disk q.sys).file = (disk p.sys).file := congrArg Disk.file h
  refine ⟨?_, .of_file_eq hfile, .inl hfile⟩
  rw [h]
  exact hclosed

/-- Steps that leave the files alone, before and after. -/
theorem Tidied.between {outfile : Bytes} {returned returned' : Prop}
    (h : Tidied disk same outfile returned p₁ q₁) (hbefore : disk p₁.sys = disk p.sys)
    (hafter : disk q.sys = disk q₁.sys) (himp : returned → returned') :
    Tidied disk same outfile returned' p q := by
  obtain ⟨hclosed, hspares, hwhole⟩ := h
  rw [hbefore] at hspares hwhole
  rw [← hafter] at hclosed hspares hwhole
  exact ⟨hclosed, hspares, hwhole.imp_right himp⟩

/-- An entry of the binding leaves the system alone. -/
theorem wp_onWorld_iff {α : Type} {m : Prog Exn (World σ) α}
    {Q : Prog.Post Exn (Proc σ φ) α} :
    Prog.wp (onWorld m) Q p ↔ Prog.wp m ⟨fun a w => Q.ok a { p with world := w },
      fun e w => Q.threw e { p with world := w }, fun w => Q.running { p with world := w }⟩
      p.world := by
  unfold onWorld
  rw [Prog.wp_zoom]

/-- Releasing a Pipeline returns. -/
theorem wp_destroyed (pipe : Pipeline) (p : Proc σ φ) :
    Prog.wp (onWorld (pipe.destroy L))
      ⟨fun _ q => q.sys = p.sys ∧ q.done = p.done, fun _ _ => False, fun _ => False⟩ p := by
  rw [wp_onWorld_iff]
  unfold Pipeline.destroy
  rw [Prog.wp_ite]
  split
  · exact ⟨rfl, rfl⟩
  · exact ⟨rfl, rfl⟩

/-- What `after` is asked for: it leaves the files alone, and says `txt`. -/
def Announces (disk : φ → Disk Bytes UInt8) (Good : Bytes → Prop)
    (after : Prog Exn (Proc σ φ) Unit) (p : Proc σ φ) : Prop :=
  Prog.wp after
    ⟨fun _ q => disk q.sys = disk p.sys ∧ ∃ txt, Good txt ∧ Says p q txt,
      fun _ q => disk q.sys = disk p.sys, fun _ => False⟩ p

/-- How `transcode` ends. -/
def Transcoded (disk : φ → Disk Bytes UInt8) (same : Bytes → Bytes → Prop) (outfile : Bytes)
    (cipher : Prog Exn (World σ) Bytes) (Out : Bytes → Prop) (Good : Bytes → Prop)
    (p : Proc σ φ) : Prog.Post Exn (Proc σ φ) Nat where
  ok rc q := Tidied disk same outfile (∃ out w, cipher p.world = .ok out w) p q ∧ rc ≤ 1 ∧
    (rc = 0 → ∃ out txt, Out out ∧ Good txt ∧ (disk q.sys).file outfile = some out ∧
      Says p q txt)
  threw _ q := Tidied disk same outfile (∃ out w, cipher p.world = .ok out w) p q
  running q := (disk q.sys).file = (disk p.sys).file

/-- **From the cipher on.** -/
theorem wp_transcode (hS : Truthful S disk same) (pipe : Pipeline)
    {cipher : Prog Exn (World σ) Bytes} {outfile : Bytes}
    {after : Bytes → Prog Exn (Proc σ φ) Unit} (Out : Bytes → Prop) (At : World σ → Prop)
    (Good : Bytes → Prop)
    (hcipher : Prog.wp cipher ⟨fun out w => Out out ∧ At w, fun _ _ => True, fun _ => True⟩
      p.world)
    (hafter : ∀ out p₁, At p₁.world → Announces disk Good (after out) p₁)
    (hclosed : (disk p.sys).stream = .closed) :
    Prog.wp (transcode L S pipe cipher outfile after)
      (Transcoded disk same outfile cipher Out Good p) p := by
  have hinner : Prog.wp (do
      let out ← onWorld cipher
      let rc ← writeFile S outfile out
      if rc = 0 then do
        after out
        pure rc
      else pure rc) (Transcoded disk same outfile cipher Out Good p) p := by
    rw [Prog.wp_bind, wp_onWorld_iff]
    refine hcipher.recall.mono (fun out w h => ?_) (fun e w _ => ?_) fun w _ => rfl
    · obtain ⟨⟨hout, hat⟩, hran⟩ := h
      dsimp only
      rw [Prog.wp_bind]
      generalize hp₁ : ({ p with world := w } : Proc σ φ) = p₁
      have hsys : p₁.sys = p.sys := by rw [← hp₁]
      have hdone : p₁.done = p.done := by rw [← hp₁]
      have hworld : p₁.world = w := by rw [← hp₁]
      refine ((wp_writeFile_disk hS outfile out p₁ (hsys ▸ hclosed)).and
        (wp_writeFile outfile out p₁)).mono (fun rc p₂ h₂ => ?_) (fun _ _ h => h.1.elim)
        fun _ h => h.1.elim
      obtain ⟨hwritten, hsilent⟩ := h₂
      have htidied : Tidied disk same outfile (∃ out w, cipher p.world = .ok out w) p p₂ := by
        refine ⟨hwritten.closed, ?_, .inr ⟨out, w, hran⟩⟩
        have hspares := hwritten.spares
        rw [hsys] at hspares
        exact hspares
      dsimp only
      rw [Prog.wp_ite]
      split
      · rename_i hrc
        rw [Prog.wp_bind]
        refine (hafter out p₂ ?_).mono (fun _ q h => ?_) (fun _ q h => ?_) fun _ h => h.elim
        · rw [hwritten.world, hworld]
          exact hat
        · obtain ⟨hsame, txt, hgood, htold⟩ := h
          refine ⟨htidied.between rfl hsame id, hwritten.code,
            fun _ => ⟨out, txt, hout, hgood, ?_, ?_⟩⟩
          · rw [hsame]
            exact hwritten.kept hrc
          · have hquiet : Says p p₂ [] := by
              obtain ⟨cs, hcs, htxt⟩ := hsilent hrc
              exact ⟨cs, by rw [hcs, hdone], htxt⟩
            have hboth := hquiet.trans htold
            rwa [List.nil_append] at hboth
        · exact htidied.between rfl h id
      · rename_i hrc
        exact ⟨htidied, hwritten.code, fun hzero => (hrc hzero).elim⟩
    · exact .untouched hclosed rfl
  unfold transcode
  rw [Prog.wp_ensuring]
  -- the Pipeline is destroyed, and nothing else changes
  refine hinner.mono (fun rc q h => ?_) (fun e q h => ?_) fun _ h => h
  · refine (wp_destroyed pipe q).mono (fun _ q' hq' => ?_) (fun _ _ h => h.elim) fun _ h => h.elim
    obtain ⟨htidied, hcode, hgood⟩ := h
    have hdisk : disk q'.sys = disk q.sys := congrArg disk hq'.1
    refine ⟨htidied.between rfl hdisk id, hcode, fun hrc => ?_⟩
    obtain ⟨out, txt, hout, htxt, hfile, cs, hcs, htold⟩ := hgood hrc
    refine ⟨out, txt, hout, htxt, ?_, cs, ?_, htold⟩
    · rw [hdisk]
      exact hfile
    · rw [hq'.2, hcs]
  · refine (wp_destroyed pipe q).mono (fun _ q' hq' => ?_) (fun _ _ h => h.elim) fun _ h => h.elim
    exact h.between rfl (congrArg disk hq'.1) id

/-! ## §3. A command. -/

/-- The Pipeline was opened, and over it the cipher of the command made `out` of
the file it was given. -/
def Ciphered (disk : φ → Disk Bytes UInt8) (infile : Bytes) (open_ : Prog Exn (World σ) Pipeline)
    (cipher : Pipeline → Bytes → Prog Exn (World σ) Bytes) (p : Proc σ φ) (out : Bytes) : Prop :=
  ∃ pipe w src w', open_ p.world = .ok pipe w ∧ (disk p.sys).file infile = some src ∧
    cipher pipe src w = .ok out w'

/-- How a command ends. -/
def Commanded {ι : Type} (disk : φ → Disk Bytes UInt8) (same : Bytes → Bytes → Prop)
    (infile outfile : Bytes) (returned : Prop) (Out : ι → Bytes → Bytes → Prop)
    (Good : ι → Bytes → Prop) (p : Proc σ φ) : Prog.Post Exn (Proc σ φ) Nat where
  ok rc q := Tidied disk same outfile returned p q ∧ rc ≤ 1 ∧
    (rc = 0 → ∃ i src out txt, (disk p.sys).file infile = some src ∧ Out i src out ∧
      Good i txt ∧ (disk q.sys).file outfile = some out ∧ Says p q txt)
  threw _ q := Tidied disk same outfile returned p q
  running q := (disk q.sys).file = (disk p.sys).file

variable {ι : Type} {infile outfile : Bytes} {fuel : Nat} {open_ : Prog Exn (World σ) Pipeline}
  {cipher : Pipeline → Bytes → Prog Exn (World σ) Bytes}
  {after : Pipeline → Bytes → Bytes → Prog Exn (Proc σ φ) Unit}

/-- **A command**: read, opened, ciphered, written and said. -/
theorem wp_command (hS : Truthful S disk same) (Opened At : ι → Pipeline → World σ → Prop)
    (Out : ι → Bytes → Bytes → Prop) (Good : ι → Bytes → Prop)
    (hopen : Prog.wp open_ (returning fun pipe w => ∃ i, Opened i pipe w) p.world)
    (hcipher : ∀ i pipe src w, Opened i pipe w → (disk p.sys).file infile = some src →
      Prog.wp (cipher pipe src) (returning fun out w' => Out i src out ∧ At i pipe w') w)
    (hafter : ∀ i pipe src out p₁, At i pipe p₁.world →
      Announces disk (Good i) (after pipe src out) p₁)
    (hclosed : (disk p.sys).stream = .closed) :
    Prog.wp (command L S infile outfile fuel open_ cipher after)
      (Commanded disk same infile outfile (∃ out, Ciphered disk infile open_ cipher p out)
        Out Good p) p := by
  unfold command
  rw [Prog.wp_bind]
  refine ((wp_readFile_disk hS infile fuel p hclosed).and (wp_readFile infile fuel p)).mono
    (fun r p₁ h₁ => ?_) (fun _ _ h => h.1.elim) fun _ h => h.1.2.1
  obtain ⟨⟨hcalm, hread⟩, hsilent⟩ := h₁
  cases r with
  | none => exact ⟨.untouched hclosed hcalm.disk, Nat.le_refl 1, nofun⟩
  | some src =>
      have hsrc := hread src rfl
      have hquiet := hsilent nofun
      dsimp only
      rw [Prog.wp_bind, wp_onWorld_iff, hcalm.world]
      refine hopen.recall.mono (fun pipe w h => ?_) (fun _ w _ => ?_) fun w _ => ?_
      · obtain ⟨⟨i, hopened⟩, hran⟩ := h
        dsimp only
        generalize hp₂ : ({ p₁ with world := w } : Proc σ φ) = p₂
        have hdisk : disk p₂.sys = disk p.sys := by
          rw [← hp₂]
          exact hcalm.disk
        have hworld : p₂.world = w := by rw [← hp₂]
        have hdone : p₂.done = p₁.done := by rw [← hp₂]
        have hciphered := hcipher i pipe src w hopened hsrc
        rw [← hworld] at hciphered
        refine (wp_transcode hS pipe (Out i src) (At i pipe) (Good i) hciphered
          (fun out p₃ h => hafter i pipe src out p₃ h) (hdisk ▸ hclosed)).mono
          (fun rc q h => ?_) (fun _ q h => ?_) fun q h => ?_
        · obtain ⟨htidied, hcode, hgood⟩ := h
          refine ⟨htidied.between hdisk rfl ?_, hcode, fun hrc => ?_⟩
          · intro hout
            obtain ⟨out, w', hout⟩ := hout
            exact ⟨out, pipe, w, src, w', hran, hsrc, hworld ▸ hout⟩
          · obtain ⟨out, txt, hout, htxt, hfile, htold⟩ := hgood hrc
            refine ⟨i, src, out, txt, hsrc, hout, htxt, hfile, ?_⟩
            have hstart : Says p p₂ [] := by
              obtain ⟨cs, hcs, hnone⟩ := hquiet
              exact ⟨cs, by rw [hdone, hcs], hnone⟩
            have hboth := hstart.trans htold
            rwa [List.nil_append] at hboth
        · refine Tidied.between h hdisk rfl fun hout => ?_
          obtain ⟨out, w', hout⟩ := hout
          exact ⟨out, pipe, w, src, w', hran, hsrc, hworld ▸ hout⟩
        · have hsame : (disk q.sys).file = (disk p₂.sys).file := h
          exact hsame.trans (congrArg Disk.file hdisk)
      · exact .untouched hclosed hcalm.disk
      · exact congrArg Disk.file hcalm.disk

/-- The program ends, by an exception or without one. -/
abbrev ending {τ α : Type} : Prog.Post Exn τ α where
  ok _ _ := True
  threw _ _ := True
  running _ := False

theorem bufCall_ends (fn : BlobFn) (what : String) (w : World σ) :
    Prog.wp (bufCall L fn what) ending w := by
  rw [bufCall_eq_retryOnce]
  exact wp_retryOnce length_zeros rfl (fun _ => trivial) fun _ _ _ _ => trivial

/-- `Pipeline::save` ends. -/
theorem save_ends (pipe : Pipeline) (w : World σ) : Prog.wp (pipe.save L) ending w := by
  unfold Pipeline.save
  rw [Prog.wp_bind]
  exact (bufCall_ends _ _ w).mono (fun _ _ _ => trivial) (fun _ _ h => h) fun _ h => h

/-- What `cmd_encrypt` says is the blob that `save` returned, in hexadecimal. -/
theorem announces_announce (hS : Truthful S disk same) {pipe : Pipeline} {Blob : Bytes → Prop}
    (hsave : Prog.wp (pipe.save L) (returning fun blob _ => Blob blob) p.world)
    (infile outfile plain wire : Bytes) :
    Announces disk (fun txt => ∃ blob, Blob blob ∧ txt = Hex.encode blob ++ text "\n")
      (announce L S pipe infile outfile plain wire) p := by
  unfold Announces announce
  rw [Prog.wp_bind, wp_onWorld_iff]
  refine (hsave.and (save_ends pipe p.world)).mono (fun blob w h => ?_) (fun _ _ _ => rfl)
    fun _ h => h.2.elim
  dsimp only
  generalize hp₁ : ({ p with world := w } : Proc σ φ) = p₁
  have hsys : p₁.sys = p.sys := by rw [← hp₁]
  have hdone : p₁.done = p.done := by rw [← hp₁]
  rw [Prog.wp_bind]
  refine ((wp_printBlob blob p₁).and ((within_printBlob hS.quiet blob).wp p₁)).mono
    (fun _ p₂ h₂ => ?_) (fun _ _ h => h.1.elim) fun _ h => h.1.elim
  obtain ⟨htold, hcalm⟩ := h₂
  -- the end of the line, and the sizes on the standard output
  unfold printErr print
  dsimp only
  rw [Prog.bind_bind, wp_call_bind, Prog.pure_bind, wp_call_bind, Prog.wp_pure]
  have hline := hS.calm (c := .stderr (text "\n")) rfl p₂
  have hsizes := hS.calm (c := .stdout (summaryLine "encrypted" infile outfile plain wire)) rfl
    (p₂.called S (.stderr (text "\n")))
  refine ⟨?_, _, ⟨blob, h.1, rfl⟩, ?_⟩
  · exact hsizes.disk.trans (hline.disk.trans (hcalm.disk.trans (congrArg disk hsys)))
  · obtain ⟨cs, hcs, htxt⟩ := htold
    refine ⟨cs ++ [.stderr (text "\n"),
      .stdout (summaryLine "encrypted" infile outfile plain wire)], ?_, ?_⟩
    · show (p₂.done ++ _) ++ _ = _
      rw [hcs, hdone]
      simp
    · rw [← htxt]
      simp [stderrText]

/-- `cmd_decrypt` prints nothing to standard error. -/
theorem announces_print (hS : Truthful S disk same) (b : Bytes) :
    Announces disk (fun txt => txt = []) (print S b) p :=
  ⟨hS.other _ p.sys rfl, [], rfl, [.stdout b], rfl, rfl⟩

/-! ## §4. Over a library that inverts its ciphers. -/

/-- The pair of entries that a profile selects. -/
def pairOf (profile : Bytes) : Shape := if isStreamingProfile profile then .stream else .message

section Ciphers

variable {K : Type} {key : σ → Handle → Option K} {decode : Bytes → Option K}
  {taken : σ → Handle → Prop} {Wire : Shape → K → Bytes → Bytes → Prop} {pipe : Pipeline}
  {κ : K} {w : World σ}

/-- `Pipeline::load` opens a Pipeline with the keying of the blob. -/
theorem wp_load (hL : KeyedLib L key decode) (blob : Bytes) (w : World σ) :
    Prog.wp (Pipeline.load L blob [] [])
      (returning fun pipe w' => key w'.lib pipe.handle = decode blob) w := by
  unfold Pipeline.load
  rw [Prog.wp_bind, wp_ffi]
  show Prog.wp _ _ _
  rw [Prog.wp_bind]
  exact wp_check _ _ (fun hrc => hL.load blob _ _ hrc) fun _ _ _ _ _ => trivial

theorem wp_encryptPair (hC : CipherLib L key decode taken Wire) (profile : Bytes) (fuel : Nat)
    (plain : Bytes) (hκ : key w.lib pipe.handle = some κ) :
    Prog.wp (encryptPair L junk profile fuel pipe plain)
      (returning fun wire w' => Wire (pairOf profile) κ plain wire ∧
        key w'.lib pipe.handle = some κ) w := by
  have hL := hC.toKeyedLib
  unfold encryptPair pairOf
  cases isStreamingProfile profile with
  | true =>
      exact (wp_streamPump true hL (hC.sessions.encrypt _ κ plain) hκ fuel).mono
        (fun wire w' h => ⟨h.1, h.2 _ _ hκ⟩) (fun _ _ _ => trivial) fun _ _ => trivial
  | false =>
      exact (wp_cipherCall_delivers hL (Wire .message κ plain) .encryptMessage plain _ hκ
        fun n s hs hrc => hC.message.encrypt _ κ plain n s hs hrc).mono
        (fun wire w' h => ⟨h.1, h.2 _ _ hκ⟩) (fun _ _ _ => trivial) fun _ h => h.elim

theorem wp_decryptPair (hC : CipherLib L key decode taken Wire) (profile : Bytes) (fuel : Nat)
    {src wire : Bytes} (hwire : Wire (pairOf profile) κ src wire)
    (hκ : key w.lib pipe.handle = some κ) :
    Prog.wp (decryptPair L junk profile fuel pipe wire)
      (returning fun plain _ => plain = src) w := by
  have hL := hC.toKeyedLib
  unfold decryptPair
  unfold pairOf at hwire
  cases hprofile : isStreamingProfile profile with
  | true =>
      rw [hprofile] at hwire
      exact (wp_streamPump false hL (hC.sessions.decrypt _ κ src wire hwire) hκ fuel).mono
        (fun plain w' h => h.1) (fun _ _ _ => trivial) fun _ _ => trivial
  | false =>
      rw [hprofile] at hwire
      exact (wp_cipherCall_delivers hL (· = src) .decryptMessage wire _ hκ
        fun n s hs hrc => ⟨src, hC.message.decrypt _ κ src wire n s hwire hs hrc, rfl⟩).mono
        (fun plain w' h => h.1) (fun _ _ _ => trivial) fun _ h => h.elim

end Ciphers

/-! ## §5. The two commands. -/

/-- Capping the runtime is neither seen nor heard. -/
theorem wp_capGoRuntime (hS : Truthful S disk same) (p : Proc σ φ) :
    Prog.wp (capGoRuntime S)
      ⟨fun _ q => Calm disk p q ∧ Says p q [], fun _ _ => False, fun _ => False⟩ p := by
  have hquiet : Prog.wp (capGoRuntime S)
      ⟨fun _ q => Says p q [], fun _ _ => False, fun _ => False⟩ p :=
    ⟨[.setMemoryLimit 4294967296, .setGcPercent 100], by simp, rfl⟩
  exact (((within_capGoRuntime hS.quiet).wp p).and hquiet).mono (fun _ _ h => h) (fun _ _ h => h.2)
    fun _ h => h.2

section Encrypting

variable {K : Type} {key : σ → Handle → Option K} {decode : Bytes → Option K}
  {taken : σ → Handle → Prop} {Wire : Shape → K → Bytes → Bytes → Prop} {profile : Bytes}

/-- What a good run of `eitb encrypt` hands over: the wire in its file, and the
blob on standard error. -/
def HandsOver (disk : φ → Disk Bytes UInt8) (decode : Bytes → Option K)
    (Wire : Shape → K → Bytes → Bytes → Prop) (profile infile outfile : Bytes)
    (p q : Proc σ φ) : Prop :=
  ∃ κ src wire blob, (disk p.sys).file infile = some src ∧ Wire (pairOf profile) κ src wire ∧
    decode blob = some κ ∧ (disk q.sys).file outfile = some wire ∧
    Says p q (Hex.encode blob ++ text "\n")

/-- **`cmd_encrypt`.** -/
theorem wp_cmdEncrypt_hands (hC : CipherLib L key decode taken Wire) (hS : Truthful S disk same)
    (hclosed : (disk p.sys).stream = .closed) :
    Prog.wp (cmdEncrypt L S junk profile infile outfile fuel)
      ⟨fun rc q => rc = 0 → HandsOver disk decode Wire profile infile outfile p q,
        fun _ _ => True, fun _ => True⟩ p := by
  have hL := hC.toKeyedLib
  rw [cmdEncrypt_eq, Prog.wp_bind]
  refine (wp_capGoRuntime hS p).mono (fun _ p₁ h => ?_) (fun _ _ h => h.elim) fun _ h => h.elim
  obtain ⟨hcalm, hquiet⟩ := h
  have hopen : Prog.wp (Pipeline.init L profile {})
      (returning fun pipe w => ∃ κ, key w.lib pipe.handle = some κ) p₁.world :=
    (wp_init hL profile {} p₁.world).mono_ok fun pipe w h => h.1.live
  refine (wp_command hS (fun κ pipe w => key w.lib pipe.handle = some κ)
    (fun κ pipe w => key w.lib pipe.handle = some κ) (Wire (pairOf profile))
    (fun κ txt => ∃ blob, decode blob = some κ ∧ txt = Hex.encode blob ++ text "\n")
    hopen (fun κ pipe src w hκ _ => wp_encryptPair hC profile fuel src hκ)
    (fun κ pipe src out p₂ hκ => ?_) ?_).mono (fun rc q h hrc => ?_) (fun _ _ _ => trivial)
    fun _ _ => trivial
  · exact announces_announce hS ((wp_save hL pipe hκ).mono_ok fun _ _ h => h.1) _ _ _ _
  · rw [hcalm.disk]
    exact hclosed
  · obtain ⟨κ, src, wire, txt, hsrc, hwire, ⟨blob, hblob, rfl⟩, hfile, htold⟩ := h.2.2 hrc
    rw [hcalm.disk] at hsrc
    refine ⟨κ, src, wire, blob, hsrc, hwire, hblob, hfile, ?_⟩
    have hboth := hquiet.trans htold
    rwa [List.nil_append] at hboth

/-- **`cmd_decrypt`**, over a blob and a wire that belong together. -/
theorem wp_cmdDecrypt_hands (hC : CipherLib L key decode taken Wire) (hS : Truthful S disk same)
    {hex blob src wire : Bytes} {κ : K} (hblob : ∀ b, blobOfHex hex = .ok b → b = blob)
    (hκ : decode blob = some κ) (hwire : Wire (pairOf profile) κ src wire)
    (hfile : (disk p.sys).file infile = some wire)
    (hclosed : (disk p.sys).stream = .closed) :
    Prog.wp (cmdDecrypt L S junk profile hex infile outfile fuel)
      ⟨fun rc q => rc = 0 → (disk q.sys).file outfile = some src,
        fun _ _ => True, fun _ => True⟩ p := by
  have hL := hC.toKeyedLib
  unfold cmdDecrypt
  rw [Prog.wp_bind]
  refine (wp_capGoRuntime hS p).mono (fun _ p₁ h => ?_) (fun _ _ h => h.elim) fun _ h => h.elim
  have hdisk := h.1.disk
  cases hhex : blobOfHex hex with
  | error msg =>
      dsimp only
      refine wp_printErr_pure hS msg 1 fun q _ hrc => ?_
      cases hrc
  | ok b =>
      obtain rfl := hblob b hhex
      show Prog.wp (decryptWith L S junk b profile infile outfile fuel) _ p₁
      rw [decryptWith_eq]
      have hopen : Prog.wp (Pipeline.load L b [] [])
          (returning fun pipe w => ∃ _ : Unit, key w.lib pipe.handle = some κ) p₁.world :=
        (wp_load hL b p₁.world).mono_ok fun pipe w h => ⟨(), h.trans hκ⟩
      refine (wp_command hS (fun _ pipe w => key w.lib pipe.handle = some κ)
        (fun _ _ _ => True) (fun _ _ plain => plain = src) (fun _ txt => txt = []) hopen
        (fun _ pipe wire' w hκ' hin => ?_)
        (fun _ _ _ _ _ _ => announces_print hS _) ?_).mono (fun rc q h hrc => ?_)
        (fun _ _ _ => trivial) fun _ _ => trivial
      · rw [hdisk, hfile] at hin
        obtain rfl := Option.some.inj hin
        exact (wp_decryptPair hC profile fuel hwire hκ').mono_ok fun _ _ h => ⟨h, trivial⟩
      · rw [hdisk]
        exact hclosed
      · obtain ⟨-, wire', plain, txt, -, rfl, -, hout, -⟩ := h.2.2 hrc
        exact hout

end Encrypting

/-! ## §6. Whatever goes wrong. -/

/-- **An orderly end** of `eitb encrypt` or `eitb decrypt`, where `Returned out`
says that the cipher returned `out`.  The exit code is 0 or 1 and nothing is
open.  Only the output file has changed, and not even that one unless the
cipher had returned; with a 0 it holds what the cipher returned. -/
structure Orderly (disk : φ → Disk Bytes UInt8) (same : Bytes → Bytes → Prop) (outfile : Bytes)
    (Returned : Bytes → Prop) (p : Proc σ φ) (rc : Nat) (q : Proc σ φ) : Prop
    extends Tidied disk same outfile (∃ out, Returned out) p q where
  code : rc ≤ 1
  kept : rc = 0 → ∃ out, Returned out ∧ (disk q.sys).file outfile = some out

/-- It ends so, or has not touched a file yet. -/
abbrev orderly (disk : φ → Disk Bytes UInt8) (same : Bytes → Bytes → Prop) (outfile : Bytes)
    (Returned : Bytes → Prop) (p : Proc σ φ) : Prog.Post Exn (Proc σ φ) Nat where
  ok := Orderly disk same outfile Returned p
  threw _ _ := False
  running q := (disk q.sys).file = (disk p.sys).file

/-- An exception is caught, reported and turned into a 1. -/
theorem wp_main_orderly (hS : Truthful S disk same) {Returned : Bytes → Prop} {argv : List Bytes}
    (h : Prog.wp (dispatch L S junk argv fuel)
      ⟨Orderly disk same outfile Returned p,
        fun _ q => Tidied disk same outfile (∃ out, Returned out) p q,
        fun q => (disk q.sys).file = (disk p.sys).file⟩ p) :
    Prog.wp (main L S junk argv fuel) (orderly disk same outfile Returned p) p := by
  unfold main
  rw [Prog.wp_handle]
  refine h.mono (fun _ _ h => h) (fun e q h => ?_) fun _ h => h
  dsimp only
  refine wp_printErr_pure hS _ 1 fun q' hcalm => ?_
  exact ⟨h.between rfl hcalm.disk id, Nat.le_refl 1, nofun⟩

/-- A command after the runtime was capped. -/
theorem wp_command_orderly (hS : Truthful S disk same)
    (hafter : ∀ pipe src out p₁, Announces disk (fun _ => True) (after pipe src out) p₁)
    (hclosed : (disk p.sys).stream = .closed) :
    Prog.wp (do capGoRuntime S; command L S infile outfile fuel open_ cipher after)
      ⟨Orderly disk same outfile (Ciphered disk infile open_ cipher p) p,
        fun _ q => Tidied disk same outfile (∃ out, Ciphered disk infile open_ cipher p out) p q,
        fun q => (disk q.sys).file = (disk p.sys).file⟩ p := by
  rw [Prog.wp_bind]
  refine (wp_capGoRuntime hS p).mono (fun _ p₁ h => ?_) (fun _ _ h => h.elim) fun _ h => h.elim
  obtain ⟨hcalm, -⟩ := h
  have hfile : (disk p₁.sys).file = (disk p.sys).file := congrArg Disk.file hcalm.disk
  have hciphered : ∀ out, Ciphered disk infile open_ cipher p₁ out →
      Ciphered disk infile open_ cipher p out := by
    intro out h
    obtain ⟨pipe, w, src, w', hopen, hsrc, hout⟩ := h
    rw [hcalm.world] at hopen
    rw [hfile] at hsrc
    exact ⟨pipe, w, src, w', hopen, hsrc, hout⟩
  have hall : ∀ {α : Type} (m : Prog Exn (World σ) α) (w : World σ),
      Prog.wp m (returning fun a w' => m w = .ok a w') w := by
    intro α m w
    have htrue : Prog.wp m (returning fun _ _ => True) w :=
      Prog.wp_of_forall (fun _ _ => trivial) (fun _ _ => trivial) fun _ => trivial
    exact htrue.recall.mono_ok fun _ _ h => h.2
  -- the Pipeline and the world it was opened in, and what the cipher returned in that world
  refine (wp_command hS (fun i pipe w => i = (pipe, w) ∧ open_ p₁.world = .ok pipe w)
    (fun _ _ _ => True) (fun i src out => open_ p₁.world = .ok i.1 i.2 ∧
      ∃ w', cipher i.1 src i.2 = .ok out w') (fun _ _ => True)
    ((hall open_ p₁.world).mono_ok fun pipe w h => ⟨(pipe, w), rfl, h⟩)
    (fun i pipe src w h _ => ?_) (fun i pipe src out p₂ _ => hafter pipe src out p₂) ?_).mono
    (fun rc q h => ?_) (fun _ q h => ?_) fun q h => ?_
  · obtain ⟨rfl, hopen⟩ := h
    exact (hall (cipher pipe src) w).mono_ok fun out w' h => ⟨⟨hopen, w', h⟩, trivial⟩
  · rw [hcalm.disk]
    exact hclosed
  · refine ⟨h.1.between hcalm.disk rfl fun h => h.imp hciphered, h.2.1, fun hrc => ?_⟩
    obtain ⟨i, src, out, -, hsrc, ⟨hopen, w', hout⟩, -, hkept, -⟩ := h.2.2 hrc
    exact ⟨out, hciphered out ⟨i.1, i.2, src, w', hopen, hsrc, hout⟩, hkept⟩
  · exact h.between hcalm.disk rfl fun h => h.imp hciphered
  · exact Eq.trans h hfile

theorem Orderly.imp {Returned Returned' : Bytes → Prop} {rc : Nat} {outfile : Bytes}
    (h : Orderly disk same outfile Returned p rc q)
    (himp : ∀ out, Returned out → Returned' out) :
    Orderly disk same outfile Returned' p rc q := by
  refine ⟨h.toTidied.between rfl rfl fun hout => hout.imp himp, h.code, fun hrc => ?_⟩
  obtain ⟨out, hout, hfile⟩ := h.kept hrc
  exact ⟨out, himp out hout, hfile⟩

/-- Whatever `save` returns, it is said. -/
theorem announces_any (hS : Truthful S disk same) (pipe : Pipeline)
    (infile outfile plain wire : Bytes) :
    Announces disk (fun _ => True) (announce L S pipe infile outfile plain wire) p := by
  have hsave : Prog.wp (pipe.save L) (returning fun (_ : Bytes) (_ : World σ) => True) p.world :=
    Prog.wp_of_forall (fun _ _ => trivial) (fun _ _ => trivial) fun _ => trivial
  refine (announces_announce hS hsave infile outfile plain wire).mono (fun _ q h => ?_)
    (fun _ _ h => h) fun _ h => h
  obtain ⟨hdisk, txt, -, htold⟩ := h
  exact ⟨hdisk, txt, trivial, htold⟩

theorem wp_cmdDecrypt_orderly (hS : Truthful S disk same) (profile hex infile outfile : Bytes)
    (hclosed : (disk p.sys).stream = .closed) :
    let Returned : Bytes → Prop := fun out => ∃ blob, blobOfHex hex = .ok blob ∧
      Ciphered disk infile (Pipeline.load L blob [] []) (decryptPair L junk profile fuel) p out
    Prog.wp (cmdDecrypt L S junk profile hex infile outfile fuel)
      ⟨Orderly disk same outfile Returned p,
        fun _ q => Tidied disk same outfile (∃ out, Returned out) p q,
        fun q => (disk q.sys).file = (disk p.sys).file⟩ p := by
  intro Returned
  unfold cmdDecrypt
  cases hhex : blobOfHex hex with
  | error msg =>
      rw [Prog.wp_bind]
      refine (wp_capGoRuntime hS p).mono (fun _ p₁ h => ?_) (fun _ _ h => h.elim) fun _ h => h.elim
      dsimp only
      refine wp_printErr_pure hS msg 1 fun q hcalm => ?_
      have hdisk : disk q.sys = disk p.sys := hcalm.disk.trans h.1.disk
      exact ⟨.untouched hclosed hdisk, Nat.le_refl 1, nofun⟩
  | ok blob =>
      have himp : ∀ out, Ciphered disk infile (Pipeline.load L blob [] [])
          (decryptPair L junk profile fuel) p out → Returned out :=
        fun out hout => ⟨blob, hhex, hout⟩
      show Prog.wp (do capGoRuntime S; decryptWith L S junk blob profile infile outfile fuel) _ p
      rw [decryptWith_eq]
      refine (wp_command_orderly hS (fun _ _ _ _ => ?_) hclosed).mono (fun _ _ h => h.imp himp)
        (fun _ _ h => h.between rfl rfl fun hout => hout.imp himp) fun _ h => h
      exact (announces_print hS _).mono (fun _ _ h => ⟨h.1, h.2.imp fun _ h => ⟨trivial, h.2⟩⟩)
        (fun _ _ h => h) fun _ h => h

/-! ## §7. A run that goes well. -/

variable {α β : Type} {a : α} {b : β} {s s' s'' : σ} {t t' : φ} {txt txt' : Bytes}

/-- The run returns `a`; it leaves the library in `s`, the system in `t`, and
`txt` on standard error. -/
def Ends (m : Prog Exn (Proc σ φ) α) (p : Proc σ φ) (a : α) (s : σ) (t : φ) (txt : Bytes) : Prop :=
  ∃ q, m p = .ok a q ∧ q.world.lib = s ∧ q.sys = t ∧ Says p q txt

theorem Ends.retold {m : Prog Exn (Proc σ φ) α} (h : Ends m p a s t txt) (htxt : txt = txt') :
    Ends m p a s t txt' :=
  htxt ▸ h

theorem ends_pure (a : α) (hlib : p.world.lib = s) (hsys : p.sys = t) :
    Ends (pure a) p a s t [] :=
  ⟨p, rfl, hlib, hsys, [], (List.append_nil _).symm, rfl⟩

theorem Ends.bind {m : Prog Exn (Proc σ φ) α} {f : α → Prog Exn (Proc σ φ) β}
    (hm : Ends m p a s t txt)
    (hf : ∀ q, q.world.lib = s → q.sys = t → Ends (f a) q b s' t' txt') :
    Ends (m >>= f) p b s' t' (txt ++ txt') := by
  obtain ⟨q, hrun, hlib, hsys, htold⟩ := hm
  obtain ⟨q', hrun', hlib', hsys', htold'⟩ := hf q hlib hsys
  exact ⟨q', (Prog.bind_ok hrun).trans hrun', hlib', hsys', htold.trans htold'⟩

theorem Ends.ensuring {m : Prog Exn (Proc σ φ) α} {d : Prog Exn (Proc σ φ) Unit}
    (hm : Ends m p a s t txt)
    (hd : ∀ q, q.world.lib = s → q.sys = t → Ends d q () s' t' txt') :
    Ends (Prog.ensuring m d) p a s' t' (txt ++ txt') := by
  obtain ⟨q, hrun, hlib, hsys, htold⟩ := hm
  obtain ⟨q', hrun', hlib', hsys', htold'⟩ := hd q hlib hsys
  refine ⟨q', ?_, hlib', hsys', htold.trans htold'⟩
  unfold Prog.ensuring
  rw [hrun]
  exact Prog.bind_ok hrun'

theorem Ends.handle {m : Prog Exn (Proc σ φ) α} {g : Exn → Prog Exn (Proc σ φ) α}
    (h : Ends m p a s t txt) : Ends (Prog.handle m g) p a s t txt := by
  obtain ⟨q, hrun, hq⟩ := h
  exact ⟨q, Prog.handle_ok hrun, hq⟩

theorem ends_onWorld {m : Prog Exn (World σ) α} (h : Returns m p.world a s) :
    Ends (onWorld m) p a s p.sys [] := by
  obtain ⟨w, hrun, hlib⟩ := h
  refine ⟨{ p with world := w }, ?_, hlib, rfl, [], (List.append_nil _).symm, rfl⟩
  unfold onWorld
  rw [Prog.zoom_apply, hrun]
  rfl

/-- **A command goes well** when each of its steps does. -/
theorem ends_command {src out : Bytes} {pipe : Pipeline} (hlib : p.world.lib = s)
    (hsys : p.sys = t)
    (hread : ∀ q : Proc σ φ, q.sys = t →
      Ends (readFile S infile fuel) q (some src) q.world.lib t [])
    (hopen : ∀ w, w.lib = s → Returns open_ w pipe s')
    (hcipher : ∀ w, w.lib = s' → Returns (cipher pipe src) w out s')
    (hwrite : ∀ q : Proc σ φ, q.sys = t → Ends (writeFile S outfile out) q 0 q.world.lib t' [])
    (hafter : ∀ q : Proc σ φ, q.world.lib = s' → q.sys = t' →
      Ends (after pipe src out) q () s' t' txt)
    (hdestroy : ∀ w, w.lib = s' → Returns (pipe.destroy L) w () s'') :
    Ends (command L S infile outfile fuel open_ cipher after) p 0 s'' t' txt := by
  -- up to the end of the Pipeline
  have hinner : ∀ q : Proc σ φ, q.world.lib = s' → q.sys = t →
      Ends (do
        let out ← onWorld (cipher pipe src)
        let rc ← writeFile S outfile out
        if rc = 0 then do
          after pipe src out
          pure rc
        else pure rc) q 0 s' t' txt := by
    intro q hq hq'
    refine Ends.retold (Ends.bind (ends_onWorld (hcipher q.world hq)) fun q₁ h₁ h₁' => ?_)
      (List.nil_append txt)
    refine Ends.retold (Ends.bind (hwrite q₁ (h₁'.trans hq')) fun q₂ h₂ h₂' => ?_)
      (List.nil_append txt)
    refine Ends.retold (Ends.bind (hafter q₂ (h₂.trans h₁) h₂') fun q₃ h₃ h₃' => ?_)
      (List.append_nil txt)
    exact ends_pure 0 h₃ h₃'
  unfold command
  refine Ends.retold (Ends.bind (hread p hsys) fun q hq hq' => ?_) (List.nil_append txt)
  refine Ends.retold (Ends.bind (ends_onWorld (hopen q.world (hq.trans hlib)))
    fun q₁ h₁ h₁' => ?_) (List.nil_append txt)
  unfold transcode
  refine Ends.retold (Ends.ensuring (hinner q₁ h₁ (h₁'.trans hq')) fun q₂ h₂ h₂' => ?_)
    (List.append_nil txt)
  rw [← h₂']
  exact ends_onWorld (hdestroy q₂.world h₂)

end Runs

/-! ## §8. Over an echo, in memory. -/

section Desk

variable {q : Proc Echo (Disk Bytes UInt8)}

/-- A file. -/
def desk : Disk Bytes UInt8 where
  file path := if path = text "plain" then some [5, 6] else none

/-- Its wire beside it. -/
def wired : Disk Bytes UInt8 where
  file := Function.update desk.file (text "wire") (some [5, 6])

/-- What came back beside both. -/
def restored : Disk Bytes UInt8 where
  file := Function.update wired.file (text "back") (some [5, 6])

/-- A process before its first step. -/
def fresh (d : Disk Bytes UInt8) : Proc Echo (Disk Bytes UInt8) := ⟨⟨{ base := {} }, []⟩, d, []⟩

theorem ends_capGoRuntime (p : Proc Echo (Disk Bytes UInt8)) :
    Ends (capGoRuntime shelf) p () p.world.lib p.sys [] :=
  ⟨_, rfl, rfl, rfl, [.setMemoryLimit 4294967296, .setGcPercent 100], by simp, rfl⟩

theorem ends_readFile_desk (hq : q.sys = desk) :
    Ends (readFile shelf (text "plain") 2) q (some [5, 6]) q.world.lib desk [] := by
  obtain ⟨w, sys, done⟩ := q
  subst hq
  exact ⟨_, rfl, rfl, rfl,
    [.fopen (text "plain") "rb", .fread 65536, .fread 65536, .ferror, .fclose], by simp, rfl⟩

theorem ends_readFile_wired (hq : q.sys = wired) :
    Ends (readFile shelf (text "wire") 2) q (some [5, 6]) q.world.lib wired [] := by
  obtain ⟨w, sys, done⟩ := q
  subst hq
  exact ⟨_, rfl, rfl, rfl,
    [.fopen (text "wire") "rb", .fread 65536, .fread 65536, .ferror, .fclose], by simp, rfl⟩

theorem ends_writeFile_desk (hq : q.sys = desk) :
    Ends (writeFile shelf (text "wire") [5, 6]) q 0 q.world.lib wired [] := by
  obtain ⟨w, sys, done⟩ := q
  subst hq
  exact ⟨_, rfl, rfl, rfl, [.fopen (text "wire") "wb", .fwrite [5, 6], .fclose], by simp, rfl⟩

theorem ends_writeFile_wired (hq : q.sys = wired) :
    Ends (writeFile shelf (text "back") [5, 6]) q 0 q.world.lib restored [] := by
  obtain ⟨w, sys, done⟩ := q
  subst hq
  exact ⟨_, rfl, rfl, rfl, [.fopen (text "back") "wb", .fwrite [5, 6], .fclose], by simp, rfl⟩

theorem ends_announce (hq : q.world.lib = echoDrill) (hq' : q.sys = wired) :
    Ends (announce echo shelf { handle := 1 } (text "plain") (text "wire") [5, 6] [5, 6]) q ()
      echoDrill wired (text "00\n") := by
  have hone : 1 ≤ kBlobCap := Nat.le_of_ble_eq_true rfl
  have hreply : echo (.save 1 kBlobCap) q.world.lib =
      ({ rc := 0, len := 1, out := [0] }, echoDrill) := by
    rw [hq]
    exact echo_save
  have hsave : Returns (Pipeline.save echo { handle := 1 }) q.world [0] echoDrill :=
    (returns_bufCall _ hreply ⟨rfl, rfl, hone⟩).bind fun w' h => ⟨w', rfl, h⟩
  refine Ends.retold (Ends.bind (ends_onWorld hsave) fun q₁ h₁ h₁' => ?_) (List.nil_append _)
  obtain ⟨w, sys, done⟩ := q₁
  refine ⟨_, rfl, h₁, h₁'.trans hq', [.stderr (text "00"), .stderr (text "\n"),
    .stdout (summaryLine "encrypted" (text "plain") (text "wire") [5, 6] [5, 6])], ?_, rfl⟩
  simp
  rfl

/-- Two bytes through a message entry of an echo. -/
theorem returns_message_echo (junk : Nat → Nat → UInt8) {fn : CipherFn} {w : World Echo}
    (what : String) (hw : w.lib = echoDrill)
    (hcall : ∀ n, echo (fn.call 1 [5, 6] n) echoDrill = (deliver [5, 6] n, echoDrill)) :
    Returns (cipherCall echo junk 1 fn [5, 6] what) w [5, 6] echoDrill := by
  have hroom : [5, 6].length ≤ outCap [5, 6].length := Nat.le_of_ble_eq_true rfl
  exact returns_deliver what hroom hw hcall

theorem returns_destroy_echo {w : World Echo} (hw : w.lib = echoDrill) :
    Returns (Pipeline.destroy echo { handle := 1 }) w () (echo (.free 1) echoDrill).2 :=
  ⟨w.answered (.free 1) (echo (.free 1) w.lib), rfl, hw ▸ rfl⟩

theorem ends_encrypt (junk : Nat → Nat → UInt8) :
    Ends (main echo shelf junk [[], text "encrypt", [], text "plain", text "wire"] 2) (fresh desk)
      0 (echo (.free 1) echoDrill).2 wired (text "00\n") := by
  have hone : 1 ≤ kBlobCap := Nat.le_of_ble_eq_true rfl
  have hopen : ∀ w, w.lib = { base := {} } →
      Returns (Pipeline.init echo [] {}) w { handle := 1 } echoDrill := by
    intro w hw
    refine (returns_bufCall _ (hw ▸ echo_init _ _) ⟨rfl, rfl, hone⟩).bind fun w' h => ?_
    exact ⟨(w'.log (.adopt 1)).log (.dealloc (wipeBytes [0])), rfl, h⟩
  refine Ends.handle ?_
  show Ends (cmdEncrypt echo shelf junk [] (text "plain") (text "wire") 2) _ _ _ _ _
  rw [cmdEncrypt_eq]
  refine Ends.retold (Ends.bind (ends_capGoRuntime _) fun q hq hq' => ?_) (List.nil_append _)
  exact ends_command hq hq' (fun _ h => ends_readFile_desk h) hopen
    (fun w hw => returns_message_echo junk _ hw fun _ => rfl) (fun _ h => ends_writeFile_desk h)
    (fun _ h h' => ends_announce h h') fun _ hw => returns_destroy_echo hw

theorem ends_decrypt (junk : Nat → Nat → UInt8) :
    Ends (main echo shelf junk [[], text "decrypt", [], text "00", text "wire", text "back"] 2)
      (fresh wired) 0 (echo (.free 1) echoDrill).2 restored [] := by
  have hopen : ∀ w, w.lib = { base := {} } →
      Returns (Pipeline.load echo [0] [] []) w { handle := 1 } echoDrill := by
    intro w hw
    obtain ⟨lib, trace⟩ := w
    subst hw
    exact ⟨_, rfl, rfl⟩
  have hread : blobOfHex (text "00") = .ok [0] := blobOfHex_eq_ok.mpr (by decide)
  refine Ends.handle ?_
  show Ends (cmdDecrypt echo shelf junk [] (text "00") (text "wire") (text "back") 2) _ _ _ _ _
  unfold cmdDecrypt
  rw [hread]
  refine Ends.retold (Ends.bind (ends_capGoRuntime _) fun q hq hq' => ?_) (List.nil_append _)
  dsimp only
  rw [decryptWith_eq]
  exact ends_command hq hq' (fun _ h => ends_readFile_wired h) hopen
    (fun w hw => returns_message_echo junk _ hw fun _ => rfl) (fun _ h => ends_writeFile_wired h)
    (fun q h h' => ⟨_, rfl, h, h', [.stdout _], rfl, rfl⟩) fun _ hw => returns_destroy_echo hw

end Desk

/-! ## §9. The results. -/

section Results

variable {σ φ : Type} {L : Lib σ} {S : Sys φ} {junk : Nat → Nat → UInt8}
  {disk : φ → Disk Bytes UInt8} {same : Bytes → Bytes → Prop} {p q : Proc σ φ}

theorem Says.unique {s t : Bytes} (h : Says p q s) (h' : Says p q t) : s = t := by
  obtain ⟨cs, hq, rfl⟩ := h
  obtain ⟨cs', hq', rfl⟩ := h'
  have hsame : cs = cs' := List.append_cancel_left (hq.symm.trans hq')
  rw [hsame]

/-- What a command promises of the exit code 0, the program promises: an
exception is turned into a 1. -/
theorem of_main_zero {P : Proc σ φ → Prop} {argv : List Bytes}
    (hrun : main L S junk argv fuel p = .ok 0 q)
    (h : Prog.wp (dispatch L S junk argv fuel)
      ⟨fun rc q => rc = 0 → P q, fun _ _ => True, fun _ => True⟩ p) : P q := by
  have hmain : Prog.wp (main L S junk argv fuel)
      ⟨fun rc q => rc = 0 → P q, fun _ _ => True, fun _ => True⟩ p := by
    unfold main
    rw [Prog.wp_handle]
    refine h.mono (fun _ _ h => h) (fun e q _ => ?_) fun _ h => h
    dsimp only
    exact wp_failed _
  exact hmain.of_ok hrun rfl

/-- The blob that a text in either case stands for, once its lower case is what
was printed of one. -/
theorem blobOfHex_unique {hex blob b : Bytes} (hlower : hex.map Hex.toLower = Hex.encode blob)
    (hb : blobOfHex hex = .ok b) : b = blob := by
  have hencode : Hex.encode b = Hex.encode blob :=
    (Hex.encode_of_decode hex b (blobOfHex_eq_ok.mp hb).2).trans hlower
  have hdecode := congrArg Hex.decode hencode
  rw [Hex.decode_encode, Hex.decode_encode] at hdecode
  exact Option.some.inj hdecode

/-- **The file comes back.**  `eitb encrypt` and `eitb decrypt` run as two
processes, each over a library and a system of its own, any call of which may
fail.  Both libraries keep their keyings, read one kind of blob and take each
other's wires.  When both exit with 0, the second was given the text that the
first has printed, in either case, and a file with the contents of the first
one's output, and the two profiles select the same pair of entries, then the
second one's output holds what the first one's input held. -/
theorem file_comes_back {σ' φ' K : Type} {L' : Lib σ'} {S' : Sys φ'}
    {junk' : Nat → Nat → UInt8} {disk' : φ' → Disk Bytes UInt8} {same' : Bytes → Bytes → Prop}
    {p' q' : Proc σ' φ'} {key : σ → Handle → Option K} {key' : σ' → Handle → Option K}
    {decode : Bytes → Option K} {taken : σ → Handle → Prop} {taken' : σ' → Handle → Prop}
    {Wire : Shape → K → Bytes → Bytes → Prop}
    (hC : CipherLib L key decode taken Wire) (hC' : CipherLib L' key' decode taken' Wire)
    (hS : Truthful S disk same) (hS' : Truthful S' disk' same')
    (hclosed : (disk p.sys).stream = .closed) (hclosed' : (disk' p'.sys).stream = .closed)
    {prog profile infile outfile : Bytes} {prog' profile' hex infile' outfile' : Bytes}
    {fuel fuel' : Nat}
    (hencrypt : main L S junk [prog, text "encrypt", profile, infile, outfile] fuel p = .ok 0 q)
    (hprinted : Says p q (hex.map Hex.toLower ++ text "\n"))
    (hpair : isStreamingProfile profile' = isStreamingProfile profile)
    (hcarried : (disk' p'.sys).file infile' = (disk q.sys).file outfile)
    (hdecrypt : main L' S' junk' [prog', text "decrypt", profile', hex, infile', outfile'] fuel'
      p' = .ok 0 q') :
    ∃ src, (disk p.sys).file infile = some src ∧ (disk' q'.sys).file outfile' = some src := by
  have hands : HandsOver disk decode Wire profile infile outfile p q :=
    of_main_zero hencrypt (wp_cmdEncrypt_hands hC hS hclosed)
  obtain ⟨κ, src, wire, blob, hsrc, hmade, hblob, hout, htold⟩ := hands
  have hlower : hex.map Hex.toLower = Hex.encode blob :=
    List.append_cancel_right (hprinted.unique htold)
  have hread : ∀ b, blobOfHex hex = .ok b → b = blob := fun b hb => blobOfHex_unique hlower hb
  have hwire : Wire (pairOf profile') κ src wire := by
    unfold pairOf at hmade ⊢
    rw [hpair]
    exact hmade
  have hin : (disk' p'.sys).file infile' = some wire := hcarried.trans hout
  refine ⟨src, hsrc, ?_⟩
  exact of_main_zero hdecrypt (wp_cmdDecrypt_hands hC' hS' hread hblob hwire hin hclosed')

/-- Two processes over an echo, and one directory. -/
theorem file_comes_back_desk :
    ∃ q q', main echo shelf (fun _ _ => 0)
        [[], text "encrypt", [], text "plain", text "wire"] 2 (fresh desk) = .ok 0 q ∧
      main echo shelf (fun _ _ => 0)
        [[], text "decrypt", [], text "00", text "wire", text "back"] 2 (fresh wired) = .ok 0 q' ∧
      ∃ src, desk.file (text "plain") = some src ∧ q'.sys.file (text "back") = some src := by
  obtain ⟨q, hencrypt, -, hsys, htold⟩ := ends_encrypt fun _ _ => 0
  obtain ⟨q', hdecrypt, -, -, -⟩ := ends_decrypt fun _ _ => 0
  refine ⟨q, q', hencrypt, hdecrypt, ?_⟩
  have hprinted : Says (fresh desk) q ((text "00").map Hex.toLower ++ text "\n") := htold
  have hcarried : (id (fresh wired).sys).file (text "wire") = (id q.sys).file (text "wire") := by
    rw [hsys]
    rfl
  exact file_comes_back echo_cipherLib echo_cipherLib shelf_truthful shelf_truthful rfl rfl
    hencrypt hprinted rfl hcarried hdecrypt

/-- **Outputs are whole.**  Over any library and an honest system, whatever
fails: `eitb encrypt` and `eitb decrypt` exit with 0 or 1, never through an
exception, and leave nothing open.  No file has changed but the output, and the
output not before the cipher had returned all of what goes into it; with a 0 it
holds that.  A run that does not end has changed no file. -/
theorem outputs_are_whole (L : Lib σ) (junk : Nat → Nat → UInt8) (hS : Truthful S disk same)
    (hclosed : (disk p.sys).stream = .closed) (prog profile infile outfile : Bytes) (fuel : Nat) :
    Prog.wp (main L S junk [prog, text "encrypt", profile, infile, outfile] fuel)
      (orderly disk same outfile (Ciphered disk infile (Pipeline.init L profile {})
        (encryptPair L junk profile fuel) p) p) p ∧
    ∀ hex, Prog.wp (main L S junk [prog, text "decrypt", profile, hex, infile, outfile] fuel)
      (orderly disk same outfile (fun out => ∃ blob, blobOfHex hex = .ok blob ∧
        Ciphered disk infile (Pipeline.load L blob [] []) (decryptPair L junk profile fuel) p out)
        p) p := by
  constructor
  · refine wp_main_orderly hS ?_
    show Prog.wp (cmdEncrypt L S junk profile infile outfile fuel) _ p
    rw [cmdEncrypt_eq]
    exact wp_command_orderly hS (fun pipe src out p₁ => announces_any hS pipe _ _ _ _) hclosed
  · intro hex
    exact wp_main_orderly hS (wp_cmdDecrypt_orderly hS profile hex infile outfile hclosed)

/-- The same run of `eitb encrypt`. -/
theorem outputs_are_whole_desk :
    ∃ q, main echo shelf (fun _ _ => 0)
        [[], text "encrypt", [], text "plain", text "wire"] 2 (fresh desk) = .ok 0 q ∧
      Orderly id Eq (text "wire") (Ciphered id (text "plain") (Pipeline.init echo [] {})
        (encryptPair echo (fun _ _ => 0) [] 2) (fresh desk)) (fresh desk) 0 q := by
  obtain ⟨q, hencrypt, -⟩ := ends_encrypt fun _ _ => 0
  -- of any process: the run is not to be computed here
  have hends : ∀ p : Proc Echo (Disk Bytes UInt8), (id p.sys).stream = .closed →
      main echo shelf (fun _ _ => 0) [[], text "encrypt", [], text "plain", text "wire"] 2 p =
        .ok 0 q →
      Orderly id Eq (text "wire") (Ciphered id (text "plain") (Pipeline.init echo [] {})
        (encryptPair echo (fun _ _ => 0) [] 2) p) p 0 q := by
    intro p hclosed hrun
    have hboth := outputs_are_whole echo (fun _ _ => 0) shelf_truthful hclosed [] []
      (text "plain") (text "wire") 2
    exact hboth.1.of_ok hrun
  exact ⟨q, hencrypt, hends _ rfl hencrypt⟩

end Results

end ItbCpp.Eitb
