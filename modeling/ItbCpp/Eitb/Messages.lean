/-
  ItbCpp.Eitb.Messages
  ────────────────────
  **THE EXIT CODE AND THE NOTICE AGREE** (`eitb/eitb.cpp`).

  Whatever the library and the system answer, the exit code of `eitb` and what
  it prints to standard error say the same: with a 0 it prints nothing there,
  or the session blob in hexadecimal; with any other code exactly one notice,
  of the program or of its usage.  What the two streams answer to a print is
  never looked at, so what is left on standard error is up to the system: the
  text printed, if the stream takes all of it.

    • `Yields.not_notice` — a blob is no notice,
    • `wp_command_matches` — the two commands on files,
    • `within_main` — what every call keeps, the program keeps,
    • `failures_are_said` — the whole program.
-/
import ItbCpp.Eitb.Roundtrip

namespace ItbCpp.Eitb

/-! ## §1. What is no notice. -/

/-- What is printed to standard error when all went well: nothing, or a blob. -/
def Yields (txt : Bytes) : Prop := txt = [] ∨ ∃ blob, txt = Hex.encode blob ++ text "\n"

/-- Nothing printed is no notice. -/
theorem not_notice_nil : ¬ Notice [] := by
  intro h
  rcases h with h | h
  · exact absurd (List.prefix_nil.mp h) (by decide)
  · exact absurd (List.prefix_nil.mp h) (by decide)

/-- What `cmd_encrypt` prints of a blob: it has no `i` and no `u`. -/
theorem not_notice_blob (blob : Bytes) : ¬ Notice (Hex.encode blob ++ text "\n") := by
  have hdigits := ((Hex.decode_eq_some_iff _).mp ⟨blob, Hex.decode_encode blob⟩).2
  have hnone : ∀ c : UInt8, Hex.isDigit c = false → c ∉ text "\n" →
      c ∉ Hex.encode blob ++ text "\n" := by
    intro c hc hline hmem
    rcases List.mem_append.mp hmem with hblob | hend
    · rw [hdigits c hblob] at hc
      cases hc
    · exact hline hend
  intro h
  rcases h with h | h
  · exact hnone 105 (by decide) (by decide) (h.subset (by decide))
  · exact hnone 117 (by decide) (by decide) (h.subset (by decide))

/-- What stands there when all went well is no notice. -/
theorem Yields.not_notice {txt : Bytes} (h : Yields txt) : ¬ Notice txt := by
  rcases h with rfl | ⟨blob, rfl⟩
  · exact not_notice_nil
  · exact not_notice_blob blob

/-- Every complaint about a hex blob is a notice. -/
theorem notice_of_blobOfHex {hex msg : Bytes} (h : blobOfHex hex = .error msg) : Notice msg := by
  unfold blobOfHex at h
  split at h
  · cases h
    exact .inl (by decide)
  · split at h
    · cases h
      exact .inl (by decide)
    · cases h

/-! ## §2. The commands. -/

section Commands

variable {σ φ : Type} {L : Lib σ} {S : Sys φ} {junk : Nat → Nat → UInt8} {fuel : Nat}
  {p q r : Proc σ φ} {rc : Nat}

/-- The exit code goes with what was said. -/
def Matches (p : Proc σ φ) (rc : Nat) (q : Proc σ φ) : Prop :=
  ∃ txt, Says p q txt ∧ (rc = 0 → Yields txt) ∧ (rc ≠ 0 → Notice txt)

/-- A step that reports exactly on failure matches its code. -/
theorem Reports.matches (h : Reports p q (rc = 0)) : Matches p rc q := by
  by_cases hrc : rc = 0
  · exact ⟨[], h.1 hrc, fun _ => .inl rfl, fun hbad => (hbad hrc).elim⟩
  · obtain ⟨msg, hsays, hmsg⟩ := h.2 hrc
    exact ⟨msg, hsays, fun hzero => (hrc hzero).elim, fun _ => hmsg⟩

/-- Steps that said nothing before it do not change that. -/
theorem Matches.after (h : Matches q rc r) (hq : Says p q []) : Matches p rc r :=
  h.imp fun _ h => ⟨hq.trans h.1, h.2⟩

/-- What was said depends on the output alone. -/
theorem Says.same {t : Bytes} (h : Says p q t) (hdone : r.done = q.done) : Says p r t := by
  obtain ⟨cs, hcs, htxt⟩ := h
  exact ⟨cs, hdone.trans hcs, htxt⟩

/-- It ends so, or by an exception that nothing was said of. -/
abbrev matching (p : Proc σ φ) : Prog.Post Exn (Proc σ φ) Nat where
  ok := Matches p
  threw _ q := Says p q []
  running _ := True

/-- So a command may begin with steps that say nothing. -/
theorem matching_after {m : Prog Exn (Proc σ φ) Nat} (hq : Says p q [])
    (h : Prog.wp m (matching q) q) : Prog.wp m (matching p) q :=
  h.mono (fun _ _ h => h.after hq) (fun _ _ h => hq.trans h) fun _ h => h

/-- What a command says at its end. -/
abbrev finishing (p : Proc σ φ) : Prog.Post Exn (Proc σ φ) Unit where
  ok _ q := ∃ txt, Says p q txt ∧ Yields txt
  threw _ q := Says p q []
  running _ := True

/-- What goes to standard output says nothing. -/
theorem wp_print_finishing (b : Bytes) (p : Proc σ φ) :
    Prog.wp (print S b) (finishing p) p := by
  unfold print
  exact wp_call _ fun _ q hq => ⟨[], hq, .inl rfl⟩

/-- `encrypt` ends with its blob on standard error and a line of figures on
standard output. -/
theorem wp_announce_finishing (pipe : Pipeline) (infile outfile plain wire : Bytes)
    (p : Proc σ φ) : Prog.wp (announce L S pipe infile outfile plain wire) (finishing p) p := by
  unfold announce
  rw [Prog.wp_bind, wp_onWorld_iff]
  refine Prog.wp_of_forall (fun blob w => ?_) (fun _ _ => Says.refl p)
    fun _ => trivial
  dsimp only
  rw [Prog.wp_bind]
  refine (wp_printBlob blob { p with world := w }).mono (fun _ q h => ?_) (fun _ _ h => h.elim)
    fun _ h => h.elim
  dsimp only
  refine wp_printErr _ fun q₁ h₁ => ?_
  unfold print
  refine wp_call _ fun _ q₂ h₂ => ?_
  have hsaid : Says p q₂ (Hex.encode blob ++ text "\n") := Says.quiet (Says.trans h h₁) h₂
  exact ⟨_, hsaid, .inr ⟨blob, rfl⟩⟩

/-- **A command**: every step that fails says so, and is the last to speak. -/
theorem wp_command_matches {infile outfile : Bytes} {open_ : Prog Exn (World σ) Pipeline}
    {cipher : Pipeline → Bytes → Prog Exn (World σ) Bytes}
    {after : Pipeline → Bytes → Bytes → Prog Exn (Proc σ φ) Unit}
    (hafter : ∀ pipe src out q, Prog.wp (after pipe src out) (finishing q) q)
    (p : Proc σ φ) :
    Prog.wp (command L S infile outfile fuel open_ cipher after) (matching p) p := by
  unfold command
  rw [Prog.wp_bind]
  refine (wp_readFile_reports infile fuel p).mono (fun r p₁ h₁ => ?_) (fun _ _ h => h.elim)
    fun _ h => h
  cases r with
  | none =>
      obtain ⟨msg, hsays, hmsg⟩ := h₁.2 fun hsome => hsome rfl
      exact ⟨msg, hsays, nofun, fun _ => hmsg⟩
  | some src =>
      have hread := h₁.1 nofun
      dsimp only
      rw [Prog.wp_bind, wp_onWorld_iff]
      refine Prog.wp_of_forall (fun pipe w => ?_) (fun _ _ => hread) fun _ => trivial
      dsimp only
      generalize hp₂ : ({ p₁ with world := w } : Proc σ φ) = p₂
      have hopened : Says p p₂ [] := by
        rw [← hp₂]
        exact hread
      have hinner : Prog.wp (do
          let out ← onWorld (cipher pipe src)
          let rc ← writeFile S outfile out
          if rc = 0 then do
            after pipe src out
            pure rc
          else pure rc) (matching p) p₂ := by
        rw [Prog.wp_bind, wp_onWorld_iff]
        refine Prog.wp_of_forall (fun out w₃ => ?_) (fun _ _ => hopened) fun _ => trivial
        dsimp only
        rw [Prog.wp_bind]
        refine (wp_writeFile_reports outfile out { p₂ with world := w₃ }).mono
          (fun rc q h => ?_) (fun _ _ h => h.elim) fun _ h => h.elim
        have hwritten : Reports p q (rc = 0) := h.after hopened
        dsimp only
        rw [Prog.wp_ite]
        split
        · rename_i hrc
          have hsilent := hwritten.1 hrc
          rw [Prog.wp_bind]
          refine (hafter pipe src out q).mono (fun _ q' h' => ?_)
            (fun _ _ h' => hsilent.trans h') fun _ h => h
          obtain ⟨txt, hsays, hfine⟩ := h'
          exact ⟨txt, hsilent.trans hsays, fun _ => hfine, fun hbad => (hbad hrc).elim⟩
        · exact hwritten.matches
      unfold transcode
      rw [Prog.wp_ensuring]
      refine hinner.mono (fun rc q h => ?_) (fun _ q h => ?_) fun _ h => h
      · refine (wp_destroyed pipe q).mono (fun _ _ hq => ?_) (fun _ _ h => h.elim) fun _ h => h.elim
        exact h.imp fun _ h => ⟨h.1.same hq.2, h.2⟩
      · refine (wp_destroyed pipe q).mono (fun _ _ hq => ?_) (fun _ _ h => h.elim) fun _ h => h.elim
        exact h.same hq.2

/-- Capping the runtime prints nothing. -/
theorem wp_capGoRuntime_silent {m : Prog Exn (Proc σ φ) Nat}
    (hm : ∀ q, Prog.wp m (matching q) q) (p : Proc σ φ) :
    Prog.wp (do capGoRuntime S; m) (matching p) p := by
  unfold capGoRuntime
  rw [Prog.wp_bind]
  refine wp_call _ fun _ q hq => wp_call _ fun _ q' hq' => ?_
  exact matching_after (Says.trans hq hq') (hm q')

/-- Lines go to standard output. -/
theorem wp_printLines_silent (lines : List Bytes) (p : Proc σ φ) :
    Prog.wp (printLines S lines) ⟨fun _ q => Says p q [], fun _ _ => False, fun _ => False⟩ p := by
  induction lines generalizing p with
  | nil => exact Says.refl p
  | cons b lines ih =>
      unfold printLines print
      rw [Prog.bind_bind]
      refine wp_call _ fun _ q hq => (ih q).mono_ok fun _ _ h => ?_
      exact Says.trans hq h

/-- Every command line ends with a code that matches what was printed. -/
theorem wp_dispatch_matches (argv : List Bytes) (p : Proc σ φ) :
    Prog.wp (dispatch L S junk argv fuel) (matching p) p := by
  have hstart : Says p p [] := Says.refl p
  have husage : Prog.wp (usage S : Prog Exn (Proc σ φ) Nat) (matching p) p := by
    have hnotice : Prog.wp (usage S)
        ⟨fun rc q => Reports p q (rc = 0), fun _ _ => False, fun _ => False⟩ p :=
      wp_notice hstart (.inr (by decide +kernel)) nofun
    exact hnotice.mono (fun _ _ h => h.matches) (fun _ _ h => h.elim) fun _ h => h.elim
  have hzero : ∀ q : Proc σ φ, Says p q [] → Matches p 0 q :=
    fun q hq => (Reports.of_silence hq rfl).matches
  unfold dispatch
  split
  · rw [Prog.wp_ite]
    split
    · unfold cmdVersion
      rw [Prog.wp_bind, wp_onWorld_iff]
      refine Prog.wp_of_forall (fun v w => ?_) (fun _ _ => hstart) fun _ => trivial
      exact hzero _ ⟨_, List.append_assoc .., rfl⟩
    · rw [Prog.wp_ite]
      split
      · unfold cmdProfiles
        rw [Prog.wp_bind, wp_onWorld_iff]
        refine Prog.wp_of_forall (fun json w => ?_) (fun _ _ => hstart) fun _ => trivial
        dsimp only
        rw [Prog.wp_bind]
        exact (wp_printLines_silent _ _).mono (fun _ q h => hzero q h) (fun _ _ h => h.elim)
          fun _ h => h.elim
      · exact husage
  · rw [Prog.wp_ite]
    split
    · rw [cmdEncrypt_eq]
      exact wp_capGoRuntime_silent (wp_command_matches fun pipe plain wire q =>
        wp_announce_finishing pipe _ _ plain wire q) p
    · exact husage
  · rw [Prog.wp_ite]
    split
    · unfold cmdDecrypt
      refine wp_capGoRuntime_silent (fun q => ?_) p
      cases hhex : blobOfHex _ with
      | error msg =>
          have hnotice : Prog.wp (do printErr S msg; pure 1)
              ⟨fun rc r => Reports q r (rc = 0), fun _ _ => False, fun _ => False⟩ q :=
            wp_notice (Says.refl q) (notice_of_blobOfHex hhex) nofun
          exact hnotice.mono (fun _ _ h => h.matches) (fun _ _ h => h.elim) fun _ h => h.elim
      | ok blob =>
          dsimp only
          rw [decryptWith_eq]
          exact wp_command_matches (fun pipe wire plain r => wp_print_finishing _ r) q
    · exact husage
  · exact husage

/-- `main` says what it catches. -/
theorem wp_main_matches (argv : List Bytes) (p : Proc σ φ) :
    Prog.wp (main L S junk argv fuel) ⟨Matches p, fun _ _ => False, fun _ => True⟩ p := by
  unfold main
  rw [Prog.wp_handle]
  refine (wp_dispatch_matches argv p).mono (fun _ _ h => h) (fun e q h => ?_) fun _ h => h
  have hnotice : Prog.wp (do printErr S (text "eitb: " ++ whatOf e ++ text "\n"); pure 1)
      ⟨fun rc r => Reports p r (rc = 0), fun _ _ => False, fun _ => False⟩ q :=
    wp_notice h (.append (.append (.inl (List.prefix_refl _)) _) _) nofun
  dsimp only
  exact hnotice.mono (fun _ _ h => h.matches) (fun _ _ h => h) fun _ h => h.elim

end Commands

/-! ## §3. What is left on the stream. -/

section Stream

variable {σ φ : Type} {L : Lib σ} {S : Sys φ} {junk : Nat → Nat → UInt8} {fuel : Nat}
  {R : Proc σ φ → Proc σ φ → Prop} [IsPreorder (Proc σ φ) R]

/-- The library may do anything. -/
def Heedless (R : Proc σ φ → Proc σ φ → Prop) : Prop := ∀ p w, R p { p with world := w }

omit [IsPreorder (Proc σ φ) R] in
/-- A library call writes nothing to the system. -/
theorem within_onWorld {α : Type} (hW : Heedless R) (m : Prog Exn (World σ) α) :
    Prog.Within R (onWorld m : Prog Exn (Proc σ φ) α) := by
  intro p
  show R p (Prog.zoom Proc.world (fun w p => { p with world := w }) m p).state
  unfold Prog.zoom
  cases m p.world with
  | ok a w => exact hW p w
  | threw e w => exact hW p w
  | running w => exact hW p w

/-- What the two commands share, piece by piece. -/
theorem within_command (hR : Enduring S R) (hW : Heedless R) {infile outfile : Bytes}
    {open_ : Prog Exn (World σ) Pipeline} {cipher : Pipeline → Bytes → Prog Exn (World σ) Bytes}
    {after : Pipeline → Bytes → Bytes → Prog Exn (Proc σ φ) Unit}
    (hafter : ∀ pipe src out, Prog.Within R (after pipe src out)) :
    Prog.Within R (command L S infile outfile fuel open_ cipher after) := by
  refine .bind (within_readFile hR infile fuel) fun r => ?_
  cases r with
  | none => exact .pure 1
  | some src =>
      refine .bind (within_onWorld hW _) fun pipe => .ensuring ?_ (within_onWorld hW _)
      refine .bind (within_onWorld hW _) fun out => .bind (within_writeFile hR outfile out) ?_
      exact fun rc => .ite (.bind (hafter pipe src out) fun _ => .pure rc) (.pure rc)

theorem within_announce (hR : Enduring S R) (hW : Heedless R) (pipe : Pipeline)
    (infile outfile plain wire : Bytes) :
    Prog.Within R (announce L S pipe infile outfile plain wire) := by
  refine .bind (within_onWorld hW _) fun blob => .bind (within_printBlob hR.quiet blob) fun _ => ?_
  exact .bind (within_printErr hR.quiet _) fun _ => within_print hR.quiet _

/-- Every command line is made of such pieces. -/
theorem within_dispatch (hR : Enduring S R) (hW : Heedless R) (argv : List Bytes) :
    Prog.Within R (dispatch L S junk argv fuel) := by
  have husage : Prog.Within R (usage S : Prog Exn (Proc σ φ) Nat) := within_failed hR _ 2
  have hcap : Prog.Within R (capGoRuntime S : Prog Exn (Proc σ φ) Unit) :=
    within_capGoRuntime hR.quiet
  unfold dispatch
  split
  · refine .ite (.bind (within_onWorld hW _) fun v => ?_) (.ite ?_ husage)
    · exact .bind (within_print hR.quiet _) fun _ =>
        .bind (within_print hR.quiet _) fun _ => .pure 0
    · exact .bind (within_onWorld hW _) fun json =>
        .bind (within_printLines hR.quiet _) fun _ => .pure 0
  · refine .ite ?_ husage
    rw [cmdEncrypt_eq]
    exact .bind hcap fun _ => within_command hR hW fun pipe plain wire =>
      within_announce hR hW pipe _ _ plain wire
  · refine .ite (.bind hcap fun _ => ?_) husage
    cases blobOfHex _ with
    | error msg => exact within_failed hR msg 1
    | ok blob =>
        dsimp only
        rw [decryptWith_eq]
        exact within_command hR hW fun _ _ _ => within_print hR.quiet _
  · exact husage

/-- **What every call keeps**, the program keeps. -/
theorem within_main (hR : Enduring S R) (hW : Heedless R) (argv : List Bytes) :
    Prog.Within R (main L S junk argv fuel) :=
  .handle (within_dispatch hR hW argv) fun _ => within_failed hR _ 1

end Stream

/-- A system whose standard error takes all that is printed to it; `err` is what
stands there. -/
def Takes {φ : Type} (S : Sys φ) (err : φ → Bytes) : Prop :=
  ∀ c s, err (S c s).2 = err s ++ stderrText [c]

/-- What stands on standard error has grown by what was printed. -/
def Shown {σ φ : Type} (err : φ → Bytes) (p q : Proc σ φ) : Prop :=
  ∃ cs, q.done = p.done ++ cs ∧ err q.sys = err p.sys ++ stderrText cs

instance {σ φ : Type} (err : φ → Bytes) : IsPreorder (Proc σ φ) (Shown err) where
  refl p := ⟨[], (List.append_nil _).symm, (List.append_nil _).symm⟩
  trans p q r h h' := by
    obtain ⟨cs, hdone, herr⟩ := h
    obtain ⟨cs', hdone', herr'⟩ := h'
    refine ⟨cs ++ cs', ?_, ?_⟩
    · rw [hdone', hdone, List.append_assoc]
    · rw [herr', herr, List.append_assoc]
      exact congrArg _ List.flatMap_append.symm

section Results

variable {σ φ : Type} {L : Lib σ} {S : Sys φ} {junk : Nat → Nat → UInt8} {fuel : Nat}
  {err : φ → Bytes} {p q : Proc σ φ} {txt : Bytes}

/-- **The whole program**: what was printed is on standard error. -/
theorem shown_main (hS : Takes S err) (argv : List Bytes) :
    Prog.Within (Shown err) (main L S junk argv fuel) :=
  within_main (fun c p => ⟨[c], rfl, hS c p.sys⟩)
    (fun _ _ => ⟨[], (List.append_nil _).symm, (List.append_nil _).symm⟩) argv

/-- What a program has printed is what has come to stand there. -/
theorem Says.shown (h : Says p q txt) (hshown : Shown err p q) :
    err q.sys = err p.sys ++ txt := by
  obtain ⟨cs, hdone, rfl⟩ := h
  obtain ⟨cs', hdone', herr⟩ := hshown
  rw [herr, List.append_cancel_left (hdone'.symm.trans hdone)]

/-- **The exit code and the notice agree.**  On every command line, over any
library and any system: once `eitb` has ended, and it never ends by an
exception, its exit code is other than 0 exactly when what it printed to
standard error is a notice that something went wrong; with a 0 it printed
nothing there, or a blob.  Where standard error takes what is printed to it,
that is what the program has left there. -/
theorem failures_are_said (L : Lib σ) (S : Sys φ) (junk : Nat → Nat → UInt8)
    (argv : List Bytes) (fuel : Nat) (p : Proc σ φ) :
    Prog.wp (main L S junk argv fuel)
      ⟨fun rc q => ∃ txt, Says p q txt ∧ (rc ≠ 0 ↔ Notice txt) ∧ (rc = 0 → Yields txt) ∧
          ∀ err, Takes S err → err q.sys = err p.sys ++ txt,
        fun _ _ => False, fun _ => True⟩ p := by
  have hshown : Prog.wp (main L S junk argv fuel)
      ⟨fun _ q => ∀ err, Takes S err → Shown err p q, fun _ _ => True, fun _ => True⟩ p := by
    unfold Prog.wp
    split
    · rename_i rc q hrun
      intro err hS
      have hkept : Shown err p (main L S junk argv fuel p).state := shown_main hS argv p
      rw [hrun] at hkept
      exact hkept
    · exact trivial
    · exact trivial
  refine ((wp_main_matches argv p).and hshown).mono (fun rc q h => ?_) (fun _ _ h => h.1)
    fun _ h => h.1
  obtain ⟨⟨txt, hsays, hyields, hnotice⟩, hshown⟩ := h
  refine ⟨txt, hsays, ⟨hnotice, fun hn hzero => ?_⟩, hyields, fun err hS => ?_⟩
  · exact (hyields hzero).not_notice hn
  · exact hsays.shown (hshown err hS)

end Results

/-- A system that keeps its standard error, and does nothing else. -/
def teletype : Sys Bytes := fun c s => ({}, s ++ stderrText [c])

/-- Without arguments, what is left there is a notice, and the code is not 0. -/
theorem failures_are_said_usage (L : Lib Unit) (junk : Nat → Nat → UInt8) :
    ∃ rc q, main L teletype junk [] 0 ⟨⟨(), []⟩, [], []⟩ = .ok rc q ∧ rc ≠ 0 ∧ Notice q.sys := by
  have hrun := failures_are_said L teletype junk [] 0 ⟨⟨(), []⟩, [], []⟩
  obtain ⟨q, hq⟩ : ∃ q, main L teletype junk [] 0 ⟨⟨(), []⟩, [], []⟩ = .ok 2 q := ⟨_, rfl⟩
  unfold Prog.wp at hrun
  rw [hq] at hrun
  obtain ⟨txt, -, hnotice, -, hleft⟩ := hrun
  have hsys : q.sys = [] ++ txt := hleft id fun _ _ => rfl
  rw [List.nil_append] at hsys
  refine ⟨2, q, hq, by decide, ?_⟩
  rw [hsys]
  exact hnotice.mp (by decide)

end ItbCpp.Eitb
