/-
  ItbCpp.Agreement
  ────────────────
  **THE ALLOCATING AND THE REUSABLE-BUFFER ENTRY AGREE.**

  `cipher_call` chooses its own capacity, asks again and cuts an exact copy;
  `cipher_call_into` makes one call into whatever the caller brings.  Over a
  library function with a fixed answer (`Computes`) they are two views of
  that answer:

    • `cipherCall_output`, `cipherCallInto_output` — an output,
    • `cipherCall_refused`, `cipherCallInto_refused` — an error code,
    • `entries_agree` — the comparison, for every destination.
-/
import ItbCpp.RetryOnce

namespace ItbCpp

/-! ## §1. Functions with a fixed answer. -/

/-- What a library function makes of its arguments. -/
inductive Outcome where
  /-- it is refused with this code -/
  | refused (rc : Int)
  /-- it has this output -/
  | output (R : Bytes)
  deriving DecidableEq, Repr

/-- The function behind `call` has the given outcome, at every capacity and
in every state: a refusal is neither a success nor a request for room, an
output is handed over whole or asked room for. -/
def Computes {σ : Type} (L : Lib σ) (call : Nat → FfiCall) : Outcome → Prop
  | .refused rc => rc ≠ 0 ∧ rc ≠ Status.bufferTooSmall.code ∧ ∀ n s, (L (call n) s).1.rc = rc
  | .output R => AnswersExactly L call R

section Views

variable {σ : Type} {L : Lib σ} {call : Nat → FfiCall} {w : World σ}

/-- A function that is refused is asked once. -/
theorem lastTry_refused {rc : Int} (h : Computes L call (.refused rc)) (cap : Nat) (s : σ) :
    verdict (lastTry L call cap s).1 (lastTry L call cap s).2 = some (toStatus rc) := by
  obtain ⟨hne, hmore, hrc⟩ := h
  have honce : ¬(L (call cap) s).1.asksForMore cap := by
    intro hm
    exact hmore ((hrc cap s).symm.trans hm.1)
  have hlast : lastTry L call cap s = (cap, (L (call cap) s).1) := by
    simp only [lastTry, if_neg honce]
  rw [hlast, verdict, if_pos (by rw [hrc]; exact hne), hrc]

/-! ## §2. The two entries over such a function. -/

variable {h : Handle} {fn : CipherFn} {src : Bytes} (what : String)

/-- `cipher_call` returns the whole output. -/
theorem cipherCall_output {R : Bytes} (hC : Computes L (fn.call h src) (.output R))
    (junk : Nat → Nat → UInt8) (w : World σ) :
    ∃ w', cipherCall L junk h fn src what w = .ok R w' :=
  (cipherCall_follows L w junk h fn src what).whole R hC

/-- `cipher_call` passes a refusal on. -/
theorem cipherCall_refused {rc : Int} (hC : Computes L (fn.call h src) (.refused rc))
    (junk : Nat → Nat → UInt8) (w : World σ) :
    ∃ e w', cipherCall L junk h fn src what w = .threw (.error e) w' ∧
      e.status = toStatus rc := by
  have hrun : Prog.wp (cipherCall L junk h fn src what)
      (protocolPost L (fn.call h src) (outCap src.length) (uninit junk) w) w := by
    rw [cipherCall_eq_retryOnce]
    exact wp_retryOnce_protocol (fn.sized h src) (length_uninit junk) id what
  unfold Prog.wp at hrun
  have hlast := lastTry_refused hC (outCap src.length) w.lib
  cases hres : cipherCall L junk h fn src what w with
  | ok b w' =>
      rw [hres] at hrun
      rw [hrun.1] at hlast
      cases hlast
  | threw x w' =>
      rw [hres] at hrun
      obtain ⟨e, hx, hv, -⟩ := hrun
      rw [hlast] at hv
      exact ⟨e, w', by rw [hx], (Option.some.inj hv).symm⟩
  | running w' =>
      rw [hres] at hrun
      exact hrun.elim

/-- `cipher_call_into` fills a destination that holds the output. -/
theorem cipherCallInto_output {R dst : Bytes} (hC : Computes L (fn.call h src) (.output R))
    (hfit : R.length ≤ dst.length) (w : World σ) :
    ∃ buf w', cipherCallInto L h fn src dst what w = .ok (R.length, buf) w' ∧
      buf.length = dst.length ∧ buf.take R.length = R := by
  have hans := hC dst.length w.lib
  rw [if_neg (by omega)] at hans
  obtain ⟨hrc, hlen, hout⟩ := hans
  have hgood : verdict dst.length (L (fn.call h src dst.length) w.lib).1 = none :=
    verdict_eq_none.mpr ⟨hrc, by omega⟩
  have hrun : Prog.wp (cipherCallInto L h fn src dst what)
      ⟨fun p _ => p.1 = R.length ∧ p.2.length = dst.length ∧ p.2.take R.length = R,
        fun _ _ => False, fun _ => False⟩ w := by
    apply wp_cipherCallInto rfl
    · intro _
      refine ⟨hlen, Buffer.length_overlay .., ?_⟩
      rw [hout, Buffer.take_overlay (Nat.le_refl _) hfit, List.take_length]
    · intro e w' hv _
      rw [hgood] at hv
      cases hv
  obtain ⟨p, w', hres, hn, hbuf, htake⟩ := hrun.returns
  exact ⟨p.2, w', by rw [hres, ← hn], hbuf, htake⟩

/-- `cipher_call_into` throws with the status its one answer is refused
with. -/
theorem cipherCallInto_throws {dst : Bytes} {st : Status}
    (hv : verdict dst.length (L (fn.call h src dst.length) w.lib).1 = some st) :
    ∃ e w', cipherCallInto L h fn src dst what w = .threw (.error e) w' ∧ e.status = st := by
  have hrun : Prog.wp (cipherCallInto L h fn src dst what)
      ⟨fun _ _ => False, fun x _ => ∃ e, x = .error e ∧ e.status = st, fun _ => False⟩ w := by
    apply wp_cipherCallInto rfl
    · intro hv'
      rw [hv] at hv'
      cases hv'
    · intro e w' hv' _
      rw [hv] at hv'
      exact ⟨e, rfl, (Option.some.inj hv').symm⟩
  unfold Prog.wp at hrun
  cases hres : cipherCallInto L h fn src dst what w with
  | ok p w' => rw [hres] at hrun; exact hrun.elim
  | threw x w' =>
      rw [hres] at hrun
      obtain ⟨e, hx, he⟩ := hrun
      exact ⟨e, w', by rw [hx], he⟩
  | running w' => rw [hres] at hrun; exact hrun.elim

/-- A destination that does not hold the output is refused, with nothing
returned. -/
theorem cipherCallInto_short {R dst : Bytes} (hC : Computes L (fn.call h src) (.output R))
    (hshort : dst.length < R.length) (w : World σ) :
    ∃ e w', cipherCallInto L h fn src dst what w = .threw (.error e) w' ∧
      e.status = .bufferTooSmall := by
  have hans := hC dst.length w.lib
  rw [if_pos hshort] at hans
  apply cipherCallInto_throws
  rw [verdict, if_pos (by rw [hans.1]; decide), hans.1]
  rfl

theorem cipherCallInto_refused {rc : Int} (hC : Computes L (fn.call h src) (.refused rc))
    (dst : Bytes) (w : World σ) :
    ∃ e w', cipherCallInto L h fn src dst what w = .threw (.error e) w' ∧
      e.status = toStatus rc := by
  obtain ⟨hne, -, hrc⟩ := hC
  apply cipherCallInto_throws
  rw [verdict, if_pos (by rw [hrc]; exact hne), hrc]

end Views

/-! ## §3. The comparison. -/

section Comparison

variable {σ : Type} {L : Lib σ} {fn : CipherFn} {answer : Handle → Bytes → Outcome}

/-- `cipher_call` returns `R` exactly when `R` is the function's output. -/
theorem cipherCall_returns_iff (hL : ∀ h src, Computes L (fn.call h src) (answer h src))
    (junk : Nat → Nat → UInt8) (h : Handle) (src : Bytes) (what : String) (w : World σ)
    (R : Bytes) :
    (∃ w', cipherCall L junk h fn src what w = .ok R w') ↔ answer h src = .output R := by
  have hC := hL h src
  cases ha : answer h src with
  | output R' =>
      rw [ha] at hC
      obtain ⟨w', hres⟩ := cipherCall_output what hC junk w
      rw [hres]
      constructor
      · intro hex
        obtain ⟨w'', heq⟩ := hex
        injection heq with heq
        rw [heq]
      · intro heq
        injection heq with heq
        exact ⟨w', by rw [heq]⟩
  | refused rc =>
      rw [ha] at hC
      obtain ⟨e, w', hres, -⟩ := cipherCall_refused what hC junk w
      rw [hres]
      constructor
      · intro hex
        obtain ⟨w'', heq⟩ := hex
        cases heq
      · intro heq
        cases heq

/-- So does `cipher_call_into`, into a destination that holds `R`. -/
theorem cipherCallInto_returns_iff (hL : ∀ h src, Computes L (fn.call h src) (answer h src))
    (h : Handle) (src dst : Bytes) (what : String) (w : World σ) (R : Bytes)
    (hfit : R.length ≤ dst.length) :
    (∃ buf w', cipherCallInto L h fn src dst what w = .ok (R.length, buf) w' ∧
      buf.take R.length = R) ↔ answer h src = .output R := by
  have hC := hL h src
  cases ha : answer h src with
  | output R' =>
      rw [ha] at hC
      constructor
      · intro hex
        obtain ⟨buf, w', heq, htake⟩ := hex
        -- it returned, so its own output fitted: the two outputs are one prefix
        by_cases hfit' : R'.length ≤ dst.length
        · obtain ⟨buf', w'', hres, -, htake'⟩ :=
            cipherCallInto_output what hC hfit' w
          rw [hres] at heq
          injection heq with hpair _
          injection hpair with hlen hbuf
          rw [← htake, ← hbuf, ← hlen, htake']
        · obtain ⟨e, w'', hres, -⟩ :=
            cipherCallInto_short what hC (Nat.lt_of_not_le hfit') w
          rw [hres] at heq
          cases heq
      · intro heq
        injection heq with heq
        subst heq
        obtain ⟨buf, w', hres, -, htake⟩ :=
          cipherCallInto_output what hC hfit w
        exact ⟨buf, w', hres, htake⟩
  | refused rc =>
      rw [ha] at hC
      obtain ⟨e, w', hres, -⟩ := cipherCallInto_refused what hC dst w
      rw [hres]
      constructor
      · intro hex
        obtain ⟨buf, w'', heq, -⟩ := hex
        cases heq
      · intro heq
        cases heq

/-- **THE TWO ENTRIES AGREE.**  For every library function with a fixed
answer, every source and every destination, called from any two worlds: they
return the same output when the destination holds it; a shorter destination
is refused as too small while the allocating entry still returns; and a
refusal reaches the caller with the same status from both. -/
theorem entries_agree (hL : ∀ h src, Computes L (fn.call h src) (answer h src))
    (junk : Nat → Nat → UInt8) (h : Handle) (src dst : Bytes) (what what' : String)
    (w w' : World σ) :
    (∀ R, R.length ≤ dst.length →
      ((∃ v, cipherCall L junk h fn src what w = .ok R v) ↔
        ∃ buf v, cipherCallInto L h fn src dst what' w' = .ok (R.length, buf) v ∧
          buf.take R.length = R)) ∧
    (∀ R, answer h src = .output R → dst.length < R.length →
      (∃ v, cipherCall L junk h fn src what w = .ok R v) ∧
        ∃ e v, cipherCallInto L h fn src dst what' w' = .threw (.error e) v ∧
          e.status = .bufferTooSmall) ∧
    (∀ rc, answer h src = .refused rc →
      ∃ e v e' v', cipherCall L junk h fn src what w = .threw (.error e) v ∧
        cipherCallInto L h fn src dst what' w' = .threw (.error e') v' ∧
        e.status = toStatus rc ∧ e'.status = toStatus rc) := by
  refine ⟨?_, ?_, ?_⟩
  · intro R hfit
    rw [cipherCall_returns_iff hL, cipherCallInto_returns_iff hL h src dst what' w' R hfit]
  · intro R ha hshort
    have hC := hL h src
    rw [ha] at hC
    exact ⟨cipherCall_output what hC junk w, cipherCallInto_short what' hC hshort w'⟩
  · intro rc ha
    have hC := hL h src
    rw [ha] at hC
    obtain ⟨e, v, hres, he⟩ := cipherCall_refused what hC junk w
    obtain ⟨e', v', hres', he'⟩ :=
      cipherCallInto_refused what' hC dst w'
    exact ⟨e, v, e', v', hres, hres', he, he'⟩

end Comparison

/-- An answer at a given capacity, as the library's convention has it. -/
def Outcome.reply : Outcome → Nat → Reply
  | .refused rc, _ => { rc := rc }
  | .output R, cap =>
      if cap < R.length then { rc := Status.bufferTooSmall.code, len := R.length }
      else { rc := 0, len := R.length, out := R }

/-- A cipher that puts a tag in front, and refuses the empty message. -/
def tagging (src : Bytes) : Outcome :=
  if src = [] then .refused Status.badInput.code else .output (7 :: src)

/-- The library that encrypts with it. -/
def taggingLib : Lib Unit := fun c s =>
  match c with
  | .encryptMessage _ src cap => ((tagging src).reply cap, s)
  | _ => ({ rc := 0 }, s)

/-- An output that is answered by the convention is answered exactly. -/
theorem answersExactly_of_reply {σ : Type} {L : Lib σ} {call : Nat → FfiCall} {R : Bytes}
    (h : ∀ n s, (L (call n) s).1 = (Outcome.output R).reply n) : AnswersExactly L call R := by
  intro n s
  rw [h n s, Outcome.reply]
  by_cases hn : n < R.length
  · rw [if_pos hn, if_pos hn]
    exact ⟨rfl, rfl⟩
  · rw [if_neg hn, if_neg hn]
    exact ⟨rfl, rfl, rfl⟩

theorem taggingLib_computes (h : Handle) (src : Bytes) :
    Computes taggingLib (CipherFn.encryptMessage.call h src) (tagging src) := by
  unfold tagging
  by_cases hsrc : src = []
  · rw [if_pos hsrc]
    refine ⟨by decide, by decide, fun n s => ?_⟩
    show ((tagging src).reply n).rc = Status.badInput.code
    rw [tagging, if_pos hsrc]
    rfl
  · rw [if_neg hsrc]
    refine answersExactly_of_reply fun n s => ?_
    show (tagging src).reply n = _
    rw [tagging, if_neg hsrc]

/-- Three bytes with their tag do not fit into three, and fit into four. -/
theorem entries_agree_tagging :
    (∃ e v, cipherCallInto taggingLib 1 .encryptMessage [1, 2, 3] [0, 0, 0] "" ⟨(), []⟩ =
        .threw (.error e) v ∧ e.status = .bufferTooSmall) ∧
      ∃ v, cipherCall taggingLib (fun _ _ => 0) 1 .encryptMessage [1, 2, 3] "" ⟨(), []⟩ =
        .ok [7, 1, 2, 3] v := by
  have hL : ∀ h src, Computes taggingLib (CipherFn.encryptMessage.call h src)
      ((fun (_ : Handle) => tagging) h src) := taggingLib_computes
  have h := (entries_agree hL (fun _ _ => 0) 1 [1, 2, 3] [0, 0, 0] "" "" ⟨(), []⟩ ⟨(), []⟩).2.1
    [7, 1, 2, 3] rfl (by decide)
  exact ⟨h.2, h.1⟩

end ItbCpp
