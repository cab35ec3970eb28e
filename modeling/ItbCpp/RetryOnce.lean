/-
  ItbCpp.RetryOnce
  ────────────────
  **THE RETRY-ONCE PROTOCOL, AS THE LIBRARY SEES IT.**

  Against ANY answers the library may give, `buf_call` and `cipher_call`
  are the same protocol up to their initial capacity:

    • one call at that capacity, a second one exactly when the first
      answer asks for more, at exactly the size it reported, never a third;
    • a normal return exactly when the last answer is good, and then with
      exactly the reported number of leading bytes of the last buffer;
    • otherwise an `itb::Error` that is never `Ok`.
-/
import ItbCpp.BufCall

namespace ItbCpp

/-! ## §1. The attempts in a trace. -/

/-- The capacity argument of a call that has one. -/
def FfiCall.cap? : FfiCall → Option Nat
  | .init _ _ cap | .initKeys _ _ _ _ cap | .save _ cap | .rekey _ _ _ cap
  | .encryptMessage _ _ cap | .decryptMessage _ _ cap | .encryptStream _ _ cap
  | .decryptStream _ _ cap | .streamRead _ cap | .inspect _ cap | .lookup _ cap
  | .profiles cap | .hashNames cap | .version cap | .drbgAutoTier cap | .lastError cap
  | .poolStats cap => some cap
  | _ => none

/-- What an event says about the attempts made through `call`: the capacity
offered and the answer. -/
def attemptOf (call : Nat → FfiCall) : Event → Option (Nat × Reply)
  | .call c r => c.cap?.bind fun n => if call n = c then some (n, r) else none
  | _ => none

/-- The attempts in a list of events, in order. -/
def attemptsIn (call : Nat → FfiCall) (evs : List Event) : List (Nat × Reply) :=
  evs.filterMap (attemptOf call)

/-- A library function with a capacity argument, other than the one that
fetches diagnostics. -/
structure Sized (call : Nat → FfiCall) : Prop where
  cap : ∀ n, (call n).cap? = some n
  notLastError : ∀ n m, call n ≠ .lastError m

theorem BlobFn.sized (fn : BlobFn) : Sized fn.call := by
  constructor
  · intro n
    cases fn <;> rfl
  · intro n m
    cases fn <;> simp [BlobFn.call]

theorem CipherFn.sized (fn : CipherFn) (h : Handle) (src : Bytes) : Sized (fn.call h src) := by
  constructor
  · intro n
    cases fn <;> rfl
  · intro n m
    cases fn <;> simp [CipherFn.call]

section Attempts

variable {σ : Type} {L : Lib σ} {call : Nat → FfiCall}

theorem attemptOf_call (hc : Sized call) (n : Nat) (r : Reply) :
    attemptOf call (.call (call n) r) = some (n, r) := by
  simp [attemptOf, hc.cap]

theorem attemptOf_dealloc (content : Bytes) : attemptOf call (.dealloc content) = none := rfl

theorem attemptOf_lastError (hc : Sized call) {e : Event} (he : e.isLastError = true) :
    attemptOf call e = none := by
  unfold Event.isLastError at he
  split at he
  next m r => simp [attemptOf, FfiCall.cap?, hc.notLastError]
  next => cases he

/-- Diagnostics are no attempts. -/
theorem attemptsIn_lastErrors (hc : Sized call) {evs : List Event}
    (h : ∀ e ∈ evs, e.isLastError = true) : attemptsIn call evs = [] := by
  rw [attemptsIn, List.filterMap_eq_nil_iff]
  intro e he
  exact attemptOf_lastError hc (h e he)

theorem attemptsIn_append (evs evs' : List Event) :
    attemptsIn call (evs ++ evs') = attemptsIn call evs ++ attemptsIn call evs' :=
  List.filterMap_append

/-- The attempts the answers of the library lead to. -/
def attempts (L : Lib σ) (call : Nat → FfiCall) (cap : Nat) (s : σ) : List (Nat × Reply) :=
  let a₁ := L (call cap) s
  if a₁.1.asksForMore cap then [(cap, a₁.1), (a₁.1.len, (L (call a₁.1.len) a₁.2).1)]
  else [(cap, a₁.1)]

/-- The last of them. -/
def lastTry (L : Lib σ) (call : Nat → FfiCall) (cap : Nat) (s : σ) : Nat × Reply :=
  let a₁ := L (call cap) s
  if a₁.1.asksForMore cap then (a₁.1.len, (L (call a₁.1.len) a₁.2).1) else (cap, a₁.1)

/-- The world of the last attempt records the attempts and nothing else of
the kind. -/
theorem lastAttempt_spec (hc : Sized call) {cap : Nat} {block : Nat → Bytes}
    {scrub : Bytes → Bytes} {w : World σ} {a : Attempt σ}
    (ha : a = lastAttempt L call cap block scrub w) :
    (a.cap, a.reply) = lastTry L call cap w.lib ∧
      a.buf = Buffer.overlay (block a.cap) a.reply.out ∧
      ∃ evs, a.world.trace = w.trace ++ evs ∧
        attemptsIn call evs = attempts L call cap w.lib := by
  simp only [lastAttempt] at ha
  -- two calls with the first buffer given back in between, or one call
  by_cases hmore : (L (call cap) w.lib).1.asksForMore cap
  · rw [if_pos hmore] at ha
    subst ha
    refine ⟨by simp only [lastTry, if_pos hmore], rfl,
      [.call (call cap) (L (call cap) w.lib).1,
        .dealloc (scrub (Buffer.overlay (block cap) (L (call cap) w.lib).1.out)),
        .call (call (L (call cap) w.lib).1.len)
          (L (call (L (call cap) w.lib).1.len) (L (call cap) w.lib).2).1], by simp, ?_⟩
    simp only [attempts, if_pos hmore, attemptsIn, List.filterMap_cons, attemptOf_call hc,
      attemptOf_dealloc, List.filterMap_nil]
  · rw [if_neg hmore] at ha
    subst ha
    refine ⟨by simp only [lastTry, if_neg hmore], rfl,
      [.call (call cap) (L (call cap) w.lib).1], rfl, ?_⟩
    simp only [attempts, if_neg hmore, attemptsIn, List.filterMap_cons, attemptOf_call hc,
      List.filterMap_nil]

end Attempts

/-- Diagnostics and the buffer given back at the end are no attempts. -/
theorem attemptsIn_cleanup {σ : Type} {call : Nat → FfiCall} (hc : Sized call)
    {w w₁ w₂ : World σ} {evs : List Event} (h : w₁.trace = w.trace ++ evs)
    (h₂ : AfterLastError w₁ w₂) (content : Bytes) :
    attemptsIn call (w.since (w₂.log (.dealloc content))) = attemptsIn call evs := by
  obtain ⟨errs, herrs, hall⟩ := h₂
  have hsince : w.since (w₂.log (.dealloc content)) = evs ++ errs ++ [.dealloc content] := by
    refine World.since_of_append ?_
    rw [World.log_trace, herrs, h]
    simp
  rw [hsince, attemptsIn_append, attemptsIn_append, attemptsIn_lastErrors hc hall]
  simp [attemptsIn, attemptOf_dealloc]

/-! ## §2. The protocol. -/

section Protocol

variable {σ : Type}

/-- A library whose function behind `call` has the output `R`: a buffer that
holds it is filled with it, a shorter one is answered with the exact size. -/
def AnswersExactly (L : Lib σ) (call : Nat → FfiCall) (R : Bytes) : Prop :=
  ∀ n s, if n < R.length then
      (L (call n) s).1.rc = Status.bufferTooSmall.code ∧ (L (call n) s).1.len = R.length
    else (L (call n) s).1.rc = 0 ∧ (L (call n) s).1.len = R.length ∧ (L (call n) s).1.out = R

/-- How a run of the protocol from `w` went, in terms of the library's
answers: `cap` is the initial capacity and `block n` a fresh buffer. -/
structure FollowsProtocol (L : Lib σ) (call : Nat → FfiCall) (cap : Nat)
    (block : Nat → Bytes) (w : World σ) (res : Prog.Result Exn (World σ) Bytes) : Prop where
  /-- the calls made: one at the initial capacity, and one more exactly when
  the first answer asks for it, at the size it reported -/
  calls : attemptsIn call (w.since res.state) = attempts L call cap w.lib
  /-- there is never a third -/
  atMostTwo : (attemptsIn call (w.since res.state)).length ≤ 2
  /-- it returns exactly when the last answer is good -/
  returns : (∃ b w', res = .ok b w') ↔
    (lastTry L call cap w.lib).2.rc = 0 ∧
      (lastTry L call cap w.lib).2.len ≤ (lastTry L call cap w.lib).1
  /-- what it returns: the leading bytes of the last buffer -/
  result : ∀ b w', res = .ok b w' →
    b = (Buffer.overlay (block (lastTry L call cap w.lib).1)
        (lastTry L call cap w.lib).2.out).take (lastTry L call cap w.lib).2.len ∧
      b.length = (lastTry L call cap w.lib).2.len
  /-- otherwise it throws an `itb::Error`, never with status `ok` -/
  throws : ¬(∃ b w', res = .ok b w') →
    ∃ e w', res = .threw (.error e) w' ∧ e.status ≠ .ok ∧
      e.status = if (lastTry L call cap w.lib).2.rc = 0 then .internal
        else toStatus (lastTry L call cap w.lib).2.rc
  /-- an output of any size is returned whole -/
  whole : ∀ R, AnswersExactly L call R → ∃ w', res = .ok R w'

variable {L : Lib σ} {call : Nat → FfiCall} {cap : Nat} {block : Nat → Bytes} {w : World σ}

/-- Against an exact library the last answer is the whole output. -/
theorem AnswersExactly.lastTry {R : Bytes} (h : AnswersExactly L call R) (cap : Nat) (s : σ) :
    R.length ≤ (lastTry L call cap s).1 ∧ (lastTry L call cap s).2.rc = 0 ∧
      (lastTry L call cap s).2.len = R.length ∧ (lastTry L call cap s).2.out = R := by
  have hfirst := h cap s
  have hsecond := h (L (call cap) s).1.len (L (call cap) s).2
  unfold ItbCpp.lastTry
  -- a first buffer that is too short is answered with the exact size
  by_cases hcap : cap < R.length
  · rw [if_pos hcap] at hfirst
    obtain ⟨hrc, hlen⟩ := hfirst
    have hmore : (L (call cap) s).1.asksForMore cap := ⟨hrc, by omega⟩
    rw [if_neg (by omega)] at hsecond
    rw [if_pos hmore]
    exact ⟨by show R.length ≤ (L (call cap) s).1.len; omega, hsecond⟩
  · rw [if_neg hcap] at hfirst
    have hmore : ¬(L (call cap) s).1.asksForMore cap := by
      intro hm
      have := hm.1
      rw [hfirst.1] at this
      exact absurd this (by decide)
    rw [if_neg hmore]
    exact ⟨by show R.length ≤ cap; omega, hfirst⟩

theorem attempts_length_le (cap : Nat) (s : σ) : (attempts L call cap s).length ≤ 2 := by
  simp only [attempts]
  split <;> simp

/-- The postcondition that settles a protocol run. -/
def protocolPost (L : Lib σ) (call : Nat → FfiCall) (cap : Nat) (block : Nat → Bytes)
    (w : World σ) : Prog.Post Exn (World σ) Bytes where
  ok b w' := verdict (lastTry L call cap w.lib).1 (lastTry L call cap w.lib).2 = none ∧
    b = (Buffer.overlay (block (lastTry L call cap w.lib).1)
      (lastTry L call cap w.lib).2.out).take (lastTry L call cap w.lib).2.len ∧
    attemptsIn call (w.since w') = attempts L call cap w.lib
  threw x w' := ∃ e, x = .error e ∧
    verdict (lastTry L call cap w.lib).1 (lastTry L call cap w.lib).2 = some e.status ∧
    attemptsIn call (w.since w') = attempts L call cap w.lib
  running _ := False

/-- A refusal carries the code of the last answer, or `internal` when the
code was 0. -/
theorem status_of_verdict {n : Nat} {r : Reply} {st : Status} (h : verdict n r = some st) :
    st = if r.rc = 0 then .internal else toStatus r.rc := by
  unfold verdict at h
  by_cases hrc : r.rc = 0
  · rw [if_neg (not_not.mpr hrc)] at h
    rw [if_pos hrc]
    split at h
    · exact (Option.some.inj h).symm
    · cases h
  · rw [if_pos hrc] at h
    rw [if_neg hrc]
    exact (Option.some.inj h).symm

theorem followsProtocol_of_wp (hblock : ∀ n, (block n).length = n)
    {m : Prog Exn (World σ) Bytes} (h : Prog.wp m (protocolPost L call cap block w) w) :
    FollowsProtocol L call cap block w (m w) := by
  unfold Prog.wp at h
  cases hm : m w with
  | running w' => rw [hm] at h; exact h.elim
  | ok b w' =>
      rw [hm] at h
      obtain ⟨hv, hb, hcalls⟩ := h
      have hgood := verdict_eq_none.mp hv
      refine ⟨hcalls, hcalls ▸ attempts_length_le cap w.lib,
        ⟨fun _ => hgood, fun _ => ⟨b, w', rfl⟩⟩, ?_, fun hno => absurd ⟨b, w', rfl⟩ hno, ?_⟩
      · intro b' w'' h
        injection h with h
        subst h
        refine ⟨hb, ?_⟩
        rw [hb, List.length_take, Buffer.length_overlay, hblock]
        omega
      · intro R hR
        obtain ⟨hcap, _, hlen, hout⟩ := hR.lastTry cap w.lib
        have hwhole : b = R := by
          rw [hb, hlen, hout, Buffer.take_overlay (Nat.le_refl _) (by rw [hblock]; omega),
            List.take_length]
        exact ⟨w', by rw [hwhole]⟩
  | threw x w' =>
      rw [hm] at h
      obtain ⟨e, hx, hv, hcalls⟩ := h
      -- a run that throws has a last answer that was refused
      have hbad : ¬((lastTry L call cap w.lib).2.rc = 0 ∧
          (lastTry L call cap w.lib).2.len ≤ (lastTry L call cap w.lib).1) := by
        intro hgood
        rw [verdict_eq_none.mpr hgood] at hv
        cases hv
      refine ⟨hcalls, hcalls ▸ attempts_length_le cap w.lib,
        ⟨?_, fun hgood => absurd hgood hbad⟩, ?_, fun _ => ?_, ?_⟩
      · intro h
        obtain ⟨b, w'', h⟩ := h
        cases h
      · intro b w'' h
        cases h
      · refine ⟨e, w', by rw [hx], ?_, status_of_verdict hv⟩
        intro hok
        rw [hok] at hv
        exact verdict_ne_ok _ _ hv
      · intro R hR
        obtain ⟨hcap, hrc, hlen, _⟩ := hR.lastTry cap w.lib
        exact absurd ⟨hrc, by omega⟩ hbad

/-- The machine `retryOnce` follows the protocol, whatever is captured of
its last answer. -/
theorem wp_retryOnce_protocol (hc : Sized call) (hblock : ∀ n, (block n).length = n)
    (scrub : Bytes → Bytes) (what : String) :
    Prog.wp (retryOnce L call cap block scrub what >>= fun p => pure p.1)
      (protocolPost L call cap block w) w := by
  obtain ⟨a, ha⟩ : ∃ a, a = lastAttempt L call cap block scrub w := ⟨_, rfl⟩
  obtain ⟨htry, hbuf, evs, htrace, hcalls⟩ := lastAttempt_spec hc ha
  rw [Prog.wp_bind]
  refine wp_retryOnce hblock ha ?_ ?_
  · intro hv
    show verdict _ _ = none ∧ _ ∧ _
    rw [← htry, ← hcalls]
    exact ⟨hv, by rw [hbuf], attemptsIn_cleanup hc htrace (AfterLastError.refl a.world) _⟩
  · intro e w' hv hw'
    refine ⟨e, rfl, ?_⟩
    rw [← htry, ← hcalls]
    exact ⟨hv, attemptsIn_cleanup hc htrace hw' _⟩

/-- `buf_call` follows it, from its own capacity. -/
theorem bufCall_follows (L : Lib σ) (w : World σ) (fn : BlobFn) (what : String) :
    FollowsProtocol L fn.call kBlobCap zeros w ((bufCall L fn what >>= fun p => pure p.1) w) := by
  rw [bufCall_eq_retryOnce]
  exact followsProtocol_of_wp length_zeros
    (wp_retryOnce_protocol fn.sized length_zeros wipeBytes what)

/-- `cipher_call` follows it, from the capacity of its source. -/
theorem cipherCall_follows (L : Lib σ) (w : World σ) (junk : Nat → Nat → UInt8) (h : Handle)
    (fn : CipherFn) (src : Bytes) (what : String) :
    FollowsProtocol L (fn.call h src) (outCap src.length) (uninit junk) w
      (cipherCall L junk h fn src what w) := by
  rw [cipherCall_eq_retryOnce]
  exact followsProtocol_of_wp (length_uninit junk)
    (wp_retryOnce_protocol (fn.sized h src) (length_uninit junk) id what)

/-- **THE RETRY-ONCE PROTOCOL.**  Against every machine the library may be,
in every state it may be in, `buf_call` and `cipher_call` follow the same
protocol, each with its own initial capacity and its own fresh buffers. -/
theorem retryOnce_protocol (L : Lib σ) (w : World σ) :
    (∀ (fn : BlobFn) what, FollowsProtocol L fn.call kBlobCap zeros w
      ((bufCall L fn what >>= fun p => pure p.1) w)) ∧
    (∀ junk h (fn : CipherFn) src what, FollowsProtocol L (fn.call h src) (outCap src.length)
      (uninit junk) w (cipherCall L junk h fn src what w)) :=
  ⟨bufCall_follows L w, cipherCall_follows L w⟩

end Protocol

end ItbCpp
