/-
  ItbCpp.Loop.Rules
  ─────────────────
  **RULES FOR THE HARNESS'S THREADS.**

  `Spec i P m ok threw`: thread `i`, outside the library and with `P`, runs
  `m` under the discipline and comes out of the library with `ok` or
  `threw`.  `P`, `ok` and `threw` speak of the pipe state alone, and of
  nothing that others may change (`Assertion`).

    • `spec_quiet`, `spec_read` — requests that leave the pipe state alone,
    • `spec_libraryCall` — a library call, from what it does when it takes
      effect,
    • `spec_neutral`, `spec_check`, `spec_retryOnce` — the helpers of the
      binding.
-/
import ItbCpp.Loop.Discipline

namespace ItbCpp.Loop

open Interleave

/-- The requests that the pipe state has no part in. -/
def Req.quiet : Req → Bool
  | .enter _ | .effect | .leave | .lockShared | .unlockShared | .lock | .unlock | .setPipe _ _
  | .setBlob _ _ => false
  | _ => true

section Rules

variable {σ K : Type} {N : Nat}

/-! ## §1. Assertions. -/

/-- An assertion of thread `i`: others cannot break it, and it does not say
where the thread's own call stands. -/
structure Assertion (key : σ → Handle → Option K) (i : Tid N) (P : PipeState σ K N → Prop) :
    Prop where
  stable : ∀ s s', Rely key i s s' → P s → P s'
  calls : ∀ s v, P s → P { s with calls := Function.update s.calls i v }

/-- Thread `i` is outside the library, with `P`. -/
def Outside (i : Tid N) (P : PipeState σ K N → Prop) (s : Shared σ K N) : Prop :=
  s.calls i = none ∧ P s.toPipeState

variable {L : Lib σ} {key : σ → Handle → Option K} {decode : Bytes → Option K} {i : Tid N}
  {α β : Type}

/-- What no other thread can change stays true between two calls. -/
theorem Assertion.outside {P : PipeState σ K N → Prop} (hP : Assertion key i P) :
    Stable (discipline N key decode) i (Outside i P) := by
  intro s s' _ _ hr h
  exact ⟨hr.own.calls.trans h.1, hP.stable _ _ hr h.2⟩

/-- A witness for each state will do. -/
theorem Assertion.exists_ {γ : Type} {R : γ → PipeState σ K N → Prop}
    (hR : ∀ x, Assertion key i (R x)) : Assertion key i fun s => ∃ x, R x s := by
  constructor
  · intro s s' hr h
    obtain ⟨x, hx⟩ := h
    exact ⟨x, (hR x).stable s s' hr hx⟩
  · intro s v h
    obtain ⟨x, hx⟩ := h
    exact ⟨x, (hR x).calls s v hx⟩

/-- A fact that no state bears on. -/
theorem Assertion.and_fact {P : PipeState σ K N → Prop} (hP : Assertion key i P) (φ : Prop) :
    Assertion key i fun s => φ ∧ P s :=
  ⟨fun s s' hr h => ⟨h.1, hP.stable s s' hr h.2⟩, fun s v h => ⟨h.1, hP.calls s v h.2⟩⟩

/-- A call that changes no handle and is no cipher call is no business of an
assertion. -/
theorem Assertion.neutral (hL : KeyedLib L key decode) {P : PipeState σ K N → Prop}
    (hP : Assertion key i P) {c : FfiCall} (hm : c.mutates = none) (hc : c.isCipher = false)
    {s : PipeState σ K N} (h : P s) : P (s.effect L key i c) := by
  have hown : c.owner (s.sessions i) = none := by
    cases ho : c.owner (s.sessions i) with
    | none => rfl
    | some g =>
        rw [FfiCall.isCipher_of_owner ho] at hc
        cases hc
  have hsessions : sessionsAfter (s.sessions i) c (L c s.lib).1 = s.sessions i := by
    cases c <;> first | rfl | cases hc
  -- but for the thread's own call, it is a step of somebody else
  have hrely : Rely key i s { s.effect L key i c with calls := s.calls } := by
    refine ⟨⟨rfl, ?_, ?_, rfl, Iff.rfl⟩, fun _ => ?_⟩
    · show Function.update s.sessions i (sessionsAfter _ c _) i = _
      rw [Function.update_self, hsessions]
    · show Function.update s.used i _ i = _
      rw [Function.update_self, hown]
      exact List.append_nil _
    · have hf : Frozen key s (s.effect L key i c) := frozen_effect_of_not_mutates hL hm
      exact ⟨hf.pipes, hf.blobs, hf.rotations, hf.keys⟩
  exact hP.calls _ _ (hP.stable _ _ hrely h)

/-! ## §2. Specifications. -/

/-- The specification of a computation of thread `i`. -/
def Spec (L : Lib σ) (key : σ → Handle → Option K) (decode : Bytes → Option K) (i : Tid N)
    (P : PipeState σ K N → Prop) (m : Task α) (ok : α → PipeState σ K N → Prop)
    (threw : Exn → PipeState σ K N → Prop) : Prop :=
  Triple (machine L key) (discipline N key decode) i (Outside i P) m
    (fun a => Outside i (ok a)) (fun e => Outside i (threw e))

variable {P P' : PipeState σ K N → Prop} {ok ok' : α → PipeState σ K N → Prop}
  {threw threw' : Exn → PipeState σ K N → Prop}

/-- The rule of consequence; the invariant may be used on all sides. -/
theorem Spec.conseq {m : Task α} (h : Spec L key decode i P m ok threw)
    (hpre : ∀ s, PipeInv key decode s → P' s → P s)
    (hok : ∀ a s, PipeInv key decode s → ok a s → ok' a s)
    (hthrew : ∀ e s, PipeInv key decode s → threw e s → threw' e s) :
    Spec L key decode i P' m ok' threw' :=
  Triple.conseq h (fun _ hi hp => ⟨hp.1, hpre _ hi hp.2⟩)
    (fun a _ hi hp => ⟨hp.1, hok a _ hi hp.2⟩) (fun e _ hi hp => ⟨hp.1, hthrew e _ hi hp.2⟩)

theorem Spec.pre {m : Task α} (h : Spec L key decode i P m ok threw)
    (hpre : ∀ s, PipeInv key decode s → P' s → P s) : Spec L key decode i P' m ok threw :=
  h.conseq hpre (fun _ _ _ h => h) (fun _ _ _ h => h)

theorem Spec.post {m : Task α} (h : Spec L key decode i P m ok threw)
    (hok : ∀ a s, PipeInv key decode s → ok a s → ok' a s)
    (hthrew : ∀ e s, PipeInv key decode s → threw e s → threw' e s) :
    Spec L key decode i P m ok' threw' :=
  h.conseq (fun _ _ h => h) hok hthrew

theorem spec_ret (hP : Assertion key i P) (a : α)
    (h : ∀ s, PipeInv key decode s → P s → ok a s) :
    Spec L key decode i P (.ret a) ok threw :=
  triple_ret a hP.outside fun _ hi hp => ⟨hp.1, h _ hi hp.2⟩

theorem spec_throw (hP : Assertion key i P) (e : Exn)
    (h : ∀ s, PipeInv key decode s → P s → threw e s) :
    Spec L key decode i P (.throw e : Task α) ok threw :=
  triple_throw e hP.outside fun _ hi hp => ⟨hp.1, h _ hi hp.2⟩

theorem spec_spin : Spec L key decode i P (.spin : Task α) ok threw := triple_spin

/-- The first computation ends where the second begins. -/
theorem spec_bind {m : Task α} {f : α → Task β} {mid : α → PipeState σ K N → Prop}
    {ok : β → PipeState σ K N → Prop} (hm : Spec L key decode i P m mid threw)
    (hf : ∀ a, Spec L key decode i (mid a) (f a) ok threw) :
    Spec L key decode i P (m >>= f) ok threw :=
  triple_bind hm hf

theorem spec_ite {c : Prop} [Decidable c] {m m' : Task α}
    (h : c → Spec L key decode i P m ok threw) (h' : ¬ c → Spec L key decode i P m' ok threw) :
    Spec L key decode i P (if c then m else m') ok threw :=
  triple_ite h h'

/-- The handler begins where the exception was thrown. -/
theorem spec_handle {m : Task α} {f : Exn → Task α} {mid : Exn → PipeState σ K N → Prop}
    (hm : Spec L key decode i P m ok mid)
    (hf : ∀ e, Spec L key decode i (mid e) (f e) ok threw) :
    Spec L key decode i P (m.handle f) ok threw :=
  triple_handle hm hf

/-- The destructor runs on both ways out, and must restore the postcondition
on each. -/
theorem spec_ensuring {m : Task α} {d : Task Unit} {mid : α → PipeState σ K N → Prop}
    {mid' : Exn → PipeState σ K N → Prop} (hm : Spec L key decode i P m mid mid')
    (hok : ∀ a, Spec L key decode i (mid a) d (fun _ => ok a) threw)
    (hthrew : ∀ e, Spec L key decode i (mid' e) d (fun _ => threw e) threw) :
    Spec L key decode i P (m.ensuring d) ok threw :=
  triple_ensuring hm hok hthrew

/-- What is shown of every witness may be assumed of one. -/
theorem spec_of_forall {γ : Type} {R : γ → PipeState σ K N → Prop} {m : Task α}
    (h : ∀ x, Spec L key decode i (R x) m ok threw) :
    Spec L key decode i (fun s => ∃ x, R x s) m ok threw := by
  intro s hi hp
  obtain ⟨hcalls, x, hx⟩ := hp
  exact h x s hi ⟨hcalls, hx⟩

/-- A fact that follows from the precondition may be assumed of the whole run.
-/
theorem spec_of_fact {φ : Prop} {m : Task α}
    (hφ : ∀ s, PipeInv key decode s → P s → φ) (h : φ → Spec L key decode i P m ok threw) :
    Spec L key decode i P m ok threw :=
  triple_of_fact (fun _ hi hp => hφ _ hi hp.2) h

/-! ## §3. Requests that leave the pipe state alone. -/

/-- Doing nothing is within every guarantee. -/
theorem guar_refl (s : PipeState σ K N) : Guar key i s s :=
  ⟨fun j _ => .refl j s, fun _ => .refl s⟩

/-- A request that only reads. -/
theorem spec_read {q : Req} {ok : q.Answer → PipeState σ K N → Prop} (hP : Assertion key i P)
    (hok : ∀ a, Assertion key i (ok a))
    (hq : ∀ (s : Shared σ K N) a s', PipeInv key decode s.toPipeState →
      answers L key i s q a s' → P s.toPipeState →
      s'.toPipeState = s.toPipeState ∧ ok a s.toPipeState) :
    Spec L key decode i P (ask q) ok threw := by
  refine triple_call hP.outside (fun a => (hok a).outside) ?_
  intro s a s' hi hp hs
  obtain ⟨hsame, ha⟩ := hq s a s' hi hs.2 hp.2
  refine ⟨?_, ?_, ?_, ?_⟩
  · show PipeInv key decode s'.toPipeState
    rw [hsame]
    exact hi
  · show Guar key i s.toPipeState s'.toPipeState
    rw [hsame]
    exact guar_refl _
  · show s'.toPipeState.calls i = none
    rw [hsame]
    exact hp.1
  · rw [hsame]
    exact ha

/-- A quiet request changes nothing that the discipline speaks of. -/
theorem toPipeState_of_quiet {q : Req} (hq : q.quiet = true) {s s' : Shared σ K N}
    {a : q.Answer} (h : answers L key i s q a s') : s'.toPipeState = s.toPipeState := by
  cases q with
  | enter | effect | leave | lockShared | unlockShared | lock | unlock | setPipe | setBlob =>
      cases hq
  -- requests that write a part of the shared state outside the pipe state
  | setSelf f =>
      obtain ⟨k, -, rfl⟩ := h
      rfl
  | storeStop | arrive | unlockDone | setActive | setFinish | exit | return_ =>
      obtain rfl := h
      rfl
  | now | signalSeen =>
      obtain rfl := h
      rfl
  -- requests that read
  | hasPipe | pipe | blob | fillRandom | fillPayload | self | loadStop | addRekeys
  | addBlobCycles | await | lockDone | getActive | join =>
      obtain ⟨-, rfl⟩ := h
      rfl

/-- So it keeps what the thread knows. -/
theorem spec_quiet {q : Req} (hP : Assertion key i P) (hq : q.quiet = true) :
    Spec L key decode i P (ask q) (fun _ => P) threw :=
  spec_read hP (fun _ => hP) fun _ _ _ _ hs hp => ⟨toPipeState_of_quiet hq hs, hp⟩

/-! ## §4. Library calls. -/

/-- Where a thread's own call stands. -/
def PipeState.setCall (s : PipeState σ K N) (i : Tid N) (v : Option (FfiCall × Option Reply)) :
    PipeState σ K N :=
  { s with calls := Function.update s.calls i v }

/-- A call that enters, is answered or returns keeps the invariant, if the
thread holds the side of the lock that the call needs. -/
theorem inv_setCall {s : PipeState σ K N} (hi : PipeInv key decode s)
    {v : Option (FfiCall × Option Reply)}
    (hside : ∀ c a, v = some (c, a) →
      (c.mutates ≠ none → s.writer = some i) ∧ (c.isCipher = true → s.readers i = true)) :
    PipeInv key decode (s.setCall i v) := by
  refine ⟨hi.lock, hi.distinct, hi.matched, ?_, hi.sessions, hi.uniform⟩
  intro j c a hj
  by_cases hji : j = i
  · subst hji
    have hself : (s.setCall j v).calls j = v := Function.update_self ..
    rw [hself] at hj
    exact hside c a hj
  · have hother : (s.setCall i v).calls j = s.calls j := Function.update_of_ne hji _ _
    rw [hother] at hj
    exact hi.calls j c a hj

/-- It is nobody else's call. -/
theorem guar_setCall (s : PipeState σ K N) (v : Option (FfiCall × Option Reply)) :
    Guar key i s (s.setCall i v) :=
  ⟨fun _ hj => ⟨Function.update_of_ne hj _ _, rfl, rfl, rfl, Iff.rfl⟩,
    fun _ => ⟨rfl, rfl, rfl, fun _ _ h => h⟩⟩

/-- Thread `i` has a call inside the library, with `P`. -/
def Inside (i : Tid N) (c : FfiCall) (a : Option Reply) (P : PipeState σ K N → Prop)
    (s : Shared σ K N) : Prop :=
  s.calls i = some (c, a) ∧ P s.toPipeState

/-- What no other thread can change stays true inside a call. -/
theorem Assertion.inside (hP : Assertion key i P) (c : FfiCall) (a : Option Reply) :
    Stable (discipline N key decode) i (Inside i c a P) := by
  intro s s' _ _ hr h
  exact ⟨hr.own.calls.trans h.1, hP.stable _ _ hr h.2⟩

/-- **A library call**: what thread `i` has to know to make it, and what it
knows once the call has taken effect. -/
theorem spec_libraryCall (hL : KeyedLib L key decode) {c : FfiCall}
    {ok : Reply → PipeState σ K N → Prop} (hP : Assertion key i P)
    (hok : ∀ r, Assertion key i (ok r))
    (hside : ∀ s, P s →
      (c.mutates ≠ none → s.writer = some i) ∧ (c.isCipher = true → s.readers i = true))
    (hagrees : ∀ s, P s → Agrees key i c s)
    (heff : ∀ s, PipeInv key decode s → P s → ok (L c s.lib).1 (s.effect L key i c)) :
    Spec L key decode i P (libraryCall c) ok threw := by
  -- the three requests, each with what the thread knows after it
  have henter : Triple (machine L key) (discipline N key decode) i (Outside i P)
      (ask (.enter c)) (fun _ => Inside i c none P) (fun e => Outside i (threw e)) := by
    refine triple_call hP.outside (fun _ => hP.inside c none) ?_
    intro s a s' hi hp hs
    obtain ⟨-, -, rfl⟩ := hs
    refine ⟨?_, guar_setCall _ _, Function.update_self .., hP.calls _ _ hp.2⟩
    apply inv_setCall hi
    intro c' a' hc
    injection hc with hc
    injection hc with hc _
    exact hc ▸ hside _ hp.2
  have heffect : Triple (machine L key) (discipline N key decode) i (Inside i c none P)
      (ask .effect) (fun _ s => ∃ r, Inside i c (some r) (ok r) s)
      (fun e => Outside i (threw e)) := by
    refine triple_call (hP.inside c none) (fun _ => ?_) ?_
    · intro s s' hi hi' hr h
      obtain ⟨r, h⟩ := h
      exact ⟨r, (hok r).inside c (some r) s s' hi hi' hr h⟩
    · intro s a s' hi hp hs
      obtain ⟨-, c', hc', rfl⟩ := hs
      rw [hp.1] at hc'
      injection hc' with hc'
      injection hc' with hc' _
      subst hc'
      refine ⟨inv_effect hL hi hp.1 (hagrees _ hp.2), guar_effect hL hi hp.1, ?_⟩
      exact ⟨(L c s.lib).1, Function.update_self .., heff _ hi hp.2⟩
  have hleave : ∀ r, Triple (machine L key) (discipline N key decode) i
      (Inside i c (some r) (ok r)) (ask .leave) (fun r => Outside i (ok r))
      (fun e => Outside i (threw e)) := by
    intro r
    refine triple_call ((hok r).inside c (some r)) (fun r' => (hok r').outside) ?_
    intro s a s' hi hp hs
    obtain ⟨-, c', hc', rfl⟩ := hs
    rw [hp.1] at hc'
    injection hc' with hc'
    injection hc' with _ hr'
    injection hr' with hr'
    subst hr'
    refine ⟨?_, guar_setCall _ _, Function.update_self .., (hok r).calls _ _ hp.2⟩
    exact inv_setCall hi fun c' a' hc => by cases hc
  exact triple_bind henter fun _ => triple_bind heffect fun _ => triple_of_forall hleave

/-- A call that neither changes a handle nor uses one. -/
theorem spec_neutral (hL : KeyedLib L key decode) (hP : Assertion key i P) {c : FfiCall}
    (hm : c.mutates = none) (hc : c.isCipher = false) :
    Spec L key decode i P (libraryCall c) (fun _ => P) threw := by
  refine spec_libraryCall hL hP (fun _ => hP) (fun s _ => ?_) (fun s _ h ho => ?_)
    fun s _ h => hP.neutral hL hm hc h
  · exact ⟨fun h => (h hm).elim, fun h => by rw [hc] at h; cases h⟩
  · rw [FfiCall.isCipher_of_owner ho] at hc
    cases hc

/-! ## §5. Entries of the binding. -/

@[simp] theorem lib_ret (a : α) : lib (Thread.ret a : Call α) = .ret a := rfl

@[simp] theorem lib_throw (e : Exn) : lib (Thread.throw e : Call α) = .throw e := rfl

/-- The translation of the binding into requests goes through every construct.
-/
@[simp] theorem lib_bind (m : Call α) (f : α → Call β) :
    lib (m >>= f) = lib m >>= fun a => lib (f a) := Thread.translate_bind _ m f

@[simp] theorem lib_ite (c : Prop) [Decidable c] (m m' : Call α) :
    lib (if c then m else m') = if c then lib m else lib m' := Thread.translate_ite _ c m m'

@[simp] theorem lib_ffi (c : FfiCall) : lib (Call.ffi c) = libraryCall c :=
  Thread.translate_call serveCall (Ask.ffi c)

@[simp] theorem lib_emit (e : Event) : lib (Call.emit e) = .ret () := rfl

/-- An event that only the trace sees cannot throw, so scopes go through as
well. -/
theorem lib_ensuring (m : Call α) (d : Call Unit) :
    lib (Thread.ensuring m d) = Thread.ensuring (lib m) (lib d) := by
  refine Thread.translate_ensuring serveCall ?_ m d
  intro q
  cases q with
  | ffi c => exact fun _ _ r => trivial
  | emit e => trivial

/-- `last_error`, and with it `fail`, leaves every assertion alone. -/
theorem spec_lastError (hL : KeyedLib L key decode) (hP : Assertion key i P) :
    Spec L key decode i P (lib Call.lastError) (fun _ => P) threw := by
  have hcall : ∀ n, Spec L key decode i P (libraryCall (.lastError n)) (fun _ => P) threw :=
    fun n => spec_neutral hL hP rfl rfl
  have hret : ∀ b : Bytes, Spec L key decode i P (.ret b) (fun _ => P) threw :=
    fun b => spec_ret hP b fun _ _ h => h
  unfold Call.lastError
  simp only [lib_bind, lib_ffi, lib_ite, Thread.pure_eq_ret, lib_ret]
  refine spec_bind (hcall _) fun r => spec_ite (fun _ => hret _) fun _ => ?_
  refine spec_ite (fun _ => spec_bind (hcall _) fun r' => ?_) fun _ => hret _
  exact spec_ite (fun _ => hret _) fun _ => hret _

/-- `fail` throws, and the thread knows what it knew. -/
theorem spec_fail (hL : KeyedLib L key decode) (hP : Assertion key i P) (rc : Int)
    (what : String) : Spec L key decode i P (lib (Call.fail rc what : Call α)) ok (fun _ => P) := by
  unfold Call.fail
  simp only [lib_bind, lib_throw]
  exact spec_bind (spec_lastError hL hP) fun _ => spec_throw hP _ fun _ _ h => h

/-- `check` lets the code 0 through and no other. -/
theorem spec_check (hL : KeyedLib L key decode) (hP : Assertion key i P) (rc : Int)
    (what : String) :
    Spec L key decode i P (lib (Call.check rc what)) (fun _ s => rc = 0 ∧ P s)
      (fun _ s => rc ≠ 0 ∧ P s) := by
  unfold Call.check
  simp only [lib_ite, Thread.pure_eq_ret, lib_ret]
  refine spec_ite (fun hrc => ?_) fun hrc => ?_
  · exact (spec_fail hL hP rc what).post (fun _ _ _ h => h) fun _ _ _ h => ⟨hrc, h⟩
  · exact spec_ret hP () fun _ _ h => ⟨not_not.mp hrc, h⟩

/-- The tail of the retry-once machine: what the last answer was judged to
be. -/
theorem spec_checkedPrefix (hL : KeyedLib L key decode) (hP : Assertion key i P) (buf : Bytes)
    (r : Reply) (what : String) :
    Spec L key decode i P (lib (Call.checkedPrefix buf r what))
      (fun bytes s => (r.rc = 0 ∧ r.len ≤ buf.length ∧ bytes = buf.take r.len) ∧ P s)
      (fun _ s => (r.rc = 0 → buf.length < r.len) ∧ P s) := by
  unfold Call.checkedPrefix
  simp only [lib_bind, lib_ite, Thread.pure_eq_ret, lib_ret]
  refine spec_bind ((spec_check hL hP r.rc what).post (fun _ _ _ h => h) ?_) fun _ => ?_
  · exact fun _ _ _ h => ⟨fun hrc => absurd hrc h.1, h.2⟩
  · have hP' : Assertion key i fun s => r.rc = 0 ∧ P s := hP.and_fact _
    refine spec_ite (fun hlen => ?_) fun hlen => ?_
    · exact (spec_fail hL hP' _ what).post (fun _ _ _ h => h) fun _ _ _ h => ⟨fun _ => hlen, h.2⟩
    · exact spec_ret hP' _ fun _ _ h => ⟨⟨h.1, Nat.le_of_not_lt hlen, rfl⟩, h.2⟩

/-- What the retry-once machine returns: the bytes of a good last answer to
a call with capacity `n`. -/
structure Judged (block : Nat → Bytes) (n : Nat) (x : Bytes × Reply) : Prop where
  good : x.2.rc = 0
  fits : x.2.len ≤ n
  bytes : x.1 = (Buffer.overlay (block n) x.2.out).take x.2.len

/-- What it returns is what was delivered. -/
theorem Judged.eq_of_delivered {n : Nat} {x : Bytes × Reply} {blob : Bytes}
    (hj : Judged zeros n x) (hd : Delivered x.2 n blob) : x.1 = blob := by
  have hroom : x.2.len ≤ (zeros n).length := by
    rw [length_zeros]
    exact hd.fits
  rw [hj.bytes, Buffer.take_overlay hd.written hroom, hd.bytes]

/-- **The retry-once machine.**  `after n r` is known once a call with
capacity `n` was answered `r`; an answer that asks for more must leave
what the first call needs. -/
theorem spec_retryOnce (hL : KeyedLib L key decode) {call : Nat → FfiCall} {cap : Nat}
    {block : Nat → Bytes} (hblock : ∀ n, (block n).length = n) {scrub : Bytes → Bytes}
    {what : String} {after : Nat → Reply → PipeState σ K N → Prop}
    (hafter : ∀ n r, Assertion key i (after n r))
    (hcall : ∀ n threw, Spec L key decode i P (libraryCall (call n)) (after n) threw)
    (hretry : ∀ n r s, r.rc ≠ 0 → after n r s → P s) :
    Spec L key decode i P (lib (Call.retryOnce call cap block scrub what))
      (fun x s => ∃ n, Judged block n x ∧ after n x.2 s)
      (fun _ s => ∃ n r, (r.rc = 0 → n < r.len) ∧ after n r s) := by
  -- what is left once the last answer is in
  have htail : ∀ n r, Spec L key decode i (after n r)
      (lib (Thread.ensuring (do
          let bytes ← Call.checkedPrefix (Buffer.overlay (block n) r.out) r what
          pure (bytes, r)) (Call.emit (.dealloc (scrub (Buffer.overlay (block n) r.out))))))
      (fun x s => ∃ n, Judged block n x ∧ after n x.2 s)
      (fun _ s => ∃ n r, (r.rc = 0 → n < r.len) ∧ after n r s) := by
    intro n r
    rw [lib_ensuring]
    simp only [lib_bind, lib_emit, Thread.pure_eq_ret, lib_ret]
    have hlen : (Buffer.overlay (block n) r.out).length = n := by
      rw [Buffer.length_overlay, hblock]
    have hchecked := spec_checkedPrefix hL (hafter n r) (Buffer.overlay (block n) r.out) r what
    rw [hlen] at hchecked
    have hbody : Spec L key decode i (after n r)
        (lib (Call.checkedPrefix (Buffer.overlay (block n) r.out) r what) >>= fun bytes =>
          Thread.ret (bytes, r))
        (fun x s => (x.2 = r ∧ Judged block n x) ∧ after n r s)
        (fun _ s => (r.rc = 0 → n < r.len) ∧ after n r s) := by
      refine spec_bind hchecked fun bytes => spec_ret ((hafter n r).and_fact _) _ fun s _ h => ?_
      exact ⟨⟨rfl, h.1.1, h.1.2.1, h.1.2.2⟩, h.2⟩
    refine spec_ensuring hbody (fun x => ?_) fun e => ?_
    · refine spec_ret ((hafter n r).and_fact _) _ fun s _ h => ⟨n, h.1.2, ?_⟩
      rw [h.1.1]
      exact h.2
    · exact spec_ret ((hafter n r).and_fact _) _ fun s _ h => ⟨n, r, h⟩
  unfold Call.retryOnce
  simp only [lib_bind, lib_ffi]
  refine spec_bind (hcall cap _) fun r₁ => ?_
  by_cases hmore : r₁.asksForMore cap
  · have hrc : r₁.rc ≠ 0 := by
      rw [hmore.1]
      decide
    simp only [if_pos hmore, lib_bind, lib_emit, lib_ffi, Thread.ret_bind, Thread.pure_eq_ret]
    refine spec_bind ((hcall r₁.len _).pre fun s _ h => hretry cap r₁ s hrc h) fun r₂ => ?_
    exact htail r₁.len r₂
  · simp only [if_neg hmore, Thread.pure_eq_ret, Thread.ret_bind]
    exact htail cap r₁

/-! ## §6. Errors. -/

/-- `attempt` catches the errors of the binding. -/
theorem spec_attempt {m : Task α} {ok : α → PipeState σ K N → Prop}
    (hok : ∀ a, Assertion key i (ok a)) (hthrew : ∀ e, Assertion key i (threw e))
    (hm : Spec L key decode i P m ok threw) :
    Spec L key decode i P (attempt m)
      (fun x s =>
        match x with
        | .ok a => ok a s
        | .error e => threw (.error e) s)
      threw := by
  unfold attempt
  refine spec_handle (spec_bind hm fun a => ?_) fun e => ?_
  · exact spec_ret (hok a) _ fun _ _ h => h
  · cases e with
    | error e => exact spec_ret (hthrew _) _ fun _ _ h => h
    -- not caught: it passes through the handler
    | invalidArgument what => exact spec_throw (hthrew _) _ fun _ _ h => h

/-- Recording an error changes none of the Pipelines. -/
theorem spec_workerFail (hP : Assertion key i P) (t : Bytes) :
    Spec L key decode i P (workerFail t) (fun _ => P) threw :=
  spec_bind (spec_quiet hP rfl) fun _ => spec_quiet hP rfl

/-- Nor does reading its text. -/
theorem spec_detail (hL : KeyedLib L key decode) (hP : Assertion key i P) (e : Error) :
    Spec L key decode i P (detail e) (fun _ => P) threw :=
  spec_bind (spec_lastError hL hP) fun _ => spec_ret hP _ fun _ _ h => h

end Rules

end ItbCpp.Loop
