/-
  ItbCpp.Loop.Iteration
  ─────────────────────
  **THE READ SIDE.**

  `iterate`, under the discipline.  A thread with the read lock relies on
  pipes and keyings staying as they are, so every handle it takes out of a
  pipe is the one its iteration has used so far, with the same keying.

    • `spec_use` — a cipher call on the handle or on a session of it,
    • `spec_pump` — a session is closed on every way out of the pump,
    • `spec_iterate` — from idle to idle,
    • `spec_workerMain`, `spec_mainThread` — the threads.
-/
import ItbCpp.Loop.Maintenance

namespace ItbCpp.Loop

open Interleave

section Iteration

variable {σ K : Type} {N : Nat} {L : Lib σ} {key : σ → Handle → Option K}
  {decode : Bytes → Option K} {i : Tid N} {α : Type}

/-! ## §1. Holding the read side. -/

/-- Thread `i` holds the read side and has no session open. -/
structure Entered (i : Tid N) (s : PipeState σ K N) : Prop where
  reader : s.readers i = true
  closed : s.sessions i = []

/-- So far the iteration has used the handle of `p` only, with the keying
it has now. -/
structure Trip (key : σ → Handle → Option K) (i : Tid N) (p : Pipe) (s : PipeState σ K N) :
    Prop extends Entered i s where
  used : ∀ e ∈ s.used i, s.pipes p = some e.handle ∧
    ∃ k, key s.lib e.handle = some k ∧ e.keying = some k

/-- The iteration works on the handle `h` of `p`, with keying `k`, and has
the sessions `ss` open. -/
structure Reading (key : σ → Handle → Option K) (i : Tid N) (p : Pipe) (h : Handle) (k : K)
    (ss : List (Handle × Handle)) (s : PipeState σ K N) : Prop where
  reader : s.readers i = true
  pipe : s.pipes p = some h
  live : key s.lib h = some k
  sessions : s.sessions i = ss
  used : ∀ e ∈ s.used i, e.handle = h ∧ e.keying = some k

theorem assertion_entered : Assertion key i (Entered i : PipeState σ K N → Prop) :=
  ⟨fun _ _ hr h => ⟨hr.own.readers.trans h.reader, hr.own.sessions.trans h.closed⟩,
    fun _ _ h => ⟨h.reader, h.closed⟩⟩

theorem assertion_trip (p : Pipe) :
    Assertion key i (Trip key i p : PipeState σ K N → Prop) := by
  constructor
  · intro s s' hr h
    have hf : Frozen key s s' := hr.frozen (Or.inl h.reader)
    refine ⟨assertion_entered.stable s s' hr h.toEntered, ?_⟩
    rw [hr.own.used, hf.pipes]
    intro e he
    obtain ⟨hp, k, hk, hek⟩ := h.used e he
    exact ⟨hp, k, hf.keys _ k hk, hek⟩
  · exact fun s v h => ⟨⟨h.reader, h.closed⟩, h.used⟩

theorem assertion_reading (p : Pipe) (h : Handle) (k : K) (ss : List (Handle × Handle)) :
    Assertion key i (Reading key i p h k ss : PipeState σ K N → Prop) := by
  constructor
  · intro s s' hr hs
    have hf : Frozen key s s' := hr.frozen (Or.inl hs.reader)
    refine ⟨hr.own.readers.trans hs.reader, hf.pipes ▸ hs.pipe, hf.keys h k hs.live,
      hr.own.sessions.trans hs.sessions, ?_⟩
    rw [hr.own.used]
    exact hs.used
  · exact fun s v hs => ⟨hs.reader, hs.pipe, hs.live, hs.sessions, hs.used⟩

theorem Reading.trip {p : Pipe} {h : Handle} {k : K} {s : PipeState σ K N}
    (hs : Reading key i p h k [] s) : Trip key i p s := by
  refine ⟨⟨hs.reader, hs.sessions⟩, fun e he => ?_⟩
  obtain ⟨rfl, hek⟩ := hs.used e he
  exact ⟨hs.pipe, k, hs.live, hek⟩

variable {threw : Exn → PipeState σ K N → Prop}

theorem spec_lockShared :
    Spec L key decode i (Idle i) (ask .lockShared)
      (fun _ s => Entered i s ∧ s.used i = []) threw := by
  have hok : Assertion key i fun s : PipeState σ K N => Entered i s ∧ s.used i = [] :=
    ⟨fun s s' hr h => ⟨assertion_entered.stable s s' hr h.1, hr.own.used.trans h.2⟩,
      fun s v h => ⟨⟨h.1.reader, h.1.closed⟩, h.2⟩⟩
  refine triple_call assertion_idle.outside (fun _ => hok.outside) ?_
  intro s a s' hi hout hs
  obtain ⟨hcall, hp⟩ := hout
  obtain ⟨-, hnone, rfl⟩ := hs
  refine ⟨⟨?_, hi.distinct, hi.matched, ?_, ?_, ?_⟩, ⟨?_, ?_⟩, hcall, ⟨?_, hp.closed⟩, ?_⟩
  · intro j hj
    have hside : s.writer = some j := hj
    rw [hnone] at hside
    cases hside
  · intro j c b hj
    obtain ⟨hm, hc⟩ := hi.calls j c b hj
    refine ⟨hm, fun hcipher => ?_⟩
    by_cases hji : j = i
    · subst hji
      exact Function.update_self ..
    · exact (Function.update_of_ne hji ..).trans (hc hcipher)
  · intro j hj
    by_cases hji : j = i
    · subst hji
      exact Function.update_self ..
    · exact (Function.update_of_ne hji ..).trans (hi.sessions j hj)
  -- thread `i` starts counting anew, the others go on
  · intro j hj
    by_cases hji : j = i
    · subst hji
      exact (hj (Function.update_self ..)).elim
    · have hsame : Function.update s.used i [] j = s.used j := Function.update_of_ne hji ..
      show ∃ h k, ∀ e ∈ Function.update s.used i [] j, e.handle = h ∧ e.keying = some k
      rw [hsame]
      apply hi.uniform j
      rw [← hsame]
      exact hj
  · intro j hj
    exact ⟨rfl, rfl, Function.update_of_ne hj .., Function.update_of_ne hj .., Iff.rfl⟩
  · exact fun _ => ⟨rfl, rfl, rfl, fun _ _ h => h⟩
  · exact Function.update_self ..
  · exact Function.update_self ..

theorem spec_unlockShared :
    Spec L key decode i (Entered i) (ask .unlockShared) (fun _ => Idle i) threw := by
  refine triple_call assertion_entered.outside (fun _ => assertion_idle.outside) ?_
  intro s a s' hi hout hs
  obtain ⟨hcall, hp⟩ := hout
  obtain ⟨-, rfl⟩ := hs
  refine ⟨⟨?_, hi.distinct, hi.matched, ?_, ?_, hi.uniform⟩, ⟨?_, ?_⟩, hcall, ?_, ?_, hp.closed⟩
  -- one reader less excludes no writer
  · intro j hj l
    by_cases hli : l = i
    · subst hli
      exact Function.update_self ..
    · exact (Function.update_of_ne hli ..).trans (hi.lock j hj l)
  · intro j c b hj
    obtain ⟨hm, hc⟩ := hi.calls j c b hj
    refine ⟨hm, fun hcipher => ?_⟩
    by_cases hji : j = i
    · -- thread `i` is outside the library
      subst hji
      have hcalls : s.calls j = some (c, b) := hj
      rw [hcall] at hcalls
      cases hcalls
    · exact (Function.update_of_ne hji ..).trans (hc hcipher)
  · intro j hj
    by_cases hji : j = i
    · subst hji
      exact (hj hp.closed).elim
    · exact (Function.update_of_ne hji ..).trans (hi.sessions j hj)
  · intro j hj
    exact ⟨rfl, rfl, rfl, Function.update_of_ne hj .., Iff.rfl⟩
  · exact fun _ => ⟨rfl, rfl, rfl, fun _ _ h => h⟩
  · exact Function.update_self ..
  · intro hw
    have hfree := hi.lock i hw i
    rw [hp.reader] at hfree
    cases hfree

/-- **The handle of a pipe**: it is live, and the one used so far. -/
theorem spec_deref (p : Pipe) :
    Spec L key decode i (Trip key i p) (ask (.pipe p))
      (fun h s => ∃ k, Reading key i p h k [] s) threw := by
  refine spec_read (assertion_trip p)
    (fun h => Assertion.exists_ fun k => assertion_reading p h k []) ?_
  intro s₀ h s hi hq hs
  obtain ⟨hp, rfl⟩ := hq
  -- a reader excludes a writer, so the pipes match
  have hnone : s.writer = none := by
    cases hw : s.writer with
    | none => rfl
    | some j =>
        have hfree := hi.lock j hw i
        rw [hs.reader] at hfree
        cases hfree
  obtain ⟨-, k, hk, -⟩ := hi.matched hnone p h hp
  refine ⟨rfl, k, hs.reader, hp, hk, hs.closed, fun e he => ?_⟩
  obtain ⟨hpe, k', hk', hek⟩ := hs.used e he
  obtain rfl : h = e.handle := Option.some.inj (hp.symm.trans hpe)
  exact ⟨rfl, hek.trans (hk'.symm.trans hk)⟩

/-! ## §2. Cipher calls. -/

/-- **A cipher call**, on the handle or on a session of it. -/
theorem spec_use (hL : KeyedLib L key decode) {p : Pipe} {h : Handle} {k : K}
    {ss : List (Handle × Handle)} {c : FfiCall} (hc : c.isCipher = true)
    (howner : ∀ g, c.owner ss = some g → g = h) :
    Spec L key decode i (Reading key i p h k ss) (libraryCall c)
      (fun r => Reading key i p h k (sessionsAfter ss c r)) threw := by
  have hmut : c.mutates = none := FfiCall.not_mutates_of_isCipher hc
  refine spec_libraryCall hL (assertion_reading p h k ss)
    (fun r => assertion_reading p h k _) ?_ ?_ ?_
  · exact fun s hs => ⟨fun hm => (hm hmut).elim, fun _ => hs.reader⟩
  · intro s hs g hg
    rw [hs.sessions] at hg
    obtain rfl := howner g hg
    exact ⟨k, hs.live, hs.used⟩
  · intro s _ hs
    have hf : Frozen key s (s.effect L key i c) := frozen_effect_of_not_mutates hL hmut
    refine ⟨hs.reader, hs.pipe, hf.keys h k hs.live, ?_, ?_⟩
    · have hafter : (s.effect L key i c).sessions i =
          sessionsAfter (s.sessions i) c (L c s.lib).1 := Function.update_self ..
      rw [hafter, hs.sessions]
    · cases ho : c.owner (s.sessions i) with
      | none =>
          have hsame : (s.effect L key i c).used i = s.used i := by
            simp [PipeState.effect, ho]
          rw [hsame]
          exact hs.used
      | some g =>
          obtain rfl : g = h := howner g (hs.sessions ▸ ho)
          exact used_effect hL ho hs.live hs.used

/-- A computation that leaves `P` as it is, whichever way it ends. -/
abbrev Keeps (L : Lib σ) (key : σ → Handle → Option K) (decode : Bytes → Option K) (i : Tid N)
    (P : PipeState σ K N → Prop) (m : Task α) : Prop :=
  Spec L key decode i P m (fun _ => P) (fun _ => P)

/-- The whole-buffer entries. -/
theorem keeps_cipherCall (hL : KeyedLib L key decode) (junk : Nat → Nat → UInt8)
    (p : Pipe) (h : Handle) (k : K) (fn : CipherFn) (src : Bytes) (what : String) :
    Keeps L key decode i (Reading key i p h k [])
      (lib (Call.cipherCall junk h fn src what)) := by
  have hcall : ∀ n threw, Spec L key decode i (Reading key i p h k [])
      (libraryCall (fn.call h src n)) (fun _ => Reading key i p h k []) threw := by
    intro n threw
    -- the four functions work on the handle itself and open no session
    have hkind : (fn.call h src n).isCipher = true ∧
        (∀ g, (fn.call h src n).owner [] = some g → g = h) ∧
        ∀ r, sessionsAfter [] (fn.call h src n) r = [] := by
      cases fn <;> exact ⟨rfl, fun g hg => (Option.some.inj hg).symm, fun _ => rfl⟩
    refine (spec_use hL hkind.1 hkind.2.1).post (fun r s _ hs => ?_) fun _ _ _ hs => hs
    rw [hkind.2.2 r] at hs
    exact hs
  have hrun : Spec L key decode i (Reading key i p h k [])
      (lib (Call.retryOnce (fn.call h src) (outCap src.length) (uninit junk) id what))
      (fun x s => ∃ n, Judged (uninit junk) n x ∧ Reading key i p h k [] s)
      (fun _ s => ∃ (n : Nat) (r : Reply), (r.rc = 0 → n < r.len) ∧ Reading key i p h k [] s) :=
    spec_retryOnce hL (length_uninit junk) (fun _ _ => assertion_reading p h k []) hcall
      fun _ _ _ _ hs => hs
  have hback : Assertion key i (Reading key i p h k [] : PipeState σ K N → Prop) :=
    assertion_reading p h k []
  unfold Call.cipherCall
  rw [lib_bind]
  refine spec_bind (hrun.post (fun _ _ _ hs => ?_) fun _ _ _ hs => ?_) fun x =>
    spec_ret hback _ fun _ _ hs => hs
  · obtain ⟨n, -, hs⟩ := hs
    exact hs
  · obtain ⟨n, r, -, hs⟩ := hs
    exact hs

/-! ## §3. Sessions. -/

/-- The sessions of a thread that has just begun the session `x` on `h`. -/
def opened (x h : Handle) : List (Handle × Handle) := if x ≠ 0 then [(x, h)] else []

/-- A session handle leads to the Pipeline handle it was begun on. -/
theorem lookup_opened {x h g : Handle} (hg : (opened x h).lookup x = some g) : g = h := by
  unfold opened at hg
  split at hg
  · simpa using hg.symm
  · cases hg

/-- A session that is gone leaves none. -/
theorem sessionsAfter_streamFree {x h : Handle} (r : Reply) :
    sessionsAfter (opened x h) (.streamFree x) r = [] := by
  unfold opened
  split <;> simp [sessionsAfter]

variable {p : Pipe} {h : Handle} {k : K}

/-- `encrypt_stream_begin` and `decrypt_stream_begin`: an exception means
that there is no session. -/
theorem spec_begin (hL : KeyedLib L key decode) (encrypt : Bool) :
    Spec L key decode i (Reading key i p h k [])
      (lib (if encrypt then Call.encryptStreamBegin { handle := h }
        else Call.decryptStreamBegin { handle := h }))
      (fun session => Reading key i p h k (opened session.handle h))
      (fun _ => Reading key i p h k [] : Exn → PipeState σ K N → Prop) := by
  -- the two entries differ in the call and in the text of the error
  have hentry : ∀ (c : FfiCall) (what : String), c.isCipher = true → c.owner [] = some h →
      (∀ r, sessionsAfter [] c r = if r.rc = 0 ∧ r.handle ≠ 0 then [(r.handle, h)] else []) →
      Spec L key decode i (Reading key i p h k [])
        (libraryCall c >>= fun r => lib (Call.check r.rc what) >>= fun _ =>
          Thread.ret ({ handle := r.handle } : Stream))
        (fun session => Reading key i p h k (opened session.handle h))
        (fun _ => Reading key i p h k []) := by
    intro c what hc howner hafter
    have hcall : Spec L key decode i (Reading key i p h k []) (libraryCall c)
        (fun r => Reading key i p h k (sessionsAfter [] c r))
        (fun _ => Reading key i p h k []) :=
      spec_use hL hc fun g hg => Option.some.inj (hg.symm.trans howner)
    have hstable : ∀ r, Assertion key i
        (Reading key i p h k (sessionsAfter [] c r) : PipeState σ K N → Prop) :=
      fun r => assertion_reading p h k _
    refine spec_bind hcall fun r => spec_bind
      ((spec_check hL (hstable r) r.rc what).post (fun _ _ _ hs => hs) ?_) fun _ =>
      spec_ret ((hstable r).and_fact _) _ fun s _ hs => ?_
    -- refused: the library has opened nothing
    · intro e s _ hs
      have hnone : sessionsAfter [] c r = [] := by
        rw [hafter]
        exact if_neg fun hr => hs.1 hr.1
      rw [← hnone]
      exact hs.2
    -- granted: the session is open from the call on
    · have hsome : sessionsAfter [] c r = opened r.handle h := by
        rw [hafter, opened]
        simp [hs.1]
      rw [← hsome]
      exact hs.2
  rw [lib_ite]
  refine spec_ite (fun _ => ?_) fun _ => ?_
  · unfold Call.encryptStreamBegin
    simp only [lib_bind, lib_ffi, lib_emit, Thread.pure_eq_ret, lib_ret, Thread.ret_bind]
    exact hentry (.encryptStreamBegin h) _ rfl rfl fun _ => rfl
  · unfold Call.decryptStreamBegin
    simp only [lib_bind, lib_ffi, lib_emit, Thread.pure_eq_ret, lib_ret, Thread.ret_bind]
    exact hentry (.decryptStreamBegin h) _ rfl rfl fun _ => rfl

/-- The calls of `write`, `end` and `read`. -/
theorem spec_sessionCall (hL : KeyedLib L key decode) (session : Stream) {c : FfiCall}
    (hc : c.isCipher = true) (howner : ∀ ss, c.owner ss = ss.lookup session.handle)
    (hafter : ∀ ss r, sessionsAfter ss c r = ss) :
    Spec L key decode i (Reading key i p h k (opened session.handle h)) (libraryCall c)
      (fun _ => Reading key i p h k (opened session.handle h)) threw := by
  refine (spec_use hL hc fun g hg => ?_).post (fun r s _ hs => ?_) fun _ _ _ hs => hs
  · rw [howner] at hg
    exact lookup_opened hg
  · rw [hafter] at hs
    exact hs

/-- `~Stream` closes the session. -/
theorem spec_destroyStream (hL : KeyedLib L key decode) (session : Stream) :
    Spec L key decode i (Reading key i p h k (opened session.handle h))
      (lib (Call.destroyStream session)) (fun _ => Reading key i p h k [])
      (fun _ => Reading key i p h k [] : Exn → PipeState σ K N → Prop) := by
  have hopen : Assertion key i
      (Reading key i p h k (opened session.handle h) : PipeState σ K N → Prop) :=
    assertion_reading p h k _
  have hclosed : Assertion key i (Reading key i p h k [] : PipeState σ K N → Prop) :=
    assertion_reading p h k _
  have hfree : ∀ threw, Spec L key decode i (Reading key i p h k (opened session.handle h))
      (libraryCall (.streamFree session.handle)) (fun _ => Reading key i p h k []) threw := by
    intro threw
    have howner : ∀ g, (FfiCall.streamFree session.handle).owner (opened session.handle h) =
        some g → g = h := fun g hg => lookup_opened hg
    refine (spec_use hL rfl howner).post (fun r s _ hs => ?_) fun _ _ _ hs => hs
    rw [sessionsAfter_streamFree] at hs
    exact hs
  unfold Call.destroyStream Call.close
  simp only [lib_bind, lib_ite, lib_ffi, Thread.pure_eq_ret, lib_ret]
  by_cases hz : session.handle ≠ 0
  · rw [if_pos hz]
    exact spec_bind (spec_bind (hfree _) fun _ => spec_ret hclosed _ fun _ _ hs => hs) fun _ =>
      spec_ret hclosed _ fun _ _ hs => hs
  · rw [if_neg hz]
    -- a session object without a handle never had a session
    have hnone : opened session.handle h = [] := if_neg hz
    rw [hnone]
    exact spec_ret hclosed _ fun _ _ hs => hs

/-! ## §4. The pump. -/

theorem keeps_check (hL : KeyedLib L key decode) {P : PipeState σ K N → Prop}
    (hP : Assertion key i P) (rc : Int) (what : String) :
    Keeps L key decode i P (lib (Call.check rc what)) :=
  (spec_check hL hP rc what).post (fun _ _ _ hs => hs.2) fun _ _ _ hs => hs.2

section Pump

variable (p h k)

/-- With the session of the pump open. -/
theorem assertion_pumping (session : Stream) : Assertion key i
    (Reading key i p h k (opened session.handle h) : PipeState σ K N → Prop) :=
  assertion_reading p h k _

theorem keeps_write (hL : KeyedLib L key decode) (session : Stream) (src : Bytes) :
    Keeps L key decode i (Reading key i p h k (opened session.handle h))
      (lib (Call.write session src)) := by
  unfold Call.write
  simp only [lib_bind, lib_ffi]
  exact spec_bind (spec_sessionCall hL session rfl (fun _ => rfl) fun _ _ => rfl) fun r =>
    keeps_check hL (assertion_pumping p h k session) r.rc _

theorem keeps_end (hL : KeyedLib L key decode) (session : Stream) :
    Keeps L key decode i (Reading key i p h k (opened session.handle h))
      (lib (Call.end_ session)) := by
  unfold Call.end_
  simp only [lib_bind, lib_ffi]
  exact spec_bind (spec_sessionCall hL session rfl (fun _ => rfl) fun _ _ => rfl) fun r =>
    keeps_check hL (assertion_pumping p h k session) r.rc _

theorem keeps_read (hL : KeyedLib L key decode) (session : Stream) (dst : Bytes) :
    Keeps L key decode i (Reading key i p h k (opened session.handle h))
      (lib (Call.read session dst)) := by
  have hopen : Assertion key i
      (Reading key i p h k (opened session.handle h) : PipeState σ K N → Prop) :=
    assertion_pumping p h k session
  unfold Call.read
  simp only [lib_bind, lib_ffi, Thread.pure_eq_ret, lib_ret]
  refine spec_bind (spec_sessionCall hL session rfl (fun _ => rfl) fun _ _ => rfl) fun r => ?_
  exact spec_bind (keeps_check hL hopen r.rc _) fun _ => spec_ret hopen _ fun _ _ hs => hs

theorem keeps_readChunk (hL : KeyedLib L key decode) (session : Stream) :
    Keeps L key decode i (Reading key i p h k (opened session.handle h))
      (readChunk session) := by
  have hopen : Assertion key i
      (Reading key i p h k (opened session.handle h) : PipeState σ K N → Prop) :=
    assertion_pumping p h k session
  unfold readChunk
  refine spec_bind (spec_quiet hopen rfl) fun _ => spec_bind (spec_quiet hopen rfl) fun w => ?_
  refine spec_bind (keeps_read p h k hL session w.scratch) fun x => ?_
  exact spec_bind (spec_quiet hopen rfl) fun _ => spec_ret hopen _ fun _ _ hs => hs

/-- The drain after a write, however many reads it takes. -/
theorem keeps_drainAvailable (hL : KeyedLib L key decode) (session : Stream) (out : Out)
    (fuel : Nat) :
    Keeps L key decode i (Reading key i p h k (opened session.handle h))
      (drainAvailable session out fuel) := by
  have hopen : Assertion key i
      (Reading key i p h k (opened session.handle h) : PipeState σ K N → Prop) :=
    assertion_pumping p h k session
  induction fuel with
  | zero => exact spec_spin
  | succ fuel ih =>
      unfold drainAvailable
      refine spec_bind (keeps_readChunk p h k hL session) fun got => spec_ite (fun _ => ?_)
        fun _ => ?_
      · exact spec_ret hopen _ fun _ _ hs => hs
      · exact spec_bind (spec_quiet hopen rfl) fun _ => ih

/-- The drain after `end`. -/
theorem keeps_drainFinished (hL : KeyedLib L key decode) (session : Stream) (out : Out)
    (fuel : Nat) :
    Keeps L key decode i (Reading key i p h k (opened session.handle h))
      (drainFinished session out fuel) := by
  have hopen : Assertion key i
      (Reading key i p h k (opened session.handle h) : PipeState σ K N → Prop) :=
    assertion_pumping p h k session
  induction fuel with
  | zero => exact spec_spin
  | succ fuel ih =>
      unfold drainFinished
      refine spec_bind (keeps_readChunk p h k hL session) fun got =>
        spec_bind (spec_quiet hopen rfl) fun _ => spec_ite (fun _ => ?_) fun _ => ih
      exact spec_ret hopen _ fun _ _ hs => hs

/-- The feed loop, wherever it stands. -/
theorem keeps_feed (hL : KeyedLib L key decode) (session : Stream) (src : Bytes) (out : Out)
    (drainFuel fuel off : Nat) :
    Keeps L key decode i (Reading key i p h k (opened session.handle h))
      (feed session src out drainFuel fuel off) := by
  have hopen : Assertion key i
      (Reading key i p h k (opened session.handle h) : PipeState σ K N → Prop) :=
    assertion_pumping p h k session
  induction fuel generalizing off with
  | zero => exact spec_spin
  | succ fuel ih =>
      unfold feed
      refine spec_ite (fun _ => ?_) fun _ => spec_ret hopen _ fun _ _ hs => hs
      refine spec_bind (spec_quiet hopen rfl) fun _ => ?_
      refine spec_bind (keeps_write p h k hL session _) fun _ => ?_
      exact spec_bind (keeps_drainAvailable p h k hL session out drainFuel) fun _ => ih _

theorem keeps_pumpBody (hL : KeyedLib L key decode) (session : Stream) (src : Bytes)
    (out : Out) (fuel : Nat) :
    Keeps L key decode i (Reading key i p h k (opened session.handle h))
      (pumpBody session src out fuel) := by
  have hopen : Assertion key i
      (Reading key i p h k (opened session.handle h) : PipeState σ K N → Prop) :=
    assertion_pumping p h k session
  unfold pumpBody
  refine spec_bind (keeps_feed p h k hL session src out fuel fuel 0) fun _ => ?_
  refine spec_bind (spec_quiet hopen rfl) fun _ => spec_bind (keeps_end p h k hL session)
    fun _ => ?_
  exact keeps_drainFinished p h k hL session out fuel

/-- **The pump**: whether it comes to its end or an error unwinds it, the
session is closed. -/
theorem keeps_pump (hL : KeyedLib L key decode) (encrypt : Bool) (src : Bytes) (out : Out)
    (fuel : Nat) :
    Keeps L key decode i (Reading key i p h k [])
      (pump { handle := h } encrypt src out fuel) := by
  have hclosed : Assertion key i (Reading key i p h k [] : PipeState σ K N → Prop) :=
    assertion_reading p h k []
  have hbody : Keeps L key decode i (Reading key i p h k []) (do
      setStage "StreamBegin"
      let session ← lib (if encrypt then Call.encryptStreamBegin { handle := h }
        else Call.decryptStreamBegin { handle := h })
      Thread.ensuring (pumpBody session src out fuel) (lib (Call.destroyStream session))) := by
    refine spec_bind (spec_quiet hclosed rfl) fun _ => spec_bind (spec_begin hL encrypt)
      fun session => ?_
    -- the destructor of the local session comes with both ways out
    exact spec_ensuring (keeps_pumpBody p h k hL session src out fuel)
      (fun _ => spec_destroyStream hL session) fun _ => spec_destroyStream hL session
  unfold pump
  refine spec_bind (spec_quiet hclosed rfl) fun _ => ?_
  refine (spec_attempt (fun _ => hclosed) (fun _ => hclosed) hbody).post ?_ fun _ _ _ hs => hs
  intro x s _ hs
  cases x with
  | ok u => exact hs
  | error e => exact hs

end Pump

/-! ## §5. One iteration. -/

theorem keeps_cipherFail (hL : KeyedLib L key decode) {P : PipeState σ K N → Prop}
    (hP : Assertion key i P) (id iter : Nat) (shape : Shape) (direction stage : String)
    (e : Error) : Keeps L key decode i P (cipherFail id iter shape direction stage e) :=
  spec_bind (spec_detail hL hP e) fun _ => spec_workerFail hP _

theorem keeps_attempt {P : PipeState σ K N → Prop} (hP : Assertion key i P) {m : Task α}
    (hm : Keeps L key decode i P m) : Keeps L key decode i P (attempt m) := by
  refine (spec_attempt (fun _ => hP) (fun _ => hP) hm).post ?_ fun _ _ _ hs => hs
  intro x s _ hs
  cases x with
  | ok a => exact hs
  | error e => exact hs

/-- What is done with the handle of a pipe, wherever the trip stands. -/
theorem keeps_onPipe (p : Pipe) {f : Handle → Task α}
    (hf : ∀ h k, Keeps L key decode i (Reading key i p h k []) (f h)) :
    Keeps L key decode i (Trip key i p) (ask (.pipe p) >>= f) := by
  refine spec_bind (spec_deref p) fun h => spec_of_forall fun k => ?_
  exact (hf h k).post (fun _ _ _ hs => hs.trip) fun _ _ _ hs => hs.trip

/-- The stream branch: two pumps. -/
theorem keeps_streamTrip (hL : KeyedLib L key decode) (id iter fuel : Nat) :
    Keeps L key decode i (Trip key i .stream) (streamTrip id iter fuel) := by
  have htrip : Assertion key i (Trip key i .stream : PipeState σ K N → Prop) :=
    assertion_trip .stream
  have hret : ∀ x : Option Bytes, Keeps L key decode i (Trip key i .stream) (.ret x) :=
    fun x => spec_ret htrip x fun _ _ hs => hs
  have hfail : ∀ direction e, Keeps L key decode i (Trip key i .stream)
      (ask .self >>= fun w => do
        cipherFail id iter .stream direction w.stage e
        pure (none : Option Bytes)) := by
    intro direction e
    refine spec_bind (spec_quiet htrip rfl) fun w => ?_
    exact spec_bind (keeps_cipherFail hL htrip _ _ _ _ _ e) fun _ => hret none
  -- one pump, and whatever is made of its outcome
  have hhalf : ∀ (encrypt : Bool) (src : Worker → Bytes) (out : Out)
      (next : Except Error Unit → Task (Option Bytes)),
      (∀ r, Keeps L key decode i (Trip key i .stream) (next r)) →
      Keeps L key decode i (Trip key i .stream) (ask (.pipe .stream) >>= fun h => do
        let w ← ask .self
        let r ← pump { handle := h } encrypt (src w) out fuel
        next r) := by
    intro encrypt src out next hnext
    refine spec_bind (spec_deref .stream) fun h => spec_of_forall fun k => ?_
    refine spec_bind (spec_quiet (assertion_reading .stream h k []) rfl) fun w => ?_
    exact spec_bind ((keeps_pump .stream h k hL encrypt (src w) out fuel).post
      (fun _ _ _ hs => hs.trip) fun _ _ _ hs => hs.trip) hnext
  -- encrypt, then decrypt what came out: the trip has the same handle in both
  refine hhalf true (·.plaintext) .wire _ fun r => ?_
  cases r with
  | error e => exact hfail "encrypt" e
  | ok u =>
      refine hhalf false (·.wire) .plain _ fun r => ?_
      cases r with
      | error e => exact hfail "decrypt" e
      | ok u => exact spec_bind (spec_quiet htrip rfl) fun w => hret _

/-- The whole-buffer branches. -/
theorem keeps_wholeTrip (hL : KeyedLib L key decode) (id iter : Nat) (shape : Shape) (p : Pipe)
    {encrypt decrypt : Pipeline → Bytes → Call Bytes}
    (hencrypt : ∀ h k src, Keeps L key decode i (Reading key i p h k [])
      (lib (encrypt { handle := h } src)))
    (hdecrypt : ∀ h k src, Keeps L key decode i (Reading key i p h k [])
      (lib (decrypt { handle := h } src))) :
    Keeps L key decode i (Trip key i p) (wholeTrip id iter shape p encrypt decrypt) := by
  have htrip : Assertion key i (Trip key i p : PipeState σ K N → Prop) := assertion_trip p
  have hret : ∀ x : Option Bytes, Keeps L key decode i (Trip key i p) (.ret x) :=
    fun x => spec_ret htrip x fun _ _ hs => hs
  have hfail : ∀ direction e, Keeps L key decode i (Trip key i p) (do
      cipherFail id iter shape direction "" e
      pure (none : Option Bytes)) :=
    fun direction e => spec_bind (keeps_cipherFail hL htrip _ _ _ _ _ e) fun _ => hret none
  unfold wholeTrip
  refine spec_bind (keeps_attempt htrip (keeps_onPipe p fun h k => ?_)) fun wire => ?_
  · refine spec_bind (spec_quiet (assertion_reading p h k []) rfl) fun w => ?_
    exact hencrypt h k w.plaintext
  · cases wire with
    | error e => exact hfail "encrypt" e
    | ok wire =>
        refine spec_bind (keeps_attempt htrip (keeps_onPipe p fun h k => ?_)) fun plain => ?_
        · exact hdecrypt h k wire
        · cases plain with
          | error e => exact hfail "decrypt" e
          | ok plain => exact hret _

theorem keeps_settle (got : Bytes) :
    Keeps L key decode i (Entered i : PipeState σ K N → Prop) (settle got) := by
  have hin : Assertion key i (Entered i : PipeState σ K N → Prop) := assertion_entered
  unfold settle
  refine spec_bind (spec_quiet hin rfl) fun w => spec_ite (fun _ => ?_) fun _ => ?_
  · exact spec_bind (spec_quiet hin rfl) fun _ => spec_spin
  · refine spec_bind (spec_quiet hin rfl) fun _ => spec_bind (spec_quiet hin rfl) fun _ => ?_
    exact spec_bind (spec_quiet hin rfl) fun _ => spec_ret hin _ fun _ _ hs => hs

section Worker

variable (junk : Nat → Nat → UInt8) (cfg : Config)

/-- Whatever the surface, the trip is made on one pipe. -/
theorem spec_roundTrip (hL : KeyedLib L key decode) (id iter fuel : Nat) (shape : Shape) :
    Spec L key decode i (fun s => Entered i s ∧ s.used i = [])
      (roundTrip junk id iter fuel shape) (fun _ => Entered i)
      (fun _ => Entered i : Exn → PipeState σ K N → Prop) := by
  have htrip : ∀ (p : Pipe) (m : Task (Option Bytes)), Keeps L key decode i (Trip key i p) m →
      Spec L key decode i (fun s => Entered i s ∧ s.used i = []) m (fun _ => Entered i)
        (fun _ => Entered i) := by
    intro p m hm
    refine hm.conseq ?_ (fun _ _ _ hs => hs.toEntered) fun _ _ _ hs => hs.toEntered
    intro s _ hs
    refine ⟨hs.1, fun e he => ?_⟩
    rw [hs.2] at he
    cases he
  cases shape with
  | stream => exact htrip .stream _ (keeps_streamTrip hL id iter fuel)
  | streamOneShot =>
      refine htrip .stream _ (keeps_wholeTrip hL id iter _ .stream ?_ ?_)
      · exact fun h k src => keeps_cipherCall hL junk .stream h k .encryptStream src _
      · exact fun h k src => keeps_cipherCall hL junk .stream h k .decryptStream src _
  | message =>
      refine htrip .msg _ (keeps_wholeTrip hL id iter _ .msg ?_ ?_)
      · exact fun h k src => keeps_cipherCall hL junk .msg h k .encryptMessage src _
      · exact fun h k src => keeps_cipherCall hL junk .msg h k .decryptMessage src _
  | both =>
      have hkeep : Keeps L key decode i (Trip key i .stream)
          (.ret (some []) : Task (Option Bytes)) :=
        spec_ret (assertion_trip .stream) _ fun _ _ hs => hs
      exact htrip .stream _ hkeep

theorem keeps_refill {P : PipeState σ K N → Prop} (hP : Assertion key i P) (id iter : Nat) :
    Keeps L key decode i P (refill cfg id iter) := by
  have hret : ∀ b : Bool, Keeps L key decode i P (.ret b) :=
    fun b => spec_ret hP b fun _ _ hs => hs
  unfold refill
  refine spec_ite (fun _ => ?_) fun _ => hret true
  refine spec_bind (spec_quiet hP rfl) fun w => spec_bind (spec_quiet hP rfl) fun drawn => ?_
  cases drawn with
  | some b => exact spec_bind (spec_quiet hP rfl) fun _ => hret true
  | none => exact spec_bind (spec_workerFail hP _) fun _ => hret false

/-- **`iterate`**, however far it gets. -/
theorem spec_iterate (hL : KeyedLib L key decode) (id iter fuel : Nat) :
    Keeps L key decode i (Idle i : PipeState σ K N → Prop) (iterate junk cfg id iter fuel) := by
  have hidle : Assertion key i (Idle i : PipeState σ K N → Prop) := assertion_idle
  unfold iterate
  refine spec_bind (keeps_refill cfg hidle id iter) fun b => spec_ite (fun _ => ?_) fun _ => ?_
  · refine spec_bind spec_lockShared fun _ => ?_
    refine spec_ensuring (spec_bind (spec_roundTrip junk hL id iter fuel _) fun got => ?_)
      (fun _ => spec_unlockShared) fun _ => spec_unlockShared
    cases got with
    | some got => exact keeps_settle got
    | none => exact spec_ret assertion_entered _ fun _ _ hs => hs
  · exact spec_ret hidle _ fun _ _ hs => hs

/-! ## §6. The threads. -/

theorem keeps_arriveAndWait {P : PipeState σ K N → Prop} (hP : Assertion key i P)
    (b : Barrier) : Keeps L key decode i P (arriveAndWait b) :=
  spec_bind (spec_quiet hP rfl) fun _ => spec_quiet hP rfl

theorem keeps_workerDone {P : PipeState σ K N → Prop} (hP : Assertion key i P) :
    Keeps L key decode i P workerDone := by
  unfold workerDone
  refine spec_bind (spec_quiet hP rfl) fun _ => ?_
  refine spec_ensuring ?_ (fun _ => spec_quiet hP rfl) fun _ => spec_quiet hP rfl
  refine spec_bind (spec_quiet hP rfl) fun n => spec_bind (spec_quiet hP rfl) fun _ => ?_
  refine spec_ite (fun _ => ?_) fun _ => spec_ret hP _ fun _ _ hs => hs
  exact spec_bind (spec_quiet hP rfl) fun t => spec_quiet hP rfl

/-- The main loop of a worker, iteration by iteration. -/
theorem spec_workerLoop (hL : KeyedLib L key decode) (id fuel₀ fuel iter : Nat) :
    Keeps L key decode i (Idle i : PipeState σ K N → Prop)
      (workerLoop junk cfg id fuel₀ fuel iter) := by
  have hdone : Keeps L key decode i (Idle i : PipeState σ K N → Prop) (.ret ()) :=
    spec_ret assertion_idle _ fun _ _ hs => hs
  induction fuel generalizing iter with
  | zero => exact spec_spin
  | succ fuel ih =>
      unfold workerLoop
      refine spec_ite (fun _ => hdone) fun _ => ?_
      refine spec_bind (spec_quiet assertion_idle rfl) fun stop => spec_ite (fun _ => hdone)
        fun _ => ?_
      refine spec_bind (spec_iterate junk cfg hL id iter fuel₀) fun b => spec_ite (fun _ => ?_)
        fun _ => hdone
      refine spec_bind (spec_workerMaintenance hL cfg id iter) fun b => spec_ite (fun _ => ?_)
        fun _ => hdone
      exact ih (iter + 1)

/-- **A worker thread.** -/
theorem spec_workerMain (hL : KeyedLib L key decode) (id fuel : Nat) :
    Keeps L key decode i (Idle i : PipeState σ K N → Prop) (workerMain junk cfg id fuel) := by
  have hidle : Assertion key i (Idle i : PipeState σ K N → Prop) := assertion_idle
  have hend : Keeps L key decode i (Idle i) (do
      workerDone
      ask .return_) :=
    spec_bind (keeps_workerDone hidle) fun _ => spec_quiet hidle rfl
  unfold workerMain
  refine spec_bind (spec_iterate junk cfg hL id 0 fuel) fun ok => ?_
  refine spec_bind (keeps_arriveAndWait hidle _) fun _ => ?_
  refine spec_bind (keeps_arriveAndWait hidle _) fun _ => ?_
  refine spec_ite (fun _ => ?_) fun _ => hend
  exact spec_bind (spec_workerLoop junk cfg hL id fuel fuel 1) fun _ => hend

end Worker

section Main

variable (cfg : Config)

theorem keeps_poolSnapshotTake (hL : KeyedLib L key decode) {P : PipeState σ K N → Prop}
    (hP : Assertion key i P) : Keeps L key decode i P (poolSnapshotTake cfg) := by
  have hret : ∀ b : Bool, Keeps L key decode i P (.ret b) :=
    fun b => spec_ret hP b fun _ _ hs => hs
  have hstats : Keeps L key decode i P
      (lib (Call.poolStats (List.replicate cfg.poolSlots 0))) := by
    unfold Call.poolStats
    simp only [lib_bind, lib_ffi, Thread.pure_eq_ret, lib_ret]
    refine spec_bind (spec_neutral hL hP rfl rfl) fun r => ?_
    exact spec_bind (keeps_check hL hP r.rc _) fun _ => spec_ret hP _ fun _ _ hs => hs
  unfold poolSnapshotTake
  refine spec_bind (keeps_attempt hP hstats) fun x => ?_
  cases x with
  | ok r => exact hret true
  | error e => exact hret false

theorem keeps_waitLoop {P : PipeState σ K N → Prop} (hP : Assertion key i P) (start : Int)
    (fuel : Nat) : Keeps L key decode i P (waitLoop cfg start fuel) := by
  induction fuel with
  | zero => exact spec_spin
  | succ fuel ih =>
      -- what each way through the body comes to in the end
      have hagain : Keeps L key decode i P (do
          ask .unlockDone
          ask .lockDone
          waitLoop cfg start fuel) :=
        spec_bind (spec_quiet hP rfl) fun _ => spec_bind (spec_quiet hP rfl) fun _ => ih
      have hdeadline : Keeps L key decode i P (if cfg.iterations = 0 then (do
          let t ← ask .now
          if overdue cfg start t then (do
            ask .storeStop
            ask .unlockDone
            ask .lockDone
            waitLoop cfg start fuel)
          else (do
            ask .unlockDone
            ask .lockDone
            waitLoop cfg start fuel))
        else (do
          ask .unlockDone
          ask .lockDone
          waitLoop cfg start fuel)) := by
        refine spec_ite (fun _ => ?_) fun _ => hagain
        refine spec_bind (spec_quiet hP rfl) fun t => spec_ite (fun _ => ?_) fun _ => hagain
        exact spec_bind (spec_quiet hP rfl) fun _ => hagain
      unfold waitLoop
      refine spec_bind (spec_quiet hP rfl) fun n => spec_ite (fun _ => ?_) fun _ => ?_
      · refine spec_bind (spec_quiet hP rfl) fun seen => spec_ite (fun _ => ?_) fun _ => ?_
        · exact spec_bind (spec_quiet hP rfl) fun _ => hdeadline
        · exact hdeadline
      · exact spec_ret hP _ fun _ _ hs => hs

theorem keeps_joinAll {P : PipeState σ K N → Prop} (hP : Assertion key i P) (n k : Nat) :
    Keeps L key decode i P (joinAll n k) := by
  induction n generalizing k with
  | zero => exact spec_ret hP _ fun _ _ hs => hs
  | succ n ih => exact spec_bind (spec_quiet hP rfl) fun _ => ih (k + 1)

/-- **The main thread.** -/
theorem spec_mainThread (hL : KeyedLib L key decode) (workers fuel : Nat) :
    Keeps L key decode i (Idle i : PipeState σ K N → Prop) (mainThread cfg workers fuel) := by
  have hidle : Assertion key i (Idle i : PipeState σ K N → Prop) := assertion_idle
  unfold mainThread
  refine spec_bind (keeps_arriveAndWait hidle _) fun _ => ?_
  refine spec_bind (keeps_poolSnapshotTake cfg hL hidle) fun _ => ?_
  refine spec_bind (spec_quiet hidle rfl) fun start => spec_bind (spec_quiet hidle rfl) fun _ => ?_
  refine spec_bind (keeps_arriveAndWait hidle _) fun _ => ?_
  refine spec_bind (spec_quiet hidle rfl) fun _ => ?_
  -- the lock on `done_mtx` ends with its block
  refine spec_bind (spec_ensuring (keeps_waitLoop cfg hidle start fuel)
    (fun _ => spec_quiet hidle rfl) fun _ => spec_quiet hidle rfl) fun _ => ?_
  refine spec_bind (keeps_joinAll hidle workers 0) fun _ => ?_
  exact spec_bind (keeps_poolSnapshotTake cfg hL hidle) fun _ => spec_ret hidle _ fun _ _ hs => hs

end Main

end Iteration

end ItbCpp.Loop
