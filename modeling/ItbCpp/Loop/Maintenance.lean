/-
  ItbCpp.Loop.Maintenance
  ───────────────────────
  **THE WRITE SIDE.**

  `rekey_pipes` and `blob_cycle_pipes`, under the discipline.  Under the
  write lock a thread knows that every pipe matches its blob, breaks that
  for one pipe at a time and mends it before the next request that could
  fail:

    • a rekey that fails has changed nothing; one that succeeds has
      returned the blob of the new keying, which is stored at once,
    • a reopen frees the running handle only when a fresh one with the
      same keying is there.

    • `spec_rekeyPipes`, `spec_blobCyclePipes` — from idle to idle.
-/
import ItbCpp.Loop.Rules

namespace ItbCpp.Loop

open Interleave

section Maintenance

variable {σ K : Type} {N : Nat} {L : Lib σ} {key : σ → Handle → Option K}
  {decode : Bytes → Option K} {i : Tid N} {α : Type}

/-! ## §1. Holding the write side. -/

/-- Thread `i` holds nothing. -/
structure Idle (i : Tid N) (s : PipeState σ K N) : Prop where
  notReader : s.readers i = false
  notWriter : s.writer ≠ some i
  closed : s.sessions i = []

/-- Thread `i` holds the write side, with `Φ`. -/
structure Writing (i : Tid N) (Φ : PipeState σ K N → Prop) (s : PipeState σ K N) : Prop where
  side : s.writer = some i
  closed : s.sessions i = []
  state : Φ s

/-- What is only about pipes, blobs and the keyings of live handles. -/
def FrozenClosed (key : σ → Handle → Option K) (Φ : PipeState σ K N → Prop) : Prop :=
  ∀ s s', Frozen key s s' → Φ s → Φ s'

theorem assertion_idle : Assertion key i (Idle i : PipeState σ K N → Prop) := by
  constructor
  · intro s s' hr h
    refine ⟨hr.own.readers.trans h.notReader, ?_, hr.own.sessions.trans h.closed⟩
    rw [ne_eq, hr.own.writer]
    exact h.notWriter
  · exact fun s v h => ⟨h.notReader, h.notWriter, h.closed⟩

theorem assertion_writing {Φ : PipeState σ K N → Prop} (hΦ : FrozenClosed key Φ) :
    Assertion key i (Writing i Φ) := by
  constructor
  · intro s s' hr h
    refine ⟨hr.own.writer.mpr h.side, hr.own.sessions.trans h.closed, ?_⟩
    exact hΦ s s' (hr.frozen (Or.inr h.side)) h.state
  · intro s v h
    exact ⟨h.side, h.closed, hΦ s _ ⟨rfl, rfl, rfl, fun _ _ h => h⟩ h.state⟩

theorem frozenClosed_matched (p : Pipe) :
    FrozenClosed key fun s : PipeState σ K N => PipeMatched key decode s p := by
  intro s s' hf h g hg
  rw [hf.pipes] at hg
  obtain ⟨hz, k, hk, hb, hr⟩ := h g hg
  exact ⟨hz, k, hf.keys g k hk, hf.blobs ▸ hb, hf.rotations ▸ hr⟩

/-- Every pipe matches its blob. -/
def AllMatched (key : σ → Handle → Option K) (decode : Bytes → Option K)
    (s : PipeState σ K N) : Prop :=
  ∀ p, PipeMatched key decode s p

theorem frozenClosed_allMatched :
    FrozenClosed key (AllMatched key decode : PipeState σ K N → Prop) :=
  fun s s' hf h p => frozenClosed_matched p s s' hf (h p)

theorem spec_lock {threw : Exn → PipeState σ K N → Prop} :
    Spec L key decode i (Idle i) (ask .lock)
      (fun _ => Writing i (AllMatched key decode)) threw := by
  refine triple_call assertion_idle.outside
    (fun _ => (assertion_writing frozenClosed_allMatched).outside) ?_
  -- no reader and no writer: the invariant's matching becomes the writer's own
  intro s a s' hi hp hs
  obtain ⟨-, hnone, hfree, rfl⟩ := hs
  refine ⟨⟨?_, hi.distinct, ?_, ?_, ?_, hi.uniform⟩, ⟨?_, ?_⟩, hp.1, ⟨rfl, hp.2.closed, ?_⟩⟩
  · exact fun _ _ j => hfree j
  · intro hw
    cases hw
  · intro j c b hj
    obtain ⟨hm, hc⟩ := hi.calls j c b hj
    refine ⟨fun hmut => ?_, hc⟩
    have hside := hm hmut
    rw [hnone] at hside
    cases hside
  · exact hi.sessions
  · intro j hj
    refine ⟨rfl, rfl, rfl, rfl, ?_⟩
    show some i = some j ↔ s.writer = some j
    rw [hnone]
    exact ⟨fun h => (hj (Option.some.inj h).symm).elim, fun h => by cases h⟩
  · exact fun _ => ⟨rfl, rfl, rfl, fun _ _ h => h⟩
  · exact hi.matched hnone

theorem spec_unlock {threw : Exn → PipeState σ K N → Prop} :
    Spec L key decode i (Writing i (AllMatched key decode)) (ask .unlock)
      (fun _ => Idle i) threw := by
  refine triple_call (assertion_writing frozenClosed_allMatched).outside
    (fun _ => assertion_idle.outside) ?_
  intro s a s' hi hout hs
  obtain ⟨hcall, hp⟩ := hout
  obtain ⟨-, rfl⟩ := hs
  refine ⟨⟨?_, hi.distinct, fun _ => hp.state, ?_, hi.sessions, hi.uniform⟩, ⟨?_, ?_⟩, hcall,
    ⟨hi.lock i hp.side i, ?_, hp.closed⟩⟩
  · intro j hj
    cases hj
  · intro j c b hj
    obtain ⟨hm, hc⟩ := hi.calls j c b hj
    refine ⟨fun hmut => ?_, hc⟩
    -- only thread `i` could have such a call, and it has none
    have hji : some i = some j := hp.side.symm.trans (hm hmut)
    rw [← Option.some.inj hji, hcall] at hj
    cases hj
  · intro j hj
    refine ⟨rfl, rfl, rfl, rfl, ?_⟩
    show none = some j ↔ s.writer = some j
    rw [hp.side]
    exact ⟨fun h => (by cases h), fun h => (hj (Option.some.inj h).symm).elim⟩
  · exact fun hw => (hw hp.side).elim
  · intro h
    cases h

/-- A blob is replaced. -/
theorem spec_setBlob {Φ Ψ : PipeState σ K N → Prop} (hΦ : FrozenClosed key Φ)
    (hΨ : FrozenClosed key Ψ) {p : Pipe} {b : Bytes} {threw : Exn → PipeState σ K N → Prop}
    (h : ∀ s, Φ s → Ψ { s with blobs := Function.update s.blobs p b }) :
    Spec L key decode i (Writing i Φ) (ask (.setBlob p b)) (fun _ => Writing i Ψ) threw := by
  refine triple_call (assertion_writing hΦ).outside (fun _ => (assertion_writing hΨ).outside) ?_
  intro s a s' hi hout hs
  obtain ⟨hcall, hp⟩ := hout
  obtain ⟨-, rfl⟩ := hs
  refine ⟨⟨hi.lock, hi.distinct, ?_, hi.calls, hi.sessions, hi.uniform⟩, ⟨?_, ?_⟩, hcall,
    ⟨hp.side, hp.closed, h _ hp.state⟩⟩
  · intro hw
    have hside : s.writer = none := hw
    rw [hp.side] at hside
    cases hside
  · exact fun j _ => ⟨rfl, rfl, rfl, rfl, Iff.rfl⟩
  · exact fun hw => (hw hp.side).elim

/-- Pipes stay different when one is given a handle no other owns. -/
theorem distinct_update {pipes : Pipe → Option Handle}
    (hd : ∀ p q h, pipes p = some h → pipes q = some h → p = q) {p : Pipe} {g : Handle}
    (hnew : ∀ q, q ≠ p → pipes q ≠ some g) (q q' : Pipe) (h : Handle)
    (hq : Function.update pipes p (some g) q = some h)
    (hq' : Function.update pipes p (some g) q' = some h) : q = q' := by
  have hcase : ∀ r, Function.update pipes p (some g) r = some h →
      (r = p ∧ g = h) ∨ (r ≠ p ∧ pipes r = some h) := by
    intro r hr
    by_cases hrp : r = p
    · subst hrp
      rw [Function.update_self] at hr
      exact Or.inl ⟨rfl, Option.some.inj hr⟩
    · rw [Function.update_of_ne hrp] at hr
      exact Or.inr ⟨hrp, hr⟩
  -- the updated pipe against an old one, either way round
  rcases hcase q hq with ⟨rfl, rfl⟩ | ⟨hqp, hold⟩
  · rcases hcase q' hq' with ⟨rfl, -⟩ | ⟨hqp', hold'⟩
    · rfl
    · exact (hnew q' hqp' hold').elim
  · rcases hcase q' hq' with ⟨rfl, rfl⟩ | ⟨-, hold'⟩
    · exact (hnew q hqp hold).elim
    · exact hd q q' h hold hold'

/-- A pipe is given a handle that the other does not own. -/
theorem spec_setPipe {Φ Ψ : PipeState σ K N → Prop} (hΦ : FrozenClosed key Φ)
    (hΨ : FrozenClosed key Ψ) {p : Pipe} {g : Handle} {threw : Exn → PipeState σ K N → Prop}
    (hnew : ∀ s, Φ s → ∀ q, q ≠ p → s.pipes q ≠ some g)
    (h : ∀ s, Φ s → Ψ { s with pipes := Function.update s.pipes p (some g) }) :
    Spec L key decode i (Writing i Φ) (ask (.setPipe p g)) (fun _ => Writing i Ψ) threw := by
  refine triple_call (assertion_writing hΦ).outside (fun _ => (assertion_writing hΨ).outside) ?_
  intro s a s' hi hout hs
  obtain ⟨hcall, hp⟩ := hout
  obtain ⟨-, rfl⟩ := hs
  refine ⟨⟨hi.lock, ?_, ?_, hi.calls, hi.sessions, hi.uniform⟩, ⟨?_, ?_⟩, hcall,
    ⟨hp.side, hp.closed, h _ hp.state⟩⟩
  · exact distinct_update hi.distinct (hnew _ hp.state)
  · intro hw
    have hside : s.writer = none := hw
    rw [hp.side] at hside
    cases hside
  · exact fun j _ => ⟨rfl, rfl, rfl, rfl, Iff.rfl⟩
  · exact fun hw => (hw hp.side).elim

/-! ## §2. Rekey. -/

/-- The pipe `p` owns `h`; all is matched. -/
def Owning (key : σ → Handle → Option K) (decode : Bytes → Option K) (p : Pipe) (h : Handle)
    (s : PipeState σ K N) : Prop :=
  s.pipes p = some h ∧ AllMatched key decode s

/-- The handle `h` of `p` has a keying that `blob` encodes and no other pipe
is concerned: what holds between a rekey and the storing of its blob. -/
structure Rekeyed (key : σ → Handle → Option K) (decode : Bytes → Option K) (p : Pipe)
    (h : Handle) (blob : Bytes) (s : PipeState σ K N) : Prop where
  pipe : s.pipes p = some h
  nonzero : h ≠ 0
  others : ∀ q, q ≠ p → PipeMatched key decode s q
  keying : ∃ k, key s.lib h = some k ∧ decode blob = some k ∧
    (s.rotations p).getLast? = some k

theorem frozenClosed_owning (p : Pipe) (h : Handle) :
    FrozenClosed key (Owning key decode p h : PipeState σ K N → Prop) :=
  fun s s' hf ho => ⟨hf.pipes ▸ ho.1, frozenClosed_allMatched s s' hf ho.2⟩

theorem frozenClosed_rekeyed (p : Pipe) (h : Handle) (blob : Bytes) :
    FrozenClosed key (Rekeyed key decode p h blob : PipeState σ K N → Prop) := by
  intro s s' hf hr
  refine ⟨hf.pipes ▸ hr.pipe, hr.nonzero,
    fun q hq => frozenClosed_matched q s s' hf (hr.others q hq), ?_⟩
  obtain ⟨k, hk, hb, hlast⟩ := hr.keying
  exact ⟨k, hf.keys h k hk, hb, hf.rotations ▸ hlast⟩

/-- What is known after one rekey call with capacity `n` was answered. -/
def AfterRekey (key : σ → Handle → Option K) (decode : Bytes → Option K) (p : Pipe)
    (h : Handle) (n : Nat) (r : Reply) (s : PipeState σ K N) : Prop :=
  (r.rc = 0 → ∃ blob, Delivered r n blob ∧ Rekeyed key decode p h blob s) ∧
    (r.rc ≠ 0 → Owning key decode p h s)

theorem frozenClosed_afterRekey (p : Pipe) (h : Handle) (n : Nat) (r : Reply) :
    FrozenClosed key (AfterRekey key decode p h n r : PipeState σ K N → Prop) := by
  intro s s' hf ha
  refine ⟨fun hrc => ?_, fun hrc => frozenClosed_owning p h s s' hf (ha.2 hrc)⟩
  obtain ⟨blob, hd, hr⟩ := ha.1 hrc
  exact ⟨blob, hd, frozenClosed_rekeyed p h blob s s' hf hr⟩

/-- **A rekey takes effect.** -/
theorem afterRekey_effect (hL : KeyedLib L key decode) {s : PipeState σ K N}
    (hi : PipeInv key decode s) {p : Pipe} {h : Handle} {perm wrap : Bytes} {n : Nat}
    (ho : Owning key decode p h s) :
    AfterRekey key decode p h n (L (.rekey h perm wrap n) s.lib).1
      (s.effect L key i (.rekey h perm wrap n)) := by
  constructor
  · intro hrc
    obtain ⟨k, blob, hd, hk, hb⟩ := hL.rekey h perm wrap n s.lib hrc
    refine ⟨blob, hd, ⟨ho.1, (ho.2 p h ho.1).1, ?_, k, hk, hb, ?_⟩⟩
    · intro q hq g hg
      -- the other pipe's handle is another one
      have hne : g ≠ h := by
        intro heq
        subst heq
        exact hq (hi.distinct q p g hg ho.1)
      obtain ⟨hz, k', hk', hb', hlast'⟩ := ho.2 q g hg
      refine ⟨hz, k', ?_, hb', ?_⟩
      · apply hL.frame _ s.lib g k' hk'
        rw [FfiCall.changed, if_pos hrc]
        intro heq
        exact hne (Option.some.inj heq).symm
      · have hsame : (s.effect L key i (.rekey h perm wrap n)).rotations q = s.rotations q := by
          refine if_neg fun hboth => ?_
          have hgh : some g = some h := (show s.pipes q = some g from hg).symm.trans hboth.2
          exact hne (Option.some.inj hgh)
        rw [hsame]
        exact hlast'
    · have hnew : (s.effect L key i (.rekey h perm wrap n)).rotations p =
          s.rotations p ++ [k] := by
        refine (if_pos ⟨hrc, ho.1⟩).trans ?_
        rw [hk]
        rfl
      rw [hnew, List.getLast?_append]
      rfl
  · intro hrc
    refine frozenClosed_owning p h s _ (frozen_effect hL ?_) ho
    rw [FfiCall.changed, if_neg hrc]

theorem spec_rekeyCall (hL : KeyedLib L key decode) (p : Pipe) (h : Handle)
    (perm wrap : Bytes) (n : Nat) (threw : Exn → PipeState σ K N → Prop) :
    Spec L key decode i (Writing i (Owning key decode p h))
      (libraryCall (.rekey h perm wrap n))
      (fun r => Writing i (AfterRekey key decode p h n r)) threw := by
  refine spec_libraryCall hL (assertion_writing (frozenClosed_owning p h))
    (fun r => assertion_writing (frozenClosed_afterRekey p h n r)) ?_ ?_ ?_
  · exact fun s hs => ⟨fun _ => hs.side, fun hc => by cases hc⟩
  · intro s _ g hg
    cases hg
  · intro s hi hs
    refine ⟨hs.side, ?_, afterRekey_effect hL hi hs.state⟩
    exact (Function.update_self ..).trans hs.closed

/-- `Pipeline::rekey`: an exception means that nothing has changed. -/
theorem spec_rekey (hL : KeyedLib L key decode) (p : Pipe) (h : Handle) (perm wrap : Bytes) :
    Spec L key decode i (Writing i (Owning key decode p h))
      (lib (Call.rekey { handle := h } perm wrap))
      (fun blob => Writing i (Rekeyed key decode p h blob))
      (fun _ => Writing i (Owning key decode p h) : Exn → PipeState σ K N → Prop) := by
  have hrun : Spec L key decode i (Writing i (Owning key decode p h))
      (lib (Call.retryOnce (BlobFn.rekey h perm wrap).call kBlobCap zeros wipeBytes
        "Pipeline::rekey"))
      (fun x s => ∃ n, Judged zeros n x ∧ Writing i (AfterRekey key decode p h n x.2) s)
      (fun _ s => ∃ n r, (r.rc = 0 → n < r.len) ∧
        Writing i (AfterRekey key decode p h n r) s) :=
    spec_retryOnce hL length_zeros
      (fun n r => assertion_writing (frozenClosed_afterRekey p h n r))
      (fun n threw => spec_rekeyCall hL p h perm wrap n threw)
      (fun n r s hrc hs => ⟨hs.side, hs.closed, hs.state.2 hrc⟩)
  unfold Call.rekey Call.bufCall
  rw [lib_bind]
  refine spec_bind (hrun.post (fun _ _ _ h => h) ?_) fun x => spec_of_forall fun n => ?_
  · -- a good answer fits, so it was the answer that was bad
    intro e s _ hx
    obtain ⟨n, r, hlong, hs⟩ := hx
    have hrc : r.rc ≠ 0 := by
      intro hrc
      obtain ⟨blob, hd, -⟩ := hs.state.1 hrc
      exact absurd hd.fits (Nat.not_le_of_lt (hlong hrc))
    exact ⟨hs.side, hs.closed, hs.state.2 hrc⟩
  · have hstable : Assertion key i (Writing i (AfterRekey key decode p h n x.2)) :=
      assertion_writing (frozenClosed_afterRekey p h n x.2)
    refine spec_ret (hstable.and_fact _) _ fun s _ hx => ?_
    obtain ⟨hj, hs⟩ := hx
    obtain ⟨blob, hd, hr⟩ := hs.state.1 hj.good
    exact ⟨hs.side, hs.closed, hj.eq_of_delivered hd ▸ hr⟩

/-- Storing the blob mends the pipe. -/
theorem allMatched_setBlob {s : PipeState σ K N} {p : Pipe} {h : Handle} {blob : Bytes}
    (hr : Rekeyed key decode p h blob s) :
    AllMatched key decode { s with blobs := Function.update s.blobs p blob } := by
  intro q g hg
  by_cases hq : q = p
  · subst hq
    have hgh : some g = some h := (show s.pipes q = some g from hg).symm.trans hr.pipe
    injection hgh with hgh
    subst hgh
    obtain ⟨k, hk, hb, hlast⟩ := hr.keying
    refine ⟨hr.nonzero, k, hk, ?_, hlast⟩
    show decode (Function.update s.blobs q blob q) = some k
    rw [Function.update_self]
    exact hb
  · obtain ⟨hz, k, hk, hb, hlast⟩ := hr.others q hq g hg
    refine ⟨hz, k, hk, ?_, hlast⟩
    show decode (Function.update s.blobs p blob q) = some k
    rw [Function.update_of_ne hq]
    exact hb

variable {threw : Exn → PipeState σ K N → Prop}

/-- The pipe of `hasPipe`. -/
theorem spec_pipe {Φ : PipeState σ K N → Prop} (hΦ : FrozenClosed key Φ) {p : Pipe} :
    Spec L key decode i (Writing i Φ) (ask (.pipe p))
      (fun h => Writing i fun s => s.pipes p = some h ∧ Φ s) threw := by
  have hown : ∀ h, FrozenClosed key fun s : PipeState σ K N => s.pipes p = some h ∧ Φ s :=
    fun h s s' hf ho => ⟨hf.pipes ▸ ho.1, hΦ s s' hf ho.2⟩
  refine spec_read (assertion_writing hΦ) (fun h => assertion_writing (hown h)) ?_
  intro s h s' _ hq hs
  obtain ⟨hp, rfl⟩ := hq
  exact ⟨rfl, hs.side, hs.closed, hp, hs.state⟩

theorem spec_maintenanceFail (hL : KeyedLib L key decode) {P : PipeState σ K N → Prop}
    (hP : Assertion key i P) (cfg : Config) (id iter : Nat) (op : String) (p : Pipe)
    (e : Error) :
    Spec L key decode i P (maintenanceFail cfg id iter op p e) (fun _ => P) threw :=
  spec_bind (spec_detail hL hP e) fun _ =>
    spec_bind (spec_workerFail hP _) fun _ => spec_ret hP _ fun _ _ h => h

theorem spec_rekeyPipe (hL : KeyedLib L key decode) (cfg : Config) (id iter : Nat)
    (perm wrap : Bytes) (p : Pipe) :
    Spec L key decode i (Writing i (AllMatched key decode))
      (rekeyPipe cfg id iter perm wrap p) (fun _ => Writing i (AllMatched key decode))
      (fun _ => Writing i (AllMatched key decode)) := by
  have hall : Assertion key i (Writing i (AllMatched key decode) : PipeState σ K N → Prop) :=
    assertion_writing frozenClosed_allMatched
  have htry : Spec L key decode i (Writing i (AllMatched key decode)) (do
      let h ← ask (.pipe p)
      let b ← lib (Call.rekey { handle := h } perm wrap)
      ask (.setBlob p b)) (fun _ => Writing i (AllMatched key decode))
      (fun _ => Writing i (AllMatched key decode)) := by
    -- a failed rekey leaves the pipe matched, so the handler finds all matched
    have hrekey : ∀ h, Spec L key decode i (Writing i (Owning key decode p h))
        (lib (Call.rekey { handle := h } perm wrap))
        (fun blob => Writing i (Rekeyed key decode p h blob))
        (fun _ => Writing i (AllMatched key decode)) := by
      intro h
      exact (spec_rekey hL p h perm wrap).post (fun _ _ _ h => h)
        fun _ _ _ hs => ⟨hs.side, hs.closed, hs.state.2⟩
    refine spec_bind (spec_pipe frozenClosed_allMatched) fun h => ?_
    refine spec_bind (hrekey h) fun blob => ?_
    exact spec_setBlob (frozenClosed_rekeyed p h blob) frozenClosed_allMatched
      fun s hr => allMatched_setBlob hr
  unfold rekeyPipe
  refine spec_bind (spec_quiet hall rfl) fun b => spec_ite (fun _ => ?_) fun _ => ?_
  · refine spec_bind (spec_attempt (fun _ => hall) (fun _ => hall) htry) fun done => ?_
    cases done with
    | ok u => exact spec_ret hall _ fun _ _ h => h
    | error e => exact spec_maintenanceFail hL hall cfg id iter "Rekey" p e
  · exact spec_ret hall _ fun _ _ h => h

theorem spec_drawMaster (P : PipeState σ K N → Prop) (hP : Assertion key i P) (on : Bool)
    (layer : String) (id iter : Nat) :
    Spec L key decode i P (drawMaster on layer id iter) (fun _ => P) threw := by
  unfold drawMaster
  refine spec_ite (fun _ => ?_) fun _ => spec_ret hP _ fun _ _ h => h
  refine spec_bind (spec_quiet hP rfl) fun drawn => ?_
  cases drawn with
  | some b => exact spec_ret hP _ fun _ _ h => h
  | none => exact spec_bind (spec_workerFail hP _) fun _ => spec_ret hP _ fun _ _ h => h

/-- The scope of the lock guard, around one step for each pipe. -/
theorem spec_guarded {step : Pipe → Task Bool} {count : Req} (hcount : count.quiet = true)
    (hstep : ∀ p, Spec L key decode i (Writing i (AllMatched key decode)) (step p)
      (fun _ => Writing i (AllMatched key decode))
      (fun _ => Writing i (AllMatched key decode))) :
    Spec L key decode i (Idle i) (do
      ask .lock
      Thread.ensuring (do
          if ← step .stream then
            if ← step .msg then
              let _ ← ask count
              pure true
            else pure false
          else pure false)
        (ask .unlock)) (fun _ => Idle i) (fun _ => Idle i) := by
  have hall : Assertion key i (Writing i (AllMatched key decode) : PipeState σ K N → Prop) :=
    assertion_writing frozenClosed_allMatched
  have hret : ∀ b : Bool, Spec L key decode i (Writing i (AllMatched key decode)) (.ret b)
      (fun _ => Writing i (AllMatched key decode))
      (fun _ => Writing i (AllMatched key decode)) :=
    fun b => spec_ret hall b fun _ _ h => h
  refine spec_bind spec_lock fun _ => ?_
  -- the guard gives the lock back with every pipe matched again
  refine spec_ensuring ?_ (fun _ => spec_unlock) fun _ => spec_unlock
  refine spec_bind (hstep .stream) fun b => spec_ite (fun _ => ?_) fun _ => hret _
  refine spec_bind (hstep .msg) fun b => spec_ite (fun _ => ?_) fun _ => hret _
  exact spec_bind (spec_quiet hall hcount) fun _ => hret _

/-- **`rekey_pipes`**, however far it gets. -/
theorem spec_rekeyPipes (hL : KeyedLib L key decode) (cfg : Config) (id iter : Nat) :
    Spec L key decode i (Idle i) (rekeyPipes cfg id iter) (fun _ => Idle i)
      (fun _ => Idle i) := by
  have hret : Spec L key decode i (Idle i) (.ret false) (fun _ => Idle i) (fun _ => Idle i) :=
    spec_ret assertion_idle _ fun _ _ h => h
  unfold rekeyPipes
  refine spec_bind (spec_drawMaster _ assertion_idle _ _ _ _) fun perm => ?_
  cases perm with
  | none => exact hret
  | some perm =>
      refine spec_bind (spec_drawMaster _ assertion_idle _ _ _ _) fun wrap => ?_
      cases wrap with
      | none => exact hret
      | some wrap =>
          exact spec_guarded rfl fun p => spec_rekeyPipe hL cfg id iter perm wrap p

/-! ## §3. Blob reopen. -/

/-- A fresh handle with the keying of the blob of `p`, owned by no pipe. -/
structure Fresh (key : σ → Handle → Option K) (decode : Bytes → Option K) (p : Pipe)
    (f : Handle) (s : PipeState σ K N) : Prop where
  nonzero : f ≠ 0
  unowned : ∀ q, s.pipes q ≠ some f
  keying : ∃ k, key s.lib f = some k ∧ decode (s.blobs p) = some k

theorem frozenClosed_fresh (p : Pipe) (f : Handle) :
    FrozenClosed key (Fresh key decode p f : PipeState σ K N → Prop) := by
  intro s s' hf hs
  obtain ⟨k, hk, hb⟩ := hs.keying
  exact ⟨hs.nonzero, fun q => hf.pipes ▸ hs.unowned q, k, hf.keys f k hk, hf.blobs ▸ hb⟩

/-- What is known after the load of the blob of `p` was answered. -/
def AfterLoad (key : σ → Handle → Option K) (decode : Bytes → Option K) (p : Pipe)
    (r : Reply) (s : PipeState σ K N) : Prop :=
  (r.rc = 0 → Fresh key decode p r.handle s) ∧ AllMatched key decode s

theorem frozenClosed_afterLoad (p : Pipe) (r : Reply) :
    FrozenClosed key (AfterLoad key decode p r : PipeState σ K N → Prop) :=
  fun s s' hf h => ⟨fun hrc => frozenClosed_fresh p r.handle s s' hf (h.1 hrc),
    frozenClosed_allMatched s s' hf h.2⟩

/-- All is matched, and `b` is the blob of `p`. -/
def WithBlob (key : σ → Handle → Option K) (decode : Bytes → Option K) (p : Pipe) (b : Bytes)
    (s : PipeState σ K N) : Prop :=
  s.blobs p = b ∧ AllMatched key decode s

theorem frozenClosed_withBlob (p : Pipe) (b : Bytes) :
    FrozenClosed key (WithBlob key decode p b : PipeState σ K N → Prop) :=
  fun s s' hf h => ⟨hf.blobs ▸ h.1, frozenClosed_allMatched s s' hf h.2⟩

/-- **A load takes effect**: nothing changes but that there is a handle
more. -/
theorem afterLoad_effect (hL : KeyedLib L key decode) {s : PipeState σ K N} {p : Pipe}
    {b : Bytes} (hb : WithBlob key decode p b s) :
    AfterLoad key decode p (L (.load b [] [] (mastersCount [] [])) s.lib).1
      (s.effect L key i (.load b [] [] (mastersCount [] []))) := by
  have hf : Frozen key s (s.effect L key i (.load b [] [] (mastersCount [] []))) :=
    frozen_effect_of_not_mutates hL rfl
  refine ⟨fun hrc => ?_, frozenClosed_allMatched s _ hf hb.2⟩
  obtain ⟨hz, hnone, k, hk⟩ := hL.opened _ s.lib rfl hrc
  have hload := hL.load b _ s.lib hrc
  refine ⟨hz, ?_, k, hk, ?_⟩
  · -- the handles of the pipes were live before
    intro q hq
    obtain ⟨-, k', hk', -⟩ := hb.2 q _ hq
    rw [hnone] at hk'
    cases hk'
  · show decode (s.blobs p) = some k
    rw [hb.1, ← hload]
    exact hk

/-- Reading the blob. -/
theorem spec_blob {p : Pipe} :
    Spec L key decode i (Writing i (AllMatched key decode)) (ask (.blob p))
      (fun b => Writing i (WithBlob key decode p b)) threw := by
  refine spec_read (assertion_writing frozenClosed_allMatched)
    (fun b => assertion_writing (frozenClosed_withBlob p b)) ?_
  intro s b s' _ hq hs
  obtain ⟨rfl, rfl⟩ := hq
  exact ⟨rfl, hs.side, hs.closed, rfl, hs.state⟩

/-- A fresh handle is there, and nothing else has changed. -/
def Reopening (key : σ → Handle → Option K) (decode : Bytes → Option K) (p : Pipe) (f : Handle)
    (s : PipeState σ K N) : Prop :=
  Fresh key decode p f s ∧ AllMatched key decode s

theorem frozenClosed_reopening (p : Pipe) (f : Handle) :
    FrozenClosed key (Reopening key decode p f : PipeState σ K N → Prop) :=
  fun s s' hf h => ⟨frozenClosed_fresh p f s s' hf h.1, frozenClosed_allMatched s s' hf h.2⟩

/-- `Pipeline::load` of the retained blob: an exception means that nothing
has changed. -/
theorem spec_load (hL : KeyedLib L key decode) (p : Pipe) (b : Bytes) :
    Spec L key decode i (Writing i (WithBlob key decode p b)) (lib (Call.load b [] []))
      (fun fresh => Writing i (Reopening key decode p fresh.handle))
      (fun _ => Writing i (AllMatched key decode) : Exn → PipeState σ K N → Prop) := by
  have hafter : ∀ r, Assertion key i
      (Writing i (AfterLoad key decode p r) : PipeState σ K N → Prop) :=
    fun r => assertion_writing (frozenClosed_afterLoad p r)
  have hcall : Spec L key decode i (Writing i (WithBlob key decode p b))
      (libraryCall (.load b [] [] (mastersCount [] [])))
      (fun r => Writing i (AfterLoad key decode p r))
      (fun _ => Writing i (AllMatched key decode)) := by
    refine spec_libraryCall hL (assertion_writing (frozenClosed_withBlob p b)) hafter ?_ ?_ ?_
    · exact fun s hs => ⟨fun hm => (hm rfl).elim, fun hc => by cases hc⟩
    · intro s _ g hg
      cases hg
    · intro s hi hs
      refine ⟨hs.side, ?_, afterLoad_effect hL hs.state⟩
      exact (Function.update_self ..).trans hs.closed
  unfold Call.load
  simp only [lib_bind, lib_ffi, lib_emit, Thread.pure_eq_ret, lib_ret, Thread.ret_bind]
  refine spec_bind hcall fun r => spec_bind
    ((spec_check hL (hafter r) r.rc _).post (fun _ _ _ h => h) ?_) fun _ => ?_
  · exact fun _ _ _ hs => ⟨hs.2.side, hs.2.closed, hs.2.state.2⟩
  · refine spec_ret ((hafter r).and_fact _) _ fun s _ hs => ?_
    exact ⟨hs.2.side, hs.2.closed, hs.2.state.1 hs.1, hs.2.state.2⟩

/-- The running handle of `p` is gone; the fresh one has its keying and no
other pipe is concerned. -/
structure Freed (key : σ → Handle → Option K) (decode : Bytes → Option K) (p : Pipe)
    (f : Handle) (s : PipeState σ K N) : Prop where
  nonzero : f ≠ 0
  unowned : ∀ q, s.pipes q ≠ some f
  others : ∀ q, q ≠ p → PipeMatched key decode s q
  keying : ∃ k, key s.lib f = some k ∧ decode (s.blobs p) = some k ∧
    (s.rotations p).getLast? = some k

theorem frozenClosed_freed (p : Pipe) (f : Handle) :
    FrozenClosed key (Freed key decode p f : PipeState σ K N → Prop) := by
  intro s s' hf hs
  obtain ⟨k, hk, hb, hlast⟩ := hs.keying
  exact ⟨hs.nonzero, fun q => hf.pipes ▸ hs.unowned q,
    fun q hq => frozenClosed_matched q s s' hf (hs.others q hq),
    k, hf.keys f k hk, hf.blobs ▸ hb, hf.rotations ▸ hlast⟩

/-- **The running handle is freed.**  Its keying was the one of the blob, so
it lives on in the fresh handle. -/
theorem freed_effect (hL : KeyedLib L key decode) {s : PipeState σ K N}
    (hi : PipeInv key decode s) {p : Pipe} {f h : Handle} (hp : s.pipes p = some h)
    (hs : Reopening key decode p f s) : Freed key decode p f (s.effect L key i (.free h)) := by
  obtain ⟨hfresh, hall⟩ := hs
  -- whatever handle is not `h` stays live
  have hkept : ∀ g k, key s.lib g = some k → g ≠ h →
      key (s.effect L key i (.free h)).lib g = some k := by
    intro g k hk hne
    apply hL.frame _ s.lib g k hk
    intro heq
    exact hne (Option.some.inj heq).symm
  refine ⟨hfresh.nonzero, hfresh.unowned, ?_, ?_⟩
  · intro q hq g hg
    have hne : g ≠ h := by
      intro heq
      subst heq
      exact hq (hi.distinct q p g hg hp)
    obtain ⟨hz, k, hk, hb, hlast⟩ := hall q g hg
    exact ⟨hz, k, hkept g k hk hne, hb, hlast⟩
  · obtain ⟨k, hk, hb⟩ := hfresh.keying
    obtain ⟨-, k', -, hb', hlast⟩ := hall p h hp
    have hne : f ≠ h := by
      intro heq
      subst heq
      exact hfresh.unowned p hp
    -- both keyings are the one of the blob
    have hkk : k' = k := Option.some.inj (hb'.symm.trans hb)
    exact ⟨k, hkept f k hk hne, hb, hkk ▸ hlast⟩

theorem spec_freeCall (hL : KeyedLib L key decode) (p : Pipe) (f h : Handle) :
    Spec L key decode i (Writing i fun s => s.pipes p = some h ∧ Reopening key decode p f s)
      (libraryCall (.free h)) (fun _ => Writing i (Freed key decode p f)) threw := by
  have howning : FrozenClosed key fun s : PipeState σ K N =>
      s.pipes p = some h ∧ Reopening key decode p f s :=
    fun s s' hf hs => ⟨hf.pipes ▸ hs.1, frozenClosed_reopening p f s s' hf hs.2⟩
  refine spec_libraryCall hL (assertion_writing howning)
    (fun r => assertion_writing (frozenClosed_freed p f)) ?_ ?_ ?_
  · exact fun s hs => ⟨fun _ => hs.side, fun hc => by cases hc⟩
  · intro s _ g hg
    cases hg
  · intro s hi hs
    refine ⟨hs.side, ?_, freed_effect hL hi hs.state.1 hs.state.2⟩
    exact (Function.update_self ..).trans hs.closed

/-- `optional = std::move(fresh)`: the old handle is freed and the fresh one
is what the object is to hold. -/
theorem spec_moveAssign (hL : KeyedLib L key decode) (p : Pipe) (fresh : Pipeline)
    (h : Handle) :
    Spec L key decode i
      (Writing i fun s => s.pipes p = some h ∧ Reopening key decode p fresh.handle s)
      (lib (Call.moveAssign { handle := h } fresh))
      (fun x s => (x.1 = fresh ∧ x.2.handle = 0) ∧ Writing i (Freed key decode p fresh.handle) s)
      threw := by
  have hz : ∀ s, PipeInv key decode s →
      Writing i (fun s => s.pipes p = some h ∧ Reopening key decode p fresh.handle s) s →
      h ≠ 0 := fun s _ hs => (hs.state.2.2 p h hs.state.1).1
  refine spec_of_fact hz fun hne => ?_
  unfold Call.moveAssign
  rw [if_pos hne]
  simp only [lib_bind, lib_ffi, Thread.pure_eq_ret, lib_ret]
  refine spec_bind (spec_freeCall hL p fresh.handle h) fun _ => ?_
  exact spec_ret (assertion_writing (frozenClosed_freed p fresh.handle)) _
    fun s _ hs => ⟨⟨rfl, rfl⟩, hs⟩

/-- The fresh handle mends the pipe. -/
theorem allMatched_setPipe {s : PipeState σ K N} {p : Pipe} {f : Handle}
    (hs : Freed key decode p f s) :
    AllMatched key decode { s with pipes := Function.update s.pipes p (some f) } := by
  intro q g hg
  by_cases hq : q = p
  · subst hq
    have hnew : Function.update s.pipes q (some f) q = some g := hg
    rw [Function.update_self] at hnew
    obtain rfl := Option.some.inj hnew
    exact ⟨hs.nonzero, hs.keying⟩
  · have hold : Function.update s.pipes p (some f) q = some g := hg
    rw [Function.update_of_ne hq] at hold
    exact hs.others q hq g hold

theorem spec_blobCyclePipe (hL : KeyedLib L key decode) (cfg : Config) (id iter : Nat)
    (p : Pipe) :
    Spec L key decode i (Writing i (AllMatched key decode)) (blobCyclePipe cfg id iter p)
      (fun _ => Writing i (AllMatched key decode))
      (fun _ => Writing i (AllMatched key decode)) := by
  have hall : Assertion key i (Writing i (AllMatched key decode) : PipeState σ K N → Prop) :=
    assertion_writing frozenClosed_allMatched
  have htry : Spec L key decode i (Writing i (AllMatched key decode)) (do
      let b ← ask (.blob p)
      let fresh ← lib (Call.load b [] [])
      let h ← ask (.pipe p)
      let x ← lib (Call.moveAssign { handle := h } fresh)
      ask (.setPipe p x.1.handle)
      lib (Call.destroyPipeline x.2)) (fun _ => Writing i (AllMatched key decode))
      (fun _ => Writing i (AllMatched key decode)) := by
    -- load, free, swap: from the free to the swap `p` alone is unmatched
    refine spec_bind spec_blob fun b => spec_bind (spec_load hL p b) fun fresh => ?_
    refine spec_bind (spec_pipe (frozenClosed_reopening p fresh.handle)) fun h => ?_
    refine spec_bind (spec_moveAssign hL p fresh h) fun x => ?_
    refine spec_of_fact (fun s _ hs => hs.1) fun hx => ?_
    obtain ⟨hself, hzero⟩ := hx
    have hset : Spec L key decode i
        (fun s => (x.1 = fresh ∧ x.2.handle = 0) ∧ Writing i (Freed key decode p fresh.handle) s)
        (ask (.setPipe p x.1.handle)) (fun _ => Writing i (AllMatched key decode))
        (fun _ => Writing i (AllMatched key decode)) := by
      rw [hself]
      exact (spec_setPipe (frozenClosed_freed p fresh.handle) frozenClosed_allMatched
        (fun s hs q _ => hs.unowned q) fun s hs => allMatched_setPipe hs).pre
        fun s _ hs => hs.2
    refine spec_bind hset fun _ => ?_
    -- the moved-from object has no handle left to free
    unfold Call.destroyPipeline
    rw [if_neg (not_not.mpr hzero)]
    exact spec_ret hall _ fun _ _ h => h
  unfold blobCyclePipe
  refine spec_bind (spec_quiet hall rfl) fun b => spec_ite (fun _ => ?_) fun _ => ?_
  · refine spec_bind (spec_attempt (fun _ => hall) (fun _ => hall) htry) fun done => ?_
    cases done with
    | ok u => exact spec_ret hall _ fun _ _ h => h
    | error e => exact spec_maintenanceFail hL hall cfg id iter "Load" p e
  · exact spec_ret hall _ fun _ _ h => h

/-- **`blob_cycle_pipes`**, however far it gets. -/
theorem spec_blobCyclePipes (hL : KeyedLib L key decode) (cfg : Config) (id iter : Nat) :
    Spec L key decode i (Idle i) (blobCyclePipes cfg id iter) (fun _ => Idle i)
      (fun _ => Idle i) :=
  spec_guarded rfl fun p => spec_blobCyclePipe hL cfg id iter p

/-- `worker_maintenance`. -/
theorem spec_workerMaintenance (hL : KeyedLib L key decode) (cfg : Config) (id iter : Nat) :
    Spec L key decode i (Idle i) (workerMaintenance cfg id iter) (fun _ => Idle i)
      (fun _ => Idle i) := by
  have hret : ∀ b : Bool, Spec L key decode i (Idle i) (.ret b) (fun _ => Idle i)
      (fun _ => Idle i) := fun b => spec_ret assertion_idle b fun _ _ h => h
  have hreopen : ∀ b : Bool, Spec L key decode i (Idle i)
      (if b then
        if due cfg.blobCycleEvery iter then blobCyclePipes cfg id iter else .ret true
      else .ret false) (fun _ => Idle i) (fun _ => Idle i) := by
    intro b
    refine spec_ite (fun _ => ?_) fun _ => hret _
    exact spec_ite (fun _ => spec_blobCyclePipes hL cfg id iter) fun _ => hret _
  unfold workerMaintenance
  exact spec_ite (fun _ => spec_bind (spec_rekeyPipes hL cfg id iter) hreopen)
    fun _ => hreopen true

end Maintenance

end ItbCpp.Loop
