/-
  ItbCpp.Loop.Stages
  ──────────────────
  **START-UP AND SHUTDOWN, THREAD BY THREAD.**

  How far a thread is through the two barriers and `worker_done`
  (`Stage`), as told by what it has asked so far, and the protocol that
  every thread of the harness keeps to (`conduct`): at each stage only
  some requests are made, and a request that can block is never made with
  a lock held.

    • `stages` — the stage of each thread, from the events of a run,
    • `keepsTo_workerMain`, `keepsTo_mainThread` — the two threads.
-/
import ItbCpp.Loop.Conduct

namespace ItbCpp.Loop

open Thread

/-! ## §1. Stages. -/

/-- How far a thread is. -/
inductive Stage where
  /-- before the warmup barrier -/
  | start
  /-- has arrived at the warmup barrier -/
  | arrived
  /-- past it -/
  | between
  /-- has arrived at the release barrier -/
  | ready
  /-- past it, without `done_mu` -/
  | released
  /-- has taken `done_mu` -/
  | holding
  /-- and has read `active` -/
  | saw (n : Int)
  /-- and has written `active` -/
  | wrote (n : Int)
  /-- and has stamped the finish -/
  | stamped
  /-- has given `done_mu` up: a worker is through `worker_done`, main has
  left its wait loop -/
  | done
  /-- the thread function has returned -/
  | returned
  deriving DecidableEq, Repr

/-- The stage after an answer. -/
def Stage.after (s : Stage) : (q : Req) → q.Answer → Stage
  | .arrive .warmupDone, _ => .arrived
  | .await .warmupDone, _ => .between
  | .arrive .release, _ => .ready
  | .await .release, _ => .released
  | .lockDone, _ => .holding
  | .getActive, n => .saw n
  | .setActive n, _ => .wrote n
  | .setFinish _, _ =>
      match s with
      | .wrote _ => .stamped
      | s => s
  | .unlockDone, _ =>
      match s with
      -- main, in the wait loop: it goes on while somebody is active
      | .saw n => if 0 < n then .released else .done
      | _ => .done
  | .return_, _ => .returned
  | _, _ => s

/-- The thread has arrived at the barrier. -/
def Stage.arrivedAt : Barrier → Stage → Bool
  | .warmupDone, .start => false
  | .release, .start | .release, .arrived | .release, .between => false
  | _, _ => true

/-- The thread is past the barrier. -/
def Stage.past : Barrier → Stage → Bool
  | .warmupDone, .start | .warmupDone, .arrived => false
  | .release, .start | .release, .arrived | .release, .between | .release, .ready => false
  | _, _ => true

/-- The thread has `done_mu`. -/
def Stage.locked : Stage → Bool
  | .holding | .saw _ | .wrote _ | .stamped => true
  | _ => false

/-- A worker has counted itself out. -/
def Stage.counted : Stage → Bool
  | .wrote _ | .stamped | .done | .returned => true
  | _ => false

/-- A worker is through `worker_done`. -/
def Stage.over : Stage → Bool
  | .done | .returned => true
  | _ => false

/-- The stages at which thread `i` does more than go through the barriers
and `worker_done`: a worker iterates, main takes its figures. -/
def Stage.works {N : Nat} : Tid N → Stage → Bool
  | some _, .start | some _, .released => true
  | none, .between | none, .done => true
  | _, _ => false

/-- One question of a thread of the harness, answered. -/
abbrev Ev (N : Nat) := Interleave.Event (Tid N) Req Req.Answer

/-- The stage of every thread, once its questions so far were answered. -/
def stages {N : Nat} (evs : List (Ev N)) : Tid N → Stage :=
  evs.foldl (fun st e => Function.update st e.who ((st e.who).after e.asked e.answer))
    fun _ => .start

theorem stages_snoc {N : Nat} (evs : List (Ev N)) (e : Ev N) :
    stages (evs ++ [e]) =
      Function.update (stages evs) e.who ((stages evs e.who).after e.asked e.answer) := by
  simp [stages]

/-! ## §2. The protocol. -/

/-- A side of `pipe_lock`. -/
inductive Side where
  | none | read | write
  deriving DecidableEq, Repr

/-- Where a thread's library call is. -/
inductive CallAt where
  | outside | entered | answered
  deriving DecidableEq, Repr

/-- Where a thread stands. -/
structure Standing where
  stage : Stage := .start
  side : Side := .none
  call : CallAt := .outside

/-- Nothing is held and no call is inside the library. -/
def Standing.idle (t : Standing) : Prop := t.side = .none ∧ t.call = .outside

/-- Where an answer takes a thread. -/
def Standing.after (t : Standing) (q : Req) (a : q.Answer) : Standing where
  stage := t.stage.after q a
  side :=
    match q with
    | .lockShared => .read
    | .lock => .write
    | .unlockShared | .unlock => .none
    | _ => t.side
  call :=
    match q with
    | .enter _ => .entered
    | .effect => .answered
    | .leave => .outside
    | _ => t.call

/-- What thread `i` may ask; `ex` says which Pipelines there are. -/
def Standing.asks {N : Nat} (ex : Pipe → Bool) (i : Tid N) (t : Standing) : Req → Prop
  | .enter _ => t.stage.works i = true ∧ t.call = .outside
  | .effect => t.stage.works i = true ∧ t.call = .entered
  | .leave => t.stage.works i = true ∧ t.call = .answered
  | .lockShared | .lock => i ≠ none ∧ t.stage.works i = true ∧ t.idle
  | .unlockShared => t.stage.works i = true ∧ t.side = .read ∧ t.call = .outside
  | .unlock => t.stage.works i = true ∧ t.side = .write ∧ t.call = .outside
  | .pipe p | .setPipe p _ => t.stage.works i = true ∧ ex p = true
  | .self | .setSelf _ => i ≠ none ∧ t.stage.works i = true
  | .storeStop | .signalSeen => t.stage.works i = true ∨ ∃ n, t.stage = .saw n
  | .now => t.stage.works i = true ∨ t.stage.locked = true
  | .arrive .warmupDone => t.stage = .start ∧ t.idle
  | .await .warmupDone => t.stage = .arrived ∧ t.idle
  | .arrive .release => t.stage = .between ∧ t.idle
  | .await .release => t.stage = .ready ∧ t.idle
  | .lockDone => t.stage = .released ∧ t.idle
  | .getActive => t.stage = .holding ∧ t.idle
  | .setActive n => i ≠ none ∧ t.stage = .saw (n + 1) ∧ t.idle
  | .setFinish _ => t.idle ∧ if i = none then t.stage = .between else t.stage = .wrote 0
  | .unlockDone => t.idle ∧
      if i = none then ∃ n, t.stage = .saw n
      else t.stage = .stamped ∨ ∃ n, t.stage = .wrote n ∧ n ≠ 0
  | .return_ => i ≠ none ∧ t.stage = .done ∧ t.idle
  | .join k => i = none ∧ t.stage = .done ∧ t.idle ∧ k < N
  | _ => t.stage.works i = true

/-- An answer that the shared state gives whoever asks. -/
def Honest (ex : Pipe → Bool) : (q : Req) → q.Answer → Prop
  | .hasPipe p, b => b = ex p
  | _, _ => True

/-- The protocol of thread `i`. -/
def conduct {N : Nat} (ex : Pipe → Bool) (i : Tid N) : Protocol Req Req.Answer Standing where
  asks := Standing.asks ex i
  told t q a t' := Honest ex q a ∧ t' = t.after q a
  spins t := t.stage.works i = true ∨ t.stage.locked = true

section Worker

variable {N : Nat} {ex : Pipe → Bool} {k : Fin N} {t : Standing} {α : Type}

/-! ## §3. One iteration. -/

/-- A worker at work, outside the library. -/
structure AtWork (t : Standing) : Prop where
  stage : t.stage = .start ∨ t.stage = .released
  outside : t.call = .outside

theorem AtWork.works (ht : AtWork t) : t.stage.works (some k) = true := by
  rcases ht.stage with h | h <;> rw [h] <;> rfl

/-- A library call, from outside the library to outside it. -/
theorem stays_libraryCall {i : Tid N} (hw : t.stage.works i = true) (hin : t.call = .outside)
    (c : FfiCall) : Stays (conduct ex i) NoExn (libraryCall c) t := by
  obtain ⟨stage, side, call⟩ := t
  obtain rfl : call = .outside := hin
  refine ⟨⟨hw, rfl⟩, fun a t₁ h₁ => ?_⟩
  obtain ⟨-, rfl⟩ := h₁
  refine ⟨⟨hw, rfl⟩, fun a t₂ h₂ => ?_⟩
  obtain ⟨-, rfl⟩ := h₂
  refine ⟨⟨hw, rfl⟩, fun a t₃ h₃ => ?_⟩
  obtain ⟨-, rfl⟩ := h₃
  rfl

theorem AtWork.undisturbed (ht : AtWork t) : Undisturbed (conduct ex (some k)) t where
  call := stays_libraryCall ht.works ht.outside
  self := ⟨⟨Option.some_ne_none k, ht.works⟩, fun _ _ h => h.2⟩
  buffers _ _ := ⟨⟨Option.some_ne_none k, ht.works⟩, fun _ _ h => h.2⟩
  spins := Or.inl ht.works

/-- The requests that the protocol has no part in. -/
def Req.plain : Req → Bool
  | .hasPipe _ | .blob _ | .setBlob _ _ | .fillRandom _ | .fillPayload _ | .self | .setSelf _
  | .loadStop | .storeStop | .addRekeys | .addBlobCycles | .exit _ => true
  | _ => false

theorem AtWork.plain (ht : AtWork t) {q : Req} (hq : q.plain = true) :
    Stays (conduct ex (some k)) NoExn (ask q) t := by
  have hw : t.stage.works (some k) = true := ht.works
  cases q with
  | hasPipe | blob | setBlob | fillRandom | fillPayload | loadStop | addRekeys | addBlobCycles
  | exit => exact ⟨hw, fun _ _ h => h.2⟩
  | self | setSelf => exact ⟨⟨Option.some_ne_none k, hw⟩, fun _ _ h => h.2⟩
  | storeStop => exact ⟨Or.inl hw, fun _ _ h => h.2⟩
  | _ => cases hq

theorem AtWork.workerFail (ht : AtWork t) (text : Bytes) :
    Stays (conduct ex (some k)) NoExn (workerFail text) t :=
  stays_bind (ht.plain rfl) fun _ => ht.plain rfl

theorem AtWork.cipherFail (ht : AtWork t) (id iter : Nat) (shape : Shape)
    (direction stage : String) (e : Error) :
    Stays (conduct ex (some k)) NoExn (cipherFail id iter shape direction stage e) t :=
  stays_bind (stays_detail ht.undisturbed e) fun _ => ht.workerFail _

/-- The handle of a Pipeline that there is. -/
theorem AtWork.pipe (ht : AtWork t) {p : Pipe} (hp : ex p = true) :
    Stays (conduct ex (some k)) NoExn (ask (.pipe p)) t :=
  ⟨⟨ht.works, hp⟩, fun _ _ h => h.2⟩

theorem AtWork.streamTrip (ht : AtWork t) (hp : ex .stream = true) (id iter fuel : Nat) :
    Stays (conduct ex (some k)) NoExn (streamTrip id iter fuel) t := by
  have hfail : ∀ direction e, Stays (conduct ex (some k)) NoExn
      (ask .self >>= fun w => do
        Loop.cipherFail id iter .stream direction w.stage e
        pure (none : Option Bytes)) t := by
    intro direction e
    refine stays_bind (ht.plain rfl) fun w => ?_
    exact stays_bind (ht.cipherFail _ _ _ _ _ e) fun _ => stays_ret none
  refine stays_bind (ht.pipe hp) fun h => stays_bind (ht.plain rfl) fun w => ?_
  refine stays_bind (stays_pump ht.undisturbed _ _ _ _ fuel) fun r => ?_
  cases r with
  | error e => exact hfail "encrypt" e
  | ok u =>
      refine stays_bind (ht.pipe hp) fun h => stays_bind (ht.plain rfl) fun w => ?_
      refine stays_bind (stays_pump ht.undisturbed _ _ _ _ fuel) fun r => ?_
      cases r with
      | error e => exact hfail "decrypt" e
      | ok u => exact stays_bind (ht.plain rfl) fun w => stays_ret _

theorem AtWork.wholeTrip (ht : AtWork t) {p : Pipe} (hp : ex p = true) (id iter : Nat)
    (shape : Shape) {encrypt decrypt : Pipeline → Bytes → Call Bytes}
    (hencrypt : ∀ self src, (encrypt self src).Throws Exn.IsError)
    (hdecrypt : ∀ self src, (decrypt self src).Throws Exn.IsError) :
    Stays (conduct ex (some k)) NoExn (wholeTrip id iter shape p encrypt decrypt) t := by
  have hfail : ∀ direction e, Stays (conduct ex (some k)) NoExn (do
      Loop.cipherFail id iter shape direction "" e
      pure (none : Option Bytes)) t :=
    fun direction e => stays_bind (ht.cipherFail _ _ _ _ _ e) fun _ => stays_ret none
  refine stays_bind (stays_attempt ?_) fun wire => ?_
  · refine stays_bind (Stays.anyExn (ht.pipe hp)) fun h => ?_
    refine stays_bind (Stays.anyExn (ht.plain rfl)) fun w => ?_
    exact ht.undisturbed.lib (hencrypt _ _)
  · cases wire with
    | error e => exact hfail "encrypt" e
    | ok wire =>
        refine stays_bind (stays_attempt ?_) fun plain => ?_
        · refine stays_bind (Stays.anyExn (ht.pipe hp)) fun h => ?_
          exact ht.undisturbed.lib (hdecrypt _ _)
        · cases plain with
          | error e => exact hfail "decrypt" e
          | ok plain => exact stays_ret _

theorem AtWork.settle (ht : AtWork t) (got : Bytes) :
    Stays (conduct ex (some k)) NoExn (settle got) t := by
  refine stays_bind (ht.plain rfl) fun w => stays_ite (fun _ => ?_) fun _ => ?_
  · exact stays_bind (ht.plain rfl) fun _ => stays_spin (Or.inl ht.works)
  · refine stays_bind (ht.plain rfl) fun _ => stays_bind (ht.plain rfl) fun _ => ?_
    exact stays_bind (ht.plain rfl) fun _ => stays_ret _

theorem AtWork.refill (ht : AtWork t) (cfg : Config) (id iter : Nat) :
    Stays (conduct ex (some k)) NoExn (refill cfg id iter) t := by
  refine stays_ite (fun _ => ?_) fun _ => stays_ret _
  refine stays_bind (ht.plain rfl) fun w => stays_bind (ht.plain rfl) fun drawn => ?_
  cases drawn with
  | some b => exact stays_bind (ht.plain rfl) fun _ => stays_ret _
  | none => exact stays_bind (ht.workerFail _) fun _ => stays_ret _

/-- With a side of `pipe_lock`. -/
theorem AtWork.withSide (ht : AtWork t) (side : Side) : AtWork { t with side := side } :=
  ⟨ht.stage, ht.outside⟩

/-- A worker at work that holds nothing. -/
structure Free (t : Standing) : Prop extends AtWork t where
  side : t.side = .none

theorem Free.idle (ht : Free t) : t.idle := ⟨ht.side, ht.outside⟩

/-- Under the read side, which is given back. -/
theorem Free.shared (ht : Free t) {m : Task α}
    (hm : Stays (conduct ex (some k)) NoExn m { t with side := .read }) :
    Stays (conduct ex (some k)) NoExn
      (ask .lockShared >>= fun _ => m.ensuring (ask .unlockShared)) t := by
  obtain ⟨stage, side, call⟩ := t
  obtain ⟨rfl, rfl⟩ := ht.idle
  have hw : stage.works (some k) = true := ht.works
  refine stays_guard ⟨Option.some_ne_none k, hw, rfl, rfl⟩ (fun _ _ h => h.2) hm ?_
  exact ⟨⟨hw, rfl, rfl⟩, fun _ _ h => h.2⟩

/-- Under the write side, which is given back. -/
theorem Free.exclusive (ht : Free t) {m : Task α}
    (hm : Stays (conduct ex (some k)) NoExn m { t with side := .write }) :
    Stays (conduct ex (some k)) NoExn
      (ask .lock >>= fun _ => m.ensuring (ask .unlock)) t := by
  obtain ⟨stage, side, call⟩ := t
  obtain ⟨rfl, rfl⟩ := ht.idle
  have hw : stage.works (some k) = true := ht.works
  refine stays_guard ⟨Option.some_ne_none k, hw, rfl, rfl⟩ (fun _ _ h => h.2) hm ?_
  exact ⟨⟨hw, rfl, rfl⟩, fun _ _ h => h.2⟩

/-- The pipes that the surface of an iteration needs are there. -/
theorem exercises_surface (shape : Shape) (iter : Nat) :
    (surface shape iter = .stream ∨ surface shape iter = .streamOneShot →
      shape.exercises .stream = true) ∧
    (surface shape iter = .message → shape.exercises .msg = true) := by
  cases shape with
  | stream => exact ⟨fun _ => rfl, fun h => (by cases h)⟩
  | message => exact ⟨fun h => (by rcases h with h | h <;> cases h), fun _ => rfl⟩
  | streamOneShot => exact ⟨fun _ => rfl, fun h => (by cases h)⟩
  | both => exact ⟨fun _ => rfl, fun _ => rfl⟩

theorem AtWork.roundTrip (ht : AtWork t) (junk : Nat → Nat → UInt8) (id iter fuel : Nat)
    {shape : Shape}
    (hstream : shape = .stream ∨ shape = .streamOneShot → ex .stream = true)
    (hmsg : shape = .message → ex .msg = true) :
    Stays (conduct ex (some k)) NoExn (roundTrip junk id iter fuel shape) t := by
  cases shape with
  | stream => exact ht.streamTrip (hstream (Or.inl rfl)) id iter fuel
  | streamOneShot =>
      refine ht.wholeTrip (hstream (Or.inr rfl)) id iter _ ?_ ?_
      · exact fun _ _ => Call.throws_cipherCall junk _ _ _ _
      · exact fun _ _ => Call.throws_cipherCall junk _ _ _ _
  | message =>
      refine ht.wholeTrip (hmsg rfl) id iter _ ?_ ?_
      · exact fun _ _ => Call.throws_cipherCall junk _ _ _ _
      · exact fun _ _ => Call.throws_cipherCall junk _ _ _ _
  | both => exact stays_ret _

/-- **`iterate`**, however far it gets. -/
theorem Free.iterate (ht : Free t) (junk : Nat → Nat → UInt8) (cfg : Config)
    (id iter fuel : Nat) :
    Stays (conduct cfg.shape.exercises (some k)) NoExn (iterate junk cfg id iter fuel) t := by
  refine stays_bind (ht.refill cfg id iter) fun b => stays_ite (fun _ => ?_) fun _ =>
    stays_ret _
  refine ht.shared ?_
  have hin : AtWork { t with side := .read } := ht.withSide .read
  obtain ⟨hstream, hmsg⟩ := exercises_surface cfg.shape iter
  refine stays_bind (hin.roundTrip junk id iter fuel hstream hmsg) fun got => ?_
  cases got with
  | some got => exact hin.settle got
  | none => exact stays_ret _

/-! ## §4. Maintenance. -/

theorem AtWork.drawMaster (ht : AtWork t) (on : Bool) (layer : String) (id iter : Nat) :
    Stays (conduct ex (some k)) NoExn (drawMaster on layer id iter) t := by
  refine stays_ite (fun _ => ?_) fun _ => stays_ret _
  refine stays_bind (ht.plain rfl) fun drawn => ?_
  cases drawn with
  | some b => exact stays_ret _
  | none => exact stays_bind (ht.workerFail _) fun _ => stays_ret _

theorem AtWork.maintenanceFail (ht : AtWork t) (cfg : Config) (id iter : Nat) (op : String)
    (p : Pipe) (e : Error) :
    Stays (conduct ex (some k)) NoExn (maintenanceFail cfg id iter op p e) t :=
  stays_bind (stays_detail ht.undisturbed e) fun _ => stays_bind (ht.workerFail _) fun _ =>
    stays_ret _

/-- Something done with a Pipeline, if there is one, and its error. -/
theorem AtWork.onPipe (ht : AtWork t) (p : Pipe) {m : Task Unit} {fail : Error → Task Bool}
    (hm : ex p = true → Stays (conduct ex (some k)) Exn.IsError m t)
    (hfail : ∀ e, Stays (conduct ex (some k)) NoExn (fail e) t) :
    Stays (conduct ex (some k)) NoExn (ask (.hasPipe p) >>= fun has =>
      if has then attempt m >>= fun done =>
        match done with
        | .ok _ => pure true
        | .error e => fail e
      else pure true) t := by
  unfold Stays
  rw [wp_bind]
  refine ⟨ht.works, fun has t' h => ?_⟩
  obtain ⟨hhas, rfl⟩ := h
  show Stays (conduct ex (some k)) NoExn _ t
  refine stays_ite (fun h => ?_) fun _ => stays_ret _
  refine stays_bind (stays_attempt (hm ?_)) fun done => ?_
  · exact hhas ▸ h
  · cases done with
    | ok u => exact stays_ret _
    | error e => exact hfail e

theorem AtWork.rekeyPipe (ht : AtWork t) (cfg : Config) (id iter : Nat) (perm wrap : Bytes)
    (p : Pipe) :
    Stays (conduct ex (some k)) NoExn (rekeyPipe cfg id iter perm wrap p) t := by
  refine ht.onPipe p (fun hp => ?_) fun e => ht.maintenanceFail cfg id iter "Rekey" p e
  refine stays_bind (Stays.anyExn (ht.pipe hp)) fun h => ?_
  refine stays_bind (ht.undisturbed.lib (Call.throws_rekey _ _ _)) fun b => ?_
  exact Stays.anyExn (ht.plain rfl)

theorem AtWork.blobCyclePipe (ht : AtWork t) (cfg : Config) (id iter : Nat) (p : Pipe) :
    Stays (conduct ex (some k)) NoExn (blobCyclePipe cfg id iter p) t := by
  refine ht.onPipe p (fun hp => ?_) fun e => ht.maintenanceFail cfg id iter "Load" p e
  refine stays_bind (Stays.anyExn (ht.plain rfl)) fun b => ?_
  refine stays_bind (ht.undisturbed.lib (Call.throws_load _ _ _)) fun fresh => ?_
  refine stays_bind (Stays.anyExn (ht.pipe hp)) fun h => ?_
  refine stays_bind (ht.undisturbed.lib (Call.throws_moveAssign _ _)) fun x => ?_
  refine stays_bind ⟨⟨ht.works, hp⟩, fun _ _ h => h.2⟩ fun _ => ?_
  exact ht.undisturbed.lib (Call.throws_destroyPipeline _)

/-- Both Pipelines, and the counter once both are done. -/
theorem AtWork.bothPipes (ht : AtWork t) {stream msg : Task Bool} {counter : Req}
    (hs : Stays (conduct ex (some k)) NoExn stream t)
    (hm : Stays (conduct ex (some k)) NoExn msg t) (hc : counter.plain = true) :
    Stays (conduct ex (some k)) NoExn (stream >>= fun a =>
      if a then msg >>= fun b =>
        if b then ask counter >>= fun _ => pure true else pure false
      else pure false) t := by
  refine stays_bind hs fun a => stays_ite (fun _ => ?_) fun _ => stays_ret _
  refine stays_bind hm fun b => stays_ite (fun _ => ?_) fun _ => stays_ret _
  exact stays_bind (ht.plain hc) fun _ => stays_ret _

theorem Free.rekeyPipes (ht : Free t) (cfg : Config) (id iter : Nat) :
    Stays (conduct ex (some k)) NoExn (rekeyPipes cfg id iter) t := by
  have hin : AtWork { t with side := .write } := ht.withSide .write
  refine stays_bind (ht.drawMaster _ _ id iter) fun perm => ?_
  cases perm with
  | none => exact stays_ret _
  | some perm =>
      refine stays_bind (ht.drawMaster _ _ id iter) fun wrap => ?_
      cases wrap with
      | none => exact stays_ret _
      | some wrap =>
          exact ht.exclusive (hin.bothPipes (hin.rekeyPipe cfg id iter perm wrap .stream)
            (hin.rekeyPipe cfg id iter perm wrap .msg) rfl)

theorem Free.blobCyclePipes (ht : Free t) (cfg : Config) (id iter : Nat) :
    Stays (conduct ex (some k)) NoExn (blobCyclePipes cfg id iter) t := by
  have hin : AtWork { t with side := .write } := ht.withSide .write
  exact ht.exclusive (hin.bothPipes (hin.blobCyclePipe cfg id iter .stream)
    (hin.blobCyclePipe cfg id iter .msg) rfl)

theorem Free.workerMaintenance (ht : Free t) (cfg : Config) (id iter : Nat) :
    Stays (conduct ex (some k)) NoExn (workerMaintenance cfg id iter) t := by
  have hreopen : ∀ b : Bool, Stays (conduct ex (some k)) NoExn
      (if b then
        if due cfg.blobCycleEvery iter then Loop.blobCyclePipes cfg id iter else .ret true
      else .ret false) t := by
    intro b
    refine stays_ite (fun _ => ?_) fun _ => stays_ret _
    exact stays_ite (fun _ => ht.blobCyclePipes cfg id iter) fun _ => stays_ret _
  exact stays_ite (fun _ => stays_bind (ht.rekeyPipes cfg id iter) hreopen) fun _ => hreopen true

end Worker

section Threads

variable {N : Nat} {ex : Pipe → Bool} {i : Tid N} {k : Fin N}

/-! ## §5. Barriers and `worker_done`. -/

theorem wp_warmupDone {R : Ends Exn Standing Unit}
    (h : R.ok () ⟨.between, .none, .outside⟩) :
    (arriveAndWait .warmupDone).wp (conduct ex i) R ⟨.start, .none, .outside⟩ := by
  refine ⟨⟨rfl, rfl, rfl⟩, fun _ t₁ h₁ => ?_⟩
  obtain ⟨-, rfl⟩ := h₁
  refine ⟨⟨rfl, rfl, rfl⟩, fun _ t₂ h₂ => ?_⟩
  obtain ⟨-, rfl⟩ := h₂
  exact h

theorem wp_release {R : Ends Exn Standing Unit}
    (h : R.ok () ⟨.released, .none, .outside⟩) :
    (arriveAndWait .release).wp (conduct ex i) R ⟨.between, .none, .outside⟩ := by
  refine ⟨⟨rfl, rfl, rfl⟩, fun _ t₁ h₁ => ?_⟩
  obtain ⟨-, rfl⟩ := h₁
  refine ⟨⟨rfl, rfl, rfl⟩, fun _ t₂ h₂ => ?_⟩
  obtain ⟨-, rfl⟩ := h₂
  exact h

/-- **`worker_done`**: the counter is read and written under one lock. -/
theorem wp_workerDone {R : Ends Exn Standing Unit}
    (h : R.ok () ⟨.done, .none, .outside⟩) :
    workerDone.wp (conduct ex (some k)) R ⟨.released, .none, .outside⟩ := by
  have hk : some k ≠ (none : Tid N) := Option.some_ne_none k
  -- the guard gives `done_mu` back from either stage
  have hunlock : ∀ s, (s = .stamped ∨ ∃ n, s = .wrote n ∧ n ≠ 0) →
      (ask .unlockDone).wp (conduct ex (some k)) R ⟨s, .none, .outside⟩ := by
    intro s hs
    refine ⟨⟨⟨rfl, rfl⟩, ?_⟩, fun _ t' ht' => ?_⟩
    · rw [if_neg hk]
      exact hs
    · obtain ⟨-, rfl⟩ := ht'
      rcases hs with rfl | hs
      · exact h
      · obtain ⟨n, rfl, -⟩ := hs
        exact h
  refine ⟨⟨rfl, rfl, rfl⟩, fun _ t₁ h₁ => ?_⟩
  obtain ⟨-, rfl⟩ := h₁
  show Thread.wp _ (Thread.ensuring _ _) _ _
  rw [wp_ensuring]
  refine ⟨⟨rfl, rfl, rfl⟩, fun n t₂ h₂ => ?_⟩
  obtain ⟨-, rfl⟩ := h₂
  refine ⟨⟨hk, ?_, rfl, rfl⟩, fun _ t₃ h₃ => ?_⟩
  · show Stage.saw n = Stage.saw (n - 1 + 1)
    rw [Int.sub_add_cancel]
  · obtain ⟨-, rfl⟩ := h₃
    show Thread.wp _ (if n - 1 = 0 then _ else _) _ _
    rw [wp_ite]
    split
    · -- the last one: it stamps the finish
      rename_i hlast
      refine ⟨Or.inr rfl, fun u t₄ h₄ => ?_⟩
      obtain ⟨-, rfl⟩ := h₄
      refine ⟨⟨⟨rfl, rfl⟩, ?_⟩, fun _ t₅ h₅ => ?_⟩
      · rw [if_neg hk]
        exact congrArg Stage.wrote hlast
      · obtain ⟨-, rfl⟩ := h₅
        exact hunlock .stamped (Or.inl rfl)
    · rename_i hmore
      exact hunlock (.wrote (n - 1)) (Or.inr ⟨n - 1, rfl, hmore⟩)

/-! ## §6. The threads. -/

/-- A worker past the release barrier. -/
theorem free_released : Free ⟨.released, .none, .outside⟩ := ⟨⟨Or.inr rfl, rfl⟩, rfl⟩

theorem stays_workerLoop (junk : Nat → Nat → UInt8) (cfg : Config) (id fuel₀ fuel iter : Nat) :
    Stays (conduct cfg.shape.exercises (some k)) NoExn (workerLoop junk cfg id fuel₀ fuel iter)
      ⟨.released, .none, .outside⟩ := by
  have ht : Free ⟨.released, .none, .outside⟩ := free_released
  induction fuel generalizing iter with
  | zero => exact stays_spin (Or.inl rfl)
  | succ fuel ih =>
      refine stays_ite (fun _ => stays_ret _) fun _ => ?_
      refine stays_bind (ht.plain rfl) fun stop => stays_ite (fun _ => stays_ret _) fun _ => ?_
      refine stays_bind (ht.iterate junk cfg id iter fuel₀) fun b => stays_ite (fun _ => ?_)
        fun _ => stays_ret _
      refine stays_bind (ht.workerMaintenance cfg id iter) fun b => stays_ite (fun _ => ?_)
        fun _ => stays_ret _
      exact ih (iter + 1)

/-- Where a thread ends: it returns at `s`, and leaves by no exception. -/
def EndsAt (s : Stage) : Ends Exn Standing Unit where
  ok _ t := t = ⟨s, .none, .outside⟩
  threw _ _ := False

/-- **A worker keeps to the protocol**, whatever fails. -/
theorem keepsTo_workerMain (junk : Nat → Nat → UInt8) (cfg : Config) (id fuel : Nat) :
    (workerMain junk cfg id fuel).wp (conduct cfg.shape.exercises (some k)) (EndsAt .returned)
      {} := by
  have hstart : Free {} := ⟨⟨Or.inl rfl, rfl⟩, rfl⟩
  have hend : ((do
      workerDone
      ask .return_) : Task Unit).wp (conduct cfg.shape.exercises (some k)) (EndsAt .returned)
        ⟨.released, .none, .outside⟩ := by
    rw [wp_bind]
    refine wp_workerDone ⟨⟨Option.some_ne_none k, rfl, rfl, rfl⟩, fun _ t h => ?_⟩
    exact h.2
  unfold workerMain
  rw [wp_bind]
  refine (hstart.iterate junk cfg id 0 fuel).wp (fun ok => ?_) fun _ he => he.elim
  -- both barriers are passed with `ok` and without
  show Thread.wp _ (arriveAndWait .warmupDone >>= _) _ _
  rw [wp_bind]
  refine wp_warmupDone ?_
  show Thread.wp _ (arriveAndWait .release >>= _) _ _
  rw [wp_bind]
  refine wp_release ?_
  show Thread.wp _ (if ok then _ else _) _ _
  rw [wp_ite]
  split
  · rw [wp_bind]
    exact (stays_workerLoop junk cfg id fuel fuel 1).wp (fun _ => hend) fun _ he => he.elim
  · exact hend

theorem stays_poolSnapshotTake {s : Stage} (hs : s.works (none : Tid N) = true) (cfg : Config) :
    Stays (conduct ex (none : Tid N)) NoExn (poolSnapshotTake cfg) ⟨s, .none, .outside⟩ := by
  have hlib : Stays (conduct ex (none : Tid N)) Exn.IsError
      (lib (Call.poolStats (List.replicate cfg.poolSlots 0))) ⟨s, .none, .outside⟩ :=
    stays_lib (stays_libraryCall hs rfl) (Or.inl hs) (Call.throws_poolStats _)
  refine stays_bind (stays_attempt hlib) fun x => ?_
  cases x with
  | ok r => exact stays_ret _
  | error e => exact stays_ret _

/-- **The wait loop**, from taking `done_mu` to having seen nobody active. -/
theorem wp_waitLoop (cfg : Config) (start : Int) (fuel : Nat) {R : Ends Exn Standing Unit}
    (hok : ∀ n, ¬ 0 < n → R.ok () ⟨.saw n, .none, .outside⟩) :
    (waitLoop cfg start fuel).wp (conduct ex (none : Tid N)) R ⟨.holding, .none, .outside⟩ := by
  induction fuel with
  | zero => exact Or.inr rfl
  | succ fuel ih =>
      refine ⟨⟨rfl, rfl, rfl⟩, fun n t h => ?_⟩
      obtain ⟨-, rfl⟩ := h
      show Thread.wp _ (if 0 < n then _ else _) _ _
      rw [wp_ite]
      split
      · rename_i hn
        -- whatever else is asked with somebody active, `done_mu` is given up and taken again
        have hagain : ((do
            ask .unlockDone
            ask .lockDone
            waitLoop cfg start fuel) : Task Unit).wp (conduct ex (none : Tid N)) R
              ⟨.saw n, .none, .outside⟩ := by
          refine ⟨⟨⟨rfl, rfl⟩, ?_⟩, fun _ t₁ h₁ => ?_⟩
          · rw [if_pos rfl]
            exact ⟨n, rfl⟩
          · obtain ⟨-, rfl⟩ := h₁
            have hstage : (Stage.saw n).after .unlockDone () = .released := if_pos hn
            refine ⟨⟨hstage, rfl, rfl⟩, fun _ t₂ h₂ => ?_⟩
            obtain ⟨-, rfl⟩ := h₂
            exact ih
        have hstop : Stays (conduct ex (none : Tid N)) NoExn (ask .storeStop)
            ⟨.saw n, .none, .outside⟩ := ⟨Or.inr ⟨n, rfl⟩, fun _ _ h => h.2⟩
        have hdeadline : (if cfg.iterations = 0 then (do
            let t ← ask .now
            if overdue cfg start t then (do
              ask .storeStop
              ask .unlockDone
              ask .lockDone
              waitLoop cfg start fuel)
            else (do
              ask .unlockDone
              ask .lockDone
              waitLoop cfg start fuel))
          else (do
            ask .unlockDone
            ask .lockDone
            waitLoop cfg start fuel) : Task Unit).wp (conduct ex (none : Tid N)) R
              ⟨.saw n, .none, .outside⟩ := by
          rw [wp_ite]
          split
          · refine ⟨Or.inr rfl, fun u t₁ h₁ => ?_⟩
            obtain ⟨-, rfl⟩ := h₁
            show Thread.wp _ (if overdue cfg start u = true then _ else _) _ _
            rw [wp_ite]
            split
            · refine (wp_bind _ _).mpr (hstop.wp (fun _ => hagain) fun _ he => he.elim)
            · exact hagain
          · exact hagain
        refine ⟨Or.inr ⟨n, rfl⟩, fun seen t₁ h₁ => ?_⟩
        obtain ⟨-, rfl⟩ := h₁
        show Thread.wp _ (if seen = true then _ else _) _ _
        rw [wp_ite]
        split
        · exact (wp_bind _ _).mpr (hstop.wp (fun _ => hdeadline) fun _ he => he.elim)
        · exact hdeadline
      · rename_i hn
        exact hok n hn

theorem stays_joinAll (n m : Nat) (hN : m + n ≤ N) :
    Stays (conduct ex (none : Tid N)) NoExn (joinAll n m) ⟨.done, .none, .outside⟩ := by
  induction n generalizing m with
  | zero => exact stays_ret _
  | succ n ih =>
      have hjoin : Stays (conduct ex (none : Tid N)) NoExn (ask (.join m))
          ⟨.done, .none, .outside⟩ := by
        refine ⟨⟨rfl, rfl, ⟨rfl, rfl⟩, ?_⟩, fun _ _ h => h.2⟩
        omega
      refine stays_bind hjoin fun _ => ih (m + 1) ?_
      omega

/-- **The main thread keeps to the protocol.** -/
theorem keepsTo_mainThread (cfg : Config) (fuel : Nat) :
    (mainThread cfg N fuel).wp (conduct ex (none : Tid N)) (EndsAt .done) {} := by
  unfold mainThread
  rw [wp_bind]
  refine wp_warmupDone ?_
  -- the figures are taken between the barriers
  show Thread.wp _ (poolSnapshotTake cfg >>= _) _ _
  rw [wp_bind]
  refine (stays_poolSnapshotTake rfl cfg).wp (fun _ => ?_) fun _ he => he.elim
  refine ⟨Or.inl rfl, fun start t₁ h₁ => ?_⟩
  obtain ⟨-, rfl⟩ := h₁
  refine ⟨⟨⟨rfl, rfl⟩, ?_⟩, fun _ t₂ h₂ => ?_⟩
  · rw [if_pos rfl]
    rfl
  obtain ⟨-, rfl⟩ := h₂
  show Thread.wp _ (arriveAndWait .release >>= _) _ _
  rw [wp_bind]
  refine wp_release ?_
  refine ⟨⟨rfl, rfl, rfl⟩, fun _ t₃ h₃ => ?_⟩
  obtain ⟨-, rfl⟩ := h₃
  show Thread.wp _ (Thread.ensuring _ _ >>= _) _ _
  rw [wp_bind, wp_ensuring]
  refine wp_waitLoop cfg start fuel fun n hn => ?_
  refine ⟨⟨⟨rfl, rfl⟩, ?_⟩, fun _ t₄ h₄ => ?_⟩
  · rw [if_pos rfl]
    exact ⟨n, rfl⟩
  obtain ⟨-, rfl⟩ := h₄
  have hstage : (Stage.saw n).after .unlockDone () = .done := if_neg hn
  -- past the wait loop
  show Thread.wp _ (joinAll N 0 >>= _) _
    (Standing.mk ((Stage.saw n).after .unlockDone ()) .none .outside)
  rw [hstage, wp_bind]
  refine (stays_joinAll N 0 (Nat.le_of_eq (Nat.zero_add N))).wp (fun _ => ?_)
    fun _ he => he.elim
  show Thread.wp _ (poolSnapshotTake cfg >>= _) _ _
  rw [wp_bind]
  exact (stays_poolSnapshotTake rfl cfg).wp (fun _ => rfl) fun _ he => he.elim

end Threads

end ItbCpp.Loop
