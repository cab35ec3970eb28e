/-
  ItbCpp.Loop.Steady
  ──────────────────
  **WHAT LEAVES A THREAD WHERE IT STANDS** (`loop/worker.cpp`, `loop/ops.cpp`,
  `loop/main.cpp`).

  Most of what the harness asks moves none of its Pipelines and no lock.
  What is true of a thread and is kept by such requests, and by the library
  calls of one kind, is kept by every piece of the harness that is made of
  them, whatever it is told and however it ends.

    • `Steady` — the requests and the calls that keep to a set,
    • `Steady.pump` — a pump does, if the calls on sessions do,
    • `Steady.mainThread` — the main thread does.
-/
import ItbCpp.Loop.Pumping
import ItbCpp.Loop.Sessions

namespace ItbCpp.Loop

open Thread

/-! ## §1. Keeping to a set. -/

/-- The requests that move no Pipeline, take no lock and make no call. -/
def Req.aloof : Req → Bool
  | .enter _ | .effect | .leave | .lockShared | .unlockShared | .lock | .unlock | .pipe _
  | .setPipe _ _ => false
  | _ => true

/-- Begun in `S`, the computation ends in `S`, by an exception or without. -/
abbrev Abides {τ α : Type} (P : Protocol Req Req.Answer τ) (S : τ → Prop) (m : Task α) : Prop :=
  Remains P S (fun _ => S) m

/-- Requests that stay aloof and the calls in `p` keep to `S`. -/
structure Steady {τ : Type} (P : Protocol Req Req.Answer τ) (p : FfiCall → Prop)
    (S : τ → Prop) : Prop where
  aloof : ∀ q, q.aloof = true → Abides P S (ask q)
  call : ∀ c, p c → Abides P S (libraryCall c)
  spins : ∀ t, S t → P.spins t
  /-- the diagnostics and the figures may be asked for anywhere -/
  lastError : ∀ n, p (.lastError n)
  poolStats : ∀ n, p (.poolStats n)

section Walk

variable {τ α : Type} {P : Protocol Req Req.Answer τ} {p : FfiCall → Prop} {S : τ → Prop}

/-- A caught error is a way of going on in `S`; any other exception leaves
there. -/
theorem abides_attempt {m : Task α} (h : Abides P S m) : Abides P S (attempt m) := by
  refine remains_handle (remains_bind h fun _ => remains_ret _) fun e => ?_
  cases e with
  | error e => exact remains_ret _
  | invalidArgument what => exact fun _ ht => ht

namespace Steady

variable (W : Steady P p S)
include W

/-- An entry of the binding. -/
theorem lib {m : Call α} (h : m.Asks (Ask.only p)) : Abides P S (lib m) := by
  refine h.remains W.spins fun q hq => ?_
  cases q with
  | ffi c => exact W.call c hq
  | emit e => exact remains_ret ()

/-- The diagnostics are among the calls that keep to `S`. -/
theorem detail (e : Error) : Abides P S (detail e) :=
  remains_bind (W.lib (Call.asks_lastError W.lastError)) fun _ => remains_ret _

/-- A recorded error changes the worker's own record and the stop flag. -/
theorem workerFail (t : Bytes) : Abides P S (workerFail t) :=
  remains_bind (W.aloof _ rfl) fun _ => W.aloof _ rfl

theorem cipherFail (id iter : Nat) (shape : Shape) (direction stage : String) (e : Error) :
    Abides P S (cipherFail id iter shape direction stage e) :=
  remains_bind (W.detail e) fun _ => W.workerFail _

/-! ## §2. The pump. -/

section Session

variable {x : Handle} (hx : ∀ c, c.session = some x → p c)
include hx

/-- One read of a session whose calls keep to `S`. -/
theorem readChunk : Abides P S (readChunk { handle := x }) := by
  refine remains_bind (W.aloof _ rfl) fun _ => remains_bind (W.aloof _ rfl) fun w => ?_
  refine remains_bind (W.lib ?_) fun got => remains_bind (W.aloof _ rfl) fun _ => remains_ret _
  refine asks_bind (asks_call (hx _ rfl)) fun r => ?_
  exact asks_bind (Call.asks_check W.lastError _ _) fun _ => trivial

/-- The drain after a write: one read a round, by induction on the fuel. -/
theorem drainAvailable (out : Out) (fuel : Nat) :
    Abides P S (drainAvailable { handle := x } out fuel) := by
  induction fuel with
  | zero => exact remains_spin W.spins
  | succ fuel ih =>
      refine remains_bind (W.readChunk hx) fun got => ?_
      refine remains_ite (fun _ => remains_ret _) fun _ => ?_
      exact remains_bind (W.aloof _ rfl) fun _ => ih

/-- The drain after `end`, in the same way. -/
theorem drainFinished (out : Out) (fuel : Nat) :
    Abides P S (drainFinished { handle := x } out fuel) := by
  induction fuel with
  | zero => exact remains_spin W.spins
  | succ fuel ih =>
      refine remains_bind (W.readChunk hx) fun got => remains_bind (W.aloof _ rfl) fun _ => ?_
      exact remains_ite (fun _ => remains_ret _) fun _ => ih

/-- The feed loop: each write, then the drain after it. -/
theorem feed (src : Bytes) (out : Out) (drainFuel fuel off : Nat) :
    Abides P S (feed { handle := x } src out drainFuel fuel off) := by
  induction fuel generalizing off with
  | zero => exact remains_spin W.spins
  | succ fuel ih =>
      refine remains_ite (fun _ => ?_) fun _ => remains_ret _
      refine remains_bind (W.aloof _ rfl) fun _ => remains_bind (W.lib ?_) fun _ => ?_
      · exact asks_bind (asks_call (hx _ rfl)) fun r => Call.asks_check W.lastError _ _
      · exact remains_bind (W.drainAvailable hx out drainFuel) fun _ => ih _

/-- A session fed, ended and drained. -/
theorem pumpBody (src : Bytes) (out : Out) (fuel : Nat) :
    Abides P S (pumpBody { handle := x } src out fuel) := by
  refine remains_bind (W.feed hx src out fuel fuel 0) fun _ => ?_
  refine remains_bind (W.aloof _ rfl) fun _ => remains_bind (W.lib ?_) fun _ => ?_
  · exact asks_bind (asks_call (hx _ rfl)) fun r => Call.asks_check W.lastError _ _
  · exact W.drainFinished hx out fuel

theorem destroyStream : Abides P S (Loop.lib (Call.destroyStream { handle := x })) := by
  refine W.lib (asks_bind (asks_ite (fun _ => ?_) fun _ => trivial) fun _ => trivial)
  exact asks_bind (asks_call (hx _ rfl)) fun _ => trivial

end Session

/-- **A pump**, on a Pipeline that a session may be begun on. -/
theorem pump (hs : ∀ c x, c.session = some x → p c) {h : Handle} (encrypt : Bool)
    (hbegin : p (beginCall encrypt h)) (src : Bytes) (out : Out) (fuel : Nat) :
    Abides P S (pump { handle := h } encrypt src out fuel) := by
  refine remains_bind (W.aloof _ rfl) fun _ => abides_attempt ?_
  have hopen : Abides P S (Loop.lib (if encrypt then Call.encryptStreamBegin { handle := h }
      else Call.decryptStreamBegin { handle := h })) := by
    refine W.lib ?_
    cases encrypt <;>
      exact asks_bind (asks_call hbegin) fun r => asks_bind (Call.asks_check W.lastError _ _)
        fun _ => asks_bind (asks_call trivial) fun _ => trivial
  refine remains_bind (W.aloof _ rfl) fun _ => remains_bind hopen fun session => ?_
  have hx : ∀ c, c.session = some session.handle → p c := fun c hc => hs c _ hc
  exact remains_ensuring (W.pumpBody hx src out fuel) (W.destroyStream hx)
    fun _ => W.destroyStream hx

/-! ## §3. Around the round trip. -/

/-- A refill draws a plaintext and puts it into the worker's record. -/
theorem refill (cfg : Config) (id iter : Nat) : Abides P S (refill cfg id iter) := by
  refine remains_ite (fun _ => ?_) fun _ => remains_ret _
  refine remains_bind (W.aloof _ rfl) fun w => remains_bind (W.aloof _ rfl) fun drawn => ?_
  cases drawn with
  | some b => exact remains_bind (W.aloof _ rfl) fun _ => remains_ret _
  | none => exact remains_bind (W.workerFail _) fun _ => remains_ret _

/-- The comparison looks at the worker's own record, and may end the process.
-/
theorem settle (got : Bytes) : Abides P S (settle got) := by
  refine remains_bind (W.aloof _ rfl) fun w => remains_ite (fun _ => ?_) fun _ => ?_
  · exact remains_bind (W.aloof _ rfl) fun _ => remains_spin W.spins
  · refine remains_bind (W.aloof _ rfl) fun _ => remains_bind (W.aloof _ rfl) fun _ => ?_
    exact remains_bind (W.aloof _ rfl) fun _ => remains_ret _

/-- A master is drawn before the lock is taken. -/
theorem drawMaster (on : Bool) (layer : String) (id iter : Nat) :
    Abides P S (drawMaster on layer id iter) := by
  refine remains_ite (fun _ => ?_) fun _ => remains_ret _
  refine remains_bind (W.aloof _ rfl) fun drawn => ?_
  cases drawn with
  | some b => exact remains_ret _
  | none => exact remains_bind (W.workerFail _) fun _ => remains_ret _

theorem maintenanceFail (cfg : Config) (id iter : Nat) (op : String) (q : Pipe) (e : Error) :
    Abides P S (maintenanceFail cfg id iter op q e) :=
  remains_bind (W.detail e) fun _ => remains_bind (W.workerFail _) fun _ => remains_ret _

theorem arriveAndWait (b : Barrier) : Abides P S (arriveAndWait b) :=
  remains_bind (W.aloof _ rfl) fun _ => W.aloof _ rfl

/-- What a worker does last is under `done_mu`, which `S` does not speak of.
-/
theorem workerDone : Abides P S workerDone := by
  refine remains_bind (W.aloof _ rfl) fun _ =>
    remains_ensuring ?_ (W.aloof _ rfl) fun _ => W.aloof _ rfl
  refine remains_bind (W.aloof _ rfl) fun n => remains_bind (W.aloof _ rfl) fun _ => ?_
  refine remains_ite (fun _ => ?_) fun _ => remains_ret _
  exact remains_bind (W.aloof _ rfl) fun t => W.aloof _ rfl

/-! ## §4. The main thread. -/

/-- A snapshot is one call, and its failure is caught. -/
theorem poolSnapshotTake (cfg : Config) : Abides P S (poolSnapshotTake cfg) := by
  refine remains_bind (abides_attempt
    (W.lib (Call.asks_poolStats W.lastError _ W.poolStats))) fun r => ?_
  cases r with
  | ok y => exact remains_ret _
  | error e => exact remains_ret _

/-- The wait loop looks at a count, a flag and a clock. -/
theorem waitLoop (cfg : Config) (start : Int) (fuel : Nat) :
    Abides P S (waitLoop cfg start fuel) := by
  induction fuel with
  | zero => exact remains_spin W.spins
  | succ fuel ih =>
      have hagain : Abides P S (do
          ask .unlockDone
          ask .lockDone
          Loop.waitLoop cfg start fuel) :=
        remains_bind (W.aloof _ rfl) fun _ => remains_bind (W.aloof _ rfl) fun _ => ih
      have hstop : ∀ {m : Task Unit}, Abides P S m → Abides P S (ask .storeStop >>= fun _ => m) :=
        fun hm => remains_bind (W.aloof _ rfl) fun _ => hm
      have hdeadline : Abides P S (if cfg.iterations = 0 then ask .now >>= fun t =>
          if overdue cfg start t then ask .storeStop >>= fun _ => (do
            ask .unlockDone
            ask .lockDone
            Loop.waitLoop cfg start fuel)
          else (do
            ask .unlockDone
            ask .lockDone
            Loop.waitLoop cfg start fuel)
        else (do
          ask .unlockDone
          ask .lockDone
          Loop.waitLoop cfg start fuel)) := by
        refine remains_ite (fun _ => remains_bind (W.aloof _ rfl) fun t => ?_) fun _ => hagain
        exact remains_ite (fun _ => hstop hagain) fun _ => hagain
      refine remains_bind (W.aloof _ rfl) fun n => remains_ite (fun _ => ?_) fun _ => remains_ret _
      refine remains_bind (W.aloof _ rfl) fun seen => ?_
      exact remains_ite (fun _ => hstop hdeadline) fun _ => hdeadline

theorem joinAll (n k : Nat) : Abides P S (joinAll n k) := by
  induction n generalizing k with
  | zero => exact remains_ret _
  | succ n ih => exact remains_bind (W.aloof _ rfl) fun _ => ih (k + 1)

/-- **The main thread.** -/
theorem mainThread (cfg : Config) (workers fuel : Nat) :
    Abides P S (mainThread cfg workers fuel) := by
  refine remains_bind (W.arriveAndWait _) fun _ => ?_
  refine remains_bind (W.poolSnapshotTake cfg) fun _ => ?_
  refine remains_bind (W.aloof _ rfl) fun start => remains_bind (W.aloof _ rfl) fun _ => ?_
  refine remains_bind (W.arriveAndWait _) fun _ => remains_bind (W.aloof _ rfl) fun _ => ?_
  refine remains_bind (remains_ensuring (W.waitLoop cfg start fuel) (W.aloof _ rfl)
    fun _ => W.aloof _ rfl) fun _ => ?_
  refine remains_bind (W.joinAll workers 0) fun _ => ?_
  exact remains_bind (W.poolSnapshotTake cfg) fun _ => remains_ret _

end Steady

end Walk

end ItbCpp.Loop
