/-
  ItbCpp.Loop.State
  ─────────────────
  **THE LOOP HARNESS: SHARED STATE** (`loop/loop.hpp`).

  One main thread and `N` workers over one `RunState`.  A thread is a
  resumption (`Lib.Thread`); what it asks is a `Req`, and `serve` says what
  each answer does to the shared state.  A library call is three requests:
  it enters the library, takes effect there, and returns; other threads
  may run in between, so calls of several threads overlap.

  Four components are not in the source: they record which calls are
  inside the library, which sessions are open, which cipher calls a worker
  has made since it last took the read lock, and every keying a pipe has
  had.  No thread reads them.

  Wall-clock figures, log lines and the memory baselines are left out.
-/
import ItbCpp.Lib.Interleave
import ItbCpp.Stepwise

namespace ItbCpp

namespace Loop

/-! ## §1. Vocabulary. -/

/-- `Shape`: the cipher surfaces. -/
inductive Shape where
  | stream | message | streamOneShot | both
  deriving DecidableEq, Repr

/-- `shape_name`. -/
def Shape.name : Shape → String
  | .stream => "stream"
  | .message => "message"
  | .streamOneShot => "stream_one_shot"
  | .both => "both"

/-- `PayloadMode`. -/
inductive PayloadMode where
  | fixed | rotating | patternZero | patternFF | patternAscii
  deriving DecidableEq, Repr

/-- `kPumpSlice`. -/
def kPumpSlice : Nat := 1 <<< 20

/-- `Config`, as far as building the Pipelines and the threads read it. -/
structure Config where
  durationNs : Int := 0
  iterations : Int := 0
  shape : Shape := .stream
  hash : Bytes := []
  mac : Bytes := []
  payload : Int := 0
  parallax : Bool := true
  wrapper : Bool := true
  profile : Bytes := []
  keyBits : Int := 0
  nonceBits : Int := 0
  blobMode : Int := 1
  chunkSize : Int := 0
  barrierFill : Int := 0
  drbg : Bytes := []
  interlock : Bytes := []
  rekeyEvery : Int := 0
  blobCycleEvery : Int := 0
  payloadMode : PayloadMode := .fixed
  /-- what `pool_stats_len` reported -/
  poolSlots : Nat := 0

/-- The two Pipelines of a run: `stream_pipe` and `msg_pipe`. -/
inductive Pipe where
  | stream | msg
  deriving DecidableEq, Repr

/-- `kDefaultStreamProfile`. -/
def kDefaultStreamProfile : String := "streaming-aead-triple-mac-v1"

/-- `kDefaultMessageProfile`. -/
def kDefaultMessageProfile : String := "singlemsg-triple-mac-v1"

/-- `stream_profile` and `msg_profile`: what a Pipeline is built against. -/
def Config.pipeProfile (cfg : Config) : Pipe → Bytes
  | .stream => if cfg.profile ≠ [] then cfg.profile else text kDefaultStreamProfile
  | .msg => if cfg.profile ≠ [] then cfg.profile else text kDefaultMessageProfile

/-- The two barriers. -/
inductive Barrier where
  | warmupDone | release
  deriving DecidableEq, Repr

/-- `Worker`: one worker's private state.  `stage` is the local of
`iterate` of that name. -/
structure Worker where
  plaintext : Bytes := []
  wire : Bytes := []
  plain : Bytes := []
  scratch : Bytes := []
  iters : Nat := 0
  bytesEnc : Nat := 0
  bytesDec : Nat := 0
  failed : Bool := false
  error : Bytes := []
  stage : String := ""

/-! ## §2. Requests. -/

/-- What a thread asks of its environment. -/
inductive Req where
  /-- enter the library with a call -/
  | enter (c : FfiCall)
  /-- the call takes effect -/
  | effect
  /-- the call returns -/
  | leave
  | lockShared | unlockShared
  | lock | unlock
  /-- `has_value()` -/
  | hasPipe (p : Pipe)
  /-- `*r.stream_pipe`; undefined when unset -/
  | pipe (p : Pipe)
  /-- the pipe's object is given another handle -/
  | setPipe (p : Pipe) (h : Handle)
  | blob (p : Pipe)
  | setBlob (p : Pipe) (b : Bytes)
  /-- `fill_random` into `n` bytes: what was drawn, or nothing -/
  | fillRandom (n : Nat)
  /-- `fill_payload` in rotating mode, into `n` bytes -/
  | fillPayload (n : Nat)
  /-- the worker's own record -/
  | self
  | setSelf (f : Worker → Worker)
  | loadStop | storeStop
  /-- `fetch_add(1)` -/
  | addRekeys | addBlobCycles
  /-- the two halves of `arrive_and_wait` -/
  | arrive (b : Barrier)
  | await (b : Barrier)
  | lockDone | unlockDone
  | getActive
  | setActive (n : Int)
  | now
  | setFinish (t : Int)
  /-- `signal_seen != 0` -/
  | signalSeen
  /-- `std::_Exit` -/
  | exit (code : Nat)
  /-- the thread function returns -/
  | return_
  /-- `join` -/
  | join (k : Nat)

/-- What comes back. -/
abbrev Req.Answer : Req → Type
  | .leave => Reply
  | .hasPipe _ | .loadStop | .signalSeen => Bool
  | .pipe _ => Handle
  | .blob _ => Bytes
  | .fillRandom _ | .fillPayload _ => Option Bytes
  | .self => Worker
  | .addRekeys | .addBlobCycles => Nat
  | .getActive | .now => Int
  | _ => Unit

/-- A thread of the harness. -/
abbrev Task (α : Type) := Thread Req Req.Answer Exn α

/-- Ask the environment. -/
def ask (q : Req) : Task q.Answer := Thread.call q

/-- One library call: its three requests. -/
def libraryCall (c : FfiCall) : Task Reply := do
  -- three points where other threads may come in between
  ask (.enter c)
  ask .effect
  ask .leave

/-- What the binding asks, asked by a thread of the harness. -/
def serveCall : ∀ q : Ask, Task q.Answer
  | .ffi c => libraryCall c
  | .emit _ => Thread.ret ()

/-- An entry of the binding, called from the harness. -/
def lib {α : Type} (m : Call α) : Task α := Thread.translate serveCall m

/-! ## §3. The shared state. -/

/-- A thread: `none` is main. -/
abbrev Tid (N : Nat) := Option (Fin N)

/-- One cipher call: what was asked and answered, the Pipeline handle it
worked on, and that handle's keying. -/
structure Use (K : Type) where
  call : FfiCall
  reply : Reply
  handle : Handle
  keying : Option K

/-- The library, what `pipe_lock` guards, the lock, and what is recorded of
the calls. -/
structure PipeState (σ K : Type) (N : Nat) where
  lib : σ
  pipes : Pipe → Option Handle
  blobs : Pipe → Bytes
  /-- who holds the read side of `pipe_lock` -/
  readers : Tid N → Bool := fun _ => false
  /-- who holds the write side of `pipe_lock` -/
  writer : Option (Tid N) := none
  /-- the call each thread has inside the library, and its answer -/
  calls : Tid N → Option (FfiCall × Option Reply) := fun _ => none
  /-- the open sessions of each thread, with the handle they were begun on -/
  sessions : Tid N → List (Handle × Handle) := fun _ => []
  /-- each thread's cipher calls since it last took the read lock -/
  used : Tid N → List (Use K) := fun _ => []
  /-- every keying a pipe has had, the latest last -/
  rotations : Pipe → List K

/-- `RunState`. -/
structure Shared (σ K : Type) (N : Nat) extends PipeState σ K N where
  rekeys : Nat := 0
  blobCycles : Nat := 0
  workers : Fin N → Worker
  stop : Bool := false
  arrived : Barrier → Tid N → Bool := fun _ _ => false
  /-- `done_mu` -/
  doneMu : Option (Tid N) := none
  active : Int := N
  finishNs : Int := 0
  exited : Option Nat := none
  returned : Tid N → Bool := fun _ => false

end Loop

/-! ## §4. Calls and what they touch. -/

/-- The calls of the cipher surfaces. -/
def FfiCall.isCipher : FfiCall → Bool
  | .encryptMessage _ _ _ | .decryptMessage _ _ _ | .encryptStream _ _ _
  | .decryptStream _ _ _ | .encryptStreamBegin _ | .decryptStreamBegin _ | .streamWrite _ _
  | .streamEnd _ | .streamRead _ _ | .streamFree _ => true
  | _ => false

/-- The Pipeline handle a cipher call works on, by way of its session if
it has one. -/
def FfiCall.owner (sessions : List (Handle × Handle)) : FfiCall → Option Handle
  | .encryptMessage h _ _ | .decryptMessage h _ _ | .encryptStream h _ _
  | .decryptStream h _ _ | .encryptStreamBegin h | .decryptStreamBegin h => some h
  | .streamWrite x _ | .streamEnd x | .streamRead x _ | .streamFree x => sessions.lookup x
  | _ => none

/-- The handle whose keying or life a call may change. -/
def FfiCall.mutates : FfiCall → Option Handle
  | .rekey h _ _ _ | .free h | .close h => some h
  | _ => none

namespace Loop

/-- The sessions of a thread after one of its calls. -/
def sessionsAfter (sessions : List (Handle × Handle)) (c : FfiCall) (r : Reply) :
    List (Handle × Handle) :=
  match c with
  | .encryptStreamBegin h | .decryptStreamBegin h =>
      if r.rc = 0 ∧ r.handle ≠ 0 then (r.handle, h) :: sessions else sessions
  | .streamFree x => sessions.filter fun e => e.1 ≠ x
  | _ => sessions

section Machine

variable {σ K : Type} {N : Nat} (L : Lib σ) (key : σ → Handle → Option K)

/-- The state once the call of thread `i` has taken effect. -/
def PipeState.effect (s : PipeState σ K N) (i : Tid N) (c : FfiCall) : PipeState σ K N :=
  let a := L c s.lib
  { s with
    lib := a.2
    calls := Function.update s.calls i (some (c, some a.1))
    sessions := Function.update s.sessions i (sessionsAfter (s.sessions i) c a.1)
    -- the keying after the call: of a cipher call it is the one before, too
    used := Function.update s.used i (s.used i ++
      ((c.owner (s.sessions i)).map fun h =>
        { call := c, reply := a.1, handle := h, keying := key a.2 h }).toList)
    rotations := fun p =>
      match c with
      | .rekey h _ _ _ =>
          -- only a rekey that the library granted is a keying of the pipe
          if a.1.rc = 0 ∧ s.pipes p = some h then s.rotations p ++ (key a.2 h).toList
          else s.rotations p
      | _ => s.rotations p }

/-- What each answer does to the shared state. -/
def answers (i : Tid N) (s : Shared σ K N) : (q : Req) → q.Answer → Shared σ K N → Prop
  | .enter c, _, s' =>
      s.calls i = none ∧ s' = { s with calls := Function.update s.calls i (some (c, none)) }
  | .effect, _, s' =>
      ∃ c, s.calls i = some (c, none) ∧
        s' = { s with toPipeState := s.toPipeState.effect L key i c }
  | .leave, r, s' =>
      ∃ c, s.calls i = some (c, some r) ∧
        s' = { s with calls := Function.update s.calls i none }
  | .lockShared, _, s' =>
      -- an iteration's calls are counted from here
      s.writer = none ∧
        s' = { s with
          readers := Function.update s.readers i true
          used := Function.update s.used i [] }
  | .unlockShared, _, s' => s' = { s with readers := Function.update s.readers i false }
  | .lock, _, s' =>
      -- exclusive: no writer and no reader
      s.writer = none ∧ (∀ j, s.readers j = false) ∧ s' = { s with writer := some i }
  | .unlock, _, s' => s' = { s with writer := none }
  | .hasPipe p, b, s' => b = (s.pipes p).isSome ∧ s' = s
  | .pipe p, h, s' => s.pipes p = some h ∧ s' = s
  | .setPipe p h, _, s' => s' = { s with pipes := Function.update s.pipes p (some h) }
  | .blob p, b, s' => b = s.blobs p ∧ s' = s
  | .setBlob p b, _, s' => s' = { s with blobs := Function.update s.blobs p b }
  | .fillRandom n, drawn, s' | .fillPayload n, drawn, s' =>
      (∀ b, drawn = some b → b.length = n) ∧ s' = s
  | .self, w, s' => (∃ k, i = some k ∧ w = s.workers k) ∧ s' = s
  | .setSelf f, _, s' =>
      ∃ k, i = some k ∧
        s' = { s with workers := Function.update s.workers k (f (s.workers k)) }
  | .loadStop, b, s' => b = s.stop ∧ s' = s
  | .storeStop, _, s' => s' = { s with stop := true }
  | .addRekeys, n, s' => n = s.rekeys ∧ s' = { s with rekeys := s.rekeys + 1 }
  | .addBlobCycles, n, s' => n = s.blobCycles ∧ s' = { s with blobCycles := s.blobCycles + 1 }
  | .arrive b, _, s' =>
      s' = { s with
        arrived := Function.update s.arrived b (Function.update (s.arrived b) i true) }
  | .await b, _, s' => (∀ j, s.arrived b j = true) ∧ s' = s
  | .lockDone, _, s' => s.doneMu = none ∧ s' = { s with doneMu := some i }
  | .unlockDone, _, s' => s' = { s with doneMu := none }
  | .getActive, n, s' => n = s.active ∧ s' = s
  | .setActive n, _, s' => s' = { s with active := n }
  | .now, _, s' => s' = s
  | .setFinish t, _, s' => s' = { s with finishNs := t }
  | .signalSeen, _, s' => s' = s
  | .exit code, _, s' => s' = { s with exited := some code }
  | .return_, _, s' => s' = { s with returned := Function.update s.returned i true }
  | .join k, _, s' => (∃ j : Fin N, j.val = k ∧ s.returned (some j) = true) ∧ s' = s

/-- The machine: answers are given until the process exits. -/
def machine : Interleave.System (Tid N) Req Req.Answer (Shared σ K N) where
  serve i s q a s' := s.exited = none ∧ answers L key i s q a s'

end Machine

end Loop

end ItbCpp
