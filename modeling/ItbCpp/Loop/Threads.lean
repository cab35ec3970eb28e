/-
  ItbCpp.Loop.Threads
  ───────────────────
  **THE LOOP HARNESS: ITS THREADS** (`loop/ops.cpp`, `loop/worker.cpp`,
  `loop/main.cpp`).

  The functions the threads run, under the source's names.  A function
  that returns `false` after recording the worker's error answers `false`
  here; a lock guard or a session object is a scope (`Thread.ensuring`).

  The source's loops have no bound of their own; each runs here on `fuel`,
  and a thread that has used it up spins.
-/
import ItbCpp.Loop.State

namespace ItbCpp.Loop

/-! ## §1. Errors. -/

/-- `"g%d iter %lld"`. -/
def place (id iter : Nat) : Bytes := text ("g" ++ toString id ++ " iter " ++ toString iter)

/-- What `%s` prints of a `std::string`'s `c_str()`. -/
def cStr (s : Bytes) : Bytes := s.takeWhile (· != 0)

/-- `detail`: the status of the error, then what `last_error` says now. -/
def detail (e : Error) : Task Bytes := do
  let diag ← lib Call.lastError
  pure (text "status " ++ text (toString e.status.code) ++ text ": " ++ diag)

/-- `worker_fail`: the first error wins, and the run is asked to stop. -/
def workerFail (t : Bytes) : Task Unit := do
  ask (.setSelf fun w => if w.failed then w else { w with error := t, failed := true })
  ask .storeStop

/-- `try { m } catch (const itb::Error &e)`. -/
def attempt {α : Type} (m : Task α) : Task (Except Error α) :=
  Thread.handle (do
      let a ← m
      pure (.ok a))
    fun e =>
      match e with
      -- the handler names `itb::Error` only: any other exception goes on
      | .error e => pure (.error e)
      | e => Thread.throw e

/-! ## §2. Maintenance (`ops.cpp`). -/

/-- `kRekeyMasterSize`. -/
def kRekeyMasterSize : Nat := 32

/-- One fresh master; a disabled layer passes no bytes. -/
def drawMaster (on : Bool) (layer : String) (id iter : Nat) : Task (Option Bytes) :=
  if on then do
    -- fresh from the OS on every rotation, whatever `--seed` says
    match ← ask (.fillRandom kRekeyMasterSize) with
    | some b => pure (some b)
    | none => do
        workerFail (place id iter ++ text ": csprng: " ++ text layer ++ text " master")
        pure none
  else pure (some [])

/-- A failed `Rekey` or `Load` is recorded under the profile's name. -/
def maintenanceFail (cfg : Config) (id iter : Nat) (op : String) (p : Pipe) (e : Error) :
    Task Bool := do
  let d ← detail e
  workerFail (place id iter ++ text ": " ++ text op ++ text "(" ++ cStr (cfg.pipeProfile p) ++
    text "): " ++ d)
  pure false

/-- `rekey_pipes`, for one Pipeline. -/
def rekeyPipe (cfg : Config) (id iter : Nat) (perm wrap : Bytes) (p : Pipe) : Task Bool := do
  if ← ask (.hasPipe p) then
    let done ← attempt do
      let h ← ask (.pipe p)
      let b ← lib (Call.rekey { handle := h } perm wrap)
      ask (.setBlob p b)
    match done with
    | .ok _ => pure true
    | .error e => maintenanceFail cfg id iter "Rekey" p e
  else pure true

/-- `rekey_pipes`. -/
def rekeyPipes (cfg : Config) (id iter : Nat) : Task Bool := do
  match ← drawMaster cfg.parallax "parallax" id iter with
  | none => pure false
  | some perm => do
      match ← drawMaster cfg.wrapper "wrapper" id iter with
      | none => pure false
      | some wrap => do
          -- both masters are drawn before the write lock is taken
          ask .lock
          Thread.ensuring (do
              if ← rekeyPipe cfg id iter perm wrap .stream then
                if ← rekeyPipe cfg id iter perm wrap .msg then
                  -- counted only once every active Pipeline has rotated
                  let _ ← ask .addRekeys
                  pure true
                else pure false
              else pure false)
            (ask .unlock)

/-- `blob_cycle_pipes`, for one Pipeline: the running handle is freed only
once the fresh one is there. -/
def blobCyclePipe (cfg : Config) (id iter : Nat) (p : Pipe) : Task Bool := do
  if ← ask (.hasPipe p) then
    let done ← attempt do
      -- the blob `Init` or the latest `Rekey` handed out, not a fresh `Save`
      let b ← ask (.blob p)
      let fresh ← lib (Call.load b [] [])
      let h ← ask (.pipe p)
      let (self, fresh) ← lib (Call.moveAssign { handle := h } fresh)
      -- `fresh` leaves its scope moved-from
      ask (.setPipe p self.handle)
      lib (Call.destroyPipeline fresh)
    match done with
    | .ok _ => pure true
    | .error e => maintenanceFail cfg id iter "Load" p e
  else pure true

/-- `blob_cycle_pipes`. -/
def blobCyclePipes (cfg : Config) (id iter : Nat) : Task Bool := do
  ask .lock
  Thread.ensuring (do
      if ← blobCyclePipe cfg id iter .stream then
        if ← blobCyclePipe cfg id iter .msg then
          let _ ← ask .addBlobCycles
          pure true
        else pure false
      else pure false)
    (ask .unlock)

/-- An interval of 0 is never due. -/
def due (every : Int) (iter : Nat) : Bool := 0 < every ∧ (iter : Int) % every = 0

/-- `worker_maintenance`. -/
def workerMaintenance (cfg : Config) (id iter : Nat) : Task Bool := do
  let rekeyed ← if due cfg.rekeyEvery iter then rekeyPipes cfg id iter else pure true
  if rekeyed then
    if due cfg.blobCycleEvery iter then blobCyclePipes cfg id iter else pure true
  else pure false

/-! ## §3. The pump (`worker.cpp`). -/

/-- The accumulator a pump fills: `w.wire` or `w.plain`. -/
inductive Out where
  | wire | plain
  deriving DecidableEq, Repr

/-- `out.clear()`. -/
def Worker.clear (w : Worker) : Out → Worker
  | .wire => { w with wire := [] }
  | .plain => { w with plain := [] }

/-- The first `n` bytes of the drain slice go to the end of `out`. -/
def Worker.insert (w : Worker) (n : Nat) : Out → Worker
  | .wire => { w with wire := w.wire ++ w.scratch.take n }
  | .plain => { w with plain := w.plain ++ w.scratch.take n }

/-- Where the pump stands. -/
def setStage (stage : String) : Task Unit := ask (.setSelf fun w => { w with stage := stage })

/-- `session.read(drain)`. -/
def readChunk (session : Stream) : Task StreamRead := do
  setStage "StreamRead"
  let w ← ask .self
  let (got, scratch) ← lib (Call.read session w.scratch)
  ask (.setSelf fun w => { w with scratch := scratch })
  pure got

/-- The drain after a write: until a read gives nothing. -/
def drainAvailable (session : Stream) (out : Out) : Nat → Task Unit
  | 0 => Thread.spin
  | fuel + 1 => do
      let got ← readChunk session
      if got.n = 0 then pure ()
      else do
        ask (.setSelf fun w => w.insert got.n out)
        drainAvailable session out fuel

/-- The drain after `end`: until a read reports the end. -/
def drainFinished (session : Stream) (out : Out) : Nat → Task Unit
  | 0 => Thread.spin
  | fuel + 1 => do
      let got ← readChunk session
      -- the terminal bytes may come with the flag
      ask (.setSelf fun w => w.insert got.n out)
      if got.finished then pure ()
      else drainFinished session out fuel

/-- The feed loop, from `off` on. -/
def feed (session : Stream) (src : Bytes) (out : Out) (drainFuel : Nat) : Nat → Nat → Task Unit
  | 0, _ => Thread.spin
  | fuel + 1, off => do
      if off < src.length then do
        -- at most 1 MiB, then everything the session has produced so far
        let slice := if src.length - off < kPumpSlice then src.length - off else kPumpSlice
        setStage "StreamWrite"
        lib (Call.write session ((src.drop off).take slice))
        drainAvailable session out drainFuel
        feed session src out drainFuel fuel (off + slice)
      else pure ()

/-- `pump_body`. -/
def pumpBody (session : Stream) (src : Bytes) (out : Out) (fuel : Nat) : Task Unit := do
  feed session src out fuel fuel 0
  setStage "StreamEnd"
  lib (Call.end_ session)
  drainFinished session out fuel

/-- `pump`: the session is a local object. -/
def pump (self : Pipeline) (encrypt : Bool) (src : Bytes) (out : Out) (fuel : Nat) :
    Task (Except Error Unit) := do
  ask (.setSelf fun w => w.clear out)
  attempt do
    setStage "StreamBegin"
    let session ← lib (if encrypt then Call.encryptStreamBegin self
      else Call.decryptStreamBegin self)
    Thread.ensuring (pumpBody session src out fuel) (lib (Call.destroyStream session))

/-! ## §4. One iteration. -/

/-- `cipher_fail`: `stage` names the session step of a pump. -/
def cipherFail (id iter : Nat) (shape : Shape) (direction stage : String) (e : Error) :
    Task Unit := do
  let d ← detail e
  let at_ := if stage = "" ∨ stage = direction then [] else text stage ++ text ": "
  workerFail (place id iter ++ text " shape=" ++ text shape.name ++ text ": " ++
    text direction ++ text ": " ++ at_ ++ d)

/-- The shape dispatch: under `both` the three surfaces rotate. -/
def surface (shape : Shape) (iter : Nat) : Shape :=
  match shape with
  | .both =>
      match iter % 3 with
      | 0 => .stream
      | 1 => .message
      | _ => .streamOneShot
  | shape => shape

/-- The stream branch: what the round trip gave, or nothing on an error. -/
def streamTrip (id iter : Nat) (fuel : Nat) : Task (Option Bytes) := do
  let h ← ask (.pipe .stream)
  let w ← ask .self
  match ← pump { handle := h } true w.plaintext .wire fuel with
  | .error e => do
      let w ← ask .self
      -- the step the encrypting session failed in
      cipherFail id iter .stream "encrypt" w.stage e
      pure none
  | .ok _ => do
      let h ← ask (.pipe .stream)
      let w ← ask .self
      match ← pump { handle := h } false w.wire .plain fuel with
      | .error e => do
          let w ← ask .self
          -- `stage` is the decrypting session's from here on
          cipherFail id iter .stream "decrypt" w.stage e
          pure none
      | .ok _ => do
          let w ← ask .self
          pure (some w.plain)

/-- The message and one-shot branches, which differ in the Pipeline and in
the entries they call. -/
def wholeTrip (id iter : Nat) (shape : Shape) (p : Pipe)
    (encrypt decrypt : Pipeline → Bytes → Call Bytes) : Task (Option Bytes) := do
  let wire ← attempt do
    let h ← ask (.pipe p)
    let w ← ask .self
    lib (encrypt { handle := h } w.plaintext)
  match wire with
  | .error e => do
      cipherFail id iter shape "encrypt" "" e
      pure none
  | .ok wire => do
      let plain ← attempt do
        let h ← ask (.pipe p)
        lib (decrypt { handle := h } wire)
      match plain with
      | .error e => do
          cipherFail id iter shape "decrypt" "" e
          pure none
      | .ok plain => pure (some plain)

section Iterate

variable (junk : Nat → Nat → UInt8) (cfg : Config)

/-- The switch over the surfaces. -/
def roundTrip (id iter : Nat) (fuel : Nat) : Shape → Task (Option Bytes)
  | .stream => streamTrip id iter fuel
  | .streamOneShot => wholeTrip id iter .streamOneShot .stream
      (Call.encryptStreamOneShot junk) (Call.decryptStreamOneShot junk)
  | .message => wholeTrip id iter .message .msg
      (Call.encryptMessage junk) (Call.decryptMessage junk)
  | .both => pure (some []) -- resolved before

/-- What follows the round trip: the comparison and the counters. -/
def settle (got : Bytes) : Task Bool := do
  let w ← ask .self
  if got ≠ w.plaintext then do
    -- DATA MISMATCH
    ask (.exit 3)
    Thread.spin
  else do
    ask (.setSelf fun w => { w with iters := w.iters + 1 })
    ask (.setSelf fun w => { w with bytesEnc := w.bytesEnc + w.plaintext.length })
    ask (.setSelf fun w => { w with bytesDec := w.bytesDec + got.length })
    pure true

/-- The refill under rotating mode. -/
def refill (id iter : Nat) : Task Bool :=
  if cfg.payloadMode = .rotating then do
    let w ← ask .self
    match ← ask (.fillPayload w.plaintext.length) with
    | some b => do
        ask (.setSelf fun w => { w with plaintext := b })
        pure true
    | none => do
        workerFail (place id iter ++ text ": payload refill: csprng")
        pure false
  else pure true

/-- `iterate`. -/
def iterate (id iter : Nat) (fuel : Nat) : Task Bool := do
  if ← refill cfg id iter then
    -- encrypt and decrypt under one read lock: maintenance is not in between
    ask .lockShared
    Thread.ensuring (do
        match ← roundTrip junk id iter fuel (surface cfg.shape iter) with
        | some got => settle got
        | none => pure false)
      (ask .unlockShared)
  else pure false

/-! ## §5. The worker thread. -/

/-- `arrive_and_wait`. -/
def arriveAndWait (b : Barrier) : Task Unit := do
  ask (.arrive b)
  ask (.await b)

/-- `worker_done`. -/
def workerDone : Task Unit := do
  ask .lockDone
  Thread.ensuring (do
      let n ← ask .getActive
      ask (.setActive (n - 1))
      if n - 1 = 0 then do
        let t ← ask .now
        -- the last one to return stamps the finish
        ask (.setFinish t)
      else pure ())
    (ask .unlockDone)

/-- The main loop of `worker_main`. -/
def workerLoop (id : Nat) (fuel₀ : Nat) : Nat → Nat → Task Unit
  | 0, _ => Thread.spin
  | fuel + 1, iter => do
      if 0 < cfg.iterations ∧ cfg.iterations ≤ iter then pure ()
      else if ← ask .loadStop then pure ()
      else if ← iterate junk cfg id iter fuel₀ then
        -- maintenance comes after iteration 1 at the earliest
        if ← workerMaintenance cfg id iter then workerLoop id fuel₀ fuel (iter + 1)
        else pure ()
      else pure ()

/-- `worker_main`. -/
def workerMain (id : Nat) (fuel : Nat) : Task Unit := do
  let ok ← iterate junk cfg id 0 fuel
  -- a worker that failed its warmup passes both barriers all the same
  arriveAndWait .warmupDone
  arriveAndWait .release
  if ok then workerLoop junk cfg id fuel fuel 1 else pure ()
  workerDone
  ask .return_

end Iterate

/-! ## §6. The main thread (`main.cpp`, `run` once the workers are up). -/

/-- `pool_snapshot_take`. -/
def poolSnapshotTake (cfg : Config) : Task Bool := do
  match ← attempt (lib (Call.poolStats (List.replicate cfg.poolSlots 0))) with
  | .ok _ => pure true
  | .error _ => pure false

/-- The deadline, in duration mode. -/
def overdue (cfg : Config) (start t : Int) : Bool := cfg.durationNs ≤ t - start

/-- The wait loop.  `wait_for` gives `done_mu` up and takes it again; it
may always have timed out. -/
def waitLoop (cfg : Config) (start : Int) : Nat → Task Unit
  | 0 => Thread.spin
  | fuel + 1 => do
      if 0 < (← ask .getActive) then
        if ← ask .signalSeen then ask .storeStop else pure ()
        -- the deadline counts in duration mode only
        if cfg.iterations = 0 then
          let t ← ask .now
          if overdue cfg start t then ask .storeStop else pure ()
        else pure ()
        ask .unlockDone
        ask .lockDone
        waitLoop cfg start fuel
      else pure ()

/-- `join`, worker by worker. -/
def joinAll : Nat → Nat → Task Unit
  | 0, _ => pure ()
  | n + 1, k => do
      ask (.join k)
      joinAll n (k + 1)

/-- `run`, from the warmup barrier to the second pool snapshot. -/
def mainThread (cfg : Config) (workers fuel : Nat) : Task Unit := do
  arriveAndWait .warmupDone
  let _ ← poolSnapshotTake cfg
  let start ← ask .now
  ask (.setFinish start)
  arriveAndWait .release
  ask .lockDone
  Thread.ensuring (waitLoop cfg start fuel) (ask .unlockDone)
  joinAll workers 0
  let _ ← poolSnapshotTake cfg

end ItbCpp.Loop
