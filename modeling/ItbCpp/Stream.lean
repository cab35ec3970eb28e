/-
  ItbCpp.Stream
  ─────────────
  **STREAM SESSIONS AND THE PUMP** (`src/stream.cpp`).

  A session is a byte pump: bytes go in through `write`, produced bytes
  come out through `read`.  `pumpInto` drives a session over a whole
  buffer; its state is the world together with the destination and the two
  cursors.

  The source's loops have no bound of their own.  Each runs here on the
  same `fuel`; a run that uses it up is still running.
-/
import ItbCpp.Pipeline

namespace ItbCpp

/-- `detail::kPumpBuf`. -/
def kPumpBuf : Nat := 1024 * 1024

/-- `itb::StreamRead`. -/
structure StreamRead where
  n : Nat
  finished : Bool
  deriving DecidableEq, Repr

/-- `itb::Stream`, the common part of `EncryptStream` and `DecryptStream`:
the handle it owns, zero when it owns none. -/
structure Stream where
  handle : Handle := 0
  deriving DecidableEq, Repr

section Session

variable {σ : Type} (L : Lib σ)

/-! ## §1. Session lifecycle. -/

/-- `Pipeline::encrypt_stream_begin`. -/
def Pipeline.encryptStreamBegin (self : Pipeline) : Prog Exn (World σ) Stream := do
  let r ← ffi L (.encryptStreamBegin self.handle)
  check L r.rc "Pipeline::encrypt_stream_begin"
  emit (.adopt r.handle)
  pure { handle := r.handle }

/-- `Pipeline::decrypt_stream_begin`. -/
def Pipeline.decryptStreamBegin (self : Pipeline) : Prog Exn (World σ) Stream := do
  let r ← ffi L (.decryptStreamBegin self.handle)
  check L r.rc "Pipeline::decrypt_stream_begin"
  emit (.adopt r.handle)
  pure { handle := r.handle }

/-- `Stream::write`. -/
def Stream.write (self : Stream) (src : Bytes) : Prog Exn (World σ) Unit := do
  let r ← ffi L (.streamWrite self.handle src)
  check L r.rc "Stream::write"

/-- `Stream::end`. -/
def Stream.end_ (self : Stream) : Prog Exn (World σ) Unit := do
  let r ← ffi L (.streamEnd self.handle)
  check L r.rc "Stream::end"

/-- `Stream::read`: the count and the flag as the library reports them, and
what the span holds afterwards. -/
def Stream.read (self : Stream) (dst : Bytes) : Prog Exn (World σ) (StreamRead × Bytes) := do
  let r ← ffi L (.streamRead self.handle dst.length)
  check L r.rc "Stream::read"
  pure ({ n := r.len, finished := r.fin ≠ 0 }, Buffer.overlay dst r.out)

/-- `Stream::close`: the handle is released and forgotten. -/
def Stream.close (self : Stream) : Prog Exn (World σ) Stream :=
  if self.handle ≠ 0 then do
    -- the code of the free is not looked at
    let _ ← ffi L (.streamFree self.handle)
    pure { handle := 0 }
  else pure self

/-- `Stream::~Stream`. -/
def Stream.destroy (self : Stream) : Prog Exn (World σ) Unit := do
  let _ ← self.close L
  pure ()

/-- `Stream::Stream(Stream &&)`: the new object and what is left of the old
one. -/
def Stream.moveConstruct (other : Stream) : Stream × Stream :=
  ({ handle := other.handle }, { handle := 0 })

/-- `Stream::operator=(Stream &&)` on two different objects. -/
def Stream.moveAssign (self other : Stream) : Prog Exn (World σ) (Stream × Stream) := do
  let _ ← self.close L
  pure ({ handle := other.handle }, { handle := 0 })

end Session

/-! ## §2. The pump. -/

/-- What `pump_into` works on: the world, the caller's buffer, how much of it
is used and how much of the source has been written. -/
structure Pump (σ : Type) where
  world : World σ
  dst : Bytes
  used : Nat := 0
  offset : Nat := 0

/-- A computation on the world, inside the pump. -/
def Pump.onWorld {σ α : Type} (m : Prog Exn (World σ) α) : Prog Exn (Pump σ) α :=
  Prog.zoom Pump.world (fun w p => { p with world := w }) m

@[simp] theorem wp_onWorld {σ α : Type} (m : Prog Exn (World σ) α)
    {Q : Prog.Post Exn (Pump σ) α} {p : Pump σ} :
    Prog.wp (Pump.onWorld m) Q p ↔
      Prog.wp m ⟨fun a w => Q.ok a { p with world := w },
        fun e w => Q.threw e { p with world := w },
        fun w => Q.running { p with world := w }⟩ p.world := by
  unfold Pump.onWorld
  rw [Prog.wp_zoom]

/-- The text of the exception for a destination that is full. -/
def dstTooSmall : Bytes :=
  text "itb: stream pump dst too small for the produced output; size it via itb::out_bound"

section Pumping

variable {σ : Type} (L : Lib σ)

/-- The lambda `drain_one`: one read into the free tail. -/
def drainOne (session : Stream) : Prog Exn (Pump σ) StreamRead := do
  let p ← Prog.get
  if p.used = p.dst.length then
    Prog.throw (.invalidArgument dstTooSmall)
  else do
    let (r, tail) ← Pump.onWorld (session.read L (p.dst.drop p.used))
    -- the library has written the span, whatever it reports
    Prog.modify fun p => { p with dst := p.dst.take p.used ++ tail }
    if r.n > p.dst.length - p.used then
      -- an out-of-range count never advances the cursor
      Pump.onWorld (fail L Status.internal.code "stream pump read")
    else do
      Prog.modify fun p => { p with used := p.used + r.n }
      pure r

/-- One slice of the source. -/
def feedOne (session : Stream) (src : Bytes) : Prog Exn (Pump σ) Unit := do
  let p ← Prog.get
  let slice := min (src.length - p.offset) kPumpBuf
  Pump.onWorld (session.write L ((src.drop p.offset).take slice))
  Prog.modify fun p => { p with offset := p.offset + slice }

/-- The drain loop after a write: until a read gives nothing. -/
def drainAvailable (session : Stream) (fuel : Nat) : Prog Exn (Pump σ) Unit :=
  Prog.loop fuel do
    let r ← drainOne L session
    pure (r.n ≠ 0)

/-- The drain loop after `end`: until a read reports the end. -/
def drainFinished (session : Stream) (fuel : Nat) : Prog Exn (Pump σ) Unit :=
  Prog.loop fuel do
    let r ← drainOne L session
    pure (!r.finished)

/-- `pump_into`: feed bounded slices, draining after each; end; drain until
finished. -/
def pumpInto (session : Stream) (src : Bytes) (fuel : Nat) : Prog Exn (Pump σ) Nat := do
  Prog.while_ fuel (fun p => p.offset < src.length) do
    feedOne L session src
    drainAvailable L session fuel
  Pump.onWorld (session.end_ L)
  drainFinished L session fuel
  let p ← Prog.get
  pure p.used

/-- `Pipeline::encrypt_stream_pump_into`: the session is a local object. -/
def Pipeline.encryptStreamPumpInto (self : Pipeline) (plain : Bytes) (fuel : Nat) :
    Prog Exn (Pump σ) Nat := do
  let session ← Pump.onWorld (self.encryptStreamBegin L)
  Prog.ensuring (pumpInto L session plain fuel) (Pump.onWorld (session.destroy L))

/-- `Pipeline::decrypt_stream_pump_into`. -/
def Pipeline.decryptStreamPumpInto (self : Pipeline) (wire : Bytes) (fuel : Nat) :
    Prog Exn (Pump σ) Nat := do
  let session ← Pump.onWorld (self.decryptStreamBegin L)
  Prog.ensuring (pumpInto L session wire fuel) (Pump.onWorld (session.destroy L))

/-! ## §3. The allocating pumps. -/

variable (junk : Nat → Nat → UInt8)

/-- A computation on a heap buffer of its own, given back at the end. -/
def Pump.withBuffer {α : Type} (buf : Bytes) (m : Prog Exn (Pump σ) α) :
    Prog Exn (World σ) α :=
  Prog.zoom (fun w => { world := w, dst := buf }) (fun p _ => p.world)
    (Prog.ensuring m do
      let p ← Prog.get
      Pump.onWorld (emit (.dealloc p.dst)))

/-- One pass of the loop of `pump_alloc`: a fresh buffer of `cap` bytes, a
fresh session, one full pump.  Nothing is returned when the buffer was too
small and another pass is due. -/
def pumpAttempt (begin_ : Prog Exn (World σ) Stream) (src : Bytes) (fuel : Nat) (last : Bool)
    (cap : Nat) : Prog Exn (World σ) (Option Bytes) :=
  Pump.withBuffer (uninit junk cap) do
    let session ← Pump.onWorld begin_
    Prog.ensuring
      (Prog.handle
        (do
          let n ← pumpInto L session src fuel
          let p ← Prog.get
          pure (some (p.dst.take n)))
        fun e =>
          match e with
          | .invalidArgument _ =>
              -- only a full buffer is worth another pass, and a larger one must exist
              if last ∨ cap > (sizeMod - 1) / 2 then Prog.throw e else pure none
          | _ => Prog.throw e)
      (Pump.onWorld (session.destroy L))

/-- The loop of `pump_alloc`, with `left` more passes allowed after this
one. -/
def pumpAttempts (begin_ : Prog Exn (World σ) Stream) (src : Bytes) (fuel : Nat) :
    Nat → Nat → Prog Exn (World σ) Bytes
  | left, cap => do
      match ← pumpAttempt L junk begin_ src fuel (left = 0) cap with
      | some bytes => pure bytes
      | none =>
          match left with
          | 0 => Prog.throw (.invalidArgument dstTooSmall) -- not reached: the last pass rethrows
          | left + 1 => pumpAttempts begin_ src fuel left (cap * 2 % sizeMod)

/-- `pump_alloc`. -/
def pumpAlloc (begin_ : Prog Exn (World σ) Stream) (src : Bytes) (fuel : Nat) :
    Prog Exn (World σ) Bytes :=
  pumpAttempts L junk begin_ src fuel 2 (outCap src.length)

/-- `Pipeline::encrypt_stream_pump`. -/
def Pipeline.encryptStreamPump (self : Pipeline) (plain : Bytes) (fuel : Nat) :
    Prog Exn (World σ) Bytes :=
  pumpAlloc L junk (self.encryptStreamBegin L) plain fuel

/-- `Pipeline::decrypt_stream_pump`. -/
def Pipeline.decryptStreamPump (self : Pipeline) (wire : Bytes) (fuel : Nat) :
    Prog Exn (World σ) Bytes :=
  pumpAlloc L junk (self.decryptStreamBegin L) wire fuel

end Pumping

end ItbCpp
