/-
  ItbCpp.Stepwise
  ───────────────
  **THE BINDING, ONE LIBRARY CALL AT A TIME.**

  Several threads may be inside the binding at once.  Here the entries the
  loop harness uses are threads that stop at every `ITB_*` call, so that
  anything may happen between two calls of one entry.

  Each is the same text as its counterpart in `BufCall`, `Pipeline` or
  `Stream`, and run alone it IS that counterpart (`alone_rekey`,
  `alone_load`, …).
-/
import ItbCpp.Lib.Thread
import ItbCpp.Stream

namespace ItbCpp

/-! ## §1. What the binding asks. -/

/-- A library call, or an event that only the trace sees. -/
inductive Ask where
  | ffi (c : FfiCall)
  | emit (e : Event)

/-- What comes back. -/
abbrev Ask.Answer : Ask → Type
  | .ffi _ => Reply
  | .emit _ => Unit

/-- A computation of the binding, in steps. -/
abbrev Call (α : Type) := Thread Ask Ask.Answer Exn α

/-- The answers a library gives to a caller that is alone. -/
def Ask.serve {σ : Type} (L : Lib σ) : ∀ q : Ask, Prog Exn (World σ) q.Answer
  | .ffi c => ItbCpp.ffi L c
  | .emit e => ItbCpp.emit e

namespace Call

/-- The computation with nobody else around. -/
def alone {σ α : Type} (L : Lib σ) (m : Call α) : Prog Exn (World σ) α := m.run (Ask.serve L)

/-- One library call. -/
def ffi (c : FfiCall) : Call Reply := Thread.call (Ask.ffi c)

/-- An event. -/
def emit (e : Event) : Call Unit := Thread.call (Ask.emit e)

/-! ## §2. The helpers. -/

/-- `itb::last_error`. -/
def lastError : Call Bytes := do
  let r ← ffi (.lastError 2048)
  if r.rc = 0 then
    pure ((Buffer.overlay (zeros 2048) r.out).takeWhile (· != 0))
  else if r.rc = Status.bufferTooSmall.code ∧ 1 < r.len then do
    let r' ← ffi (.lastError r.len)
    if r'.rc = 0 then
      pure ((Buffer.overlay (zeros r.len) r'.out).takeWhile (· != 0))
    else pure []
  else pure []

/-- `detail::fail`. -/
def fail {α : Type} (rc : Int) (what : String) : Call α := do
  let diag ← lastError
  Thread.throw (.error
    { status := toStatus rc,
      what := text what ++ text ": status " ++ text (toString rc) ++ text ": " ++ diag })

/-- `detail::check`. -/
def check (rc : Int) (what : String) : Call Unit :=
  if rc ≠ 0 then fail rc what else pure ()

/-- The tail of `buf_call` and `cipher_call`. -/
def checkedPrefix (buf : Bytes) (r : Reply) (what : String) : Call Bytes := do
  check r.rc what
  if r.len > buf.length then
    fail Status.internal.code what
  else
    pure (buf.take r.len)

/-- The protocol of `buf_call` and `cipher_call`. -/
def retryOnce (call : Nat → FfiCall) (cap : Nat) (block : Nat → Bytes)
    (scrub : Bytes → Bytes) (what : String) : Call (Bytes × Reply) := do
  let r₁ ← ffi (call cap)
  let buf₁ := Buffer.overlay (block cap) r₁.out
  let (buf, r) ←
    if r₁.asksForMore cap then do
      emit (.dealloc (scrub buf₁))
      let r₂ ← ffi (call r₁.len)
      pure (Buffer.overlay (block r₁.len) r₂.out, r₂)
    else
      pure (buf₁, r₁)
  Thread.ensuring (do
      let bytes ← checkedPrefix buf r what
      pure (bytes, r))
    (emit (.dealloc (scrub buf)))

/-- `buf_call`. -/
def bufCall (fn : BlobFn) (what : String) : Call (Bytes × Reply) :=
  retryOnce fn.call kBlobCap zeros wipeBytes what

/-- `cipher_call`. -/
def cipherCall (junk : Nat → Nat → UInt8) (handle : Handle) (fn : CipherFn) (src : Bytes)
    (what : String) : Call Bytes := do
  let (bytes, _) ← retryOnce (fn.call handle src) (outCap src.length) (uninit junk) id what
  pure bytes

/-! ## §3. The entries. -/

/-- `Pipeline::load`. -/
def load (blob perm wrap : Bytes) : Call Pipeline := do
  let r ← ffi (.load blob perm wrap (mastersCount perm wrap))
  check r.rc "Pipeline::load"
  emit (.adopt r.handle)
  pure { handle := r.handle }

/-- `Pipeline::rekey`. -/
def rekey (self : Pipeline) (perm wrap : Bytes) : Call Bytes := do
  let (bytes, _) ← bufCall (.rekey self.handle perm wrap) "Pipeline::rekey"
  pure bytes

/-- `Pipeline::~Pipeline`. -/
def destroyPipeline (self : Pipeline) : Call Unit :=
  if self.handle ≠ 0 then do
    let _ ← ffi (.free self.handle)
    pure ()
  else pure ()

/-- `Pipeline::operator=(Pipeline &&)` on two different objects. -/
def moveAssign (self other : Pipeline) : Call (Pipeline × Pipeline) :=
  if self.handle ≠ 0 then do
    let _ ← ffi (.free self.handle)
    pure ({ handle := other.handle }, { handle := 0 })
  else pure ({ handle := other.handle }, { handle := 0 })

/-- `Pipeline::encrypt_message`. -/
def encryptMessage (junk : Nat → Nat → UInt8) (self : Pipeline) (plain : Bytes) : Call Bytes :=
  cipherCall junk self.handle .encryptMessage plain "Pipeline::encrypt_message"

/-- `Pipeline::decrypt_message`. -/
def decryptMessage (junk : Nat → Nat → UInt8) (self : Pipeline) (wire : Bytes) : Call Bytes :=
  cipherCall junk self.handle .decryptMessage wire "Pipeline::decrypt_message"

/-- `Pipeline::encrypt_stream_one_shot`. -/
def encryptStreamOneShot (junk : Nat → Nat → UInt8) (self : Pipeline) (plain : Bytes) :
    Call Bytes :=
  cipherCall junk self.handle .encryptStream plain "Pipeline::encrypt_stream_one_shot"

/-- `Pipeline::decrypt_stream_one_shot`. -/
def decryptStreamOneShot (junk : Nat → Nat → UInt8) (self : Pipeline) (wire : Bytes) :
    Call Bytes :=
  cipherCall junk self.handle .decryptStream wire "Pipeline::decrypt_stream_one_shot"

/-- `Pipeline::encrypt_stream_begin`. -/
def encryptStreamBegin (self : Pipeline) : Call Stream := do
  let r ← ffi (.encryptStreamBegin self.handle)
  check r.rc "Pipeline::encrypt_stream_begin"
  emit (.adopt r.handle)
  pure { handle := r.handle }

/-- `Pipeline::decrypt_stream_begin`. -/
def decryptStreamBegin (self : Pipeline) : Call Stream := do
  let r ← ffi (.decryptStreamBegin self.handle)
  check r.rc "Pipeline::decrypt_stream_begin"
  emit (.adopt r.handle)
  pure { handle := r.handle }

/-- `Stream::write`. -/
def write (self : Stream) (src : Bytes) : Call Unit := do
  let r ← ffi (.streamWrite self.handle src)
  check r.rc "Stream::write"

/-- `Stream::end`. -/
def end_ (self : Stream) : Call Unit := do
  let r ← ffi (.streamEnd self.handle)
  check r.rc "Stream::end"

/-- `Stream::read`. -/
def read (self : Stream) (dst : Bytes) : Call (StreamRead × Bytes) := do
  let r ← ffi (.streamRead self.handle dst.length)
  check r.rc "Stream::read"
  pure ({ n := r.len, finished := r.fin ≠ 0 }, Buffer.overlay dst r.out)

/-- `Stream::close`. -/
def close (self : Stream) : Call Stream :=
  if self.handle ≠ 0 then do
    let _ ← ffi (.streamFree self.handle)
    pure { handle := 0 }
  else pure self

/-- `Stream::~Stream`. -/
def destroyStream (self : Stream) : Call Unit := do
  let _ ← close self
  pure ()

/-- `itb::pool_stats`. -/
def poolStats (dst : List Int) : Call (Nat × List Int) := do
  let r ← ffi (.poolStats dst.length)
  check r.rc "pool_stats"
  pure (r.len, Buffer.overlay dst r.slots)

/-! ## §4. Alone, they are the entries. -/

section Alone

variable {σ α β : Type} (L : Lib σ)

@[simp] theorem alone_ret (a : α) : alone L (Thread.ret a : Call α) = pure a := rfl

@[simp] theorem alone_bind (m : Call α) (f : α → Call β) :
    alone L (m >>= f) = alone L m >>= fun a => alone L (f a) := Thread.run_bind _ m f

@[simp] theorem alone_ite (c : Prop) [Decidable c] (m m' : Call α) :
    alone L (if c then m else m') = if c then alone L m else alone L m' :=
  Thread.run_ite _ c m m'

@[simp] theorem alone_throw (e : Exn) : alone L (Thread.throw e : Call α) = Prog.throw e := rfl

@[simp] theorem alone_ffi (c : FfiCall) : alone L (ffi c) = ItbCpp.ffi L c :=
  Thread.run_call (Ask.serve L) (.ffi c)

@[simp] theorem alone_emit (e : Event) : alone L (emit e) = ItbCpp.emit e :=
  Thread.run_call (Ask.serve L) (.emit e)

@[simp] theorem alone_ensuring (m : Call α) (d : Call Unit) :
    alone L (Thread.ensuring m d) = Prog.ensuring (alone L m) (alone L d) := by
  refine Thread.run_ensuring _ ?_ m d
  intro q s
  cases q with
  | ffi c => exact ⟨_, _, rfl⟩
  | emit e => exact ⟨_, _, rfl⟩

theorem alone_lastError : alone L lastError = ItbCpp.lastError L := by
  simp [lastError, ItbCpp.lastError]

theorem alone_fail (rc : Int) (what : String) :
    alone L (fail rc what : Call α) = ItbCpp.fail L rc what := by
  simp [fail, ItbCpp.fail, alone_lastError]

theorem alone_check (rc : Int) (what : String) :
    alone L (check rc what) = ItbCpp.check L rc what := by
  simp [check, ItbCpp.check, alone_fail]

theorem alone_checkedPrefix (buf : Bytes) (r : Reply) (what : String) :
    alone L (checkedPrefix buf r what) = ItbCpp.checkedPrefix L buf r what := by
  simp [checkedPrefix, ItbCpp.checkedPrefix, alone_check, alone_fail]

theorem alone_retryOnce (call : Nat → FfiCall) (cap : Nat) (block : Nat → Bytes)
    (scrub : Bytes → Bytes) (what : String) :
    alone L (retryOnce call cap block scrub what) =
      ItbCpp.retryOnce L call cap block scrub what := by
  simp [retryOnce, ItbCpp.retryOnce, alone_checkedPrefix]

theorem alone_bufCall (fn : BlobFn) (what : String) :
    alone L (bufCall fn what) = ItbCpp.bufCall L fn what := by
  rw [bufCall, alone_retryOnce, bufCall_eq_retryOnce]

theorem alone_cipherCall (junk : Nat → Nat → UInt8) (handle : Handle) (fn : CipherFn)
    (src : Bytes) (what : String) :
    alone L (cipherCall junk handle fn src what) =
      ItbCpp.cipherCall L junk handle fn src what := by
  rw [cipherCall_eq_retryOnce]
  simp [cipherCall, alone_retryOnce]

theorem alone_load (blob perm wrap : Bytes) :
    alone L (load blob perm wrap) = Pipeline.load L blob perm wrap := by
  simp [load, Pipeline.load, alone_check]

theorem alone_rekey (self : Pipeline) (perm wrap : Bytes) :
    alone L (rekey self perm wrap) = self.rekey L perm wrap := by
  simp [rekey, Pipeline.rekey, alone_bufCall]

theorem alone_destroyPipeline (self : Pipeline) :
    alone L (destroyPipeline self) = self.destroy L := by
  simp [destroyPipeline, Pipeline.destroy]

theorem alone_moveAssign (self other : Pipeline) :
    alone L (moveAssign self other) = self.moveAssign L other := by
  simp [moveAssign, Pipeline.moveAssign]

theorem alone_encryptMessage (junk : Nat → Nat → UInt8) (self : Pipeline) (plain : Bytes) :
    alone L (encryptMessage junk self plain) = self.encryptMessage L junk plain :=
  alone_cipherCall L junk _ _ _ _

theorem alone_decryptMessage (junk : Nat → Nat → UInt8) (self : Pipeline) (wire : Bytes) :
    alone L (decryptMessage junk self wire) = self.decryptMessage L junk wire :=
  alone_cipherCall L junk _ _ _ _

theorem alone_encryptStreamOneShot (junk : Nat → Nat → UInt8) (self : Pipeline)
    (plain : Bytes) :
    alone L (encryptStreamOneShot junk self plain) = self.encryptStreamOneShot L junk plain :=
  alone_cipherCall L junk _ _ _ _

theorem alone_decryptStreamOneShot (junk : Nat → Nat → UInt8) (self : Pipeline)
    (wire : Bytes) :
    alone L (decryptStreamOneShot junk self wire) = self.decryptStreamOneShot L junk wire :=
  alone_cipherCall L junk _ _ _ _

theorem alone_encryptStreamBegin (self : Pipeline) :
    alone L (encryptStreamBegin self) = self.encryptStreamBegin L := by
  simp [encryptStreamBegin, Pipeline.encryptStreamBegin, alone_check]

theorem alone_decryptStreamBegin (self : Pipeline) :
    alone L (decryptStreamBegin self) = self.decryptStreamBegin L := by
  simp [decryptStreamBegin, Pipeline.decryptStreamBegin, alone_check]

theorem alone_write (self : Stream) (src : Bytes) :
    alone L (write self src) = self.write L src := by
  simp [write, Stream.write, alone_check]

theorem alone_end (self : Stream) : alone L (end_ self) = self.end_ L := by
  simp [end_, Stream.end_, alone_check]

theorem alone_read (self : Stream) (dst : Bytes) : alone L (read self dst) = self.read L dst := by
  simp [read, Stream.read, alone_check]

theorem alone_close (self : Stream) : alone L (close self) = self.close L := by
  simp [close, Stream.close]

theorem alone_destroyStream (self : Stream) : alone L (destroyStream self) = self.destroy L := by
  simp [destroyStream, Stream.destroy, alone_close]

theorem alone_poolStats (dst : List Int) :
    alone L (poolStats dst) = ItbCpp.poolStats L dst := by
  simp [poolStats, ItbCpp.poolStats, alone_check]

end Alone

end Call

end ItbCpp
