/-
  ItbCpp.Loop.Conduct
  ───────────────────
  **WHAT THE THREADS OF THE HARNESS ASK.**

  The parts of an iteration that no protocol of this development tells
  apart: a thread that stands at `t` where a library call, a look at its
  own record and a change of its buffers all leave it, is at `t` again
  after a pump, whatever the library answered (`stays_pump`).

    • `throws_rekey`, `throws_load`, … — the entries of the binding that
      the harness calls leave by `itb::Error` or not at all,
    • `Undisturbed` — the three kinds of request, at one standing,
    • `stays_lib`, `stays_attempt`, `stays_detail`, `stays_pump`.
-/
import ItbCpp.Lib.Protocol
import ItbCpp.Loop.Isolation

namespace ItbCpp

/-! ## §1. Exceptions. -/

/-- An `itb::Error`. -/
def Exn.IsError (x : Exn) : Prop := ∃ e, x = .error e

namespace Call

open Thread (throws_bind throws_ite throws_ensuring)

variable {α : Type}

/-- A library call is answered; the answer may be a refusal, but nothing is
thrown. -/
theorem throws_ffi (c : FfiCall) : (ffi c).Throws Exn.IsError := fun _ => trivial

theorem throws_emit (e : Event) : (emit e).Throws Exn.IsError := fun _ => trivial

/-- Reading the diagnostics throws nothing: a refusal gives the empty text. -/
theorem throws_lastError : lastError.Throws Exn.IsError := by
  have hret : ∀ b : Bytes, (Thread.ret b : Call Bytes).Throws Exn.IsError := fun _ => trivial
  unfold lastError
  refine throws_bind (throws_ffi _) fun r => throws_ite (hret _) (throws_ite ?_ (hret _))
  exact throws_bind (throws_ffi _) fun r' => throws_ite (hret _) (hret _)

/-- `fail` throws an `itb::Error`, and nothing on the way to it throws. -/
theorem throws_fail (rc : Int) (what : String) : (fail rc what : Call α).Throws Exn.IsError :=
  throws_bind throws_lastError fun _ => ⟨_, rfl⟩

/-- A check throws by `fail`, on a code that is not zero. -/
theorem throws_check (rc : Int) (what : String) : (check rc what).Throws Exn.IsError :=
  throws_ite (throws_fail rc what) trivial

/-- So does the tail of a call, also on a length beyond the buffer. -/
theorem throws_checkedPrefix (buf : Bytes) (r : Reply) (what : String) :
    (checkedPrefix buf r what).Throws Exn.IsError :=
  throws_bind (throws_check _ _) fun _ => throws_ite (throws_fail _ _) trivial

/-- Both attempts, and the release of the block on the way out. -/
theorem throws_retryOnce (call : Nat → FfiCall) (cap : Nat) (block : Nat → Bytes)
    (scrub : Bytes → Bytes) (what : String) :
    (retryOnce call cap block scrub what).Throws Exn.IsError := by
  have htail : ∀ (buf : Bytes) (r : Reply), (Thread.ensuring (do
      let bytes ← checkedPrefix buf r what
      pure (bytes, r)) (emit (.dealloc (scrub buf)))).Throws Exn.IsError :=
    fun buf r => throws_ensuring (throws_bind (throws_checkedPrefix buf r what) fun _ => trivial)
      (throws_emit _)
  refine throws_bind (throws_ffi _) fun r => throws_ite ?_ (htail _ r)
  refine throws_bind (throws_emit _) fun _ => throws_bind (throws_ffi _) fun r' => ?_
  exact htail _ r'

theorem throws_cipherCall (junk : Nat → Nat → UInt8) (handle : Handle) (fn : CipherFn)
    (src : Bytes) (what : String) :
    (cipherCall junk handle fn src what).Throws Exn.IsError :=
  throws_bind (throws_retryOnce _ _ _ _ _) fun _ => trivial

/-- A load throws by its check, before it adopts the handle. -/
theorem throws_load (blob perm wrap : Bytes) : (load blob perm wrap).Throws Exn.IsError := by
  refine throws_bind (throws_ffi _) fun r => throws_bind (throws_check _ _) fun _ => ?_
  exact throws_bind (throws_emit _) fun _ => trivial

theorem throws_rekey (self : Pipeline) (perm wrap : Bytes) :
    (rekey self perm wrap).Throws Exn.IsError :=
  throws_bind (throws_retryOnce _ _ _ _ _) fun _ => trivial

/-- A destructor does not look at the answer of its free. -/
theorem throws_destroyPipeline (self : Pipeline) :
    (destroyPipeline self).Throws Exn.IsError :=
  throws_ite (throws_bind (throws_ffi _) fun _ => trivial) trivial

theorem throws_moveAssign (self other : Pipeline) :
    (moveAssign self other).Throws Exn.IsError :=
  throws_ite (throws_bind (throws_ffi _) fun _ => trivial) trivial

/-- `encrypt_stream_begin` and `decrypt_stream_begin`. -/
theorem throws_begin (encrypt : Bool) (self : Pipeline) :
    (if encrypt then encryptStreamBegin self else decryptStreamBegin self).Throws
      Exn.IsError := by
  refine throws_ite ?_ ?_
  · refine throws_bind (throws_ffi _) fun r => throws_bind (throws_check _ _) fun _ => ?_
    exact throws_bind (throws_emit _) fun _ => trivial
  · refine throws_bind (throws_ffi _) fun r => throws_bind (throws_check _ _) fun _ => ?_
    exact throws_bind (throws_emit _) fun _ => trivial

theorem throws_write (self : Stream) (src : Bytes) : (write self src).Throws Exn.IsError :=
  throws_bind (throws_ffi _) fun _ => throws_check _ _

theorem throws_end (self : Stream) : (end_ self).Throws Exn.IsError :=
  throws_bind (throws_ffi _) fun _ => throws_check _ _

/-- A read checks the code; what it makes of the length cannot fail. -/
theorem throws_read (self : Stream) (dst : Bytes) : (read self dst).Throws Exn.IsError :=
  throws_bind (throws_ffi _) fun _ => throws_bind (throws_check _ _) fun _ => trivial

theorem throws_destroyStream (self : Stream) : (destroyStream self).Throws Exn.IsError := by
  refine throws_bind (throws_ite ?_ trivial) fun _ => trivial
  exact throws_bind (throws_ffi _) fun _ => trivial

/-- The figures are checked once, like a read. -/
theorem throws_poolStats (dst : List Int) : (poolStats dst).Throws Exn.IsError :=
  throws_bind (throws_ffi _) fun _ => throws_bind (throws_check _ _) fun _ => trivial

end Call

namespace Loop

open Thread

/-- No exception. -/
def NoExn (_ : Exn) : Prop := False

/-! ## §2. Where a round trip leaves a thread. -/

/-- A change of the buffers only. -/
structure Worker.Buffers (f : Worker → Worker) : Prop where
  plaintext : ∀ w, (f w).plaintext = w.plaintext
  iters : ∀ w, (f w).iters = w.iters
  bytesEnc : ∀ w, (f w).bytesEnc = w.bytesEnc
  bytesDec : ∀ w, (f w).bytesDec = w.bytesDec
  failed : ∀ w, (f w).failed = w.failed
  error : ∀ w, (f w).error = w.error

/-- At `t`, library calls, a look at the own record and a change of the
buffers lead nowhere else, and a loop may run on. -/
structure Undisturbed {τ : Type} (P : Protocol Req Req.Answer τ) (t : τ) : Prop where
  call : ∀ c, Stays P NoExn (libraryCall c) t
  self : Stays P NoExn (ask .self) t
  buffers : ∀ f, Worker.Buffers f → Stays P NoExn (ask (.setSelf f)) t
  spins : P.spins t

section Stays

variable {τ α : Type} {P : Protocol Req Req.Answer τ} {t : τ} {E E' : Exn → Prop}

/-- A bound on the exceptions may be made wider. -/
theorem Stays.weaken {m : Task α} (h : Stays P E m t) (hE : ∀ e, E e → E' e) :
    Stays P E' m t :=
  h.wp (fun _ => rfl) fun e he => ⟨hE e he, rfl⟩

/-- A computation that throws nothing may be taken to throw anything. -/
theorem Stays.anyExn {m : Task α} (h : Stays P NoExn m t) : Stays P E m t :=
  Stays.weaken h fun _ he => he.elim

/-- `attempt` catches what the binding throws. -/
theorem stays_attempt {m : Task α} (h : Stays P Exn.IsError m t) :
    Stays P NoExn (attempt m) t := by
  refine stays_handle (stays_bind h fun _ => stays_ret _) ?_
  intro x hx
  obtain ⟨e, rfl⟩ := hx
  exact stays_ret _

/-- An entry of the binding, where library calls lead nowhere. -/
theorem stays_lib (hcall : ∀ c, Stays P NoExn (libraryCall c) t) (hspin : P.spins t)
    {m : Call α} (hm : m.Throws E) : Stays P E (lib m) t := by
  refine stays_translate hm hspin fun q => ?_
  cases q with
  | ffi c => exact Stays.anyExn (hcall c)
  | emit e => exact stays_ret ()

variable (ht : Undisturbed P t)
include ht

/-- An entry of the binding is made of library calls, and they leave the
thread where it is. -/
theorem Undisturbed.lib {m : Call α} (hm : m.Throws E) : Stays P E (lib m) t :=
  stays_lib ht.call ht.spins hm

theorem Undisturbed.lastError : Stays P NoExn (Loop.lib Call.lastError) t := by
  have hret : ∀ b : Bytes, (Thread.ret b : Call Bytes).Throws NoExn := fun _ => trivial
  have hffi : ∀ c, (Call.ffi c).Throws NoExn := fun _ _ => trivial
  refine ht.lib (throws_bind (hffi _) fun r => throws_ite (hret _) (throws_ite ?_ (hret _)))
  exact throws_bind (hffi _) fun r' => throws_ite (hret _) (hret _)

/-- The text of an error is read from the library. -/
theorem stays_detail (e : Error) : Stays P NoExn (detail e) t :=
  stays_bind ht.lastError fun _ => stays_ret _

/-- The stage is in the worker's own record. -/
theorem stays_setStage (stage : String) : Stays P NoExn (setStage stage) t :=
  ht.buffers _ ⟨fun _ => rfl, fun _ => rfl, fun _ => rfl, fun _ => rfl, fun _ => rfl,
    fun _ => rfl⟩

/-- So is the accumulator a pump fills. -/
theorem stays_insert (n : Nat) (out : Out) :
    Stays P NoExn (ask (.setSelf fun w => w.insert n out)) t := by
  refine ht.buffers _ ?_
  cases out <;> exact ⟨fun _ => rfl, fun _ => rfl, fun _ => rfl, fun _ => rfl, fun _ => rfl,
    fun _ => rfl⟩

/-- One read: the stage, the call, and the drain slice it fills. -/
theorem stays_readChunk (session : Stream) : Stays P Exn.IsError (readChunk session) t := by
  refine stays_bind (Stays.anyExn (stays_setStage ht _)) fun _ => ?_
  refine stays_bind (Stays.anyExn ht.self) fun w => ?_
  refine stays_bind (ht.lib (Call.throws_read session w.scratch)) fun x => ?_
  refine stays_bind (Stays.anyExn (ht.buffers _ ?_)) fun _ => stays_ret _
  exact ⟨fun _ => rfl, fun _ => rfl, fun _ => rfl, fun _ => rfl, fun _ => rfl, fun _ => rfl⟩

/-- The drain after a write, as long as its fuel lasts. -/
theorem stays_drainAvailable (session : Stream) (out : Out) (fuel : Nat) :
    Stays P Exn.IsError (drainAvailable session out fuel) t := by
  induction fuel with
  | zero => exact stays_spin ht.spins
  | succ fuel ih =>
      refine stays_bind (stays_readChunk ht session) fun got => stays_ite (fun _ => stays_ret _)
        fun _ => ?_
      exact stays_bind (Stays.anyExn (stays_insert ht got.n out)) fun _ => ih

/-- The drain after `end`. -/
theorem stays_drainFinished (session : Stream) (out : Out) (fuel : Nat) :
    Stays P Exn.IsError (drainFinished session out fuel) t := by
  induction fuel with
  | zero => exact stays_spin ht.spins
  | succ fuel ih =>
      refine stays_bind (stays_readChunk ht session) fun got => ?_
      refine stays_bind (Stays.anyExn (stays_insert ht got.n out)) fun _ => ?_
      exact stays_ite (fun _ => stays_ret _) fun _ => ih

/-- The feed loop: each write, and the drain after it. -/
theorem stays_feed (session : Stream) (src : Bytes) (out : Out) (drainFuel fuel off : Nat) :
    Stays P Exn.IsError (feed session src out drainFuel fuel off) t := by
  induction fuel generalizing off with
  | zero => exact stays_spin ht.spins
  | succ fuel ih =>
      refine stays_ite (fun _ => ?_) fun _ => stays_ret _
      refine stays_bind (Stays.anyExn (stays_setStage ht _)) fun _ => ?_
      refine stays_bind (ht.lib (Call.throws_write session _)) fun _ => ?_
      exact stays_bind (stays_drainAvailable ht session out drainFuel) fun _ => ih _

/-- **The pump**, whether it comes to its end or an error unwinds it. -/
theorem stays_pump (self : Pipeline) (encrypt : Bool) (src : Bytes) (out : Out) (fuel : Nat) :
    Stays P NoExn (pump self encrypt src out fuel) t := by
  have hclear : Stays P NoExn (ask (.setSelf fun w => w.clear out)) t := by
    refine ht.buffers _ ?_
    cases out <;> exact ⟨fun _ => rfl, fun _ => rfl, fun _ => rfl, fun _ => rfl, fun _ => rfl,
      fun _ => rfl⟩
  have hbody : ∀ session, Stays P Exn.IsError (pumpBody session src out fuel) t := by
    intro session
    refine stays_bind (stays_feed ht session src out fuel fuel 0) fun _ => ?_
    refine stays_bind (Stays.anyExn (stays_setStage ht _)) fun _ => ?_
    refine stays_bind (ht.lib (Call.throws_end session)) fun _ => ?_
    exact stays_drainFinished ht session out fuel
  refine stays_bind hclear fun _ => stays_attempt ?_
  refine stays_bind (Stays.anyExn (stays_setStage ht _)) fun _ => ?_
  refine stays_bind (ht.lib (Call.throws_begin encrypt self)) fun session => ?_
  exact stays_ensuring (hbody session) (ht.lib (Call.throws_destroyStream session))

end Stays

end Loop

end ItbCpp
