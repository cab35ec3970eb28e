/-
  ItbCpp.Ffi
  ──────────
  **THE FFI BOUNDARY.**

  libitb3 is not part of the repository.  It appears as a parameter: a
  machine `Lib σ` with a hidden state `σ` that answers each `ITB_*` call
  with a `Reply` and moves on.  Nothing is assumed of it; what a result
  relies on is a named hypothesis of that result.

  A `FfiCall` records the arguments as they cross the boundary: byte
  buffers by content, caller-allocated outputs by their capacity, C strings
  as the memory behind the pointer.  The binding's own side is a `Prog`
  over a `World`, the library state together with the trace of what has
  happened so far.

  Memory is taken to be sufficient: allocation does not fail.  That takes in
  the lengths that the library reports for a second attempt: one above
  `max_size()`, at which `std::vector` and `std::string` throw
  `std::length_error`, has its buffer here like any other.
-/
import ItbCpp.Lib.Prog
import ItbCpp.Lib.Buffer

namespace ItbCpp

/-! ## §1. Vocabulary. -/

abbrev Bytes := List UInt8

/-- A library handle (`uintptr_t`); zero is no handle. -/
abbrev Handle := Nat

/-- The bytes of an ASCII literal. -/
def text (s : String) : Bytes := s.toList.map fun c => UInt8.ofNat c.toNat

/-- `n` zero bytes. -/
def zeros (n : Nat) : Bytes := List.replicate n 0

/-- Memory that a `char *` may be read from: it holds a terminating NUL. -/
structure CString where
  mem : Bytes
  terminated : 0 ∈ mem
  deriving DecidableEq

/-- What a reader of the C string sees: the bytes before the first NUL. -/
def CString.read (c : CString) : Bytes := c.mem.takeWhile (· != 0)

/-- `detail::ffi_str`: the `c_str()` of a `std::string`. -/
def ffiStr (s : Bytes) : CString := ⟨s ++ [0], by simp⟩

/-! ## §2. Status codes. -/

/-- `itb::Status`. -/
inductive Status where
  | ok | badHash | badKeyBits | badHandle | badInput | bufferTooSmall | encryptFailed
  | decryptFailed | seedWidthMix | badMac | macFailure | blobMalformedRecipe
  | recipePrimitiveUnknown | unknownProfile | reserved14 | reserved15 | reserved16
  | reserved17 | blobModeMismatch | blobMalformed | blobVersionTooNew | blobTooManyOpts
  | streamTruncated | streamAfterFinal | tripleClosed | profileExists | internal
  deriving DecidableEq, Repr

/-- The enumerator's value. -/
def Status.code : Status → Int
  | .ok => 0 | .badHash => 1 | .badKeyBits => 2 | .badHandle => 3 | .badInput => 4
  | .bufferTooSmall => 5 | .encryptFailed => 6 | .decryptFailed => 7 | .seedWidthMix => 8
  | .badMac => 9 | .macFailure => 10 | .blobMalformedRecipe => 11
  | .recipePrimitiveUnknown => 12 | .unknownProfile => 13 | .reserved14 => 14
  | .reserved15 => 15 | .reserved16 => 16 | .reserved17 => 17 | .blobModeMismatch => 19
  | .blobMalformed => 20 | .blobVersionTooNew => 21 | .blobTooManyOpts => 22
  | .streamTruncated => 23 | .streamAfterFinal => 24 | .tripleClosed => 25
  | .profileExists => 26 | .internal => 99

/-- `detail::to_status`: unknown codes collapse to `internal`. -/
def toStatus (rc : Int) : Status :=
  match rc with
  | 0 => .ok | 1 => .badHash | 2 => .badKeyBits | 3 => .badHandle | 4 => .badInput
  | 5 => .bufferTooSmall | 6 => .encryptFailed | 7 => .decryptFailed | 8 => .seedWidthMix
  | 9 => .badMac | 10 => .macFailure | 11 => .blobMalformedRecipe
  | 12 => .recipePrimitiveUnknown | 13 => .unknownProfile | 14 => .reserved14
  | 15 => .reserved15 | 16 => .reserved16 | 17 => .reserved17 | 19 => .blobModeMismatch
  | 20 => .blobMalformed | 21 => .blobVersionTooNew | 22 => .blobTooManyOpts
  | 23 => .streamTruncated | 24 => .streamAfterFinal | 25 => .tripleClosed
  | 26 => .profileExists | 99 => .internal
  | _ => .internal

theorem toStatus_code (st : Status) : toStatus st.code = st := by
  cases st <;> rfl

/-- Only the code 0 is normalised to `ok`. -/
theorem toStatus_eq_ok {rc : Int} : toStatus rc = .ok ↔ rc = 0 := by
  constructor
  · intro h
    unfold toStatus at h
    split at h <;> first | rfl | cases h
  · intro heq
    subst heq
    rfl

/-- `itb::Error`: the status and the text `what()` returns. -/
structure Error where
  status : Status
  what : Bytes
  deriving DecidableEq, Repr

/-- The exceptions the binding throws itself. -/
inductive Exn where
  | error (e : Error)
  /-- `std::invalid_argument` -/
  | invalidArgument (what : Bytes)
  deriving DecidableEq, Repr

/-! ## §3. The library as a machine. -/

/-- The libitb3 entries the binding calls, with their input arguments. -/
inductive FfiCall where
  | init (profile opts : CString) (cap : Nat)
  | initKeys (profile opts : CString) (flat : Bytes) (lens : List Nat) (cap : Nat)
  | load (blob perm wrap : Bytes) (masters : Nat)
  | loadF (path : CString) (perm wrap : Bytes) (masters : Nat)
  | free (h : Handle)
  | close (h : Handle)
  | save (h : Handle) (cap : Nat)
  | saveF (h : Handle) (path : CString)
  | maxWorkers (h : Handle) (n : Int)
  | rekey (h : Handle) (perm wrap : Bytes) (cap : Nat)
  | encryptMessage (h : Handle) (src : Bytes) (cap : Nat)
  | decryptMessage (h : Handle) (src : Bytes) (cap : Nat)
  | encryptStream (h : Handle) (src : Bytes) (cap : Nat)
  | decryptStream (h : Handle) (src : Bytes) (cap : Nat)
  | encryptStreamBegin (h : Handle)
  | decryptStreamBegin (h : Handle)
  | streamWrite (h : Handle) (src : Bytes)
  | streamEnd (h : Handle)
  | streamRead (h : Handle) (cap : Nat)
  | streamFree (h : Handle)
  | inspect (blob : Bytes) (cap : Nat)
  | register (name json : CString)
  | lookup (name : CString) (cap : Nat)
  | profiles (cap : Nat)
  | hashNames (cap : Nat)
  | version (cap : Nat)
  | drbgAutoTier (cap : Nat)
  | lastError (cap : Nat)
  | writeHeapProfile (path : CString)
  | poolStats (cap : Nat)
  deriving DecidableEq

/-- One answer of the library: the return code and what the out-parameters
hold afterwards.  `out` is what it wrote into the caller's buffer (cut at
the capacity), `slots` the same for a buffer of 64-bit slots. -/
structure Reply where
  rc : Int
  len : Nat := 0
  out : Bytes := []
  slots : List Int := []
  handle : Handle := 0
  fin : Int := 0
  deriving DecidableEq, Repr

/-- libitb3: an arbitrary machine over a hidden state. -/
abbrev Lib (σ : Type) := FfiCall → σ → Reply × σ

/-- What a run leaves behind, in order. -/
inductive Event where
  /-- a library call and its answer -/
  | call (c : FfiCall) (r : Reply)
  /-- an object was constructed around a handle the library issued -/
  | adopt (h : Handle)
  /-- a heap buffer was given back, holding these bytes -/
  | dealloc (content : Bytes)
  deriving DecidableEq

/-- The library's state and the trace of the run so far. -/
structure World (σ : Type) where
  lib : σ
  trace : List Event

/-- The world after an event that the library takes no part in. -/
def World.log {σ : Type} (w : World σ) (e : Event) : World σ :=
  { w with trace := w.trace ++ [e] }

/-- The world after a call that was answered with `a`. -/
def World.answered {σ : Type} (w : World σ) (c : FfiCall) (a : Reply × σ) : World σ :=
  { lib := a.2, trace := w.trace ++ [.call c a.1] }

/-- What happened after `w`, read off a later world. -/
def World.since {σ : Type} (w w' : World σ) : List Event := w'.trace.drop w.trace.length

section Calls

variable {σ : Type} (L : Lib σ)

/-- Append an event to the trace. -/
def emit (e : Event) : Prog Exn (World σ) Unit :=
  Prog.modify fun w => w.log e

/-- One library call. -/
def ffi (c : FfiCall) : Prog Exn (World σ) Reply := fun w =>
  .ok (L c w.lib).1 (w.answered c (L c w.lib))

/-! ## §4. The error path. -/

/-- `itb::last_error`: 2 KiB first, then once more at the size the library
asked for. -/
def lastError : Prog Exn (World σ) Bytes := do
  let r ← ffi L (.lastError 2048)
  if r.rc = 0 then
    -- a C string ends at its first NUL
    pure ((Buffer.overlay (zeros 2048) r.out).takeWhile (· != 0))
  else if r.rc = Status.bufferTooSmall.code ∧ 1 < r.len then do
    let r' ← ffi L (.lastError r.len)
    if r'.rc = 0 then
      pure ((Buffer.overlay (zeros r.len) r'.out).takeWhile (· != 0))
    else pure []
  else pure []

/-- `detail::fail`: "<what>: status <rc>: <last_error()>". -/
def fail {α : Type} (rc : Int) (what : String) : Prog Exn (World σ) α := do
  let diag ← lastError L
  Prog.throw (.error
    { status := toStatus rc,
      what := text what ++ text ": status " ++ text (toString rc) ++ text ": " ++ diag })

/-- `detail::check`. -/
def check (rc : Int) (what : String) : Prog Exn (World σ) Unit :=
  if rc ≠ 0 then fail L rc what else pure ()

end Calls

/-! ## §5. What the trace says of the error path. -/

/-- The calls of the error path: `ITB_LastError` and nothing else. -/
def Event.isLastError : Event → Bool
  | .call (.lastError _) _ => true
  | _ => false

section Rules

variable {σ α : Type} {L : Lib σ} {w : World σ}

@[simp] theorem wp_emit (e : Event) {Q : Prog.Post Exn (World σ) Unit} :
    Prog.wp (emit e) Q w ↔ Q.ok () (w.log e) := Iff.rfl

@[simp] theorem wp_ffi (c : FfiCall) {Q : Prog.Post Exn (World σ) Reply} :
    Prog.wp (ffi L c) Q w ↔ Q.ok (L c w.lib).1 (w.answered c (L c w.lib)) := Iff.rfl

@[simp] theorem World.log_lib (e : Event) : (w.log e).lib = w.lib := rfl

@[simp] theorem World.log_trace (e : Event) : (w.log e).trace = w.trace ++ [e] := rfl

@[simp] theorem World.answered_lib (c : FfiCall) (a : Reply × σ) :
    (w.answered c a).lib = a.2 := rfl

@[simp] theorem World.answered_trace (c : FfiCall) (a : Reply × σ) :
    (w.answered c a).trace = w.trace ++ [.call c a.1] := rfl

theorem World.since_of_append {w w' : World σ} {evs : List Event}
    (h : w'.trace = w.trace ++ evs) : w.since w' = evs := by
  rw [World.since, h, List.drop_left]

/-- `w'` is `w` after some `ITB_LastError` calls. -/
def AfterLastError (w w' : World σ) : Prop :=
  ∃ evs : List Event, w'.trace = w.trace ++ evs ∧ ∀ e ∈ evs, e.isLastError = true

theorem AfterLastError.refl (w : World σ) : AfterLastError w w := ⟨[], by simp, by simp⟩

theorem wp_lastError :
    Prog.wp (lastError L) ⟨fun _ w' => AfterLastError w w', fun _ _ => False, fun _ => False⟩
      w := by
  have once : ∀ n a, AfterLastError w (w.answered (.lastError n) a) := by
    intro n a
    exact ⟨[.call (.lastError n) a.1], rfl, by simp [Event.isLastError]⟩
  have twice : ∀ n a n' a',
      AfterLastError w ((w.answered (.lastError n) a).answered (.lastError n') a') := by
    intro n a n' a'
    refine ⟨[.call (.lastError n) a.1, .call (.lastError n') a'.1], by simp, ?_⟩
    simp [Event.isLastError]
  -- every way through makes one call or two, all of them `ITB_LastError`
  simp only [lastError, Prog.wp_bind, wp_ffi, Prog.wp_ite, Prog.wp_pure]
  split
  · exact once _ _
  · split
    · split <;> exact twice _ _ _ _
    · exact once _ _

/-- **`fail` throws**, with the normalised status, after reading the
diagnostic. -/
theorem wp_fail (rc : Int) (what : String) {Q : Prog.Post Exn (World σ) α}
    (h : ∀ e w', e.status = toStatus rc → AfterLastError w w' → Q.threw (.error e) w') :
    Prog.wp (fail L rc what) Q w := by
  simp only [fail, Prog.wp_bind, Prog.wp_throw]
  exact wp_lastError.mono (fun _ w' hw' => h _ w' rfl hw') (fun _ _ hf => hf.elim)
    (fun _ hf => hf.elim)

/-- `check` lets the code 0 through and throws on every other one. -/
theorem wp_check (rc : Int) (what : String) {Q : Prog.Post Exn (World σ) Unit}
    (hok : rc = 0 → Q.ok () w)
    (hfail : ∀ e w', rc ≠ 0 → e.status = toStatus rc → AfterLastError w w' →
      Q.threw (.error e) w') :
    Prog.wp (check L rc what) Q w := by
  unfold check
  by_cases hrc : rc = 0
  · rw [if_neg (not_not.mpr hrc)]
    exact hok hrc
  · rw [if_pos hrc]
    exact wp_fail rc what fun e w' he hw' => hfail e w' hrc he hw'

end Rules

end ItbCpp
