/-
  ItbCpp.Pipeline
  ───────────────
  **THE PIPELINE ENTRIES** (`src/pipeline.cpp`, `src/runtime.cpp`).

  Every entry of the binding that talks to the library outside a stream
  session, one definition per source function and under its words.  An
  entry is a short program over the helpers of `BufCall`; what it hands
  over and what it checks is read off directly.
-/
import ItbCpp.BufCall
import ItbCpp.Opts

namespace ItbCpp

/-- `itb::Pipeline`: the handle it owns, zero when it owns none. -/
structure Pipeline where
  handle : Handle := 0
  deriving DecidableEq, Repr

/-- `masters_count`: both absent → 0, otherwise 2. -/
def mastersCount (perm wrap : Bytes) : Nat := if perm = [] ∧ wrap = [] then 0 else 2

/-! ## §1. The flat master-key buffer of `init_keys`. -/

/-- The length of every key. -/
def masterLens (masters : List Bytes) : List Nat := masters.map List.length

/-- The total length, in `size_t` arithmetic. -/
def masterTotal (masters : List Bytes) : Nat :=
  masters.foldl (fun total m => (total + m.length) % sizeMod) 0

/-- The copy loop: every non-empty key goes to the running offset. -/
def flattenMasters (masters : List Bytes) : Bytes :=
  (masters.foldl (fun (st : Bytes × Nat) m =>
    if m ≠ [] then (Buffer.overlayAt st.1 st.2 m, (st.2 + m.length) % sizeMod) else st)
    (zeros (masterTotal masters), 0)).1

section Entries

variable {σ : Type} (L : Lib σ)

/-! ## §2. Construction. -/

/-- `Pipeline::init`. -/
def Pipeline.init (profile : Bytes) (opts : Opts) : Prog Exn (World σ) Pipeline := do
  let prof := profile
  let (blob, r) ← bufCall L (.init (ffiStr prof) (ffiStr opts.query)) "Pipeline::init"
  emit (.adopt r.handle)
  emit (.dealloc (wipeBytes blob))
  pure { handle := r.handle }

/-- `Pipeline::init_keys`. -/
def Pipeline.initKeys (profile : Bytes) (masters : List Bytes) (opts : Opts) :
    Prog Exn (World σ) Pipeline := do
  let prof := profile
  let lens := masterLens masters
  let flat := flattenMasters masters
  -- the destructor of `SecretBuf` wipes the flat copy on every way out
  Prog.ensuring (do
      let (blob, r) ← bufCall L (.initKeys (ffiStr prof) (ffiStr opts.query) flat lens)
        "Pipeline::init_keys"
      emit (.adopt r.handle)
      emit (.dealloc (wipeBytes blob))
      pure { handle := r.handle })
    (emit (.dealloc (wipeBytes flat)))

/-- `as_bytes` of a vector: a span over its elements. -/
def asBytes (v : Bytes) : Bytes := v

/-- `Pipeline::init_keys` over a vector of vectors. -/
def Pipeline.initKeysVec (profile : Bytes) (masters : List Bytes) (opts : Opts) :
    Prog Exn (World σ) Pipeline :=
  let spans := masters.foldl (fun spans m => spans ++ [asBytes m]) []
  Pipeline.initKeys L profile spans opts

/-- `Pipeline::load`. -/
def Pipeline.load (blob perm wrap : Bytes) : Prog Exn (World σ) Pipeline := do
  let r ← ffi L (.load blob perm wrap (mastersCount perm wrap))
  check L r.rc "Pipeline::load"
  emit (.adopt r.handle)
  pure { handle := r.handle }

/-- `Pipeline::load_f`. -/
def Pipeline.loadF (path perm wrap : Bytes) : Prog Exn (World σ) Pipeline := do
  let p := path
  let r ← ffi L (.loadF (ffiStr p) perm wrap (mastersCount perm wrap))
  check L r.rc "Pipeline::load_f"
  emit (.adopt r.handle)
  pure { handle := r.handle }

/-! ## §3. Release. -/

/-- `Pipeline::~Pipeline`. -/
def Pipeline.destroy (self : Pipeline) : Prog Exn (World σ) Unit :=
  if self.handle ≠ 0 then do
    let _ ← ffi L (.free self.handle)
    pure ()
  else pure ()

/-- `Pipeline::Pipeline(Pipeline &&)`: the new object and what is left of
the old one. -/
def Pipeline.moveConstruct (other : Pipeline) : Pipeline × Pipeline :=
  ({ handle := other.handle }, { handle := 0 })

/-- `Pipeline::operator=(Pipeline &&)` on two different objects. -/
def Pipeline.moveAssign (self other : Pipeline) : Prog Exn (World σ) (Pipeline × Pipeline) :=
  if self.handle ≠ 0 then do
    let _ ← ffi L (.free self.handle)
    pure ({ handle := other.handle }, { handle := 0 })
  else pure ({ handle := other.handle }, { handle := 0 })

/-- `Pipeline::close`: the handle stays with the object. -/
def Pipeline.close (self : Pipeline) : Prog Exn (World σ) Unit :=
  if self.handle ≠ 0 then do
    let _ ← ffi L (.close self.handle)
    pure ()
  else pure ()

/-! ## §4. Persistence and rotation. -/

/-- `Pipeline::save`. -/
def Pipeline.save (self : Pipeline) : Prog Exn (World σ) Bytes := do
  let (bytes, _) ← bufCall L (.save self.handle) "Pipeline::save"
  pure bytes

/-- `Pipeline::save_f`. -/
def Pipeline.saveF (self : Pipeline) (path : Bytes) : Prog Exn (World σ) Unit := do
  let p := path
  let r ← ffi L (.saveF self.handle (ffiStr p))
  check L r.rc "Pipeline::save_f"

/-- `Pipeline::max_workers`. -/
def Pipeline.maxWorkers (self : Pipeline) (n : Int) : Prog Exn (World σ) Unit := do
  let r ← ffi L (.maxWorkers self.handle n)
  check L r.rc "Pipeline::max_workers"

/-- `Pipeline::rekey`. -/
def Pipeline.rekey (self : Pipeline) (perm wrap : Bytes) : Prog Exn (World σ) Bytes := do
  let (bytes, _) ← bufCall L (.rekey self.handle perm wrap) "Pipeline::rekey"
  pure bytes

/-! ## §5. Whole-buffer cipher entries. -/

variable (junk : Nat → Nat → UInt8)

def Pipeline.encryptMessage (self : Pipeline) (plain : Bytes) : Prog Exn (World σ) Bytes :=
  cipherCall L junk self.handle .encryptMessage plain "Pipeline::encrypt_message"

def Pipeline.decryptMessage (self : Pipeline) (wire : Bytes) : Prog Exn (World σ) Bytes :=
  cipherCall L junk self.handle .decryptMessage wire "Pipeline::decrypt_message"

def Pipeline.encryptMessageInto (self : Pipeline) (plain dst : Bytes) :
    Prog Exn (World σ) (Nat × Bytes) :=
  cipherCallInto L self.handle .encryptMessage plain dst "Pipeline::encrypt_message_into"

def Pipeline.decryptMessageInto (self : Pipeline) (wire dst : Bytes) :
    Prog Exn (World σ) (Nat × Bytes) :=
  cipherCallInto L self.handle .decryptMessage wire dst "Pipeline::decrypt_message_into"

def Pipeline.encryptStreamOneShot (self : Pipeline) (plain : Bytes) :
    Prog Exn (World σ) Bytes :=
  cipherCall L junk self.handle .encryptStream plain "Pipeline::encrypt_stream_one_shot"

def Pipeline.decryptStreamOneShot (self : Pipeline) (wire : Bytes) :
    Prog Exn (World σ) Bytes :=
  cipherCall L junk self.handle .decryptStream wire "Pipeline::decrypt_stream_one_shot"

def Pipeline.encryptStreamOneShotInto (self : Pipeline) (plain dst : Bytes) :
    Prog Exn (World σ) (Nat × Bytes) :=
  cipherCallInto L self.handle .encryptStream plain dst
    "Pipeline::encrypt_stream_one_shot_into"

def Pipeline.decryptStreamOneShotInto (self : Pipeline) (wire dst : Bytes) :
    Prog Exn (World σ) (Nat × Bytes) :=
  cipherCallInto L self.handle .decryptStream wire dst
    "Pipeline::decrypt_stream_one_shot_into"

/-! ## §6. Profile records and runtime entries. -/

/-- `itb::inspect`; `json_call` keeps the bytes. -/
def inspect (blob : Bytes) : Prog Exn (World σ) Bytes := do
  let (bytes, _) ← bufCall L (.inspect blob) "inspect"
  pure bytes

/-- `itb::register_profile`. -/
def registerProfile (name profileJson : Bytes) : Prog Exn (World σ) Unit := do
  let n := name
  let json := profileJson
  let r ← ffi L (.register (ffiStr n) (ffiStr json))
  check L r.rc "register_profile"

/-- `itb::lookup`. -/
def lookup (name : Bytes) : Prog Exn (World σ) Bytes := do
  let n := name
  let (bytes, _) ← bufCall L (.lookup (ffiStr n)) "lookup"
  pure bytes

/-- `itb::profiles`. -/
def profiles : Prog Exn (World σ) Bytes := do
  let (bytes, _) ← bufCall L .profiles "profiles"
  pure bytes

/-- `itb::hash_names`. -/
def hashNames : Prog Exn (World σ) Bytes := do
  let (bytes, _) ← bufCall L .hashNames "hash_names"
  pure bytes

/-- `itb::write_heap_profile`. -/
def writeHeapProfile (path : Bytes) : Prog Exn (World σ) Unit := do
  let p := path
  let r ← ffi L (.writeHeapProfile (ffiStr p))
  check L r.rc "write_heap_profile"

/-- `itb::pool_stats`: the count the library reports is returned as it is. -/
def poolStats (dst : List Int) : Prog Exn (World σ) (Nat × List Int) := do
  let r ← ffi L (.poolStats dst.length)
  check L r.rc "pool_stats"
  pure (r.len, Buffer.overlay dst r.slots)

end Entries

end ItbCpp
