/-
  ItbCpp.Objects
  ──────────────
  **OBJECTS AND WHAT A PROGRAM DOES WITH THEM.**

  A client of the binding, seen from the objects it holds: a heap of
  `Pipeline`, `EncryptStream` and `DecryptStream` objects at addresses,
  and the operations on them.  An operation on an address that holds no
  suitable object does nothing.

  A client's program is any finite sequence of operations; an exception
  ends the operation that threw it, and the program goes on.
-/
import ItbCpp.Stream

namespace ItbCpp

/-- Where an object lives. -/
abbrev Addr := Nat

/-- An object that may own a handle. -/
inductive Object where
  | pipeline (self : Pipeline)
  | encryptStream (self : Stream)
  | decryptStream (self : Stream)
  deriving DecidableEq, Repr

/-- The handle an object owns; zero when it owns none. -/
def Object.handle : Object → Handle
  | .pipeline self => self.handle
  | .encryptStream self | .decryptStream self => self.handle

/-- The world and the live objects. -/
structure Heap (σ : Type) where
  world : World σ
  objects : Addr → Option Object

/-- No objects yet. -/
def Heap.start {σ : Type} (lib : σ) : Heap σ := ⟨⟨lib, []⟩, fun _ => none⟩

/-- A computation on the world, inside the heap. -/
def Heap.onWorld {σ α : Type} (m : Prog Exn (World σ) α) : Prog Exn (Heap σ) α :=
  Prog.zoom Heap.world (fun w s => { s with world := w }) m

/-- Put an object at an address, or take it away. -/
def Heap.set {σ : Type} (a : Addr) (o : Option Object) : Prog Exn (Heap σ) Unit :=
  Prog.modify fun s => { s with objects := Function.update s.objects a o }

/-! ## §1. Entries. -/

/-- The static functions that make a Pipeline. -/
inductive Factory where
  | init (profile : Bytes) (opts : Opts)
  | initKeys (profile : Bytes) (masters : List Bytes) (opts : Opts)
  | load (blob perm wrap : Bytes)
  | loadF (path perm wrap : Bytes)

/-- The entries of an object, other than those that begin, close or destroy. -/
inductive Entry where
  | save
  | saveF (path : Bytes)
  | maxWorkers (n : Int)
  | rekey (perm wrap : Bytes)
  | encryptMessage (plain : Bytes)
  | decryptMessage (wire : Bytes)
  | encryptMessageInto (plain dst : Bytes)
  | decryptMessageInto (wire dst : Bytes)
  | encryptStreamOneShot (plain : Bytes)
  | decryptStreamOneShot (wire : Bytes)
  | encryptStreamOneShotInto (plain dst : Bytes)
  | decryptStreamOneShotInto (wire dst : Bytes)
  | encryptStreamPump (plain : Bytes) (fuel : Nat)
  | decryptStreamPump (wire : Bytes) (fuel : Nat)
  | encryptStreamPumpInto (plain dst : Bytes) (fuel : Nat)
  | decryptStreamPumpInto (wire dst : Bytes) (fuel : Nat)
  | write (src : Bytes)
  | end_
  | read (dst : Bytes)

/-- The two kinds of session. -/
inductive Direction where
  | encrypt | decrypt
  deriving DecidableEq, Repr

/-- A session object of the given kind. -/
def Direction.object : Direction → Stream → Object
  | .encrypt => .encryptStream
  | .decrypt => .decryptStream

section Programs

variable {σ : Type} (L : Lib σ) (junk : Nat → Nat → UInt8)

/-- A factory's call. -/
def Factory.run : Factory → Prog Exn (World σ) Pipeline
  | .init profile opts => Pipeline.init L profile opts
  | .initKeys profile masters opts => Pipeline.initKeys L profile masters opts
  | .load blob perm wrap => Pipeline.load L blob perm wrap
  | .loadF path perm wrap => Pipeline.loadF L path perm wrap

/-- Begin a session. -/
def Direction.begin_ : Direction → Pipeline → Prog Exn (World σ) Stream
  | .encrypt, self => self.encryptStreamBegin L
  | .decrypt, self => self.decryptStreamBegin L

/-- A pump into a buffer of the caller. -/
def Entry.pumpInto (dst : Bytes) (m : Prog Exn (Pump σ) Nat) : Prog Exn (World σ) Unit := do
  let _ ← Prog.zoom (fun w => { world := w, dst := dst }) (fun p _ => p.world) m
  pure ()

/-- An entry of a Pipeline; the result is of no interest here. -/
def Entry.onPipeline (self : Pipeline) : Entry → Prog Exn (World σ) Unit
  | .save => do let _ ← self.save L; pure ()
  | .saveF path => self.saveF L path
  | .maxWorkers n => self.maxWorkers L n
  | .rekey perm wrap => do let _ ← self.rekey L perm wrap; pure ()
  | .encryptMessage plain => do let _ ← self.encryptMessage L junk plain; pure ()
  | .decryptMessage wire => do let _ ← self.decryptMessage L junk wire; pure ()
  | .encryptMessageInto plain dst => do let _ ← self.encryptMessageInto L plain dst; pure ()
  | .decryptMessageInto wire dst => do let _ ← self.decryptMessageInto L wire dst; pure ()
  | .encryptStreamOneShot plain => do let _ ← self.encryptStreamOneShot L junk plain; pure ()
  | .decryptStreamOneShot wire => do let _ ← self.decryptStreamOneShot L junk wire; pure ()
  | .encryptStreamOneShotInto plain dst => do
      let _ ← self.encryptStreamOneShotInto L plain dst; pure ()
  | .decryptStreamOneShotInto wire dst => do
      let _ ← self.decryptStreamOneShotInto L wire dst; pure ()
  | .encryptStreamPump plain fuel => do
      let _ ← self.encryptStreamPump L junk plain fuel; pure ()
  | .decryptStreamPump wire fuel => do
      let _ ← self.decryptStreamPump L junk wire fuel; pure ()
  | .encryptStreamPumpInto plain dst fuel =>
      Entry.pumpInto dst (self.encryptStreamPumpInto L plain fuel)
  | .decryptStreamPumpInto wire dst fuel =>
      Entry.pumpInto dst (self.decryptStreamPumpInto L wire fuel)
  | _ => pure ()

/-- An entry of a session. -/
def Entry.onStream (self : Stream) : Entry → Prog Exn (World σ) Unit
  | .write src => self.write L src
  | .end_ => self.end_ L
  | .read dst => do let _ ← self.read L dst; pure ()
  | _ => pure ()

/-- An entry of an object. -/
def Entry.run (e : Entry) : Object → Prog Exn (World σ) Unit
  | .pipeline self => e.onPipeline L junk self
  | .encryptStream self | .decryptStream self => e.onStream L self

/-! ## §2. Operations. -/

/-- `close`, and what it leaves of the object. -/
def Object.close : Object → Prog Exn (World σ) Object
  | .pipeline self => do
      self.close L
      pure (.pipeline self)
  | .encryptStream self => do
      let self ← self.close L
      pure (.encryptStream self)
  | .decryptStream self => do
      let self ← self.close L
      pure (.decryptStream self)

/-- The destructor. -/
def Object.destroy : Object → Prog Exn (World σ) Unit
  | .pipeline self => self.destroy L
  | .encryptStream self | .decryptStream self => self.destroy L

/-- The move constructor: the new object and what is left of the old one. -/
def Object.moveConstruct : Object → Object × Object
  | .pipeline other => (.pipeline other.moveConstruct.1, .pipeline other.moveConstruct.2)
  | .encryptStream other =>
      (.encryptStream other.moveConstruct.1, .encryptStream other.moveConstruct.2)
  | .decryptStream other =>
      (.decryptStream other.moveConstruct.1, .decryptStream other.moveConstruct.2)

/-- Move assignment between two different objects of one class. -/
def Object.moveAssign : Object → Object → Option (Prog Exn (World σ) (Object × Object))
  | .pipeline self, .pipeline other => some do
      let (self, other) ← self.moveAssign L other
      pure (.pipeline self, .pipeline other)
  | .encryptStream self, .encryptStream other => some do
      let (self, other) ← self.moveAssign L other
      pure (.encryptStream self, .encryptStream other)
  | .decryptStream self, .decryptStream other => some do
      let (self, other) ← self.moveAssign L other
      pure (.decryptStream self, .decryptStream other)
  | _, _ => none

/-- One operation of a client. -/
inductive Op where
  /-- make a Pipeline at `a` -/
  | make (a : Addr) (f : Factory)
  /-- begin a session at `a` on the Pipeline at `p` -/
  | begin_ (a p : Addr) (dir : Direction)
  /-- make an object at `a` by moving from the one at `b` -/
  | moveConstruct (a b : Addr)
  /-- assign to the object at `a` by moving from the one at `b` -/
  | moveAssign (a b : Addr)
  | close (a : Addr)
  | call (a : Addr) (e : Entry)
  | destroy (a : Addr)

/-- What an operation does. -/
def Op.run (op : Op) : Prog Exn (Heap σ) Unit := do
  let s ← Prog.get
  match op with
  | .make a f =>
      match s.objects a with
      | none => do
          let self ← Heap.onWorld (f.run L)
          Heap.set a (some (.pipeline self))
      | some _ => pure ()
  | .begin_ a p dir =>
      match s.objects a, s.objects p with
      | none, some (.pipeline self) => do
          let session ← Heap.onWorld (dir.begin_ L self)
          Heap.set a (some (dir.object session))
      | _, _ => pure ()
  | .moveConstruct a b =>
      match s.objects a, s.objects b with
      | none, some other => do
          Heap.set a (some other.moveConstruct.1)
          Heap.set b (some other.moveConstruct.2)
      | _, _ => pure ()
  | .moveAssign a b =>
      -- `this != &other`
      if a = b then pure ()
      else
        match s.objects a, s.objects b with
        | some self, some other =>
            match self.moveAssign L other with
            | some m => do
                let (self, other) ← Heap.onWorld m
                Heap.set a (some self)
                Heap.set b (some other)
            | none => pure ()
        | _, _ => pure ()
  | .close a =>
      match s.objects a with
      | some self => do
          let self ← Heap.onWorld (self.close L)
          Heap.set a (some self)
      | none => pure ()
  | .call a e =>
      match s.objects a with
      | some self => Heap.onWorld (e.run L junk self)
      | none => pure ()
  | .destroy a =>
      match s.objects a with
      | some self => do
          Heap.onWorld (self.destroy L)
          Heap.set a none
      | none => pure ()

/-- A client's program. -/
def runOps : List Op → Prog Exn (Heap σ) Unit
  | [] => pure ()
  | op :: ops => do
      Prog.handle (op.run L junk) fun _ => pure ()
      runOps ops

end Programs

end ItbCpp
