/-
  ItbCpp.Lib.Disk
  ───────────────
  **FILES, AND A STREAM ON ONE OF THEM.**

  Files as a buffered stream shows them to a program that has one file open
  at a time: it is opened to be read or to be written, bytes are taken from
  it or put into it in pieces, and what it holds in the end is settled when
  it is closed.  Every call may fail, and an honest one says so.

    • `Disk` — what the files hold, and the stream,
    • `Reads`, `Writes`, … — what an honest call does, given its answer,
    • `Taking` — reading in pieces: what was taken and what is left make up
      the file,
    • `Putting` — writing in pieces.

  Two paths may name one file.  `same x y` says that they may, and what is
  written to one of them is promised nothing about the other.

  Nothing here is about a particular program.
-/
import Mathlib.Data.List.Infix

/-- What is open. -/
inductive FileStream (π β : Type) where
  | closed
  /-- what is left to read, if the file gives anything at all, and whether an
  error was met -/
  | reading (rest : Option (List β)) (bad : Bool)
  /-- what was put so far, and whether some of it was lost -/
  | writing (path : π) (put : List β) (bad : Bool)

/-- The files, and the stream. -/
@[ext] structure Disk (π β : Type) where
  /-- a path without contents has no file, or one that cannot be read -/
  file : π → Option (List β)
  stream : FileStream π β := .closed

namespace Disk

variable {π β : Type}

/-! ## §1. Honest calls. -/

/-- No file has changed but those that `path` names. -/
def Spares (same : π → π → Prop) (path : π) (d d' : Disk π β) : Prop :=
  ∀ x, ¬ same path x → d'.file x = d.file x

/-- The disk once `path` is open to be read. -/
def openedToRead (d : Disk π β) (path : π) : Disk π β :=
  { d with stream := .reading (d.file path) false }

/-- **A read** of at most `n` that gave `got`. -/
inductive Reads (n : Nat) (d : Disk π β) : List β → Disk π β → Prop
  /-- all that was asked for, or all that is left -/
  | next {rest : List β} {bad : Bool} (h : d.stream = .reading (some rest) bad) :
      Reads n d (rest.take n) { d with stream := .reading (some (rest.drop n)) bad }
  /-- an error cut it short -/
  | short {rest got : List β} {bad : Bool} (h : d.stream = .reading (some rest) bad)
      (hgot : got <+: rest) (hn : got.length ≤ n) :
      Reads n d got { d with stream := .reading (some (rest.drop got.length)) true }
  | never {bad : Bool} (h : d.stream = .reading none bad) :
      Reads n d [] { d with stream := .reading none true }

/-- Opening `path` to be written: it is emptied. -/
structure OpensToWrite (same : π → π → Prop) (path : π) (d : Disk π β) (ok : Bool)
    (d' : Disk π β) : Prop where
  spares : Spares same path d d'
  stream : d'.stream = if ok then .writing path [] false else .closed

/-- **A write** of `buf` to an open file, of which `count` got through. -/
structure Writes (same : π → π → Prop) (buf : List β) (d : Disk π β) (count : Nat)
    (d' : Disk π β) : Prop where
  fits : count ≤ buf.length
  puts : ∀ path put bad, d.stream = .writing path put bad → Spares same path d d' ∧
    d'.stream = .writing path (put ++ buf.take count) (bad || decide (count < buf.length))

/-- **Closing**: without an error, and with nothing lost before, the file holds
what was put. -/
structure Closes (same : π → π → Prop) (d : Disk π β) (ok : Bool) (d' : Disk π β) : Prop where
  stream : d'.stream = .closed
  read : ∀ rest bad, d.stream = .reading rest bad → d'.file = d.file
  spares : ∀ path put bad, d.stream = .writing path put bad → Spares same path d d'
  kept : ∀ path put, d.stream = .writing path put false → ok = true → d'.file path = some put

theorem Spares.refl (same : π → π → Prop) (path : π) (d : Disk π β) : Spares same path d d :=
  fun _ _ => rfl

theorem Spares.trans {same : π → π → Prop} {path : π} {d₁ d₂ d₃ : Disk π β}
    (h : Spares same path d₁ d₂) (h' : Spares same path d₂ d₃) : Spares same path d₁ d₃ :=
  fun x hx => (h' x hx).trans (h x hx)

theorem Spares.of_file_eq {same : π → π → Prop} {path : π} {d d' : Disk π β}
    (h : d'.file = d.file) : Spares same path d d' :=
  fun x _ => congrFun h x

/-! ## §2. Reading in pieces. -/

/-- How much is left to read. -/
def left (d : Disk π β) : Nat :=
  match d.stream with
  | .reading (some rest) _ => rest.length
  | _ => 0

/-- The file at `path` is being read, `out` was taken from it, and no file has
changed since `d₀`. -/
structure Taking (d₀ : Disk π β) (path : π) (out : List β) (d : Disk π β) : Prop where
  file : d.file = d₀.file
  stream : ∃ rest bad, d.stream = .reading rest bad ∧ d₀.file path = rest.map (out ++ ·) ∧
    (rest = none → out = [])

section Taking

variable {d₀ d d' : Disk π β} {path : π} {out got : List β} {n : Nat}

theorem taking_opened (d : Disk π β) (path : π) : Taking d path [] (d.openedToRead path) := by
  refine ⟨rfl, d.file path, false, rfl, ?_, fun _ => rfl⟩
  cases d.file path with
  | none => rfl
  | some b => rfl

/-- **A read takes the next piece.** -/
theorem Taking.read (h : Taking d₀ path out d) (hr : Reads n d got d') :
    Taking d₀ path (out ++ got) d' := by
  obtain ⟨hfile, rest, bad, hstream, hrest, hnone⟩ := h
  cases hr with
  | next h =>
      rw [hstream] at h
      cases h
      refine ⟨hfile, _, _, rfl, ?_, nofun⟩
      rw [hrest]
      simp
  | short h hgot hn =>
      rw [hstream] at h
      cases h
      obtain ⟨more, rfl⟩ := hgot
      refine ⟨hfile, _, _, rfl, ?_, nofun⟩
      rw [hrest]
      simp
  | never h =>
      rw [hstream] at h
      cases h
      obtain rfl := hnone rfl
      exact ⟨hfile, none, true, rfl, hrest, fun _ => rfl⟩

/-- A read that gives something leaves less to be read. -/
theorem Reads.left_lt (hr : Reads n d got d') (hgot : got ≠ []) : d'.left < d.left := by
  cases hr with
  | next h =>
      rename_i rest bad
      have hpos : 0 < (rest.take n).length := List.length_pos_iff.mpr hgot
      rw [List.length_take] at hpos
      unfold left
      rw [h]
      show (rest.drop n).length < rest.length
      rw [List.length_drop]
      omega
  | short h hpre hn =>
      rename_i rest bad
      have hpos := List.length_pos_iff.mpr hgot
      have hle := hpre.length_le
      unfold left
      rw [h]
      show (rest.drop got.length).length < rest.length
      rw [List.length_drop]
      omega
  | never h => exact (hgot rfl).elim

/-- **When a read gives nothing, and no error was met, all of the file was
taken.** -/
theorem Taking.whole (h : Taking d₀ path out d) (hn : 0 < n) (hr : Reads n d [] d')
    (hgood : ∀ rest, d'.stream ≠ .reading rest true) : d₀.file path = some out := by
  obtain ⟨-, rest, bad, hstream, hrest, -⟩ := h
  generalize hgot : ([] : List β) = got at hr
  cases hr with
  | next h =>
      rename_i left bad'
      rw [hstream] at h
      cases h
      have hempty : left = [] := by
        have hlen := congrArg List.length hgot
        rw [List.length_take] at hlen
        simp only [List.length_nil] at hlen
        exact List.length_eq_zero_iff.mp (by omega)
      rw [hrest, hempty]
      simp
  | short h hpre hn => exact (hgood _ rfl).elim
  | never h => exact (hgood _ rfl).elim

end Taking

/-! ## §3. Writing in pieces. -/

/-- The file at `path` is being written, `put` was put into it without a loss,
and no other file has changed since `d₀`. -/
structure Putting (same : π → π → Prop) (d₀ : Disk π β) (path : π) (put : List β)
    (d : Disk π β) : Prop where
  spares : Spares same path d₀ d
  stream : d.stream = .writing path put false

section Putting

variable {same : π → π → Prop} {d₀ d d' : Disk π β} {path : π} {put buf : List β}
  {count : Nat} {ok : Bool}

theorem OpensToWrite.putting (h : OpensToWrite same path d true d') :
    Putting same d path [] d' :=
  ⟨h.spares, h.stream⟩

/-- **A write that got through puts the next piece.** -/
theorem Putting.write (h : Putting same d₀ path put d) (hw : Writes same buf d count d')
    (hcount : count = buf.length) : Putting same d₀ path (put ++ buf) d' := by
  obtain ⟨hspares, hstream⟩ := hw.puts path put false h.stream
  subst hcount
  refine ⟨h.spares.trans hspares, ?_⟩
  rw [hstream, List.take_length]
  simp

/-- Any write keeps to the one file. -/
theorem Putting.spares_write (h : Putting same d₀ path put d) (hw : Writes same buf d count d') :
    Spares same path d₀ d' ∧ ∃ put' bad, d'.stream = .writing path put' bad := by
  obtain ⟨hspares, hstream⟩ := hw.puts path put false h.stream
  exact ⟨h.spares.trans hspares, _, _, hstream⟩

/-- **Closed without an error, the file holds what was put.** -/
theorem Putting.close (h : Putting same d₀ path put d) (hc : Closes same d ok d') :
    Spares same path d₀ d' ∧ d'.stream = .closed ∧ (ok = true → d'.file path = some put) :=
  ⟨h.spares.trans (hc.spares path put false h.stream), hc.stream, hc.kept path put h.stream⟩

end Putting

end Disk
