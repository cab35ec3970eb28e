/-
  ItbCpp.Strings
  ──────────────
  **STRINGS ACROSS THE BOUNDARY.**

  An entry receives a string with its length and hands the library a
  pointer to NUL-terminated memory.  What the library reads there is the
  string up to its first NUL:

    • `run_seen` — every entry hands its string over, and the library reads
      exactly that part of it,
    • `strings_cross` — a string crosses verbatim exactly when it holds no
      NUL; among those, different strings stay different.
-/
import ItbCpp.Footprint
import ItbCpp.Pipeline
import Mathlib.Data.List.TakeWhile

namespace ItbCpp

/-! ## §1. The entries that take a string. -/

/-- A string parameter of an entry, with the entry's other arguments. -/
inductive StringEntry where
  | initProfile (opts : Opts)
  | initKeysProfile (masters : List Bytes) (opts : Opts)
  | loadFPath (perm wrap : Bytes)
  | saveFPath (self : Pipeline)
  | registerProfileName (profileJson : Bytes)
  | registerProfileJson (name : Bytes)
  | lookupName
  | writeHeapProfilePath

/-- The entry, called with the string `s`. -/
def StringEntry.run {σ : Type} (L : Lib σ) : StringEntry → Bytes → Prog Exn (World σ) Unit
  | .initProfile opts, s => do let _ ← Pipeline.init L s opts; pure ()
  | .initKeysProfile masters opts, s => do let _ ← Pipeline.initKeys L s masters opts; pure ()
  | .loadFPath perm wrap, s => do let _ ← Pipeline.loadF L s perm wrap; pure ()
  | .saveFPath self, s => self.saveF L s
  | .registerProfileName profileJson, s => registerProfile L s profileJson
  | .registerProfileJson name, s => registerProfile L name s
  | .lookupName, s => do let _ ← lookup L s; pure ()
  | .writeHeapProfilePath, s => writeHeapProfile L s

/-- The C string that stands for the parameter in a call of the entry's
library function. -/
def StringEntry.argument : StringEntry → FfiCall → Option CString
  | .initProfile _, .init profile _ _ => some profile
  | .initKeysProfile _ _, .initKeys profile _ _ _ _ => some profile
  | .loadFPath _ _, .loadF path _ _ _ => some path
  | .saveFPath _, .saveF _ path => some path
  | .registerProfileName _, .register name _ => some name
  | .registerProfileJson _, .register _ json => some json
  | .lookupName, .lookup name _ => some name
  | .writeHeapProfilePath, .writeHeapProfile path => some path
  | _, _ => none

/-- What an event hands the library as the parameter. -/
def StringEntry.handed (e : StringEntry) : Event → Option CString
  | .call c _ => e.argument c
  | _ => none

/-- What the library reads as the parameter, once for every call. -/
def StringEntry.seen (e : StringEntry) (evs : List Event) : List Bytes :=
  (evs.filterMap e.handed).map CString.read

/-- What the library reads in a run of the entry from `w`. -/
def StringEntry.seenBy {σ : Type} (L : Lib σ) (e : StringEntry) (s : Bytes) (w : World σ) :
    List Bytes :=
  e.seen (w.since (e.run L s w).state)

/-- The entry throws without handing anything over, or hands over the
string and the library reads exactly it. -/
def CrossesVerbatim {σ : Type} (L : Lib σ) (e : StringEntry) (s : Bytes) (w : World σ) : Prop :=
  ((∃ x w', e.run L s w = .threw x w') ∧ e.seenBy L s w = []) ∨
    (e.seenBy L s w ≠ [] ∧ ∀ b ∈ e.seenBy L s w, b = s)

/-! ## §2. What an entry hands over. -/

/-- An event that hands over `s` as the parameter, or nothing. -/
def HandsOver (e : StringEntry) (s : Bytes) (ev : Event) : Prop :=
  e.handed ev = none ∨ e.handed ev = some (ffiStr s)

section Runs

variable {σ : Type} {L : Lib σ}

theorem lenient_handsOver (e : StringEntry) (s : Bytes) :
    Lenient L (Prog.Extends World.trace (HandsOver e s)) := by
  apply lenient_event
  · intro n r
    left
    cases e <;> rfl
  · intro content
    left
    rfl

/-- Every call an entry makes hands over its string or none at all. -/
theorem emits_run (e : StringEntry) (s : Bytes) : Emits (HandsOver e s) (e.run L s) := by
  have hP := lenient_handsOver (L := L) e s
  cases e with
  | initProfile opts =>
      -- both passes of the retry hand over the same pointer
      refine .bind ?_ fun _ => .pure _
      refine .bind (within_bufCall hP (fun n => allows_event fun r => .inr rfl) _) fun p => ?_
      exact .bind (emits_emit (.inl rfl)) fun _ => .bind (emits_emit (.inl rfl)) fun _ => .pure _
  | initKeysProfile masters opts =>
      refine .bind (.ensuring ?_ (emits_emit (.inl rfl))) fun _ => .pure _
      refine .bind (within_bufCall hP (fun n => allows_event fun r => .inr rfl) _) fun p => ?_
      exact .bind (emits_emit (.inl rfl)) fun _ => .bind (emits_emit (.inl rfl)) fun _ => .pure _
  | loadFPath perm wrap =>
      refine .bind ?_ fun _ => .pure _
      refine .bind (within_ffi (allows_event fun r => .inr rfl)) fun r => ?_
      exact .bind (within_check hP _ _) fun _ => .bind (emits_emit (.inl rfl)) fun _ => .pure _
  | saveFPath self =>
      exact .bind (within_ffi (allows_event fun r => .inr rfl)) fun r => within_check hP _ _
  | registerProfileName profileJson =>
      exact .bind (within_ffi (allows_event fun r => .inr rfl)) fun r => within_check hP _ _
  | registerProfileJson name =>
      exact .bind (within_ffi (allows_event fun r => .inr rfl)) fun r => within_check hP _ _
  | lookupName =>
      refine .bind ?_ fun _ => .pure _
      refine .bind (within_bufCall hP (fun n => allows_event fun r => .inr rfl) _) fun p => ?_
      exact .pure _
  | writeHeapProfilePath =>
      exact .bind (within_ffi (allows_event fun r => .inr rfl)) fun r => within_check hP _ _

/-- Every entry begins with a call that hands its string over: none looks at
the string first. -/
theorem starts_run (e : StringEntry) (s : Bytes) :
    ∃ c, e.argument c = some (ffiStr s) ∧ Starts c (e.run L s) := by
  have hT := lenient_true (L := L)
  cases e with
  | initProfile opts =>
      refine ⟨_, rfl, ((starts_bufCall (.init (ffiStr s) (ffiStr opts.query)) _).bind
        fun p => ?_).bind fun _ => .pure _⟩
      exact .bind (emits_emit trivial) fun _ => .bind (emits_emit trivial) fun _ => .pure _
  | initKeysProfile masters opts =>
      refine ⟨_, rfl, (((starts_bufCall (.initKeys (ffiStr s) (ffiStr opts.query)
        (flattenMasters masters) (masterLens masters)) _).bind fun p => ?_).ensuring
        (emits_emit trivial)).bind fun _ => .pure _⟩
      exact .bind (emits_emit trivial) fun _ => .bind (emits_emit trivial) fun _ => .pure _
  | loadFPath perm wrap =>
      refine ⟨.loadF (ffiStr s) perm wrap (mastersCount perm wrap), rfl,
        (starts_ffi fun r => ?_).bind fun _ => .pure _⟩
      exact .bind (within_check hT _ _) fun _ => .bind (emits_emit trivial) fun _ => .pure _
  | saveFPath self =>
      exact ⟨.saveF self.handle (ffiStr s), rfl, starts_ffi fun r => within_check hT _ _⟩
  | registerProfileName profileJson =>
      exact ⟨.register (ffiStr s) (ffiStr profileJson), rfl,
        starts_ffi fun r => within_check hT _ _⟩
  | registerProfileJson name =>
      exact ⟨.register (ffiStr name) (ffiStr s), rfl, starts_ffi fun r => within_check hT _ _⟩
  | lookupName =>
      exact ⟨_, rfl, ((starts_bufCall (.lookup (ffiStr s)) _).bind fun p => .pure _).bind
        fun _ => .pure _⟩
  | writeHeapProfilePath =>
      exact ⟨.writeHeapProfile (ffiStr s), rfl, starts_ffi fun r => within_check hT _ _⟩

/-- **What the library reads**: the string up to its first NUL, at least
once and every time. -/
theorem run_seen (L : Lib σ) (e : StringEntry) (s : Bytes) (w : World σ) :
    e.seenBy L s w ≠ [] ∧ ∀ b ∈ e.seenBy L s w, b = (ffiStr s).read := by
  constructor
  · obtain ⟨c, hc, hstarts⟩ := starts_run (L := L) e s
    obtain ⟨r, new, hnew⟩ := hstarts w
    unfold StringEntry.seenBy StringEntry.seen
    rw [World.since_of_append hnew]
    simp [StringEntry.handed, hc]
  · obtain ⟨new, hnew, hall⟩ := emits_run (L := L) e s w
    intro b hb
    unfold StringEntry.seenBy StringEntry.seen at hb
    rw [World.since_of_append hnew] at hb
    obtain ⟨str, hstr, rfl⟩ := List.mem_map.mp hb
    obtain ⟨ev, hev, hhand⟩ := List.mem_filterMap.mp hstr
    rcases hall ev hev with h | h
    · rw [h] at hhand
      cases hhand
    · rw [h] at hhand
      injection hhand with hhand
      rw [hhand]

/-! ## §3. Which strings cross. -/

theorem zero_notMem_read (c : CString) : 0 ∉ c.read := by
  intro h
  have hne := List.mem_takeWhile_imp h
  simp at hne

/-- A string is read back exactly when it holds no NUL. -/
theorem ffiStr_read_eq_self {s : Bytes} : (ffiStr s).read = s ↔ 0 ∉ s := by
  constructor
  · intro h hmem
    rw [← h] at hmem
    exact zero_notMem_read _ hmem
  · intro h
    exact ffiStr_read_of_notMem h

theorem crossesVerbatim_iff (e : StringEntry) (s : Bytes) (w : World σ) :
    CrossesVerbatim L e s w ↔ 0 ∉ s := by
  obtain ⟨hne, hall⟩ := run_seen L e s w
  rw [← ffiStr_read_eq_self]
  constructor
  · intro h
    rcases h with h | h
    · exact absurd h.2 hne
    · obtain ⟨b, hb⟩ := List.exists_mem_of_ne_nil _ hne
      rw [← hall b hb, h.2 b hb]
  · intro h
    right
    exact ⟨hne, fun b hb => (hall b hb).trans h⟩

/-- **STRINGS CROSS VERBATIM EXACTLY WHEN THEY HOLD NO NUL.**  For every
library, every state of it, every entry and every string: the entry rejects
the string or the library reads exactly its bytes, if and only if no byte of
it is NUL.  Among such strings the library never takes one for another. -/
theorem strings_cross (L : Lib σ) (e : StringEntry) (s : Bytes) (w : World σ) :
    (CrossesVerbatim L e s w ↔ 0 ∉ s) ∧
      ∀ t w', 0 ∉ s → 0 ∉ t → ∀ b ∈ e.seenBy L s w, b ∈ e.seenBy L t w' → s = t := by
  refine ⟨crossesVerbatim_iff e s w, ?_⟩
  intro t w' hs ht b hbs hbt
  calc s = (ffiStr s).read := (ffiStr_read_of_notMem hs).symm
    _ = b := ((run_seen L e s w).2 b hbs).symm
    _ = (ffiStr t).read := (run_seen L e t w').2 b hbt
    _ = t := ffiStr_read_of_notMem ht

end Runs

/-- A library that accepts everything. -/
def acceptsAll : Lib Unit := fun _ s => ({ rc := 0 }, s)

/-- `lookup` of the three bytes `a`, NUL, `b` is not rejected: the library
is asked for the name `a`. -/
theorem lookup_truncates :
    ¬CrossesVerbatim acceptsAll .lookupName [97, 0, 98] ⟨(), []⟩ ∧
      ∀ b ∈ StringEntry.lookupName.seenBy acceptsAll [97, 0, 98] ⟨(), []⟩, b = text "a" := by
  constructor
  · rw [crossesVerbatim_iff]
    decide
  · intro b hb
    rw [(run_seen acceptsAll .lookupName [97, 0, 98] ⟨(), []⟩).2 b hb]
    decide

end ItbCpp
