/-
  ItbCpp.Masters
  ──────────────
  **THE FLAT MASTER-KEY BUFFER IS LOSSLESS** (`Pipeline::init_keys`).

  The caller's keys cross the boundary as one buffer and a list of lengths,
  built by two loops of which the second skips the empty keys.

    • `masterCopies` — the copies of the second loop, with their offsets,
    • `masterCopies_tile` — they lie end to end and fill the buffer,
    • `initKeys_calls` — every attempt passes the same buffer and lengths,
    • `masters_lossless` — the list can be read back.
-/
import ItbCpp.Footprint
import Mathlib.Algebra.GroupWithZero.Nat
import Mathlib.Data.List.SplitLengths

namespace ItbCpp

/-! ## §1. The copies. -/

/-- The copies made by the loop of `init_keys` from the offset `off` on. -/
def masterCopies : Nat → List Bytes → List (Nat × Bytes)
  | _, [] => []
  | off, m :: rest =>
      if m ≠ [] then (off, m) :: masterCopies ((off + m.length) % sizeMod) rest
      else masterCopies off rest

/-- The loop makes these copies, in this order, and nothing else. -/
theorem foldl_copies (masters : List Bytes) (buf : Bytes) (off : Nat) :
    (masters.foldl (fun (st : Bytes × Nat) m =>
      if m ≠ [] then (Buffer.overlayAt st.1 st.2 m, (st.2 + m.length) % sizeMod) else st)
      (buf, off)).1 =
      (masterCopies off masters).foldl (fun b c => Buffer.overlayAt b c.1 c.2) buf := by
  induction masters generalizing buf off with
  | nil => rfl
  | cons m rest ih =>
      rw [List.foldl_cons, masterCopies]
      by_cases hm : m ≠ []
      · rw [if_pos hm, if_pos hm, ih]
        rfl
      · rw [if_neg hm, if_neg hm, ih]

theorem flattenMasters_eq (masters : List Bytes) :
    flattenMasters masters =
      (masterCopies 0 masters).foldl (fun b c => Buffer.overlayAt b c.1 c.2)
        (zeros (masterTotal masters)) :=
  foldl_copies masters _ 0

/-- Empty keys apart, the copies are of the keys. -/
theorem masterCopies_keys (masters : List Bytes) (off : Nat) :
    ((masterCopies off masters).map Prod.snd).flatten = masters.flatten := by
  induction masters generalizing off with
  | nil => rfl
  | cons m rest ih =>
      rw [masterCopies]
      by_cases hm : m ≠ []
      · rw [if_pos hm, List.map_cons, List.flatten_cons, List.flatten_cons, ih]
      · rw [if_neg hm, ih, List.flatten_cons, not_not.mp hm, List.nil_append]

/-- The first loop does not wrap: the total is the sum of the lengths. -/
theorem masterTotal_eq {masters : List Bytes} (h : (masterLens masters).sum < sizeMod) :
    masterTotal masters = (masterLens masters).sum := by
  have hloop : ∀ (ms : List Bytes) (total : Nat), total + (masterLens ms).sum < sizeMod →
      ms.foldl (fun total m => (total + m.length) % sizeMod) total =
        total + (masterLens ms).sum := by
    intro ms
    induction ms with
    | nil => intro total _; rfl
    | cons m rest ih =>
        intro total hlt
        have hsum : (masterLens (m :: rest)).sum = m.length + (masterLens rest).sum := rfl
        rw [hsum] at hlt ⊢
        rw [List.foldl_cons, Nat.mod_eq_of_lt (by omega), ih _ (by omega)]
        omega
  have := hloop masters 0 (by omega)
  rw [masterTotal, this, Nat.zero_add]

/-- **The copies lie end to end**: skipping an empty key moves no offset, and
no offset wraps. -/
theorem masterCopies_tile (masters : List Bytes) (off : Nat)
    (h : off + (masterLens masters).sum < sizeMod) :
    Buffer.Tiles off (off + (masterLens masters).sum) (masterCopies off masters) := by
  induction masters generalizing off with
  | nil => exact rfl
  | cons m rest ih =>
      have hsum : (masterLens (m :: rest)).sum = m.length + (masterLens rest).sum := rfl
      rw [hsum] at h ⊢
      rw [masterCopies]
      by_cases hm : m ≠ []
      · rw [if_pos hm, Nat.mod_eq_of_lt (by omega), ← Nat.add_assoc]
        have hrest : off + m.length + (masterLens rest).sum < sizeMod := by omega
        exact ⟨rfl, ih _ hrest⟩
      · have hlen : m.length = 0 := by rw [not_not.mp hm]; rfl
        rw [if_neg hm, hlen, Nat.zero_add]
        exact ih off (by omega)

/-! ## §2. The buffer. -/

/-- The flat buffer holds the keys, one after the other. -/
theorem flattenMasters_flatten {masters : List Bytes}
    (h : (masterLens masters).sum < sizeMod) : flattenMasters masters = masters.flatten := by
  have htile : Buffer.Tiles 0 (zeros (masterTotal masters)).length (masterCopies 0 masters) := by
    have := masterCopies_tile masters 0 (by omega)
    rw [length_zeros, masterTotal_eq h]
    rwa [Nat.zero_add] at this
  rw [flattenMasters_eq, htile.fill, masterCopies_keys]
  rfl

/-- A concatenation is cut back into its parts at their lengths. -/
theorem splitLengths_flatten (masters : List Bytes) :
    (masterLens masters).splitLengths masters.flatten = masters := by
  induction masters with
  | nil => rfl
  | cons m rest ih =>
      show (m.length :: masterLens rest).splitLengths (m ++ rest.flatten) = _
      rw [List.splitLengths_cons, List.take_left, List.drop_left, ih]

/-! ## §3. The call. -/

section Call

variable {σ : Type}

/-- The arguments of a call of `ITB_Triple_InitKeys`, its buffer apart. -/
def initKeysArgs : Event → Option (CString × CString × Bytes × List Nat)
  | .call (.initKeys profile opts flat lens _) _ => some (profile, opts, flat, lens)
  | _ => none

/-- The calls of a run that pass master keys. -/
def initKeysCalls (evs : List Event) : List (CString × CString × Bytes × List Nat) :=
  evs.filterMap initKeysArgs

/-- Every attempt of a run passes the same buffer and the same lengths. -/
theorem initKeys_calls (L : Lib σ) (profile : Bytes) (masters : List Bytes) (opts : Opts)
    (w : World σ) :
    ∀ args ∈ initKeysCalls (w.since (Pipeline.initKeys L profile masters opts w).state),
      args = (ffiStr profile, ffiStr opts.query, flattenMasters masters, masterLens masters) := by
  let P : Event → Prop := fun e => ∀ args ∈ initKeysArgs e,
    args = (ffiStr profile, ffiStr opts.query, flattenMasters masters, masterLens masters)
  have hR : Lenient L (Prog.Extends World.trace P) :=
    lenient_event (fun _ _ _ h => by cases h) (fun _ _ h => by cases h)
  have hrun : Emits P (Pipeline.initKeys L profile masters opts) := by
    unfold Pipeline.initKeys
    refine .ensuring (.bind (within_bufCall hR (fun n => ?_) _) fun br => ?_) (hR.dealloc _)
    -- the lambda is called with one set of arguments and a buffer
    · refine allows_event fun r args h => ?_
      cases h
      rfl
    · refine .bind (emits_emit fun _ h => by cases h) fun _ => ?_
      exact .bind (hR.dealloc _) fun _ => .pure _
  intro args hargs
  obtain ⟨new, hnew, hall⟩ := hrun w
  rw [World.since_of_append hnew, initKeysCalls, List.mem_filterMap] at hargs
  obtain ⟨e, he, hargs⟩ := hargs
  exact hall e he args hargs

/-- The run makes such a call: the first attempt. -/
theorem initKeys_starts (L : Lib σ) (profile : Bytes) (masters : List Bytes) (opts : Opts) :
    Starts (.initKeys (ffiStr profile) (ffiStr opts.query) (flattenMasters masters)
      (masterLens masters) kBlobCap) (Pipeline.initKeys L profile masters opts) := by
  unfold Pipeline.initKeys
  refine Starts.ensuring ((starts_bufCall _ _).bind fun br => ?_) (emits_emit trivial)
  exact .bind (emits_emit trivial) fun _ => .bind (emits_emit trivial) fun _ => .pure _

/-- Spans over the vectors are the vectors' contents. -/
theorem initKeysVec_eq (L : Lib σ) (profile : Bytes) (masters : List Bytes) (opts : Opts) :
    Pipeline.initKeysVec L profile masters opts = Pipeline.initKeys L profile masters opts := by
  have hspans : ∀ (ms spans : List Bytes),
      ms.foldl (fun spans m => spans ++ [asBytes m]) spans = spans ++ ms := by
    intro ms
    induction ms with
    | nil => intro spans; exact (List.append_nil spans).symm
    | cons m rest ih =>
        intro spans
        rw [List.foldl_cons, ih, List.append_assoc]
        rfl
  show Pipeline.initKeys L profile (masters.foldl _ []) opts = _
  rw [hspans, List.nil_append]

/-- **THE FLATTENING IS LOSSLESS.**  For every list of keys whose total
length `size_t` can hold, whatever the library answers: the run passes one
buffer and one list of lengths, at every attempt the same, and so does the
other overload; cut at the lengths the buffer is the caller's list; the
copies that made it lie inside it, end to end from its front to its end; and
no other list leads to the same arguments. -/
theorem masters_lossless (L : Lib σ) (w : World σ) (profile : Bytes) (masters : List Bytes)
    (opts : Opts) (h : (masterLens masters).sum < sizeMod) :
    (masterLens masters).splitLengths (flattenMasters masters) = masters ∧
    (flattenMasters masters = (masterCopies 0 masters).foldl
        (fun b c => Buffer.overlayAt b c.1 c.2) (zeros (masterTotal masters)) ∧
      (∀ c ∈ masterCopies 0 masters, c.1 + c.2.length ≤ (flattenMasters masters).length) ∧
      Buffer.Tiles 0 (flattenMasters masters).length (masterCopies 0 masters)) ∧
    (initKeysCalls (w.since (Pipeline.initKeys L profile masters opts w).state) ≠ [] ∧
      ∀ args ∈ initKeysCalls (w.since (Pipeline.initKeys L profile masters opts w).state),
        args = (ffiStr profile, ffiStr opts.query, flattenMasters masters,
          masterLens masters)) ∧
    Pipeline.initKeysVec L profile masters opts = Pipeline.initKeys L profile masters opts ∧
    (∀ masters', (masterLens masters').sum < sizeMod →
      flattenMasters masters' = flattenMasters masters →
      masterLens masters' = masterLens masters → masters' = masters) := by
  have hflat := flattenMasters_flatten h
  have hcut : ∀ ms : List Bytes, (masterLens ms).sum < sizeMod →
      (masterLens ms).splitLengths (flattenMasters ms) = ms := by
    intro ms hms
    rw [flattenMasters_flatten hms, splitLengths_flatten]
  have htile : Buffer.Tiles 0 (flattenMasters masters).length (masterCopies 0 masters) := by
    have htile := masterCopies_tile masters 0 (by omega)
    rw [Nat.zero_add] at htile
    rwa [hflat, List.length_flatten]
  refine ⟨hcut masters h, ⟨flattenMasters_eq masters, htile.inside, htile⟩,
    ⟨?_, initKeys_calls L profile masters opts w⟩, initKeysVec_eq L profile masters opts, ?_⟩
  · obtain ⟨r, new, hnew⟩ := initKeys_starts L profile masters opts w
    rw [World.since_of_append hnew]
    simp [initKeysCalls, initKeysArgs]
  · intro masters' h' hbuf hlens
    rw [← hcut masters' h', ← hcut masters h, hbuf, hlens]

end Call

/-- Three keys, one of them empty. -/
theorem masters_lossless_three :
    [2, 0, 1].splitLengths (flattenMasters [[1, 2], [], [3]]) = [[1, 2], [], [3]] :=
  (masters_lossless (fun _ s => ({ rc := 0 }, s)) ⟨(), []⟩ [] [[1, 2], [], [3]] {}
    (by decide)).1

end ItbCpp
