/-
  ItbCpp.Lib.Delimited
  ────────────────────
  **SEARCHING IN DELIMITED TEXT.**

  A text in which one element delimits the others, and what a search for a
  stretch between two delimiters can find in it.

    • `findAfter_eq_some`, `findAfter_eq_none` — the first occurrence,
    • `skip`, `append_cons_inj` — an occurrence that begins with the
      delimiter begins behind whatever has none,
    • `infix_iff_splitOn` — a stretch between two delimiters is found exactly
      where its parts stand one after the other.

  Nothing here is about a particular program.
-/
import Mathlib.Data.List.Infix

namespace Delimited

variable {α : Type}

/-! ## §1. The first occurrence. -/

/-- What comes behind the first occurrence of `needle`. -/
def findAfter [DecidableEq α] (needle : List α) : List α → Option (List α)
  | [] => if needle = [] then some [] else none
  | c :: t => if needle <+: c :: t then some ((c :: t).drop needle.length) else findAfter needle t

theorem findAfter_eq_some [DecidableEq α] {needle s b : List α} (h : findAfter needle s = some b) :
    ∃ a, s = a ++ (needle ++ b) := by
  induction s with
  | nil =>
      unfold findAfter at h
      split at h
      · rename_i hnil
        cases h
        exact ⟨[], by rw [hnil]; rfl⟩
      · cases h
  | cons c t ih =>
      unfold findAfter at h
      split at h
      · rename_i hpre
        obtain ⟨b', hb'⟩ := hpre
        rw [← hb', List.drop_left] at h
        cases h
        exact ⟨[], hb'.symm⟩
      · obtain ⟨a, ha⟩ := ih h
        exact ⟨c :: a, by rw [ha]; rfl⟩

theorem findAfter_eq_none [DecidableEq α] {needle s : List α} (h : findAfter needle s = none)
    (a b : List α) : s ≠ a ++ (needle ++ b) := by
  induction s generalizing a with
  | nil =>
      intro heq
      unfold findAfter at h
      split at h
      · cases h
      · rename_i hne
        exact hne (List.append_eq_nil_iff.mp (List.append_eq_nil_iff.mp heq.symm).2).1
  | cons c t ih =>
      intro heq
      unfold findAfter at h
      split at h
      · cases h
      · rename_i hpre
        cases a with
        | nil => exact hpre ⟨b, heq.symm⟩
        | cons c' a =>
            injection heq with _ heq
            exact ih h a heq

/-! ## §2. Delimiters. -/

variable {q : α}

/-- What begins with the delimiter begins behind a part that has none. -/
theorem skip {a n x y : List α} (hx : q ∉ x) (h : a ++ q :: n = x ++ y) :
    ∃ a', a = x ++ a' ∧ a' ++ q :: n = y := by
  rcases List.append_eq_append_iff.mp h with ⟨as, hin, hrest⟩ | ⟨as, hover, hrest⟩
  · cases as with
    | nil => exact ⟨[], by rw [hin]; simp, hrest⟩
    | cons c as =>
        injection hrest with hc
        exact (hx (by rw [hin, hc]; simp)).elim
  · exact ⟨as, hover, hrest.symm⟩

/-- The first delimiter cuts a text in one way. -/
theorem append_cons_inj {x y s t : List α} (hx : q ∉ x) (hy : q ∉ y)
    (h : x ++ q :: s = y ++ q :: t) : x = y ∧ s = t := by
  obtain ⟨a', ha', hrest⟩ := skip hy h
  obtain ⟨b', hb', -⟩ := skip hx h.symm
  have hnil : a' = [] := by
    have hlen := congrArg List.length ha'
    rw [hb', List.length_append, List.length_append] at hlen
    exact List.length_eq_zero_iff.mp (by omega)
  rw [hnil] at ha' hrest
  injection hrest with _ hrest
  exact ⟨by rw [ha', List.append_nil], hrest⟩

/-- Every part with its delimiter in front. -/
theorem flatMap_eq_intercalate {ps : List (List α)} (h : ps ≠ []) :
    ps.flatMap (q :: ·) = q :: [q].intercalate ps := by
  induction ps with
  | nil => exact (h rfl).elim
  | cons p ps ih =>
      rw [List.flatMap_cons]
      by_cases hps : ps = []
      · rw [hps]
        simp
      · rw [ih hps, List.intercalate_cons_of_ne_nil hps]
        simp

/-- The first part has none. -/
theorem intercalate_cons (p : List α) (ps : List (List α)) :
    [q].intercalate (p :: ps) = p ++ ps.flatMap (q :: ·) := by
  have hcons := flatMap_eq_intercalate (q := q) (List.cons_ne_nil p ps)
  rw [List.flatMap_cons, List.cons_append] at hcons
  exact (List.cons.inj hcons).2.symm

/-- **A stretch between two delimiters** is found in a text that begins and
ends outside of them exactly where its parts are consecutive parts of it. -/
theorem infix_iff_splitOn [DecidableEq α] {pre post v : List α} {parts : List (List α)}
    (hpre : q ∉ pre) (hpost : q ∉ post) (hparts : ∀ p ∈ parts, q ∉ p) :
    (q :: (v ++ [q])) <:+: [q].intercalate (pre :: (parts ++ [post])) ↔
      v.splitOn q <:+: parts := by
  have hall : ∀ p ∈ pre :: (parts ++ [post]), q ∉ p := by
    intro p hp
    rcases List.mem_cons.mp hp with rfl | hp
    · exact hpre
    · rcases List.mem_append.mp hp with hp | hp
      · exact hparts p hp
      · rw [List.mem_singleton.mp hp]
        exact hpost
  have hsplit := List.splitOn_intercalate q hall (List.cons_ne_nil _ _)
  constructor
  · intro h
    obtain ⟨a, b, hab⟩ := h
    have hcut : a ++ q :: (v ++ [q]) ++ b = a ++ q :: (v ++ q :: b) := by simp
    rw [← hab, hcut, List.splitOn_append_cons_self, List.splitOn_append_cons_self] at hsplit
    -- what stands before it has a first part, and what stands behind it a last
    obtain ⟨a₀, as, has⟩ := List.exists_cons_of_ne_nil (List.splitOn_ne_nil q a)
    obtain ⟨bs, b₀, hbs⟩ := List.eq_nil_or_concat (b.splitOn q) |>.resolve_left
      (List.splitOn_ne_nil q b)
    rw [has, hbs] at hsplit
    injection hsplit with _ hsplit
    refine ⟨as, bs, ?_⟩
    have hparts' : (as ++ v.splitOn q ++ bs) ++ [b₀] = parts ++ [post] := by
      simpa using hsplit
    exact (List.append_inj' hparts' rfl).1
  · intro h
    obtain ⟨l, r, hlr⟩ := h
    obtain ⟨p₀, ps, hps⟩ := List.exists_cons_of_ne_nil
      (List.append_ne_nil_of_right_ne_nil r (List.cons_ne_nil post []))
    refine ⟨pre ++ l.flatMap (q :: ·), p₀ ++ ps.flatMap (q :: ·), ?_⟩
    have hmid : (v.splitOn q).flatMap (q :: ·) = q :: v := by
      rw [flatMap_eq_intercalate (List.splitOn_ne_nil q v), List.intercalate_splitOn]
    have hend : (r ++ [post]).flatMap (q :: ·) = q :: (p₀ ++ ps.flatMap (q :: ·)) := by
      rw [hps]
      rfl
    have hparts' : parts ++ [post] = l ++ (v.splitOn q ++ (r ++ [post])) := by
      rw [← hlr, List.append_assoc, List.append_assoc]
    rw [intercalate_cons, hparts', List.flatMap_append, List.flatMap_append, hmid, hend]
    simp

end Delimited
