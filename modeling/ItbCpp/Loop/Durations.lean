/-
  ItbCpp.Loop.Durations
  ─────────────────────
  **DURATIONS** (`loop/size.cpp`).

  `parse_duration` takes numbers off the front of the text with `strtod` and
  a unit after each of them, and adds up doubles.  Its comment promises the
  grammar of decimal numbers with units, which is written here without the
  scan.  `strtod` reads more than that: exponents, and numbers in base 16.

    • `duration_iff` — the texts of the grammar are the ones whose
      numbers are all read in decimal form,
    • `parseDuration_accepts` — a text is accepted when it is read to its end
      and the sum is not out of range,
    • `parseDuration_documented` — exactly when that is what is promised.
-/
import ItbCpp.Ffi
import ItbCpp.Lib.Binary64
import ItbCpp.Lib.Strtod
import Mathlib.Data.List.Find

namespace ItbCpp.Loop

open CNumber (isDigit isAlpha cString Stops)
open Binary64 (Double accumulate exactSum)
open Strtod (Form Decimal)

/-! ## §1. The code. -/

/-- `Unit`; its double is a whole number. -/
structure TimeUnit where
  text : Bytes
  ns : Nat
  deriving DecidableEq

/-- The units of `parse_duration`. -/
def timeUnits : List TimeUnit :=
  [⟨text "ns", 1⟩, ⟨text "us", 10 ^ 3⟩, ⟨text "ms", 10 ^ 6⟩,
    ⟨text "s", 10 ^ 9⟩, ⟨text "m", 60 * 10 ^ 9⟩, ⟨text "h", 3600 * 10 ^ 9⟩]

/-- The unit at the front of `p`: the first that it begins with and that no
letter follows. -/
def unitAt (p : Bytes) : Option TimeUnit :=
  timeUnits.find? fun u =>
    u.text.isPrefixOf p && (p.drop u.text.length).head?.all fun c => !isAlpha c

/-- One turn of the loop: a number and its unit, and what is left. -/
structure Part where
  form : Form
  value : ℚ
  unit : TimeUnit
  rest : Bytes
  deriving DecidableEq

/-- The body of the loop, for a `p` that is not at the end. -/
def part (p : Bytes) : Option Part :=
  match p with
  | [] => none
  | c :: _ =>
      if isDigit c = false ∧ c ≠ 46 then none
      else
        match Strtod.scan p with
        | none => none
        | some n =>
            if (Binary64.round n.value).Negative then none
            else
              (unitAt n.rest).map fun u =>
                { form := n.form, value := n.value, unit := u,
                  rest := n.rest.drop u.text.length }

/-- Every turn takes something. -/
theorem part_rest {p : Bytes} {q : Part} (h : part p = some q) : q.rest.length < p.length := by
  unfold part at h
  split at h
  · cases h
  · split at h
    · cases h
    · split at h
      · cases h
      · rename_i n hscan
        have hnumber := Strtod.scan_rest hscan
        split at h
        · cases h
        · obtain ⟨u, -, rfl⟩ := Option.map_eq_some_iff.mp h
          show (n.rest.drop u.text.length).length < _
          rw [List.length_drop]
          omega

/-- The loop: what `total` comes to at the end of the string. -/
def parseLoop (p : Bytes) (total : Double) : Option Double :=
  if p = [] then some total
  else
    match _h : part p with
    | none => none
    | some q =>
        parseLoop q.rest (total.add ((Binary64.round q.value).mul (.fin q.unit.ns)))
  termination_by p.length
  decreasing_by exact part_rest _h

/-- The bound of the range check, a double. -/
def durationLimit : ℚ := 92 * 10 ^ 17

/-- `parse_duration`: its verdict, and what `out_ns` holds then. -/
def parseDuration (s : Bytes) (out : Int) : Option (Bool × Int) :=
  if s = [] then some (false, out)
  else
    match parseLoop (cString s) (.fin 0) with
    | none => some (false, out)
    | some total =>
        if total.Above durationLimit then some (false, out)
        else total.toInt64.map fun n => (true, n)

/-! ## §2. The grammar. -/

/-- The units, and how many nanoseconds each of them is. -/
def durationUnits : List (Bytes × Nat) :=
  [(text "h", 3600 * 10 ^ 9), (text "m", 60 * 10 ^ 9), (text "s", 10 ^ 9),
    (text "ms", 10 ^ 6), (text "us", 10 ^ 3), (text "ns", 1)]

/-- A text that says a number of nanoseconds: decimal numbers, one or more,
each of them followed by a unit. -/
inductive Duration : Bytes → ℚ → Prop where
  | single {n unit : Bytes} {v : ℚ} {ns : Nat} (number : Decimal n v)
      (known : (unit, ns) ∈ durationUnits) : Duration (n ++ unit) (v * ns)
  | cons {n unit s : Bytes} {v t : ℚ} {ns : Nat} (number : Decimal n v)
      (known : (unit, ns) ∈ durationUnits) (rest : Duration s t) :
      Duration (n ++ (unit ++ s)) (v * ns + t)

/-- What the comment promises of a text: only a text of the grammar is
accepted, and one that is clearly in range is. -/
def Documented (s : Bytes) : Prop :=
  ∀ out, ((∃ n, parseDuration s out = some (true, n)) → ∃ t, Duration s t) ∧
    ∀ t, Duration s t → t ≤ 9 * 10 ^ 18 → ∃ n, parseDuration s out = some (true, n)

/-! ## §3. Units. -/

theorem durationUnits_letters : ∀ p ∈ durationUnits, ∀ c ∈ p.1, isAlpha c = true := by
  have hall : (durationUnits.all fun p => p.1.all isAlpha) = true := by decide
  intro p hp
  exact List.all_eq_true.mp (List.all_eq_true.mp hall p hp)

theorem timeUnits_sound : ∀ u ∈ timeUnits, (u.text, u.ns) ∈ durationUnits := by
  decide

/-- A unit that no letter follows. -/
theorem begins_iff {a p : Bytes} :
    (a.isPrefixOf p && (p.drop a.length).head?.all fun c => !isAlpha c) = true ↔
      ∃ t, p = a ++ t ∧ Stops isAlpha t := by
  rw [Bool.and_eq_true, List.isPrefixOf_iff_prefix]
  constructor
  · intro h
    obtain ⟨⟨t, rfl⟩, hnext⟩ := h
    refine ⟨t, rfl, ?_⟩
    intro c u heq
    rw [heq, List.drop_left] at hnext
    simpa using hnext
  · intro h
    obtain ⟨t, rfl, hstop⟩ := h
    refine ⟨List.prefix_append a t, ?_⟩
    rw [List.drop_left]
    cases t with
    | nil => rfl
    | cons c u => simp [hstop c u rfl]

/-- A unit does not continue a number. -/
theorem durationUnits_stop {p : Bytes × Nat} (hp : p ∈ durationUnits) (s : Bytes) :
    Stops Strtod.continues (p.1 ++ s) := by
  have hhead : ∀ p ∈ durationUnits, p.1.head?.map Strtod.continues = some false := by decide
  have h := hhead p hp
  cases hunit : p.1 with
  | nil =>
      rw [hunit] at h
      cases h
  | cons c u =>
      rw [hunit] at h
      exact CNumber.stops_cons (by simpa using h) (u ++ s)

/-- **A unit is found whole**: none of the table is a part of it, because a
letter would follow. -/
theorem unitAt_append {unit s : Bytes} {ns : Nat} (known : (unit, ns) ∈ durationUnits)
    (hs : Stops isAlpha s) : unitAt (unit ++ s) = some ⟨unit, ns⟩ := by
  have hfound : ∀ p ∈ durationUnits,
      (timeUnits.find? fun u => u.text = p.1) = some ⟨p.1, p.2⟩ := by
    decide
  have hletters := durationUnits_letters _ known
  have hwhole : ∀ u ∈ timeUnits,
      (u.text.isPrefixOf (unit ++ s) &&
        ((unit ++ s).drop u.text.length).head?.all fun c => !isAlpha c) =
      decide (u.text = unit) := by
    intro u hu
    rw [Bool.eq_iff_iff, begins_iff, decide_eq_true_eq]
    constructor
    · intro h
      obtain ⟨t, heq, ht⟩ := h
      have hu' := durationUnits_letters _ (timeUnits_sound u hu)
      calc u.text = (u.text ++ t).takeWhile isAlpha := (CNumber.takeWhile_run hu' ht).symm
        _ = (unit ++ s).takeWhile isAlpha := by rw [heq]
        _ = unit := CNumber.takeWhile_run hletters hs
    · intro h
      exact ⟨s, by rw [h], hs⟩
  unfold unitAt
  rw [List.find?_congr hwhole]
  exact hfound _ known

theorem unitAt_spec {p : Bytes} {u : TimeUnit} (h : unitAt p = some u) :
    (u.text, u.ns) ∈ durationUnits ∧ p = u.text ++ p.drop u.text.length ∧
      Stops isAlpha (p.drop u.text.length) := by
  have hbegins := List.find?_some h
  obtain ⟨t, rfl, ht⟩ := begins_iff.mp hbegins
  rw [List.drop_left]
  exact ⟨timeUnits_sound u (List.mem_of_find?_eq_some h), rfl, ht⟩

/-! ## §4. What a text is read as. -/

/-- The turns of the loop. -/
def parts (p : Bytes) : Option (List Part) :=
  if p = [] then some []
  else
    match _h : part p with
    | none => none
    | some q => (parts q.rest).map (q :: ·)
  termination_by p.length
  decreasing_by exact part_rest _h

/-- The numbers and their units. -/
def terms (l : List Part) : List (ℚ × ℕ) := l.map fun q => (q.value, q.unit.ns)

theorem parts_nil : parts [] = some [] := by
  rw [parts, if_pos rfl]

theorem parts_of_ne {p : Bytes} (h : p ≠ []) :
    parts p = (part p).bind fun q => (parts q.rest).map (q :: ·) := by
  rw [parts, if_neg h]
  split
  · rename_i hnone
    rw [hnone]
    rfl
  · rename_i q hq
    rw [hq]
    rfl

theorem parts_cons {p : Bytes} {q : Part} {l : List Part} (hq : part p = some q)
    (hl : parts q.rest = some l) : parts p = some (q :: l) := by
  have hne : p ≠ [] := by
    intro hnil
    rw [hnil] at hq
    cases hq
  rw [parts_of_ne hne, hq, Option.bind_some, hl]
  rfl

theorem parts_eq_nil {p : Bytes} (h : parts p = some []) : p = [] := by
  by_contra hne
  rw [parts_of_ne hne, Option.bind_eq_some_iff] at h
  obtain ⟨q, -, hq⟩ := h
  obtain ⟨l, -, hl⟩ := Option.map_eq_some_iff.mp hq
  cases hl

theorem parseLoop_of_ne {p : Bytes} (h : p ≠ []) (total : Double) :
    parseLoop p total = (part p).bind fun q =>
      parseLoop q.rest (total.add ((Binary64.round q.value).mul (.fin q.unit.ns))) := by
  rw [parseLoop, if_neg h]
  split
  · rename_i hnone
    rw [hnone]
    rfl
  · rename_i q hq
    rw [hq]
    rfl

/-- **The loop adds up what the text is read as.** -/
theorem parseLoop_eq (p : Bytes) :
    ∀ total, parseLoop p total = (parts p).map fun l => accumulate total (terms l) := by
  induction p using parts.induct with
  | case1 =>
      intro total
      rw [parseLoop, if_pos rfl, parts_nil]
      rfl
  | case2 p hne hnone =>
      intro total
      rw [parseLoop_of_ne hne, parts_of_ne hne, hnone]
      rfl
  | case3 p hne q hq ih =>
      intro total
      rw [parseLoop_of_ne hne, parts_of_ne hne, hq, Option.bind_some, Option.bind_some, ih,
        Option.map_map]
      rfl

/-- **What a turn takes.** -/
theorem part_eq_some {p : Bytes} {q : Part} :
    part p = some q ↔ (∃ c u, p = c :: u ∧ (isDigit c = true ∨ c = 46)) ∧
      ∃ n u, Strtod.scan p = some n ∧ unitAt n.rest = some u ∧
        q = { form := n.form, value := n.value, unit := u,
              rest := n.rest.drop u.text.length } := by
  cases p with
  | nil => simp [part]
  | cons c t =>
      unfold part
      simp only
      by_cases hc : isDigit c = false ∧ c ≠ 46
      · rw [if_pos hc]
        simp [hc.1, hc.2]
      · have hfirst : ∃ c' u, c :: t = c' :: u ∧ (isDigit c' = true ∨ c' = 46) := by
          refine ⟨c, t, rfl, ?_⟩
          by_contra hno
          simp only [not_or, Bool.not_eq_true] at hno
          exact hc hno
        rw [if_neg hc]
        cases hscan : Strtod.scan (c :: t) with
        | none => simp
        | some n =>
            have hneg := Binary64.round_not_negative (Strtod.scan_nonneg hscan)
            simp only [if_neg hneg, Option.map_eq_some_iff]
            constructor
            · intro h
              obtain ⟨u, hunit, heq⟩ := h
              exact ⟨hfirst, n, u, rfl, hunit, heq.symm⟩
            · intro h
              obtain ⟨-, n', u, heq, hunit, hq⟩ := h
              cases heq
              exact ⟨u, hunit, hq.symm⟩

/-- What a turn says of the text, when its number is in decimal form. -/
theorem part_decimal {p : Bytes} {q : Part} (h : part p = some q) (hform : q.form = .decimal) :
    ∃ n, p = n ++ (q.unit.text ++ q.rest) ∧ Decimal n q.value ∧
      (q.unit.text, q.unit.ns) ∈ durationUnits := by
  obtain ⟨-, n, u, hscan, hunit, rfl⟩ := part_eq_some.mp h
  obtain ⟨form, value, rest⟩ := n
  cases hform
  obtain ⟨known, hrest, -⟩ := unitAt_spec hunit
  obtain ⟨number, heq, hnumber⟩ := Strtod.decimal_of_scan hscan
  exact ⟨number, by rw [heq]; exact congrArg _ hrest, hnumber, known⟩

/-- A decimal number and a unit are one turn. -/
theorem part_append {n unit s : Bytes} {v : ℚ} {ns : Nat} (number : Decimal n v)
    (known : (unit, ns) ∈ durationUnits) (hs : Stops isAlpha s) :
    part (n ++ (unit ++ s)) =
      some { form := .decimal, value := v, unit := ⟨unit, ns⟩, rest := s } := by
  apply part_eq_some.mpr
  refine ⟨?_, _, _, Strtod.scan_decimal number (durationUnits_stop known s),
    unitAt_append known hs, ?_⟩
  · cases hn : n with
    | nil => exact (Strtod.decimal_ne_nil number hn).elim
    | cons c t => exact ⟨c, _, rfl, Strtod.mem_decimal number c (by rw [hn]; simp)⟩
  · simp

/-! ## §5. The grammar is what is read in decimal form. -/

/-- All of the numbers are in decimal form. -/
def Plain (l : List Part) : Prop := ∀ q ∈ l, q.form = .decimal

instance (l : List Part) : Decidable (Plain l) :=
  inferInstanceAs (Decidable (∀ q ∈ l, q.form = .decimal))

/-- A duration begins with a digit or a point. -/
theorem duration_stop {s : Bytes} {t : ℚ} (h : Duration s t) : Stops isAlpha s := by
  have hnumber {n u : Bytes} {v : ℚ} (number : Decimal n v) : Stops isAlpha (n ++ u) := by
    cases hn : n with
    | nil => exact (Strtod.decimal_ne_nil number hn).elim
    | cons c m =>
        have hc := Strtod.mem_decimal number c (by rw [hn]; exact List.mem_cons_self)
        have hletter : isAlpha c = false := by
          rw [← Bool.not_eq_true]
          intro halpha
          rcases hc with hdigit | hpoint
          · rw [(CNumber.isAlpha_apart halpha).1] at hdigit
            cases hdigit
          · rw [hpoint] at halpha
            cases halpha
        exact CNumber.stops_cons hletter (m ++ u)
  cases h with
  | single number _ => exact hnumber number
  | cons number _ _ => exact hnumber number

/-- **A text of the grammar** is read in decimal form, for its exact number of
nanoseconds. -/
theorem parts_of_duration {s : Bytes} {t : ℚ} (h : Duration s t) :
    ∃ l, parts s = some l ∧ l ≠ [] ∧ Plain l ∧ exactSum (terms l) = t := by
  induction h with
  | @single n unit v ns number known =>
      have hread := parts_cons (part_append number known CNumber.stops_nil) parts_nil
      rw [List.append_nil] at hread
      refine ⟨_, hread, List.cons_ne_nil _ _, ?_, ?_⟩
      · intro q hq
        rw [List.mem_singleton] at hq
        rw [hq]
      · simp [terms, exactSum]
  | @cons n unit s v t ns number known rest ih =>
      obtain ⟨l, hl, -, hplain, hexact⟩ := ih
      have hread := parts_cons (part_append number known (duration_stop rest)) hl
      refine ⟨_, hread, List.cons_ne_nil _ _, ?_, ?_⟩
      · intro q hq
        rcases List.mem_cons.mp hq with heq | hin
        · rw [heq]
        · exact hplain q hin
      · show exactSum ((v, ns) :: terms l) = v * ns + t
        rw [Binary64.exactSum_cons, hexact]

/-- **What is read in decimal form** is a text of the grammar. -/
theorem duration_of_parts {s : Bytes} :
    ∀ {l : List Part}, parts s = some l → l ≠ [] → Plain l → Duration s (exactSum (terms l)) := by
  induction s using parts.induct with
  | case1 =>
      intro l hl hne
      rw [parts_nil] at hl
      cases hl
      exact (hne rfl).elim
  | case2 p hne hnone =>
      intro l hl
      rw [parts_of_ne hne, hnone] at hl
      cases hl
  | case3 p hne q hq ih =>
      intro l hl _ hplain
      rw [parts_of_ne hne, hq, Option.bind_some, Option.map_eq_some_iff] at hl
      obtain ⟨m, hm, rfl⟩ := hl
      obtain ⟨n, heq, number, known⟩ := part_decimal hq (hplain q List.mem_cons_self)
      show Duration p (exactSum ((q.value, q.unit.ns) :: terms m))
      rw [Binary64.exactSum_cons]
      cases m with
      | nil =>
          -- the last turn
          have hend : exactSum (terms []) = 0 := rfl
          rw [heq, parts_eq_nil hm, List.append_nil, hend, add_zero]
          exact .single number known
      | cons q' m =>
          have hrest := ih hm (List.cons_ne_nil q' m)
            fun r hr => hplain r (List.mem_cons_of_mem q hr)
          rw [heq]
          exact .cons number known hrest

/-- **The grammar is what is read in decimal form.** -/
theorem duration_iff {s : Bytes} {t : ℚ} :
    Duration s t ↔ ∃ l, parts s = some l ∧ l ≠ [] ∧ Plain l ∧ exactSum (terms l) = t := by
  constructor
  · exact parts_of_duration
  · intro h
    obtain ⟨l, hl, hne, hplain, rfl⟩ := h
    exact duration_of_parts hl hne hplain

/-! ## §6. What is accepted. -/

/-- The numbers, added up in doubles, are past the bound of the range check. -/
def OutOfRange (l : List Part) : Prop := (accumulate (.fin 0) (terms l)).Above durationLimit

instance (l : List Part) : Decidable (OutOfRange l) :=
  inferInstanceAs (Decidable ((accumulate (.fin 0) (terms l)).Above durationLimit))

theorem part_of_mem {s : Bytes} :
    ∀ {l : List Part}, parts s = some l → ∀ q ∈ l, ∃ p, part p = some q := by
  induction s using parts.induct with
  | case1 =>
      intro l hl q hq
      rw [parts_nil] at hl
      cases hl
      cases hq
  | case2 p hne hnone =>
      intro l hl
      rw [parts_of_ne hne, hnone] at hl
      cases hl
  | case3 p hne q hq ih =>
      intro l hl r hr
      rw [parts_of_ne hne, hq, Option.bind_some, Option.map_eq_some_iff] at hl
      obtain ⟨m, hm, rfl⟩ := hl
      rcases List.mem_cons.mp hr with heq | hin
      · exact ⟨p, by rw [heq]; exact hq⟩
      · exact ih hm r hin

/-- What is read is not negative, and is multiplied by a unit. -/
theorem terms_bounds {s : Bytes} {l : List Part} (hl : parts s = some l) :
    ∀ p ∈ terms l, 0 ≤ p.1 ∧ 1 ≤ p.2 ∧ p.2 ≤ 2 ^ 42 := by
  have hunits : ∀ p ∈ durationUnits, 1 ≤ p.2 ∧ p.2 ≤ 2 ^ 42 := by decide
  intro p hp
  obtain ⟨q, hq, rfl⟩ := List.mem_map.mp hp
  obtain ⟨r, hr⟩ := part_of_mem hl q hq
  obtain ⟨-, n, u, hscan, hunit, rfl⟩ := part_eq_some.mp hr
  exact ⟨Strtod.scan_nonneg hscan, hunits _ (unitAt_spec hunit).1⟩

/-- **What is in range** fits into the result. -/
theorem toInt64_of_in_range {x : Double} (hneg : ¬ x.Negative)
    (hrange : ¬ x.Above durationLimit) : ∃ n, x.toInt64 = some n := by
  cases x with
  | inf => exact (hrange trivial).elim
  | fin x =>
      have hlow : 0 ≤ x := not_lt.mp hneg
      have hhigh : x ≤ 92 * 10 ^ 17 := not_lt.mp hrange
      exact ⟨⌊x⌋, Double.toInt64_fin hlow (by linarith)⟩

/-- **What is accepted**: a text that is read to its end, for numbers that are
in range. -/
theorem parseDuration_accepts {s : Bytes} (hs : 0 ∉ s) (out : Int) :
    (∃ n, parseDuration s out = some (true, n)) ↔
      ∃ l, parts s = some l ∧ l ≠ [] ∧ ¬ OutOfRange l := by
  unfold parseDuration
  by_cases hempty : s = []
  · rw [if_pos hempty, hempty, parts_nil]
    simp
  · rw [if_neg hempty, CNumber.cString_eq hs, parseLoop_eq]
    cases hl : parts s with
    | none => simp
    | some l =>
        have hne : l ≠ [] := by
          intro hnil
          rw [hnil] at hl
          exact hempty (parts_eq_nil hl)
        show (∃ n, (if OutOfRange l then some (false, out)
          else (accumulate (.fin 0) (terms l)).toInt64.map fun n => (true, n)) = some (true, n)) ↔ _
        by_cases hrange : OutOfRange l
        · rw [if_pos hrange]
          simp [hrange]
        · have hneg : ¬ (accumulate (.fin 0) (terms l)).Negative :=
            Binary64.accumulate_not_negative (fun p hp => (terms_bounds hl p hp).1) (lt_irrefl 0)
          obtain ⟨n, hn⟩ := toInt64_of_in_range hneg hrange
          rw [if_neg hrange, hn]
          simp [hne, hrange]

/-- Up to `2 ^ 40` numbers, rounding does not reach from `9e18` to the bound. -/
theorem in_range_of_exact {s : Bytes} {l : List Part} (hl : parts s = some l)
    (hcount : l.length ≤ 2 ^ 40) (hexact : exactSum (terms l) ≤ 9 * 10 ^ 18) : ¬ OutOfRange l := by
  have hlength : ((terms l).length : ℚ) ≤ 2 ^ 40 := by
    unfold terms
    rw [List.length_map]
    exact_mod_cast hcount
  obtain ⟨y, hy, hnear⟩ := Binary64.accumulate_spec (terms_bounds hl) (le_refl 0) (by linarith)
  rw [abs_le] at hnear
  unfold OutOfRange
  rw [hy]
  show ¬ 92 * 10 ^ 17 < y
  linarith

/-- **What is clearly in range is accepted**, in whatever form it is written. -/
theorem parseDuration_of_exact {s : Bytes} {l : List Part} (hs : 0 ∉ s) (hl : parts s = some l)
    (hne : l ≠ []) (hcount : l.length ≤ 2 ^ 40) (hexact : exactSum (terms l) ≤ 9 * 10 ^ 18)
    (out : Int) : ∃ n, parseDuration s out = some (true, n) :=
  (parseDuration_accepts hs out).mpr ⟨l, hl, hne, in_range_of_exact hl hcount hexact⟩

/-- When what is read of a text is what the comment promises: numbers in
decimal form, as many as rounding cannot carry past the bound, or else
numbers that are refused for their sum. -/
def Harmless (l : List Part) : Prop :=
  if Plain l then
    l.length ≤ 2 ^ 40 ∨ 9 * 10 ^ 18 < exactSum (terms l) ∨ ¬ OutOfRange l
  else OutOfRange l

/-- Decimal numbers do no harm. -/
theorem harmless_of_plain {l : List Part} (hplain : Plain l) (hcount : l.length ≤ 2 ^ 40) :
    Harmless l := by
  unfold Harmless
  rw [if_pos hplain]
  exact .inl hcount

/-- **What is promised of a text holds of it** exactly when no number of it
has an exponent or a base, or its numbers are out of range. -/
theorem parseDuration_documented {s : Bytes} (hs : 0 ∉ s) :
    Documented s ↔ ∀ l, parts s = some l → Harmless l := by
  constructor
  · intro h l hl
    obtain ⟨honly, hevery⟩ := h 0
    rw [parseDuration_accepts hs] at honly
    unfold Harmless
    split
    · rename_i hplain
      by_cases hrange : OutOfRange l
      · by_cases hne : l = []
        · exact .inl (by rw [hne]; decide)
        · -- it is in the grammar and refused, so it is not clearly in range
          refine .inr (.inl (not_le.mp ?_))
          intro hexact
          have haccept := hevery _ (duration_of_parts hl hne hplain) hexact
          obtain ⟨m, hm, -, hin⟩ := (parseDuration_accepts hs 0).mp haccept
          rw [hl] at hm
          cases hm
          exact hin hrange
      · exact .inr (.inr hrange)
    · rename_i hplain
      by_contra hrange
      have hne : l ≠ [] := by
        intro hnil
        rw [hnil] at hplain
        exact hplain fun q hq => by cases hq
      obtain ⟨t, ht⟩ := honly ⟨l, hl, hne, hrange⟩
      obtain ⟨m, hm, -, hdecimal, -⟩ := duration_iff.mp ht
      rw [hl] at hm
      cases hm
      exact hplain hdecimal
  · intro h out
    constructor
    · intro haccept
      obtain ⟨l, hl, hne, hrange⟩ := (parseDuration_accepts hs out).mp haccept
      have hharmless := h l hl
      unfold Harmless at hharmless
      by_cases hplain : Plain l
      · exact ⟨_, duration_of_parts hl hne hplain⟩
      · rw [if_neg hplain] at hharmless
        exact (hrange hharmless).elim
    · intro t ht hexact
      obtain ⟨l, hl, hne, hplain, rfl⟩ := duration_iff.mp ht
      have hharmless := h l hl
      unfold Harmless at hharmless
      rw [if_pos hplain] at hharmless
      rcases hharmless with hcount | hfar | hrange
      · exact parseDuration_of_exact hs hl hne hcount hexact out
      · exact absurd hexact (not_le.mpr hfar)
      · exact (parseDuration_accepts hs out).mpr ⟨l, hl, hne, hrange⟩

/-- A text of two decimal numbers. -/
theorem parseDuration_documented_hours : Documented (text "1.5h30m") :=
  (parseDuration_documented (by decide)).mpr fun l hl => by
    have hread : parts (text "1.5h30m") =
        some [⟨.decimal, 3 / 2, ⟨text "h", 3600 * 10 ^ 9⟩, text "30m"⟩,
          ⟨.decimal, 30, ⟨text "m", 60 * 10 ^ 9⟩, []⟩] :=
      parts_cons (by decide +kernel) (parts_cons (by decide +kernel) parts_nil)
    rw [hread] at hl
    cases hl
    exact harmless_of_plain (by decide) (by decide)

/-- **An exponent is accepted**: `1e3s` is a thousand seconds. -/
theorem duration_exponent : ¬ ∀ s, 0 ∉ s → Documented s := by
  intro h
  have hread : parts (text "1e3s") =
      some [⟨.exponent, 1000, ⟨text "s", 10 ^ 9⟩, []⟩] :=
    parts_cons (by decide +kernel) parts_nil
  have hexact : exactSum (terms [⟨.exponent, 1000, ⟨text "s", 10 ^ 9⟩, []⟩]) ≤ 9 * 10 ^ 18 := by
    decide +kernel
  have hs : 0 ∉ text "1e3s" := by decide
  obtain ⟨t, ht⟩ := (h _ hs 0).1
    (parseDuration_of_exact hs hread (List.cons_ne_nil _ _) (by decide) hexact 0)
  obtain ⟨l, hl, -, hplain, -⟩ := duration_iff.mp ht
  rw [hread] at hl
  cases hl
  exact absurd hplain (by decide)

end ItbCpp.Loop
