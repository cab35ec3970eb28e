/-
  ItbCpp.Lib.Strtod
  ─────────────────
  **FLOATING NUMBERS AS THE C LIBRARY READS THEM.**

  What `strtod` takes off the front of a string that begins with a digit or
  a point, in the C locale: decimal digits around a point, an exponent of
  ten after them, or digits in base 16 behind a `0x` with an exponent of two
  after them.  The value is the exact one, before it is rounded to a double.

    • `scan_decimal` — a decimal number that nothing continues is read whole,
    • `decimal_of_scan` — a number that was read in decimal form is one,
    • `scan_rest`, `scan_nonneg` — a number is not empty, nor is it negative.

  Nothing here is about a particular program.
-/
import ItbCpp.Lib.CNumber
import Mathlib.Algebra.Order.Field.Power
import Mathlib.Algebra.Order.Field.Rat
import Mathlib.Tactic.Positivity

namespace Strtod

open CNumber (isDigit sign value Stops)

/-! ## §1. The scan. -/

/-- How a number is written. -/
inductive Form where
  | decimal
  | exponent
  | hex
  deriving DecidableEq

/-- A number that has been read: its form, its value and what is left. -/
structure Number where
  form : Form
  value : ℚ
  rest : List UInt8
  deriving DecidableEq

/-- Digits before a point, digits after it, and what is left. -/
structure Mantissa where
  whole : List UInt8
  frac : List UInt8
  rest : List UInt8

/-- `isxdigit`. -/
def isXDigit (c : UInt8) : Bool := isDigit c || (65 ≤ c && c ≤ 70) || (97 ≤ c && c ≤ 102)

/-- What a run of digits in base 16 denotes. -/
def xvalue (ds : List UInt8) : Nat :=
  ds.foldl (fun n c => n * 16 +
    if isDigit c then c.toNat - 48 else if c ≤ 70 then c.toNat - 55 else c.toNat - 87) 0

/-- The digits at the front of `s`, with one point among them or none. -/
def mantissa (digit : UInt8 → Bool) (s : List UInt8) : Mantissa :=
  match s.dropWhile digit with
  | 46 :: t =>
      { whole := s.takeWhile digit, frac := t.takeWhile digit, rest := t.dropWhile digit }
  | t => { whole := s.takeWhile digit, frac := [], rest := t }

/-- An exponent, behind the letter `low` or `up`; nothing without digits. -/
def exponent (low up : UInt8) : List UInt8 → Option (Int × List UInt8)
  | [] => none
  | c :: t =>
      let digits := (sign t).2.takeWhile isDigit
      if (c ≠ low ∧ c ≠ up) ∨ digits = [] then none
      else some (if (sign t).1 then -(value digits : Int) else value digits,
        (sign t).2.dropWhile isDigit)

/-- How numbers are read in one base: its digits, the letter of the exponent
and what that counts. -/
structure Base where
  digit : UInt8 → Bool
  value : List UInt8 → Nat
  base : Nat
  low : UInt8
  up : UInt8
  scale : Nat
  plain : Form
  raised : Form

/-- Base 10. -/
def ten : Base :=
  { digit := isDigit, value := value, base := 10, low := 101, up := 69, scale := 10,
    plain := .decimal, raised := .exponent }

/-- Base 16. -/
def sixteen : Base :=
  { digit := isXDigit, value := xvalue, base := 16, low := 112, up := 80, scale := 2,
    plain := .hex, raised := .hex }

/-- What a mantissa denotes. -/
def Base.number (b : Base) (m : Mantissa) : ℚ :=
  b.value (m.whole ++ m.frac) / b.base ^ m.frac.length

/-- A number in one base; nothing without digits. -/
def scanBase (b : Base) (s : List UInt8) : Option Number :=
  let m := mantissa b.digit s
  if m.whole ++ m.frac = [] then none
  else
    match exponent b.low b.up m.rest with
    | some (k, rest) => some { form := b.raised, value := b.number m * b.scale ^ k, rest }
    | none => some { form := b.plain, value := b.number m, rest := m.rest }

/-- What is behind a `0x`. -/
def radix : List UInt8 → Option (List UInt8)
  | 48 :: c :: t => if c = 120 ∨ c = 88 then some t else none
  | _ => none

/-- What `strtod` reads: the number in base 16 that a `0x` begins, and else
the one in base 10, which can be the zero of a `0x` without digits. -/
def scan (s : List UInt8) : Option Number :=
  match (radix s).bind (scanBase sixteen) with
  | some n => some n
  | none => scanBase ten s

/-! ## §2. The mantissa. -/

section Mantissas

variable {digit : UInt8 → Bool} {s : List UInt8}

/-- **A mantissa** is digits, or digits around a point. -/
theorem mantissa_spec (digit : UInt8 → Bool) (s : List UInt8) :
    (∀ c ∈ (mantissa digit s).whole ++ (mantissa digit s).frac, digit c = true) ∧
      (s = (mantissa digit s).whole ++ (mantissa digit s).rest ∧ (mantissa digit s).frac = [] ∨
        s = (mantissa digit s).whole ++ 46 :: (mantissa digit s).frac ++
          (mantissa digit s).rest) := by
  have hsplit := List.takeWhile_append_dropWhile (p := digit) (l := s)
  unfold mantissa
  split
  · rename_i t heq
    refine ⟨?_, .inr ?_⟩
    · intro c hc
      rcases List.mem_append.mp hc with hwhole | hfrac
      · exact CNumber.mem_takeWhile hwhole
      · exact CNumber.mem_takeWhile hfrac
    · show s = s.takeWhile digit ++ 46 :: t.takeWhile digit ++ t.dropWhile digit
      rw [List.append_assoc, List.cons_append, List.takeWhile_append_dropWhile, ← heq, hsplit]
  · refine ⟨?_, .inl ⟨hsplit.symm, rfl⟩⟩
    intro c hc
    rw [List.append_nil] at hc
    exact CNumber.mem_takeWhile hc

/-- Digits that nothing continues. -/
theorem mantissa_whole {ds rest : List UInt8} (hds : ∀ c ∈ ds, digit c = true)
    (hstop : Stops digit rest) (hpoint : ∀ t, rest ≠ 46 :: t) :
    mantissa digit (ds ++ rest) = { whole := ds, frac := [], rest } := by
  unfold mantissa
  rw [CNumber.dropWhile_run hds hstop, CNumber.takeWhile_run hds hstop]
  split
  · exact (hpoint _ rfl).elim
  · rfl

/-- Digits around a point. -/
theorem mantissa_point (hpoint : digit 46 = false) {ds fs rest : List UInt8}
    (hds : ∀ c ∈ ds, digit c = true) (hfs : ∀ c ∈ fs, digit c = true)
    (hstop : Stops digit rest) :
    mantissa digit (ds ++ 46 :: (fs ++ rest)) = { whole := ds, frac := fs, rest } := by
  have hhead : Stops digit (46 :: (fs ++ rest)) := CNumber.stops_cons hpoint _
  unfold mantissa
  rw [CNumber.dropWhile_run hds hhead, CNumber.takeWhile_run hds hhead]
  show Mantissa.mk ds ((fs ++ rest).takeWhile digit) ((fs ++ rest).dropWhile digit) = _
  rw [CNumber.dropWhile_run hfs hstop, CNumber.takeWhile_run hfs hstop]

/-- What is left is shorter by the digits. -/
theorem mantissa_rest (digit : UInt8 → Bool) (s : List UInt8) :
    (mantissa digit s).rest.length +
      ((mantissa digit s).whole ++ (mantissa digit s).frac).length ≤ s.length := by
  have hspec := (mantissa_spec digit s).2
  rcases hspec with hwhole | hpoint
  · have hlength := congrArg List.length hwhole.1
    rw [hwhole.2]
    simp only [List.length_append, List.append_nil] at hlength ⊢
    omega
  · have hlength := congrArg List.length hpoint
    simp only [List.length_append, List.length_cons] at hlength ⊢
    omega

end Mantissas

/-! ## §3. What a scan leaves. -/

/-- An exponent is behind its letter. -/
theorem exponent_rest {low up : UInt8} {s rest : List UInt8} {k : Int}
    (h : exponent low up s = some (k, rest)) : rest.length ≤ s.length := by
  cases s with
  | nil => cases h
  | cons c t =>
      unfold exponent at h
      simp only at h
      split at h
      · cases h
      · cases h
        obtain ⟨sg, -, hsign⟩ := CNumber.sign_split t
        have hlength := congrArg List.length hsign
        have hdigits := List.length_dropWhile_le isDigit (sign t).2
        rw [List.length_append] at hlength
        rw [List.length_cons]
        omega

/-- **What is read in one base.** -/
theorem scanBase_eq_some {b : Base} {s : List UInt8} {n : Number} {m : Mantissa}
    (hm : mantissa b.digit s = m) :
    scanBase b s = some n ↔ m.whole ++ m.frac ≠ [] ∧
      ((∃ k rest, exponent b.low b.up m.rest = some (k, rest) ∧
          n = { form := b.raised, value := b.number m * b.scale ^ k, rest }) ∨
        exponent b.low b.up m.rest = none ∧
          n = { form := b.plain, value := b.number m, rest := m.rest }) := by
  unfold scanBase
  simp only [hm]
  by_cases hsome : m.whole ++ m.frac = []
  · simp [hsome]
  · rw [if_neg hsome]
    cases hexp : exponent b.low b.up m.rest with
    | none => simp [hsome, eq_comm]
    | some p =>
        obtain ⟨k, rest⟩ := p
        simp [hsome, eq_comm]

theorem scanBase_rest {b : Base} {s : List UInt8} {n : Number} (h : scanBase b s = some n) :
    n.rest.length < s.length := by
  have hmantissa := mantissa_rest b.digit s
  obtain ⟨hsome, hread⟩ := (scanBase_eq_some rfl).mp h
  have hpos := List.length_pos_iff.mpr hsome
  rcases hread with hraised | hplain
  · obtain ⟨k, rest, hexp, rfl⟩ := hraised
    have hrest := exponent_rest hexp
    show rest.length < s.length
    omega
  · obtain ⟨-, rfl⟩ := hplain
    show (mantissa b.digit s).rest.length < s.length
    omega

theorem Base.number_nonneg (b : Base) (m : Mantissa) : 0 ≤ b.number m := by
  unfold Base.number
  positivity

theorem scanBase_nonneg {b : Base} {s : List UInt8} {n : Number} (h : scanBase b s = some n) :
    0 ≤ n.value := by
  have hnumber := b.number_nonneg (mantissa b.digit s)
  obtain ⟨-, hread⟩ := (scanBase_eq_some rfl).mp h
  rcases hread with hraised | hplain
  · obtain ⟨k, rest, -, rfl⟩ := hraised
    show 0 ≤ b.number (mantissa b.digit s) * (b.scale : ℚ) ^ k
    positivity
  · obtain ⟨-, rfl⟩ := hplain
    exact hnumber

theorem radix_rest {s t : List UInt8} (h : radix s = some t) : t.length < s.length := by
  unfold radix at h
  split at h
  · split at h
    · cases h
      simp only [List.length_cons]
      omega
    · cases h
  · cases h

/-- What a scan reads, it reads in one of the bases. -/
theorem scan_cases {s : List UInt8} {n : Number} (h : scan s = some n) :
    (∃ t, radix s = some t ∧ scanBase sixteen t = some n) ∨ scanBase ten s = some n := by
  unfold scan at h
  split at h
  · rename_i m hhex
    cases h
    exact .inl (Option.bind_eq_some_iff.mp hhex)
  · exact .inr h

/-- **A number takes something.** -/
theorem scan_rest {s : List UInt8} {n : Number} (h : scan s = some n) :
    n.rest.length < s.length := by
  rcases scan_cases h with hhex | hten
  · obtain ⟨t, hradix, hn⟩ := hhex
    exact (scanBase_rest hn).trans (radix_rest hradix)
  · exact scanBase_rest hten

/-- **A number is not negative.** -/
theorem scan_nonneg {s : List UInt8} {n : Number} (h : scan s = some n) : 0 ≤ n.value := by
  rcases scan_cases h with hhex | hten
  · obtain ⟨t, -, hn⟩ := hhex
    exact scanBase_nonneg hn
  · exact scanBase_nonneg hten

/-! ## §4. Decimal numbers. -/

/-- A decimal number: digits, at least one of them, with an optional point. -/
inductive Decimal : List UInt8 → ℚ → Prop where
  | whole {ds : List UInt8} (some : ds ≠ []) (digit : ∀ c ∈ ds, isDigit c = true) :
      Decimal ds (value ds)
  | point {ds fs : List UInt8} (some : ds ++ fs ≠ [])
      (digit : ∀ c ∈ ds ++ fs, isDigit c = true) :
      Decimal (ds ++ 46 :: fs) (value (ds ++ fs) / 10 ^ fs.length)

/-- What would continue a decimal number, or change its base. -/
def continues (c : UInt8) : Bool :=
  isDigit c || c = 46 || c = 101 || c = 69 || c = 120 || c = 88

theorem exponent_eq_none {low up : UInt8} {s : List UInt8}
    (h : ∀ c t, s = c :: t → c ≠ low ∧ c ≠ up) : exponent low up s = none := by
  cases s with
  | nil => rfl
  | cons c t => exact if_pos (.inl (h c t rfl))

/-- A mantissa in base 10 that has no exponent. -/
theorem scanBase_plain {s : List UInt8} {m : Mantissa} (hm : mantissa isDigit s = m)
    (hsome : m.whole ++ m.frac ≠ []) (hrest : Stops continues m.rest) :
    scanBase ten s = some { form := .decimal, value := ten.number m, rest := m.rest } := by
  have hexp : exponent 101 69 m.rest = none := by
    apply exponent_eq_none
    intro c t heq
    have hc := hrest c t heq
    simp only [continues, Bool.or_eq_false_iff, decide_eq_false_iff_not] at hc
    exact ⟨hc.1.1.1.2, hc.1.1.2⟩
  exact (scanBase_eq_some hm).mpr ⟨hsome, .inr ⟨hexp, rfl⟩⟩

theorem decimal_ne_nil {n : List UInt8} {v : ℚ} (h : Decimal n v) : n ≠ [] := by
  cases h with
  | whole some _ => exact some
  | point some _ => simp

theorem mem_decimal {n : List UInt8} {v : ℚ} (h : Decimal n v) :
    ∀ c ∈ n, isDigit c = true ∨ c = 46 := by
  cases h with
  | whole some digit => exact fun c hc => .inl (digit c hc)
  | point some digit =>
      intro c hc
      simp only [List.mem_append, List.mem_cons] at hc
      rcases hc with hds | heq | hfs
      · exact .inl (digit c (List.mem_append_left _ hds))
      · exact .inr heq
      · exact .inl (digit c (List.mem_append_right _ hfs))

/-- Digits and a point do not begin a base. -/
theorem radix_decimal {n rest : List UInt8} {v : ℚ} (h : Decimal n v)
    (hrest : Stops continues rest) : radix (n ++ rest) = none := by
  unfold radix
  split
  · rename_i c t heq
    apply if_neg
    intro hletter
    have hc : isDigit c = false ∧ c ≠ 46 ∧ continues c = true := by
      rcases hletter with rfl | rfl <;> decide
    -- the letter is in the number, or it is what comes after its zero
    rcases List.append_eq_cons_iff.mp heq with hnil | hin
    · exact decimal_ne_nil h hnil.1
    · obtain ⟨n', hn, htail⟩ := hin
      rcases List.append_eq_cons_iff.mp htail.symm with hend | hnext
      · exact absurd (hrest c t hend.2) (by rw [hc.2.2]; decide)
      · obtain ⟨n'', hn', -⟩ := hnext
        have hmem := mem_decimal h c (by rw [hn, hn']; simp)
        rw [hc.1] at hmem
        rcases hmem with hdigit | hpoint
        · cases hdigit
        · exact hc.2.1 hpoint
  · rfl

/-- **A decimal number that nothing continues is read whole.** -/
theorem scan_decimal {n rest : List UInt8} {v : ℚ} (h : Decimal n v)
    (hrest : Stops continues rest) :
    scan (n ++ rest) = some { form := .decimal, value := v, rest } := by
  have hdigit : Stops isDigit rest := by
    intro c t heq
    have hc := hrest c t heq
    simp only [continues, Bool.or_eq_false_iff] at hc
    exact hc.1.1.1.1.1
  have hpoint : ∀ t, rest ≠ 46 :: t := by
    intro t heq
    exact absurd (hrest 46 t heq) (by decide)
  have hscan : scan (n ++ rest) = scanBase ten (n ++ rest) := by
    unfold scan
    rw [radix_decimal h hrest]
    rfl
  rw [hscan]
  cases h with
  | whole some digit =>
      have hnumber : ten.number { whole := n, frac := [], rest } = value n := by
        show (value (n ++ []) : ℚ) / (10 : ℕ) ^ 0 = value n
        rw [List.append_nil, pow_zero, div_one]
      rw [scanBase_plain (mantissa_whole digit hdigit hpoint)
        (by rw [List.append_nil]; exact some) hrest, hnumber]
  | @point ds fs some digit =>
      have hds : ∀ c ∈ ds, isDigit c = true := fun c hc => digit c (List.mem_append_left _ hc)
      have hfs : ∀ c ∈ fs, isDigit c = true := fun c hc => digit c (List.mem_append_right _ hc)
      rw [List.append_assoc, List.cons_append,
        scanBase_plain (mantissa_point (by decide) hds hfs hdigit) some hrest]
      rfl

/-- **A number in decimal form is a decimal number.** -/
theorem decimal_of_scan {s rest : List UInt8} {v : ℚ}
    (h : scan s = some { form := .decimal, value := v, rest }) :
    ∃ n, s = n ++ rest ∧ Decimal n v := by
  -- no other reading has the form
  obtain ⟨hsome, hread⟩ : (mantissa isDigit s).whole ++ (mantissa isDigit s).frac ≠ [] ∧
      v = ten.number (mantissa isDigit s) ∧ rest = (mantissa isDigit s).rest := by
    rcases scan_cases h with hhex | hten
    · obtain ⟨t, -, hn⟩ := hhex
      obtain ⟨-, hread⟩ := (scanBase_eq_some rfl).mp hn
      rcases hread with hraised | hplain
      · obtain ⟨k, u, -, heq⟩ := hraised
        cases heq
      · cases hplain.2
    · obtain ⟨hsome, hread⟩ := (scanBase_eq_some rfl).mp hten
      rcases hread with hraised | hplain
      · obtain ⟨k, u, -, heq⟩ := hraised
        cases heq
      · cases hplain.2
        exact ⟨hsome, rfl, rfl⟩
  obtain ⟨hdigit, hshape⟩ := mantissa_spec isDigit s
  obtain ⟨rfl, rfl⟩ := hread
  rcases hshape with hwhole | hpoint
  · obtain ⟨heq, hfrac⟩ := hwhole
    have hnumber : ten.number (mantissa isDigit s) = value (mantissa isDigit s).whole := by
      show (value ((mantissa isDigit s).whole ++ (mantissa isDigit s).frac) : ℚ) /
        (10 : ℕ) ^ (mantissa isDigit s).frac.length = _
      rw [hfrac, List.append_nil, List.length_nil, pow_zero, div_one]
    rw [hfrac, List.append_nil] at hsome hdigit
    refine ⟨_, heq, ?_⟩
    rw [hnumber]
    exact .whole hsome hdigit
  · exact ⟨_, hpoint, .point hsome hdigit⟩

end Strtod
