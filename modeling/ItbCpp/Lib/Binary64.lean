/-
  ItbCpp.Lib.Binary64
  ───────────────────
  **DOUBLES THAT ARE NOT NEGATIVE.**

  IEEE binary64 with the default rounding, on values rather than on bits:
  a double is a rational or infinity, and an operation rounds the exact
  result to the nearest double, ties to even.  There is no negative double
  here, no NaN and no sign of zero.

    • `round_spec` — how far a rounded number is from the number,
    • `accumulate_not_negative` — a sum of products does not become negative,
    • `accumulate_spec` — how far a sum of products is from the exact one.

  Nothing here is about a particular program.
-/
import Mathlib.Data.Int.Log
import Mathlib.Data.Rat.Floor
import Mathlib.Algebra.Order.Field.Power
import Mathlib.Tactic.FieldSimp
import Mathlib.Tactic.Linarith
import Mathlib.Tactic.NormNum
import Mathlib.Tactic.Positivity

namespace Binary64

/-- A double: a number or infinity. -/
inductive Double where
  | fin (q : ℚ)
  | inf
  deriving DecidableEq

/-- `q < x`. -/
def Double.Above (q : ℚ) : Double → Prop
  | .fin x => q < x
  | .inf => True

instance (q : ℚ) : DecidablePred (Double.Above q)
  | .fin x => inferInstanceAs (Decidable (q < x))
  | .inf => .isTrue trivial

/-- `x < 0`. -/
def Double.Negative : Double → Prop
  | .fin x => x < 0
  | .inf => False

instance : DecidablePred Double.Negative
  | .fin x => inferInstanceAs (Decidable (x < 0))
  | .inf => .isFalse id

/-- The cast to `int64_t`, which drops the fraction; nothing when the number
does not fit, which C++ leaves undefined. -/
def Double.toInt64 : Double → Option Int
  | .fin x =>
      let n := if x < 0 then ⌈x⌉ else ⌊x⌋
      if -2 ^ 63 ≤ n ∧ n < 2 ^ 63 then some n else none
  | .inf => none

theorem Double.toInt64_fin {x : ℚ} (h : 0 ≤ x) (hx : x < 2 ^ 63) :
    (Double.fin x).toInt64 = some ⌊x⌋ := by
  have hfloor : 0 ≤ ⌊x⌋ := Int.floor_nonneg.mpr h
  have htop : ⌊x⌋ < 2 ^ 63 := by
    rw [Int.floor_lt]
    exact_mod_cast hx
  unfold Double.toInt64
  simp only [if_neg (not_lt.mpr h)]
  rw [if_pos (by omega)]

/-! ## §1. Rounding. -/

/-- The nearest whole number, the even one of two. -/
def roundEven (q : ℚ) : ℤ :=
  if q - ⌊q⌋ < 1 / 2 then ⌊q⌋
  else if 1 / 2 < q - ⌊q⌋ then ⌊q⌋ + 1
  else ⌊q⌋ + ⌊q⌋ % 2

/-- The exponent of the last of the 53 bits of `x`, which below the normal
numbers stays where it is. -/
def lastPlace (x : ℚ) : ℤ := max (Int.log 2 x - 52) (-1074)

/-- The double nearest to `x`; infinity from the halfway point after the
largest one on. -/
def round (x : ℚ) : Double :=
  let y := roundEven (x / 2 ^ lastPlace x) * (2 : ℚ) ^ lastPlace x
  if y < 2 ^ 1024 then .fin y else .inf

theorem abs_roundEven_sub_le (q : ℚ) : |(roundEven q : ℚ) - q| ≤ 1 / 2 := by
  have hlo := Int.floor_le q
  have hhi := Int.lt_floor_add_one q
  have hbit : (0 : ℚ) ≤ (⌊q⌋ % 2 : ℤ) ∧ ((⌊q⌋ % 2 : ℤ) : ℚ) ≤ 1 := by
    have hmod : 0 ≤ ⌊q⌋ % 2 ∧ ⌊q⌋ % 2 ≤ 1 := by omega
    exact_mod_cast hmod
  unfold roundEven
  rw [abs_le]
  split
  · constructor <;> linarith
  · split
    · push_cast
      constructor <;> linarith
    · push_cast at hbit ⊢
      constructor <;> linarith

theorem roundEven_intCast (n : ℤ) : roundEven (n : ℚ) = n := by
  unfold roundEven
  rw [Int.floor_intCast, sub_self, if_pos (by norm_num)]

theorem roundEven_nonneg {q : ℚ} (h : 0 ≤ q) : 0 ≤ roundEven q := by
  have hfloor : 0 ≤ ⌊q⌋ := Int.floor_nonneg.mpr h
  unfold roundEven
  split
  · exact hfloor
  · split <;> omega

theorem round_not_negative {x : ℚ} (h : 0 ≤ x) : ¬ (round x).Negative := by
  have hround := roundEven_nonneg (q := x / 2 ^ lastPlace x) (by positivity)
  have hcast : (0 : ℚ) ≤ roundEven (x / 2 ^ lastPlace x) := by exact_mod_cast hround
  unfold round
  simp only
  split
  · exact not_lt.mpr (by positivity)
  · exact id

/-- Half the smallest double. -/
def halfLeast : ℚ := 2 ^ (-1075 : ℤ)

theorem halfLeast_nonneg : 0 ≤ halfLeast := by
  unfold halfLeast
  positivity

theorem halfLeast_le : halfLeast ≤ 1 / 2 ^ 64 := by
  calc (2 : ℚ) ^ (-1075 : ℤ) ≤ 2 ^ (-64 : ℤ) := zpow_le_zpow_right₀ one_le_two (by omega)
    _ = 1 / 2 ^ 64 := by norm_num

/-- Half a unit in the last place of `x` is at most `x` cut by 53 bits, or
the same for all of the smallest numbers. -/
theorem half_place_le {x : ℚ} (h : 0 < x) :
    (2 : ℚ) ^ lastPlace x / 2 ≤ x / 2 ^ 53 + halfLeast := by
  have hcut : 0 ≤ x / 2 ^ 53 := by positivity
  have hleast := halfLeast_nonneg
  have hhalf (e : ℤ) : (2 : ℚ) ^ e / 2 = 2 ^ (e - 1) := by
    rw [zpow_sub₀ two_ne_zero, zpow_one]
  unfold lastPlace
  rw [hhalf]
  rcases le_total (Int.log 2 x - 52) (-1074) with hsmall | hnormal
  · rw [max_eq_right hsmall, show (-1074 - 1 : ℤ) = -1075 by omega]
    show halfLeast ≤ x / 2 ^ 53 + halfLeast
    linarith
  · rw [max_eq_left hnormal]
    have hlog : (2 : ℚ) ^ Int.log 2 x ≤ x := Int.zpow_log_le_self one_lt_two h
    have hplace : (2 : ℚ) ^ (Int.log 2 x - 52 - 1) = 2 ^ Int.log 2 x / 2 ^ 53 := by
      rw [show Int.log 2 x - 52 - 1 = Int.log 2 x - (53 : ℕ) by omega, zpow_sub₀ two_ne_zero,
        zpow_natCast]
    have hscale : (2 : ℚ) ^ Int.log 2 x / 2 ^ 53 ≤ x / 2 ^ 53 := by gcongr
    rw [hplace]
    linarith

/-- **What rounding costs**: half a unit in the last place. -/
theorem round_spec {x : ℚ} (h : 0 ≤ x) (hx : x ≤ 2 ^ 200) :
    ∃ y, round x = .fin y ∧ 0 ≤ y ∧ |y - x| ≤ x / 2 ^ 53 + halfLeast := by
  have hplace : (0 : ℚ) < 2 ^ lastPlace x := by positivity
  have hnonneg : 0 ≤ (roundEven (x / 2 ^ lastPlace x) : ℚ) * 2 ^ lastPlace x := by
    have hround := roundEven_nonneg (div_nonneg h hplace.le)
    have hcast : (0 : ℚ) ≤ roundEven (x / 2 ^ lastPlace x) := by exact_mod_cast hround
    positivity
  have hnear : |(roundEven (x / 2 ^ lastPlace x) : ℚ) * 2 ^ lastPlace x - x| ≤
      x / 2 ^ 53 + halfLeast := by
    rcases eq_or_lt_of_le h with hzero | hpos
    · -- zero is a double
      have hround : roundEven (0 : ℚ) = 0 := roundEven_intCast 0
      have hleast := halfLeast_nonneg
      rw [← hzero, zero_div, hround]
      norm_num
      exact hleast
    · calc |(roundEven (x / 2 ^ lastPlace x) : ℚ) * 2 ^ lastPlace x - x|
          = |(roundEven (x / 2 ^ lastPlace x) : ℚ) - x / 2 ^ lastPlace x| * 2 ^ lastPlace x := by
            have hmul := abs_mul (roundEven (x / 2 ^ lastPlace x) - x / 2 ^ lastPlace x)
              (2 ^ lastPlace x)
            rw [abs_of_pos hplace, sub_mul, div_mul_cancel₀ x hplace.ne'] at hmul
            exact hmul
        _ ≤ 1 / 2 * 2 ^ lastPlace x := by
            have hhalf := abs_roundEven_sub_le (x / 2 ^ lastPlace x)
            gcongr
        _ = 2 ^ lastPlace x / 2 := by ring
        _ ≤ x / 2 ^ 53 + halfLeast := half_place_le hpos
  -- far from the largest double
  have hfinite : (roundEven (x / 2 ^ lastPlace x) : ℚ) * 2 ^ lastPlace x < 2 ^ 1024 := by
    have habove := (abs_le.mp hnear).2
    have hcut : x / 2 ^ 53 ≤ x := div_le_self h (by norm_num)
    have hleast := halfLeast_le
    calc (roundEven (x / 2 ^ lastPlace x) : ℚ) * 2 ^ lastPlace x
        < 2 ^ 202 := by linarith
      _ ≤ 2 ^ 1024 := pow_le_pow_right₀ one_le_two (by omega)
  exact ⟨_, if_pos hfinite, hnonneg, hnear⟩

/-! ## §2. Sums of products. -/

/-- `a + b`. -/
def Double.add : Double → Double → Double
  | .fin a, .fin b => round (a + b)
  | _, _ => .inf

/-- `a * b`, where no infinite factor meets a zero. -/
def Double.mul : Double → Double → Double
  | .fin a, .fin b => round (a * b)
  | _, _ => .inf

/-- What a loop comes to that adds to `total` one number after the other,
each of them times its factor. -/
def accumulate (total : Double) (l : List (ℚ × ℕ)) : Double :=
  l.foldl (fun total p => total.add ((round p.1).mul (.fin p.2))) total

/-- The exact sum. -/
def exactSum (l : List (ℚ × ℕ)) : ℚ := (l.map fun p => p.1 * (p.2 : ℚ)).sum

theorem exactSum_cons (p : ℚ × ℕ) (l : List (ℚ × ℕ)) : exactSum (p :: l) = p.1 * p.2 + exactSum l :=
  List.sum_cons

theorem exactSum_nonneg {l : List (ℚ × ℕ)} (h : ∀ p ∈ l, 0 ≤ p.1) : 0 ≤ exactSum l := by
  unfold exactSum
  apply List.sum_nonneg
  intro x hx
  obtain ⟨p, hp, rfl⟩ := List.mem_map.mp hx
  have hvalue := h p hp
  positivity

theorem Double.add_not_negative {a b : Double} (ha : ¬ a.Negative) (hb : ¬ b.Negative) :
    ¬ (a.add b).Negative := by
  cases a with
  | inf => exact id
  | fin a =>
      cases b with
      | inf => exact id
      | fin b => exact round_not_negative (add_nonneg (not_lt.mp ha) (not_lt.mp hb))

theorem Double.mul_not_negative {a b : Double} (ha : ¬ a.Negative) (hb : ¬ b.Negative) :
    ¬ (a.mul b).Negative := by
  cases a with
  | inf => exact id
  | fin a =>
      cases b with
      | inf => exact id
      | fin b => exact round_not_negative (mul_nonneg (not_lt.mp ha) (not_lt.mp hb))

theorem accumulate_not_negative {l : List (ℚ × ℕ)} (hl : ∀ p ∈ l, 0 ≤ p.1) :
    ∀ {total : Double}, ¬ total.Negative → ¬ (accumulate total l).Negative := by
  induction l with
  | nil => exact fun h => h
  | cons p l ih =>
      intro total htotal
      have hread : ¬ (round p.1).Negative := round_not_negative (hl p List.mem_cons_self)
      have hfactor : ¬ (Double.fin p.2).Negative := not_lt.mpr (Nat.cast_nonneg p.2)
      exact ih (fun q hq => hl q (List.mem_cons_of_mem p hq))
        (Double.add_not_negative htotal (Double.mul_not_negative hread hfactor))

/-- **What one step costs**, below `2 ^ 63`: a number is rounded when it is
read, when it is multiplied and when it is added. -/
theorem accumulate_step {t v : ℚ} {m : ℕ} (ht : 0 ≤ t) (hv : 0 ≤ v) (hm : 1 ≤ m ∧ m ≤ 2 ^ 42)
    (hsum : t + v * m ≤ 2 ^ 63) :
    ∃ y, (Double.fin t).add ((round v).mul (.fin m)) = .fin y ∧ 0 ≤ y ∧
      |y - (t + v * m)| ≤ 2 ^ 12 := by
  have hfactor : (1 : ℚ) ≤ m ∧ (m : ℚ) ≤ 2 ^ 42 := by exact_mod_cast hm
  have hvalue : v ≤ v * m := le_mul_of_one_le_right hv hfactor.1
  have hleast := halfLeast_le
  have hscaled : halfLeast * m ≤ 1 := by
    calc halfLeast * m ≤ 1 / 2 ^ 64 * 2 ^ 42 :=
          mul_le_mul hleast hfactor.2 (Nat.cast_nonneg m) (by norm_num)
      _ ≤ 1 := by norm_num
  obtain ⟨a, hread, ha, hanear⟩ := round_spec hv (by linarith)
  have hproduct : |a * m - v * m| ≤ v * m / 2 ^ 53 + halfLeast * m := by
    calc |a * m - v * m| = |a - v| * m := by
          rw [← sub_mul, abs_mul, Nat.abs_cast]
      _ ≤ (v / 2 ^ 53 + halfLeast) * m := mul_le_mul_of_nonneg_right hanear (Nat.cast_nonneg m)
      _ = v * m / 2 ^ 53 + halfLeast * m := by ring
  rw [abs_le] at hproduct
  obtain ⟨b, hscale, hb, hbnear⟩ := round_spec (x := a * m) (by positivity) (by linarith)
  rw [abs_le] at hbnear
  obtain ⟨y, hadd, hy, hynear⟩ := round_spec (x := t + b) (by linarith) (by linarith)
  rw [abs_le] at hynear
  refine ⟨y, ?_, hy, ?_⟩
  · rw [hread]
    show (Double.fin t).add (round (a * m)) = _
    rw [hscale]
    exact hadd
  · rw [abs_le]
    constructor <;> linarith

/-- **What a whole sum costs.** -/
theorem accumulate_spec {l : List (ℚ × ℕ)} (hl : ∀ p ∈ l, 0 ≤ p.1 ∧ 1 ≤ p.2 ∧ p.2 ≤ 2 ^ 42) :
    ∀ {t : ℚ}, 0 ≤ t → t + exactSum l + 2 ^ 12 * l.length ≤ 2 ^ 63 →
      ∃ y, accumulate (.fin t) l = .fin y ∧ |y - (t + exactSum l)| ≤ 2 ^ 12 * l.length := by
  induction l with
  | nil =>
      intro t _ _
      refine ⟨t, rfl, ?_⟩
      simp [exactSum]
  | cons p l ih =>
      intro t ht hsum
      obtain ⟨hv, hm⟩ := hl p List.mem_cons_self
      have hrest : ∀ q ∈ l, 0 ≤ q.1 ∧ 1 ≤ q.2 ∧ q.2 ≤ 2 ^ 42 :=
        fun q hq => hl q (List.mem_cons_of_mem p hq)
      have hnonneg : 0 ≤ exactSum l := exactSum_nonneg fun q hq => (hrest q hq).1
      have hlength : (0 : ℚ) ≤ l.length := Nat.cast_nonneg _
      rw [exactSum_cons, List.length_cons, Nat.cast_succ] at hsum
      obtain ⟨t', hstep, ht', hnear⟩ := accumulate_step ht hv hm (by linarith)
      rw [abs_le] at hnear
      obtain ⟨y, hrun, hy⟩ := ih hrest ht' (by linarith)
      refine ⟨y, ?_, ?_⟩
      · show accumulate ((Double.fin t).add ((round p.1).mul (.fin p.2))) l = _
        rw [hstep, hrun]
      · rw [abs_le] at hy ⊢
        rw [exactSum_cons, List.length_cons, Nat.cast_succ]
        constructor <;> linarith

/-! ## §3. What is a double already. -/

/-- Rounding leaves the number as it is. -/
def IsDouble (x : ℚ) : Prop := round x = .fin x

instance (x : ℚ) : Decidable (IsDouble x) := inferInstanceAs (Decidable (round x = .fin x))

/-- Fewer than 53 bits, from the least place of a double on. -/
theorem isDouble_of_lt {m : ℕ} {e : ℤ} (hm : m < 2 ^ 53) (he : -1074 ≤ e)
    (hfin : (m : ℚ) * 2 ^ e < 2 ^ 1024) : IsDouble (m * 2 ^ e) := by
  have hplace : lastPlace (m * 2 ^ e) ≤ e ∨ m = 0 := by
    by_cases hzero : m = 0
    · exact Or.inr hzero
    · left
      have hpos : (0 : ℚ) < m * 2 ^ e := by
        have hm : (0 : ℚ) < m := by exact_mod_cast Nat.pos_of_ne_zero hzero
        positivity
      have htop : (m : ℚ) * 2 ^ e < 2 ^ (53 + e) := by
        have hcast : (m : ℚ) < 2 ^ (53 : ℤ) := by exact_mod_cast hm
        rw [zpow_add₀ two_ne_zero]
        exact mul_lt_mul_of_pos_right hcast (by positivity)
      have hlog : Int.log 2 ((m : ℚ) * 2 ^ e) < 53 + e :=
        (Int.lt_zpow_iff_log_lt one_lt_two hpos).mp (by exact_mod_cast htop)
      unfold lastPlace
      omega
  unfold IsDouble round
  generalize lastPlace (m * 2 ^ e) = p at hplace
  have hround : (roundEven ((m : ℚ) * 2 ^ e / 2 ^ p) : ℚ) * 2 ^ p = m * 2 ^ e := by
    rcases hplace with hle | rfl
    · -- a whole number of last places
      obtain ⟨k, hk⟩ := Int.eq_ofNat_of_zero_le (sub_nonneg.mpr hle)
      have hwhole : (m : ℚ) * 2 ^ e / 2 ^ p = ((m * 2 ^ k : ℕ) : ℤ) := by
        rw [mul_div_assoc, ← zpow_sub₀ two_ne_zero, hk]
        push_cast
        rfl
      rw [hwhole, roundEven_intCast, ← hwhole]
      field_simp
    · have hzero : roundEven (0 : ℚ) = 0 := roundEven_intCast 0
      simp [hzero]
  simp only [hround]
  rw [if_pos hfin]

/-- The one number more that 53 bits of the next place write. -/
theorem isDouble_of_le {m : ℕ} {e : ℤ} (hm : m ≤ 2 ^ 53) (he : -1074 ≤ e)
    (hfin : (m : ℚ) * 2 ^ e < 2 ^ 1024) : IsDouble (m * 2 ^ e) := by
  rcases Nat.lt_or_eq_of_le hm with hlt | rfl
  · exact isDouble_of_lt hlt he hfin
  · have hnext : ((2 ^ 53 : ℕ) : ℚ) * 2 ^ e = ((2 ^ 52 : ℕ) : ℚ) * 2 ^ (e + 1) := by
      rw [zpow_add₀ two_ne_zero]
      push_cast
      ring
    rw [hnext] at hfin ⊢
    exact isDouble_of_lt (by norm_num) (by omega) hfin

/-- What rounding comes to: so many last places, no more than `2 ^ 53`. -/
theorem round_places {q x : ℚ} (hq : 0 ≤ q) (h : round q = .fin x) :
    ∃ (m : ℕ) (e : ℤ), m ≤ 2 ^ 53 ∧ -1074 ≤ e ∧ x = m * 2 ^ e ∧ x < 2 ^ 1024 := by
  have hnonneg : 0 ≤ roundEven (q / 2 ^ lastPlace q) := roundEven_nonneg (by positivity)
  obtain ⟨m, hm⟩ := Int.eq_ofNat_of_zero_le hnonneg
  unfold round at h
  simp only [hm] at h
  split at h
  · rename_i hlt
    cases h
    refine ⟨m, lastPlace q, ?_, le_max_right _ _, by push_cast; rfl, hlt⟩
    -- a number has fewer than 53 bits above its last place
    have hlt : q / 2 ^ lastPlace q < 2 ^ 53 := by
      have hlog : q < 2 ^ (Int.log 2 q + 1) := by
        have hself := Int.lt_zpow_succ_log_self one_lt_two q
        exact_mod_cast hself
      have hplace : Int.log 2 q - 52 ≤ lastPlace q := le_max_left _ _
      rw [div_lt_iff₀ (by positivity), ← zpow_natCast, ← zpow_add₀ two_ne_zero]
      refine lt_of_lt_of_le hlog (zpow_le_zpow_right₀ one_le_two ?_)
      push_cast
      omega
    have hfloor : ⌊q / 2 ^ lastPlace q⌋ < 2 ^ 53 := by
      rw [Int.floor_lt]
      exact_mod_cast hlt
    have hround : roundEven (q / 2 ^ lastPlace q) ≤ ⌊q / 2 ^ lastPlace q⌋ + 1 := by
      unfold roundEven
      split
      · omega
      · split <;> omega
    omega
  · cases h

/-- The whole part of a double is one. -/
theorem isDouble_floor {q x : ℚ} (hq : 0 ≤ q) (h : round q = .fin x) : IsDouble ⌊x⌋ := by
  obtain ⟨m, e, hm, he, rfl, hfin⟩ := round_places hq h
  by_cases hwhole : 0 ≤ e
  · obtain ⟨k, rfl⟩ := Int.eq_ofNat_of_zero_le hwhole
    have hfloor : ⌊(m : ℚ) * 2 ^ (k : ℤ)⌋ = ((m * 2 ^ k : ℕ) : ℤ) := by
      rw [← Int.floor_natCast (R := ℚ) (m * 2 ^ k)]
      push_cast
      rfl
    have hsame : ((⌊(m : ℚ) * 2 ^ (k : ℤ)⌋ : ℤ) : ℚ) = m * 2 ^ (k : ℤ) := by
      rw [hfloor]
      push_cast
      rfl
    rw [hsame]
    exact isDouble_of_le hm he hfin
  · have hnonneg : 0 ≤ ⌊(m : ℚ) * 2 ^ e⌋ :=
      Int.floor_nonneg.mpr (mul_nonneg (Nat.cast_nonneg m) (zpow_nonneg zero_le_two e))
    obtain ⟨n, hn⟩ := Int.eq_ofNat_of_zero_le hnonneg
    have hsmall : (m : ℚ) * 2 ^ e ≤ m := by
      have hone : (2 : ℚ) ^ e ≤ 1 := zpow_le_one_of_nonpos₀ one_le_two (by omega)
      have hm : (0 : ℚ) ≤ m := Nat.cast_nonneg m
      nlinarith
    have hle : (n : ℚ) ≤ m := by
      have hfloor := Int.floor_le ((m : ℚ) * 2 ^ e)
      rw [hn] at hfloor
      push_cast at hfloor
      linarith
    have hn53 : n ≤ 2 ^ 53 := le_trans (by exact_mod_cast hle) hm
    rw [hn]
    have hdouble : IsDouble ((n : ℚ) * 2 ^ (0 : ℤ)) := by
      refine isDouble_of_le hn53 (by omega) ?_
      have hcast : (n : ℚ) ≤ 2 ^ 53 := by exact_mod_cast hn53
      rw [zpow_zero, mul_one]
      exact lt_of_le_of_lt hcast (pow_lt_pow_right₀ one_lt_two (by omega))
    rw [zpow_zero, mul_one] at hdouble
    exact hdouble

/-- A sum of products is a double, or infinity. -/
theorem accumulate_rounded {l : List (ℚ × ℕ)} (hl : ∀ p ∈ l, 0 ≤ p.1) :
    ∀ {total : Double}, (∀ x, total = .fin x → ∃ q, 0 ≤ q ∧ round q = .fin x) →
      ∀ x, accumulate total l = .fin x → ∃ q, 0 ≤ q ∧ round q = .fin x := by
  induction l with
  | nil => exact fun h => h
  | cons p l ih =>
      intro total htotal
      refine ih (fun q hq => hl q (List.mem_cons_of_mem p hq)) fun x hx => ?_
      change total.add ((round p.1).mul (.fin p.2)) = .fin x at hx
      have hread : ¬ (round p.1).Negative := round_not_negative (hl p List.mem_cons_self)
      have hproduct : ¬ ((round p.1).mul (.fin p.2)).Negative :=
        Double.mul_not_negative hread (not_lt.mpr (Nat.cast_nonneg p.2))
      cases htot : total with
      | inf =>
          rw [htot] at hx
          cases hx
      | fin t =>
          obtain ⟨q, hq, hround⟩ := htotal t htot
          have ht : 0 ≤ t := by
            have hneg := round_not_negative hq
            rw [hround] at hneg
            exact not_lt.mp hneg
          cases hmul : (round p.1).mul (.fin p.2) with
          | inf =>
              rw [htot, hmul] at hx
              cases hx
          | fin b =>
              rw [hmul] at hproduct
              rw [htot, hmul] at hx
              exact ⟨t + b, add_nonneg ht (not_lt.mp hproduct), hx⟩

end Binary64
