/-
  ItbCpp.Lib.Words
  ────────────────
  **MACHINE WORDS.**

  What unsigned arithmetic keeps and what it loses.

    • `wrapped_lt_iff` — the comparison that tells, after the fact, whether a
      sum has fit,
    • `xorShift_injective`, `mulUnit_injective` — the steps of a mixer that
      map no two words to one,
    • `leBytes_injective` — a word is the bytes it is stored as.

  Nothing here is about a particular program.
-/
import Mathlib.Data.Nat.Bitwise
import Mathlib.Data.List.Basic

namespace Words

/-! ## §1. Sums that may wrap. -/

section Wrapping

variable {m a b : Nat}

/-- **The reduced sum is below a summand exactly when the sum does not fit.** -/
theorem wrapped_lt_iff (ha : a < m) (hb : b < m) : (a + b) % m < a ↔ m ≤ a + b := by
  by_cases h : m ≤ a + b
  · have hmod : (a + b) % m = a + b - m := by
      rw [Nat.mod_eq_sub_mod h, Nat.mod_eq_of_lt (by omega)]
    rw [hmod]
    omega
  · rw [Nat.mod_eq_of_lt (by omega)]
    omega

end Wrapping

/-! ## §2. Mixing steps. -/

/-- A number that its own right shift leaves unchanged is 0. -/
theorem eq_zero_of_shift {d k : Nat} (hk : 0 < k) (h : d = d >>> k) : d = 0 := by
  have htwo : 2 ≤ 2 ^ k := by
    calc 2 = 2 ^ 1 := rfl
      _ ≤ 2 ^ k := Nat.pow_le_pow_right (by omega) hk
  rw [Nat.shiftRight_eq_div_pow] at h
  by_contra hne
  have hlt : d / 2 ^ k < d := Nat.div_lt_self (by omega) (by omega)
  omega

/-- **Folding a right shift into a number loses nothing.** -/
theorem xorShift_injective {k : Nat} (hk : 0 < k) :
    Function.Injective fun x : Nat => x ^^^ (x >>> k) := by
  intro x y h
  have h : x ^^^ (x >>> k) = y ^^^ (y >>> k) := h
  -- the difference of two such numbers is its own shift
  have hdiff : x ^^^ y = (x ^^^ y) >>> k := by
    calc x ^^^ y = (x ^^^ (x >>> k)) ^^^ (x >>> k) ^^^ y := by
          rw [Nat.xor_assoc x, Nat.xor_self, Nat.xor_zero]
      _ = (y ^^^ (y >>> k)) ^^^ (x >>> k) ^^^ y := by rw [h]
      _ = (y ^^^ y) ^^^ ((x >>> k) ^^^ (y >>> k)) := by ac_rfl
      _ = (x ^^^ y) >>> k := by
          rw [Nat.xor_self, Nat.zero_xor, Nat.shiftRight_xor_distrib]
  exact Nat.xor_eq_zero_iff.mp (eq_zero_of_shift hk hdiff)

/-- The same for a word. -/
theorem xorShift64_injective {k : UInt64} (hk : 0 < k.toNat % 64) :
    Function.Injective fun x : UInt64 => x ^^^ (x >>> k) := by
  intro x y h
  have hnat := congrArg UInt64.toNat h
  simp only [UInt64.toNat_xor, UInt64.toNat_shiftRight] at hnat
  exact UInt64.toNat_inj.mp (xorShift_injective hk hnat)

/-- Multiplying by a word that has an inverse loses nothing. -/
theorem mulUnit_injective {a b : UInt64} (h : a * b = 1) :
    Function.Injective fun x : UInt64 => x * a := by
  intro x y hxy
  have hxy : x * a = y * a := hxy
  calc x = x * (a * b) := by rw [h, UInt64.mul_one]
    _ = y * (a * b) := by rw [← UInt64.mul_assoc, hxy, UInt64.mul_assoc]
    _ = y := by rw [h, UInt64.mul_one]

/-! ## §3. Words in memory. -/

/-- The `n` low bytes of a number, lowest first. -/
def leBytes : Nat → Nat → List UInt8
  | 0, _ => []
  | n + 1, v => UInt8.ofNat v :: leBytes n (v / 256)

@[simp] theorem length_leBytes (n : Nat) : ∀ v, (leBytes n v).length = n := by
  induction n with
  | zero =>
      intro v
      rfl
  | succ n ih =>
      intro v
      show (leBytes n (v / 256)).length + 1 = n + 1
      rw [ih]

/-- **Numbers that fit are told apart by their bytes.** -/
theorem leBytes_injective (n : Nat) :
    ∀ v w, v < 256 ^ n → w < 256 ^ n → leBytes n v = leBytes n w → v = w := by
  induction n with
  | zero =>
      intro v w hv hw _
      simp only [pow_zero] at hv hw
      omega
  | succ n ih =>
      intro v w hv hw h
      unfold leBytes at h
      obtain ⟨hlow, hhigh⟩ := List.cons.inj h
      have hbyte : v % 256 = w % 256 := by
        have := congrArg UInt8.toNat hlow
        simpa using this
      have hrest : v / 256 = w / 256 := by
        rw [pow_succ] at hv hw
        exact ih _ _ (by omega) (by omega) hhigh
      omega

end Words
