/-
  ItbCpp.Lib.Hex
  ──────────────
  **BYTES IN HEXADECIMAL.**

  Two digits a byte: printed in lower case, read in either case.

    • `encode_cons_ne` — bytes that begin differently have different texts,
    • `decode_encode` — what was printed reads back,
    • `decode_eq_some_iff` — what reads is an even number of digits,
    • `encode_of_decode` — and prints as itself in lower case.

  Nothing here is about a particular program.
-/
import Mathlib.Data.List.Basic

namespace Hex

/-! ## §1. Digits. -/

/-- A hexadecimal digit of either case. -/
def isDigit (c : UInt8) : Bool :=
  (48 ≤ c && c ≤ 57) || (97 ≤ c && c ≤ 102) || (65 ≤ c && c ≤ 70)

/-- `tolower`. -/
def toLower (c : UInt8) : UInt8 := if 65 ≤ c && c ≤ 90 then c + 32 else c

/-- The lower-case digit of a value below 16. -/
def digit (v : UInt8) : UInt8 := if v < 10 then 48 + v else 87 + v

/-- The value of a digit. -/
def digitValue (c : UInt8) : UInt8 :=
  if 48 ≤ c && c ≤ 57 then c - 48 else if 97 ≤ c && c ≤ 102 then c - 87 else c - 55

/-- What `%02x` prints. -/
def byte (b : UInt8) : List UInt8 := [digit (b >>> 4), digit (b &&& 15)]

/-- The digits of a byte are read back. -/
theorem digits_byte (b : UInt8) :
    isDigit (digit (b >>> 4)) = true ∧ isDigit (digit (b &&& 15)) = true ∧
      digitValue (digit (b >>> 4)) <<< 4 ||| digitValue (digit (b &&& 15)) = b := by
  have all : ∀ n : Fin 256,
      isDigit (digit (UInt8.ofFin n >>> 4)) = true ∧
        isDigit (digit (UInt8.ofFin n &&& 15)) = true ∧
        digitValue (digit (UInt8.ofFin n >>> 4)) <<< 4 |||
          digitValue (digit (UInt8.ofFin n &&& 15)) = UInt8.ofFin n := by decide +kernel
  exact all b.toFin

/-- A digit that is read is below 16, and is printed in lower case. -/
theorem digit_digitValue {c : UInt8} (h : isDigit c = true) :
    digitValue c < 16 ∧ digit (digitValue c) = toLower c := by
  have all : ∀ n : Fin 256, isDigit (UInt8.ofFin n) = true →
      digitValue (UInt8.ofFin n) < 16 ∧
        digit (digitValue (UInt8.ofFin n)) = toLower (UInt8.ofFin n) := by decide +kernel
  exact all c.toFin h

/-- Two values below 16 are the halves of a byte. -/
theorem halves {x y : UInt8} (hx : x < 16) (hy : y < 16) :
    (x <<< 4 ||| y) >>> 4 = x ∧ (x <<< 4 ||| y) &&& 15 = y := by
  have all : ∀ m n : Fin 16,
      (UInt8.ofNat m <<< 4 ||| UInt8.ofNat n) >>> 4 = UInt8.ofNat m ∧
        (UInt8.ofNat m <<< 4 ||| UInt8.ofNat n) &&& 15 = UInt8.ofNat n := by decide +kernel
  have h := all ⟨x.toNat, UInt8.lt_iff_toNat_lt.mp hx⟩ ⟨y.toNat, UInt8.lt_iff_toNat_lt.mp hy⟩
  simpa using h

theorem byte_injective : Function.Injective byte := by
  intro b c h
  obtain ⟨-, -, hb⟩ := digits_byte b
  obtain ⟨-, -, hc⟩ := digits_byte c
  unfold byte at h
  obtain ⟨hhigh, hlow⟩ := List.cons.inj h
  rw [← hb, ← hc, hhigh, (List.cons.inj hlow).1]

/-! ## §2. Texts. -/

/-- The text of some bytes. -/
def encode (bs : List UInt8) : List UInt8 := bs.flatMap byte

@[simp] theorem encode_nil : encode [] = [] := rfl

@[simp] theorem encode_cons (b : UInt8) (bs : List UInt8) :
    encode (b :: bs) = digit (b >>> 4) :: digit (b &&& 15) :: encode bs := rfl

theorem length_encode (bs : List UInt8) : (encode bs).length = 2 * bs.length := by
  induction bs with
  | nil => rfl
  | cons b bs ih =>
      rw [encode_cons, List.length_cons, List.length_cons, List.length_cons, ih]
      omega

/-- Bytes that begin with different ones have different texts. -/
theorem encode_cons_ne {b c : UInt8} (h : b ≠ c) (bs cs : List UInt8) :
    encode (b :: bs) ≠ encode (c :: cs) := by
  intro heq
  rw [encode_cons, encode_cons] at heq
  obtain ⟨hhigh, hrest⟩ := List.cons.inj heq
  obtain ⟨hlow, -⟩ := List.cons.inj hrest
  refine h (byte_injective ?_)
  unfold byte
  rw [hhigh, hlow]

/-- Read two digits at a time. -/
def decode : List UInt8 → Option (List UInt8)
  | [] => some []
  | [_] => none
  | hi :: lo :: rest =>
      if isDigit hi && isDigit lo then
        (decode rest).map fun bs => (digitValue hi <<< 4 ||| digitValue lo) :: bs
      else none

/-- **What was printed reads back.** -/
theorem decode_encode (bs : List UInt8) : decode (encode bs) = some bs := by
  induction bs with
  | nil => rfl
  | cons b bs ih =>
      obtain ⟨hhigh, hlow, hvalue⟩ := digits_byte b
      rw [encode_cons, decode, hhigh, hlow, ih, hvalue]
      rfl

/-- What reads, one byte at a time. -/
theorem decode_cons_eq_some {hi lo : UInt8} {rest bs : List UInt8} :
    decode (hi :: lo :: rest) = some bs ↔ (isDigit hi = true ∧ isDigit lo = true) ∧
      ∃ bs', decode rest = some bs' ∧ (digitValue hi <<< 4 ||| digitValue lo) :: bs' = bs := by
  rw [decode]
  by_cases h : (isDigit hi && isDigit lo) = true
  · rw [if_pos h, Option.map_eq_some_iff]
    rw [Bool.and_eq_true] at h
    simp [h]
  · rw [if_neg h]
    rw [Bool.and_eq_true] at h
    simp [h]

/-- **A text reads exactly when it is an even number of digits.** -/
theorem decode_eq_some_iff (s : List UInt8) :
    (∃ bs, decode s = some bs) ↔ s.length % 2 = 0 ∧ ∀ c ∈ s, isDigit c = true := by
  induction s using decode.induct with
  | case1 => simp [decode]
  | case2 c => simp [decode]
  | case3 hi lo rest hdigits ih =>
      rw [Bool.and_eq_true] at hdigits
      have hlen : (hi :: lo :: rest).length % 2 = rest.length % 2 := by
        rw [List.length_cons, List.length_cons]
        omega
      rw [hlen]
      constructor
      · intro h
        obtain ⟨bs, hbs⟩ := h
        obtain ⟨-, bs', hrest, -⟩ := decode_cons_eq_some.mp hbs
        obtain ⟨heven, hall⟩ := ih.mp ⟨bs', hrest⟩
        refine ⟨heven, ?_⟩
        intro c hc
        rcases List.mem_cons.mp hc with hc | hc
        · rw [hc]
          exact hdigits.1
        · rcases List.mem_cons.mp hc with hc | hc
          · rw [hc]
            exact hdigits.2
          · exact hall c hc
      · intro h
        obtain ⟨heven, hall⟩ := h
        obtain ⟨bs', hrest⟩ := ih.mpr ⟨heven, fun c hc => hall c (by simp [hc])⟩
        exact ⟨_, decode_cons_eq_some.mpr ⟨hdigits, bs', hrest, rfl⟩⟩
  | case4 hi lo rest hdigits =>
      rw [Bool.and_eq_true] at hdigits
      constructor
      · intro h
        obtain ⟨bs, hbs⟩ := h
        exact absurd (decode_cons_eq_some.mp hbs).1 hdigits
      · intro h
        exact absurd ⟨h.2 hi (by simp), h.2 lo (by simp)⟩ hdigits

/-- **And it prints as itself in lower case.** -/
theorem encode_of_decode (s : List UInt8) :
    ∀ bs, decode s = some bs → encode bs = s.map toLower := by
  induction s using decode.induct with
  | case1 =>
      intro bs h
      cases h
      rfl
  | case2 c =>
      intro bs h
      cases h
  | case3 hi lo rest hdigits ih =>
      intro bs h
      obtain ⟨⟨hhi, hlo⟩, bs', hrest, rfl⟩ := decode_cons_eq_some.mp h
      obtain ⟨hx, hhigh⟩ := digit_digitValue hhi
      obtain ⟨hy, hlow⟩ := digit_digitValue hlo
      obtain ⟨hupper, hunder⟩ := halves hx hy
      rw [encode_cons, hupper, hunder, hhigh, hlow, ih bs' hrest]
      rfl
  | case4 hi lo rest hdigits =>
      intro bs h
      rw [decode, if_neg hdigits] at h
      cases h

theorem length_of_decode {s bs : List UInt8} (h : decode s = some bs) :
    s.length = 2 * bs.length := by
  rw [← length_encode, encode_of_decode s bs h, List.length_map]

end Hex
