/-
  ItbCpp.Lib.CNumber
  ──────────────────
  **INTEGERS AS THE C LIBRARY READS THEM.**

  The character classes of the C locale, and `strtol`, `strtoll` and
  `strtoull` in base 10 on a platform with 64-bit `long`.  A C string is
  its bytes up to the NUL, so the end of the string is the end of the list
  and what a conversion leaves is a suffix.

    • `scanInt_eq_some` — the part of a string that a conversion reads,
    • `numeral_iff` — a numeral is a string that a conversion reads whole,
    • `strtoSigned_reads`, `strtoull_reads` — what a conversion without a
      range error says of such a string,
    • `scanInt_decimal` — a number that was printed is read back.

  Nothing here is about a particular program.
-/
import Mathlib.Data.List.DropRight
import Mathlib.Data.List.TakeWhile
import Mathlib.Tactic.Ring

namespace CNumber

/-! ## §1. Character classes. -/

/-- `isspace`: blank, and tab to carriage return. -/
def isSpace (c : UInt8) : Bool := c = 32 || (9 ≤ c && c ≤ 13)

/-- `isdigit`. -/
def isDigit (c : UInt8) : Bool := 48 ≤ c && c ≤ 57

/-- `isalpha`. -/
def isAlpha (c : UInt8) : Bool := (65 ≤ c && c ≤ 90) || (97 ≤ c && c ≤ 122)

/-- `toupper`. -/
def toUpper (c : UInt8) : UInt8 := if 97 ≤ c && c ≤ 122 then c - 32 else c

/-- A letter is neither a digit nor white space. -/
theorem isAlpha_apart {c : UInt8} (h : isAlpha c = true) :
    isDigit c = false ∧ isSpace c = false := by
  unfold isAlpha at h
  unfold isDigit isSpace
  simp only [Bool.or_eq_true, Bool.and_eq_true, decide_eq_true_eq, UInt8.le_iff_toNat_le,
    Bool.and_eq_false_iff, Bool.or_eq_false_iff, decide_eq_false_iff_not, ← UInt8.toNat_inj,
    UInt8.reduceToNat] at h ⊢
  omega

/-- Upper case changes nothing but letters, and those into letters. -/
theorem toUpper_cases (c : UInt8) :
    toUpper c = c ∨ isAlpha c = true ∧ isAlpha (toUpper c) = true := by
  unfold toUpper
  split
  · rename_i h
    right
    unfold isAlpha
    simp only [Bool.or_eq_true, Bool.and_eq_true, decide_eq_true_eq, UInt8.le_iff_toNat_le,
      UInt8.reduceToNat] at h ⊢
    have hsub : (c - 32).toNat = c.toNat - 32 := by
      rw [UInt8.toNat_sub_of_le]
      · rfl
      · rw [UInt8.le_iff_toNat_le]
        simp only [UInt8.reduceToNat]
        omega
    omega
  · exact Or.inl rfl

/-- In a class without letters upper case changes nothing. -/
theorem map_toUpper_eq {p : UInt8 → Bool} (hp : ∀ c, isAlpha c = true → p c = false)
    {l : List UInt8} (h : ∀ c ∈ l, p c = true ∨ p (toUpper c) = true) :
    l.map toUpper = l := by
  have hid : ∀ c ∈ l, toUpper c = id c := by
    intro c hc
    rcases toUpper_cases c with heq | ⟨hlow, hup⟩
    · exact heq
    · have hyes := h c hc
      rw [hp _ hlow, hp _ hup] at hyes
      simp at hyes
  rw [List.map_congr_left hid, List.map_id]

/-- The string behind a pointer to `s`: the bytes before the first NUL. -/
def cString (s : List UInt8) : List UInt8 := s.takeWhile (· != 0)

theorem cString_eq {s : List UInt8} (h : 0 ∉ s) : cString s = s := by
  refine List.takeWhile_eq_self_iff.mpr fun b hb => ?_
  have hne : b ≠ 0 := fun h0 => h (h0 ▸ hb)
  simpa using hne

theorem cString_append {s : List UInt8} (h : 0 ∉ s) (t : List UInt8) :
    cString (s ++ t) = s ++ cString t := by
  refine List.takeWhile_append_of_pos fun b hb => ?_
  have hne : b ≠ 0 := fun h0 => h (h0 ▸ hb)
  simpa using hne

/-! ## §2. Runs of one class. -/

section Runs

variable {α : Type} {p : α → Bool} {l r : List α}

/-- The list does not go on with the class. -/
def Stops (p : α → Bool) (l : List α) : Prop := ∀ c t, l = c :: t → p c = false

theorem stops_nil : Stops p [] := by
  intro c t h
  cases h

theorem stops_cons {c : α} (h : p c = false) (t : List α) : Stops p (c :: t) := by
  intro c' t' heq
  cases heq
  exact h

theorem stops_dropWhile (l : List α) : Stops p (l.dropWhile p) := by
  intro c t h
  induction l with
  | nil => cases h
  | cons a l ih =>
      by_cases ha : p a
      · rw [List.dropWhile_cons_of_pos ha] at h
        exact ih h
      · rw [List.dropWhile_cons_of_neg ha] at h
        cases h
        simpa using ha

theorem takeWhile_run (hl : ∀ c ∈ l, p c = true) (hr : Stops p r) :
    (l ++ r).takeWhile p = l := by
  rw [List.takeWhile_append_of_pos hl]
  cases r with
  | nil => simp
  | cons c t =>
      have hc : ¬ p c = true := by simp [hr c t rfl]
      rw [List.takeWhile_cons_of_neg hc, List.append_nil]

theorem dropWhile_run (hl : ∀ c ∈ l, p c = true) (hr : Stops p r) :
    (l ++ r).dropWhile p = r := by
  rw [List.dropWhile_append_of_pos hl]
  cases r with
  | nil => rfl
  | cons c t =>
      have hc : ¬ p c = true := by simp [hr c t rfl]
      rw [List.dropWhile_cons_of_neg hc]

/-- From the other end: a run of the class behind what has none of it. -/
theorem rdropWhile_run (hl : ∀ c ∈ l, p c = false) (hr : ∀ c ∈ r, p c = true) :
    (l ++ r).rdropWhile p = l := by
  have hstops : Stops p l.reverse := by
    intro c t h
    refine hl c (List.mem_reverse.mp ?_)
    rw [h]
    exact List.mem_cons_self
  unfold List.rdropWhile
  rw [List.reverse_append, dropWhile_run (fun c hc => hr c (List.mem_reverse.mp hc)) hstops,
    List.reverse_reverse]

theorem mem_takeWhile {c : α} (h : c ∈ l.takeWhile p) : p c = true :=
  List.mem_takeWhile_imp h

end Runs

/-! ## §3. Numerals. -/

/-- What a run of digits denotes. -/
def value (ds : List UInt8) : Nat := ds.foldl (fun n c => n * 10 + (c.toNat - 48)) 0

theorem value_concat (ds : List UInt8) (d : UInt8) :
    value (ds ++ [d]) = value ds * 10 + (d.toNat - 48) := by
  rw [value, List.foldl_append]
  rfl

/-- What a conversion finds: the sign, the digits and what is left. -/
structure Scan where
  neg : Bool
  digits : List UInt8
  rest : List UInt8
  deriving DecidableEq

/-- The number it has found. -/
def Scan.value (x : Scan) : Int :=
  if x.neg then -(CNumber.value x.digits : Int) else CNumber.value x.digits

/-- A sign, or none. -/
def sign : List UInt8 → Bool × List UInt8
  | 45 :: t => (true, t)
  | 43 :: t => (false, t)
  | t => (false, t)

/-- White space, a sign and digits at the front of `s`; nothing when there
are no digits. -/
def scanInt (s : List UInt8) : Option Scan :=
  let u := sign (s.dropWhile isSpace)
  if u.2.takeWhile isDigit = [] then none
  else some { neg := u.1, digits := u.2.takeWhile isDigit, rest := u.2.dropWhile isDigit }

/-- The bytes of a sign. -/
inductive Sign : Bool → List UInt8 → Prop where
  | none : Sign false []
  | plus : Sign false [43]
  | minus : Sign true [45]

/-- Digits are no sign. -/
theorem not_sign_of_isDigit {c : UInt8} (h : isDigit c = true) : c ≠ 45 ∧ c ≠ 43 := by
  refine ⟨?_, ?_⟩
  · intro heq
    subst heq
    cases h
  · intro heq
    subst heq
    cases h

theorem not_isSpace_of_isDigit {c : UInt8} (h : isDigit c = true) : isSpace c = false := by
  unfold isDigit at h
  unfold isSpace
  simp only [Bool.and_eq_true, decide_eq_true_eq, UInt8.le_iff_toNat_le] at h
  have h32 : c ≠ 32 := by
    intro heq
    subst heq
    exact absurd h.1 (by decide)
  have h13 : ¬ c ≤ 13 := by
    rw [UInt8.le_iff_toNat_le]
    have := h.1
    simp at this ⊢
    omega
  simp [h32, h13]

theorem sign_append {neg : Bool} {sg : List UInt8} (h : Sign neg sg) {t : List UInt8}
    (ht : ∀ c u, t = c :: u → isDigit c = true) : sign (sg ++ t) = (neg, t) := by
  cases h with
  | plus => rfl
  | minus => rfl
  | none =>
      cases t with
      | nil => rfl
      | cons c u =>
          obtain ⟨h45, h43⟩ := not_sign_of_isDigit (ht c u rfl)
          show sign (c :: u) = _
          unfold sign
          split
          · rename_i heq
            cases heq
            exact (h45 rfl).elim
          · rename_i heq
            cases heq
            exact (h43 rfl).elim
          · rfl

theorem sign_split (t : List UInt8) : ∃ sg, Sign (sign t).1 sg ∧ t = sg ++ (sign t).2 := by
  unfold sign
  split
  · exact ⟨[45], .minus, rfl⟩
  · exact ⟨[43], .plus, rfl⟩
  · exact ⟨[], .none, rfl⟩

/-- **What a conversion reads.** -/
theorem scanInt_eq_some {s : List UInt8} {x : Scan} :
    scanInt s = some x ↔
      ∃ ws sg, s = ws ++ sg ++ x.digits ++ x.rest ∧ (∀ c ∈ ws, isSpace c = true) ∧
        Sign x.neg sg ∧ x.digits ≠ [] ∧ (∀ c ∈ x.digits, isDigit c = true) ∧
        Stops isDigit x.rest := by
  constructor
  · intro h
    unfold scanInt at h
    dsimp only at h
    split at h
    · cases h
    · rename_i hne
      cases h
      obtain ⟨sg, hsg, hsplit⟩ := sign_split (s.dropWhile isSpace)
      refine ⟨s.takeWhile isSpace, sg, ?_, fun c hc => mem_takeWhile hc, hsg, hne,
        fun c hc => mem_takeWhile hc, stops_dropWhile _⟩
      rw [List.append_assoc, List.takeWhile_append_dropWhile, List.append_assoc, ← hsplit,
        List.takeWhile_append_dropWhile]
  · intro h
    obtain ⟨neg, digits, rest⟩ := x
    obtain ⟨ws, sg, rfl, hws, hsg, hne, hds, hrest⟩ := h
    dsimp only at hsg hne hds hrest ⊢
    have hdigit : ∀ c u, digits ++ rest = c :: u → isDigit c = true := by
      intro c u heq
      cases digits with
      | nil => exact (hne rfl).elim
      | cons d ds =>
          cases heq
          exact hds c List.mem_cons_self
    -- neither a sign nor a digit is white space
    have hstops : Stops isSpace (sg ++ (digits ++ rest)) := by
      intro c u heq
      cases hsg with
      | none => exact not_isSpace_of_isDigit (hdigit c u heq)
      | plus =>
          cases heq
          decide
      | minus =>
          cases heq
          decide
    have hdrop : (ws ++ sg ++ digits ++ rest).dropWhile isSpace = sg ++ (digits ++ rest) := by
      rw [List.append_assoc, List.append_assoc]
      exact dropWhile_run hws hstops
    unfold scanInt
    dsimp only
    rw [hdrop, sign_append hsg hdigit, takeWhile_run hds hrest, dropWhile_run hds hrest,
      if_neg hne]

/-- Nothing is read where neither white space nor a sign nor a digit
stands. -/
theorem scanInt_none {c : UInt8} {t : List UInt8} (hspace : isSpace c = false)
    (hdigit : isDigit c = false) (hminus : c ≠ 45) (hplus : c ≠ 43) :
    scanInt (c :: t) = none := by
  cases hscan : scanInt (c :: t) with
  | none => rfl
  | some x =>
      exfalso
      obtain ⟨neg, ds, rest⟩ := x
      obtain ⟨ws, sg, heq, hws, hsg, hne, hds, -⟩ := scanInt_eq_some.mp hscan
      dsimp only at heq hsg hne hds
      cases ws with
      | cons d ws =>
          injection heq with hc
          rw [hc, hws d List.mem_cons_self] at hspace
          cases hspace
      | nil =>
          cases hsg with
          | plus => exact hplus (List.cons.inj heq).1
          | minus => exact hminus (List.cons.inj heq).1
          | none =>
              obtain ⟨d, ds', rfl⟩ := List.exists_cons_of_ne_nil hne
              injection heq with hc
              rw [hc, hds d List.mem_cons_self] at hdigit
              cases hdigit

/-- **A numeral** and what it denotes: white space, a sign if there is one,
and digits to the end. -/
inductive Numeral : List UInt8 → Int → Prop where
  | mk {neg : Bool} {ws sg ds : List UInt8} (space : ∀ c ∈ ws, isSpace c = true)
      (signed : Sign neg sg) (some : ds ≠ []) (digits : ∀ c ∈ ds, isDigit c = true) :
      Numeral (ws ++ sg ++ ds) (if neg then -(value ds : Int) else value ds)

/-- A numeral is what a conversion reads to the end. -/
theorem numeral_iff {s : List UInt8} {n : Int} :
    Numeral s n ↔ ∃ x, scanInt s = some x ∧ x.rest = [] ∧ x.value = n := by
  constructor
  · intro h
    cases h with
    | @mk neg ws sg ds space signed some digits =>
        refine ⟨⟨neg, ds, []⟩, scanInt_eq_some.mpr ⟨ws, sg, ?_, space, signed, some, digits,
          stops_nil⟩, rfl, rfl⟩
        rw [List.append_nil]
  · intro h
    obtain ⟨⟨neg, ds, rest⟩, hscan, hrest, rfl⟩ := h
    obtain rfl : rest = [] := hrest
    obtain ⟨ws, sg, rfl, space, signed, some, digits, -⟩ := scanInt_eq_some.mp hscan
    rw [List.append_nil]
    exact .mk space signed some digits

/-! ## §4. The conversions. -/

/-- What a conversion gives: the number, where it stopped and whether `errno`
is `ERANGE`. -/
structure Conversion (α : Type) where
  value : α
  rest : List UInt8
  erange : Bool

/-- A signed conversion to a type from `lo` to `hi`, clamped. -/
def strtoSigned (lo hi : Int) (s : List UInt8) : Conversion Int :=
  match scanInt s with
  | none => ⟨0, s, false⟩
  | some x =>
      if x.value < lo then ⟨lo, x.rest, true⟩
      else if hi < x.value then ⟨hi, x.rest, true⟩
      else ⟨x.value, x.rest, false⟩

/-- The bounds of `long` and `long long`. -/
def int64Min : Int := -(2 ^ 63)

def int64Max : Int := 2 ^ 63 - 1

/-- The bound of `unsigned long long`. -/
def uint64Max : Nat := 2 ^ 64 - 1

/-- `strtol`. -/
def strtol : List UInt8 → Conversion Int := strtoSigned int64Min int64Max

/-- `strtoll`. -/
def strtoll : List UInt8 → Conversion Int := strtoSigned int64Min int64Max

/-- `strtoull`: a minus sign negates the converted value in the unsigned
type. -/
def strtoull (s : List UInt8) : Conversion Nat :=
  match scanInt s with
  | none => ⟨0, s, false⟩
  | some x =>
      if uint64Max < CNumber.value x.digits then ⟨uint64Max, x.rest, true⟩
      else if x.neg then ⟨(2 ^ 64 - CNumber.value x.digits) % 2 ^ 64, x.rest, false⟩
      else ⟨CNumber.value x.digits, x.rest, false⟩

/-- **A signed conversion of the whole string**: it is a numeral, and its
value in range. -/
theorem strtoSigned_reads {lo hi : Int} {s : List UInt8} (hne : s ≠ []) :
    (strtoSigned lo hi s).rest = [] ∧ (strtoSigned lo hi s).erange = false ↔
      Numeral s (strtoSigned lo hi s).value ∧ lo ≤ (strtoSigned lo hi s).value ∧
        (strtoSigned lo hi s).value ≤ hi ∧ (strtoSigned lo hi s).erange = false := by
  rw [numeral_iff]
  unfold strtoSigned
  cases hscan : scanInt s with
  | none => simp [hne]
  | some x =>
      dsimp only
      split
      · simp
      · split
        · simp
        · rename_i hlo hhi
          constructor
          · intro h
            exact ⟨⟨x, rfl, h.1, rfl⟩, Int.not_lt.mp hlo, Int.not_lt.mp hhi, rfl⟩
          · intro h
            obtain ⟨⟨y, hy, hrest, -⟩, -⟩ := h
            cases hy
            exact ⟨hrest, rfl⟩

/-- Digits alone. -/
theorem strtoll_digits {ds : List UInt8} (hne : ds ≠ []) (hds : ∀ c ∈ ds, isDigit c = true) :
    strtoll ds =
      if int64Max < value ds then ⟨int64Max, [], true⟩ else ⟨value ds, [], false⟩ := by
  have hscan : scanInt ds = some ⟨false, ds, []⟩ :=
    scanInt_eq_some.mpr ⟨[], [], by simp, by simp, .none, hne, hds, stops_nil⟩
  have hlo : ¬ (value ds : Int) < int64Min := by
    unfold int64Min
    omega
  unfold strtoll strtoSigned
  rw [hscan]
  exact if_neg hlo

/-- **An unsigned conversion of the whole string**, by its sign. -/
theorem strtoull_reads {s : List UInt8} (hne : s ≠ []) :
    (strtoull s).rest = [] ∧ (strtoull s).erange = false ↔
      ∃ x, scanInt s = some x ∧ x.rest = [] ∧ value x.digits ≤ uint64Max ∧
        (strtoull s).value =
          if x.neg then (2 ^ 64 - value x.digits) % 2 ^ 64 else value x.digits := by
  unfold strtoull
  cases hscan : scanInt s with
  | none => simp [hne]
  | some x =>
      dsimp only
      by_cases hbig : uint64Max < value x.digits
      · simp [hbig]
      · have hle : value x.digits ≤ uint64Max := Nat.le_of_not_lt hbig
        rw [if_neg hbig]
        by_cases hneg : x.neg = true
        · simp [hneg, hle]
        · simp [hneg, hle]

/-! ## §5. Printing. -/

/-- The digits of a number in base 10. -/
def natDecimal (n : Nat) : List UInt8 := (Nat.toDigits 10 n).map fun c => UInt8.ofNat c.toNat

/-- What `%lld` prints. -/
def decimal (n : Int) : List UInt8 :=
  if n < 0 then 45 :: natDecimal n.natAbs else natDecimal n.natAbs

theorem digitChar_digit : ∀ d < 10, isDigit (UInt8.ofNat d.digitChar.toNat) = true ∧
    (UInt8.ofNat d.digitChar.toNat).toNat - 48 = d := by
  decide

theorem natDecimal_of_lt {n : Nat} (h : n < 10) :
    natDecimal n = [UInt8.ofNat n.digitChar.toNat] := by
  unfold natDecimal
  rw [Nat.toDigits_of_lt_base h]
  rfl

/-- The last digit stands behind those of a tenth. -/
theorem natDecimal_of_ge {n : Nat} (h : 10 ≤ n) :
    natDecimal n = natDecimal (n / 10) ++ [UInt8.ofNat (n % 10).digitChar.toNat] := by
  unfold natDecimal
  rw [Nat.toDigits_of_base_le (by decide) h, List.map_append]
  rfl

/-- Digits that denote the number. -/
theorem natDecimal_spec (n : Nat) :
    natDecimal n ≠ [] ∧ (∀ c ∈ natDecimal n, isDigit c = true) ∧ value (natDecimal n) = n := by
  induction n using Nat.strongRecOn with
  | ind n ih =>
      by_cases hlt : n < 10
      · obtain ⟨hdigit, hvalue⟩ := digitChar_digit n hlt
        rw [natDecimal_of_lt hlt]
        refine ⟨List.cons_ne_nil _ _, by simpa using hdigit, ?_⟩
        rw [← List.nil_append [_], value_concat, hvalue]
        simp [value]
      · obtain ⟨-, hdigits, hvalue⟩ := ih (n / 10) (by omega)
        obtain ⟨hdigit, hlast⟩ := digitChar_digit (n % 10) (Nat.mod_lt n (by decide))
        rw [natDecimal_of_ge (Nat.le_of_not_lt hlt)]
        refine ⟨by simp, ?_, ?_⟩
        · intro c hc
          rcases List.mem_append.mp hc with hc | hc
          · exact hdigits c hc
          · rw [List.mem_singleton.mp hc]
            exact hdigit
        · rw [value_concat, hvalue, hlast]
          omega

/-- Only zero begins with a zero. -/
theorem natDecimal_head (n : Nat) : natDecimal n = [48] ∨ (natDecimal n).head? ≠ some 48 := by
  induction n using Nat.strongRecOn with
  | ind n ih =>
      by_cases hlt : n < 10
      · rw [natDecimal_of_lt hlt]
        by_cases hzero : UInt8.ofNat n.digitChar.toNat = 48
        · exact Or.inl (by rw [hzero])
        · exact Or.inr (by simpa using hzero)
      · obtain ⟨hne, -, hvalue⟩ := natDecimal_spec (n / 10)
        obtain ⟨d, ds, hd⟩ := List.exists_cons_of_ne_nil hne
        right
        rw [natDecimal_of_ge (Nat.le_of_not_lt hlt)]
        rcases ih (n / 10) (by omega) with hzero | hhead
        · -- a tenth of it is not zero
          rw [hzero] at hvalue
          have : n / 10 = 0 := hvalue.symm
          omega
        · rw [hd] at hhead ⊢
          exact hhead

/-- **What is printed is read back**, up to where digits stop. -/
theorem scanInt_decimal (n : Int) {rest : List UInt8} (hrest : Stops isDigit rest) :
    ∃ x, scanInt (decimal n ++ rest) = some x ∧ x.rest = rest ∧ x.value = n := by
  obtain ⟨hne, hdigits, hvalue⟩ := natDecimal_spec n.natAbs
  by_cases hneg : n < 0
  · refine ⟨⟨true, natDecimal n.natAbs, rest⟩, scanInt_eq_some.mpr ⟨[], [45], ?_, by simp,
      .minus, hne, hdigits, hrest⟩, rfl, ?_⟩
    · simp [decimal, hneg]
    · show -(value (natDecimal n.natAbs) : Int) = n
      rw [hvalue]
      omega
  · refine ⟨⟨false, natDecimal n.natAbs, rest⟩, scanInt_eq_some.mpr ⟨[], [], ?_, by simp,
      .none, hne, hdigits, hrest⟩, rfl, ?_⟩
    · simp [decimal, hneg]
    · show (value (natDecimal n.natAbs) : Int) = n
      rw [hvalue]
      omega

/-- What is printed begins with a digit or a minus sign, and holds nothing
else. -/
theorem mem_decimal {n : Int} {c : UInt8} (h : c ∈ decimal n) : isDigit c = true ∨ c = 45 := by
  unfold decimal at h
  split at h
  · rcases List.mem_cons.mp h with h | h
    · exact Or.inr h
    · exact Or.inl ((natDecimal_spec n.natAbs).2.1 c h)
  · exact Or.inl ((natDecimal_spec n.natAbs).2.1 c h)

theorem decimal_head {n : Int} {y t : List UInt8} {c : UInt8} (h : decimal n ++ y = c :: t) :
    isDigit c = true ∨ c = 45 := by
  cases hn : decimal n with
  | nil =>
      exfalso
      unfold decimal at hn
      split at hn
      · cases hn
      · exact (natDecimal_spec n.natAbs).1 hn
  | cons d ds =>
      rw [hn] at h
      injection h with hd
      refine mem_decimal (n := n) ?_
      rw [hn, hd]
      exact List.mem_cons_self

/-! ## §6. A fixed number of digits. -/

/-- What `%0*lld` prints: zeros in front, up to the width. -/
def padded (width : Nat) (n : Int) : List UInt8 :=
  let digits := natDecimal n.natAbs
  if n < 0 then 45 :: (List.replicate (width - 1 - digits.length) 48 ++ digits)
  else List.replicate (width - digits.length) 48 ++ digits

theorem value_append (ds es : List UInt8) :
    value (ds ++ es) = value ds * 10 ^ es.length + value es := by
  induction es using List.reverseRecOn with
  | nil => simp [value]
  | append_singleton es e ih =>
      rw [← List.append_assoc, value_concat, value_concat, ih, List.length_append,
        List.length_singleton, pow_succ]
      ring

theorem value_zeros (k : Nat) : value (List.replicate k 48) = 0 := by
  induction k with
  | zero => rfl
  | succ k ih =>
      rw [List.replicate_succ', value_concat, ih]
      rfl

/-- A number with room in the width: as many digits, which denote it. -/
theorem padded_spec {width n : Nat} (hwidth : 0 < width) (hn : n < 10 ^ width) :
    (padded width n).length = width ∧ (∀ c ∈ padded width n, isDigit c = true) ∧
      value (padded width n) = n := by
  obtain ⟨-, hdigits, hvalue⟩ := natDecimal_spec n
  have hlen : (natDecimal n).length ≤ width := by
    unfold natDecimal
    rw [List.length_map]
    exact (Nat.length_toDigits_le_iff (by decide) hwidth).mpr hn
  have hpadded : padded width n = List.replicate (width - (natDecimal n).length) 48 ++
      natDecimal n := by
    unfold padded
    rw [if_neg (by omega)]
    rfl
  rw [hpadded]
  refine ⟨?_, ?_, ?_⟩
  · rw [List.length_append, List.length_replicate]
    omega
  · intro c hc
    rcases List.mem_append.mp hc with hc | hc
    · rw [List.eq_of_mem_replicate hc]
      rfl
    · exact hdigits c hc
  · rw [value_append, value_zeros, hvalue, Nat.zero_mul, Nat.zero_add]

/-- The digits without the zeros at their end. -/
def trimZeros (ds : List UInt8) : List UInt8 := ds.rdropWhile (· == 48)

/-- What was cut off is a power of ten. -/
theorem trimZeros_spec (ds : List UInt8) :
    ∃ k, ds.length = (trimZeros ds).length + k ∧ value ds = value (trimZeros ds) * 10 ^ k := by
  have hzeros : ds.rtakeWhile (· == 48) =
      List.replicate (ds.rtakeWhile (· == 48)).length 48 := by
    refine List.eq_replicate_iff.mpr ⟨rfl, ?_⟩
    intro c hc
    simpa using List.mem_rtakeWhile_imp hc
  have hds : ds = trimZeros ds ++ List.replicate (ds.rtakeWhile (· == 48)).length 48 := by
    rw [← hzeros]
    exact List.rdropWhile_append_rtakeWhile.symm
  refine ⟨(ds.rtakeWhile (· == 48)).length, ?_, ?_⟩
  · conv => lhs; rw [hds]
    rw [List.length_append, List.length_replicate]
  · conv => lhs; rw [hds]
    rw [value_append, value_zeros, List.length_replicate, Nat.add_zero]

theorem trimZeros_last (ds : List UInt8) : (trimZeros ds).getLast? ≠ some 48 := by
  intro h
  have hne : trimZeros ds ≠ [] := by
    intro hnil
    rw [hnil] at h
    cases h
  rw [List.getLast?_eq_getLast_of_ne_nil hne] at h
  have hlast : ¬ ((trimZeros ds).getLast hne == 48) = true :=
    List.rdropWhile_last_not (· == 48) ds hne
  rw [Option.some.inj h] at hlast
  exact hlast rfl

theorem mem_trimZeros {ds : List UInt8} {c : UInt8} (h : c ∈ trimZeros ds) : c ∈ ds :=
  (List.rdropWhile_prefix _ ds).subset h

end CNumber
