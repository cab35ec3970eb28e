/-
  ItbCpp.Loop.Sizes
  ─────────────────
  **BYTE SIZES** (`loop/size.cpp`).

  `parse_size` cuts the first suffix of its table that fits off the end of
  the trimmed text and reads digits before it.  What is asked of it is a
  grammar, written without the table.

    • `parseSize_exact` — the texts of the grammar are the ones it accepts,
      each for its exact number of bytes.
-/
import ItbCpp.Ffi
import ItbCpp.Lib.CNumber
import Mathlib.Data.List.Find

namespace ItbCpp.Loop

open CNumber (isSpace isDigit isAlpha toUpper cString int64Min int64Max)

/-! ## §1. The code. -/

/-- Without the white space around it. -/
def trim (s : Bytes) : Bytes := (s.dropWhile isSpace).rdropWhile isSpace

/-- `trimmed_upper`. -/
def trimmedUpper (s : Bytes) : Option Bytes :=
  if trim s = [] ∨ 64 ≤ (trim s).length then none else some ((trim s).map toUpper)

/-- `Suffix`. -/
structure Suffix where
  text : Bytes
  mult : Int
  deriving DecidableEq

/-- The suffixes of `parse_size`. -/
def suffixTable : List Suffix :=
  [⟨text "KIB", 2 ^ 10⟩, ⟨text "KB", 2 ^ 10⟩, ⟨text "K", 2 ^ 10⟩,
    ⟨text "MIB", 2 ^ 20⟩, ⟨text "MB", 2 ^ 20⟩, ⟨text "M", 2 ^ 20⟩,
    ⟨text "GIB", 2 ^ 30⟩, ⟨text "GB", 2 ^ 30⟩, ⟨text "G", 2 ^ 30⟩,
    ⟨text "B", 1⟩]

/-- The suffix that is cut off: the first that the text ends in, or nothing. -/
def cutSuffix (upper : Bytes) : Suffix :=
  (suffixTable.find? fun suf => suf.text.isSuffixOf upper).getD ⟨[], 1⟩

/-- What stands before it, without the white space in between. -/
def sizeDigits (upper : Bytes) : Bytes :=
  (upper.take (upper.length - (cutSuffix upper).text.length)).rdropWhile isSpace

/-- A product of two `int64_t`; nothing when it overflows, which C++ leaves
undefined. -/
def mul64 (a b : Int) : Option Int :=
  if int64Min ≤ a * b ∧ a * b ≤ int64Max then some (a * b) else none

/-- `parse_size`: its verdict, and what `out` holds then. -/
def parseSize (s : Bytes) (out : Int) : Option (Bool × Int) :=
  match trimmedUpper s with
  | none => some (false, out)
  | some upper =>
      let mult := (cutSuffix upper).mult
      if sizeDigits upper = [] ∨ (sizeDigits upper).all isDigit = false then some (false, out)
      else
        let n := CNumber.strtoll (cString (sizeDigits upper))
        if n.erange = true ∨ n.value < 0 ∨ (1 < mult ∧ int64Max / mult < n.value) then
          some (false, out)
        else (mul64 n.value mult).map fun b => (true, b)

/-! ## §2. The grammar. -/

/-- The units and what they multiply by. -/
def units : List (Bytes × Nat) :=
  [([], 1), (text "B", 1), (text "K", 2 ^ 10), (text "KB", 2 ^ 10), (text "KIB", 2 ^ 10),
    (text "M", 2 ^ 20), (text "MB", 2 ^ 20), (text "MIB", 2 ^ 20),
    (text "G", 2 ^ 30), (text "GB", 2 ^ 30), (text "GIB", 2 ^ 30)]

/-- A text that says a number of bytes: once trimmed, fewer than 64 bytes of
digits, white space and a unit in any letter case, for a number below `2^63`. -/
inductive SizeText (s : Bytes) : Nat → Prop where
  | mk {digits space unit : Bytes} {mult : Nat} (split : trim s = digits ++ space ++ unit)
      (short : (trim s).length < 64) (some : digits ≠ [])
      (digit : ∀ c ∈ digits, isDigit c = true) (white : ∀ c ∈ space, isSpace c = true)
      (known : (unit.map toUpper, mult) ∈ units)
      (small : CNumber.value digits * mult < 2 ^ 63) :
      SizeText s (CNumber.value digits * mult)

/-! ## §3. The suffix. -/

section Suffixes

variable {x t u : Bytes}

/-- A suffix made of letters does not reach into what has none. -/
theorem isSuffixOf_append (ht : ∀ c ∈ t, isAlpha c = true) (hx : ∀ c ∈ x, isAlpha c = false) :
    t.isSuffixOf (x ++ u) = t.isSuffixOf u := by
  rw [Bool.eq_iff_iff, List.isSuffixOf_iff_suffix, List.isSuffixOf_iff_suffix]
  constructor
  · intro h
    rcases List.suffix_or_suffix_of_suffix h (List.suffix_append x u) with hin | hover
    · exact hin
    · obtain ⟨p, rfl⟩ := hover
      have hp : p <:+ x := List.suffix_append_self_iff.mp h
      -- the part that would reach into it is made of letters and has none
      cases p with
      | nil => exact List.suffix_rfl
      | cons c p =>
          have hyes := ht c List.mem_cons_self
          have hno := hx c (hp.subset List.mem_cons_self)
          rw [hyes] at hno
          cases hno
  · exact fun h => h.trans (List.suffix_append x u)

theorem suffixTable_letters :
    ∀ suf ∈ suffixTable, ∀ c ∈ suf.text, isAlpha c = true := by
  have hall : (suffixTable.all fun suf => suf.text.all isAlpha) = true := by decide
  intro suf hsuf
  exact List.all_eq_true.mp (List.all_eq_true.mp hall suf hsuf)

/-- What has no letters decides nothing. -/
theorem cutSuffix_append (hx : ∀ c ∈ x, isAlpha c = false) : cutSuffix (x ++ u) = cutSuffix u := by
  unfold cutSuffix
  rw [List.find?_congr fun suf hsuf => isSuffixOf_append (suffixTable_letters suf hsuf) hx]

/-- **A unit is cut off whole**: the table has a longer suffix before every
shorter one that it ends in. -/
theorem cutSuffix_units : ∀ p ∈ units, cutSuffix p.1 = ⟨p.1, p.2⟩ := by
  decide

/-- What is cut off is a unit, and the text ends in it. -/
theorem cutSuffix_spec (u : Bytes) :
    (∃ mult : Nat, ((cutSuffix u).text, mult) ∈ units ∧ (cutSuffix u).mult = mult) ∧
      (cutSuffix u).text <:+ u := by
  have hunits : ∀ suf ∈ suffixTable, ∃ p ∈ units, suf.text = p.1 ∧ suf.mult = p.2 := by
    decide
  unfold cutSuffix
  cases hfind : suffixTable.find? fun suf => suf.text.isSuffixOf u with
  | none => exact ⟨⟨1, by decide, rfl⟩, List.nil_suffix⟩
  | some suf =>
      obtain ⟨p, hp, htext, hmult⟩ := hunits suf (List.mem_of_find?_eq_some hfind)
      refine ⟨⟨p.2, ?_, hmult⟩, ?_⟩
      · show (suf.text, p.2) ∈ units
        rw [htext]
        exact hp
      · have hfits := List.find?_some hfind
        exact List.isSuffixOf_iff_suffix.mp hfits

end Suffixes

/-! ## §4. What is accepted. -/

section Exact

variable {s upper : Bytes}

/-- The guards before the multiplication hold back what would not fit. -/
theorem guards_iff {n mult : Nat} (hmult : 0 < mult) (hn : (n : Int) ≤ int64Max) :
    (1 < (mult : Int) ∧ int64Max / (mult : Int) < n) ↔ ¬ n * mult < 2 ^ 63 := by
  have hdiv : int64Max / (mult : Int) < n ↔ int64Max < (n : Int) * mult :=
    Int.ediv_lt_iff_lt_mul (Int.natCast_pos.mpr hmult)
  rw [hdiv, ← Int.natCast_mul]
  unfold int64Max at hn ⊢
  constructor
  · omega
  · intro hover
    refine ⟨?_, by omega⟩
    -- times one it would fit
    by_contra hone
    obtain rfl : mult = 1 := by omega
    omega

/-- Digits before a suffix. -/
theorem parseSize_digits (hupper : trimmedUpper s = some upper) {ds : Bytes} {mult : Nat}
    (hmult : 0 < mult) (hcut : (cutSuffix upper).mult = mult)
    (hds : sizeDigits upper = ds)
    (hne : ds ≠ []) (hdigit : ∀ c ∈ ds, isDigit c = true) (out : Int) :
    parseSize s out =
      if CNumber.value ds * mult < 2 ^ 63 then
        some (true, ((CNumber.value ds * mult : Nat) : Int))
      else some (false, out) := by
  have hnul : 0 ∉ ds := by
    intro h0
    exact absurd (hdigit 0 h0) (by decide)
  have hall : ¬ (ds = [] ∨ ds.all isDigit = false) := by
    rw [not_or, Bool.not_eq_false, List.all_eq_true]
    exact ⟨hne, hdigit⟩
  unfold parseSize
  rw [hupper]
  dsimp only
  rw [hds, if_neg hall, CNumber.cString_eq hnul, CNumber.strtoll_digits hne hdigit, hcut]
  by_cases hbig : int64Max < CNumber.value ds
  · -- out of range before the multiplication
    have hover : ¬ CNumber.value ds * mult < 2 ^ 63 := by
      have hle : CNumber.value ds ≤ CNumber.value ds * mult := Nat.le_mul_of_pos_right _ hmult
      unfold int64Max at hbig
      omega
    rw [if_pos hbig, if_neg hover, if_pos (Or.inl rfl)]
  · rw [if_neg hbig]
    have hguards := guards_iff hmult (Int.not_lt.mp hbig)
    have hpos : ¬ (CNumber.value ds : Int) < 0 := Int.not_lt.mpr (Int.natCast_nonneg _)
    by_cases hfits : CNumber.value ds * mult < 2 ^ 63
    · rw [if_pos hfits, if_neg]
      · have hmul : int64Min ≤ (CNumber.value ds : Int) * mult ∧
            (CNumber.value ds : Int) * mult ≤ int64Max := by
          rw [← Int.natCast_mul]
          unfold int64Min int64Max
          omega
        unfold mul64
        rw [if_pos hmul, Int.natCast_mul]
        rfl
      · intro hbad
        rcases hbad with hbad | hbad | hbad
        · cases hbad
        · exact hpos hbad
        · exact hguards.mp hbad hfits
    · rw [if_neg hfits, if_pos (Or.inr (Or.inr (hguards.mpr hfits)))]

/-- What is left when the suffix is cut off. -/
theorem sizeDigits_eq {body : Bytes} (h : body ++ (cutSuffix upper).text = upper) :
    sizeDigits upper = body.rdropWhile isSpace := by
  have htake : upper.take (upper.length - (cutSuffix upper).text.length) = body := by
    have hlen := congrArg List.length h
    rw [List.length_append] at hlen
    have hbody : upper.length - (cutSuffix upper).text.length = body.length := by omega
    rw [hbody]
    conv => lhs; rw [← h]
    exact List.take_left
  unfold sizeDigits
  rw [htake]

/-- Digits and white space have no upper case. -/
theorem alpha_apart (c : UInt8) (h : isAlpha c = true) : (isDigit c || isSpace c) = false := by
  rw [(CNumber.isAlpha_apart h).1, (CNumber.isAlpha_apart h).2]
  rfl

theorem units_pos : ∀ p ∈ units, 0 < p.2 := by
  decide

/-- **Complete**: a text of the grammar is accepted for its number. -/
theorem parseSize_sizeText {n : Nat} (h : SizeText s n) (out : Int) :
    parseSize s out = some (true, (n : Int)) := by
  cases h with
  | @mk digits space unit mult split short some digit white known small =>
      have hclass : ∀ c ∈ digits ++ space, (isDigit c || isSpace c) = true := by
        intro c hc
        rcases List.mem_append.mp hc with hc | hc
        · rw [digit c hc, Bool.true_or]
        · rw [white c hc, Bool.or_true]
      have hnoalpha : ∀ c ∈ digits ++ space, isAlpha c = false := by
        intro c hc
        by_contra halpha
        have hno := alpha_apart c (by simpa using halpha)
        rw [hclass c hc] at hno
        cases hno
      have hupper : trimmedUpper s = Option.some (digits ++ space ++ unit.map toUpper) := by
        have hgood : ¬ (trim s = [] ∨ 64 ≤ (trim s).length) := by
          rw [not_or, split]
          refine ⟨?_, by rw [← split]; omega⟩
          simp [some]
        unfold trimmedUpper
        rw [if_neg hgood, split, List.map_append,
          CNumber.map_toUpper_eq alpha_apart fun c hc => Or.inl (hclass c hc)]
      have hcut : cutSuffix (digits ++ space ++ unit.map toUpper) = ⟨unit.map toUpper, mult⟩ := by
        rw [cutSuffix_append hnoalpha]
        exact cutSuffix_units _ known
      have hds : sizeDigits (digits ++ space ++ unit.map toUpper) = digits := by
        have hback : digits ++ space ++ (cutSuffix (digits ++ space ++ unit.map toUpper)).text =
            digits ++ space ++ unit.map toUpper := by
          rw [hcut]
        rw [sizeDigits_eq hback]
        exact CNumber.rdropWhile_run
          (fun c hc => CNumber.not_isSpace_of_isDigit (digit c hc)) white
      rw [parseSize_digits hupper (units_pos _ known) (by rw [hcut]) hds some digit,
        if_pos small]

/-- **Sound**: nothing else is. -/
theorem parseSize_other (h : ∀ n, ¬ SizeText s n) (out : Int) :
    parseSize s out = some (false, out) := by
  by_cases hshort : trim s = [] ∨ 64 ≤ (trim s).length
  · unfold parseSize trimmedUpper
    rw [if_pos hshort]
  · have hupper : trimmedUpper s = some ((trim s).map toUpper) := if_neg hshort
    obtain ⟨⟨mult, hunit, hmult⟩, body, hbody⟩ := cutSuffix_spec ((trim s).map toUpper)
    have hds := sizeDigits_eq hbody
    by_cases hdigits : body.rdropWhile isSpace = [] ∨
        (body.rdropWhile isSpace).all isDigit = false
    · unfold parseSize
      rw [hupper]
      dsimp only
      rw [hds, if_pos hdigits]
    · rw [not_or, Bool.not_eq_false, List.all_eq_true] at hdigits
      obtain ⟨hne, hdigit⟩ := hdigits
      rw [parseSize_digits hupper (units_pos _ hunit) hmult hds hne hdigit]
      by_cases hsmall : CNumber.value (body.rdropWhile isSpace) * mult < 2 ^ 63
      · -- then it is a text of the grammar
        obtain ⟨front, unit, hsplit, hfront, hback⟩ := List.map_eq_append_iff.mp hbody.symm
        have hwhite : ∀ c ∈ body.rtakeWhile isSpace, isSpace c = true :=
          fun c hc => List.mem_rtakeWhile_imp hc
        have hparts : body = body.rdropWhile isSpace ++ body.rtakeWhile isSpace := by
          rw [List.rdropWhile_append_rtakeWhile]
        have hsame : front = body := by
          rw [← hfront]
          refine (CNumber.map_toUpper_eq alpha_apart fun c hc => Or.inr ?_).symm
          have hc' : toUpper c ∈ body := hfront ▸ List.mem_map_of_mem hc
          rw [hparts] at hc'
          rcases List.mem_append.mp hc' with hc' | hc'
          · rw [hdigit _ hc', Bool.true_or]
          · rw [hwhite _ hc', Bool.or_true]
        have hknown : (unit.map toUpper, mult) ∈ units := by
          rw [hback]
          exact hunit
        have htext : trim s = body.rdropWhile isSpace ++ body.rtakeWhile isSpace ++ unit := by
          rw [← hparts, ← hsame]
          exact hsplit
        rw [not_or] at hshort
        have hlen : (trim s).length < 64 := by omega
        exact (h _ (.mk htext hlen hne hdigit hwhite hknown hsmall)).elim
      · exact if_neg hsmall

/-- **Byte sizes.**  `parse_size` accepts exactly the texts that say a number
of bytes, each for its number; nothing overflows on the way, and `out` is as
it was when it refuses. -/
theorem parseSize_exact (s : Bytes) (out : Int) :
    (∀ n, SizeText s n → parseSize s out = some (true, (n : Int))) ∧
      ((∀ n, ¬ SizeText s n) → parseSize s out = some (false, out)) :=
  ⟨fun _ h => parseSize_sizeText h out, fun h => parseSize_other h out⟩

end Exact

end ItbCpp.Loop
