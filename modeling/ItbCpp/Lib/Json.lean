/-
  ItbCpp.Lib.Json
  ───────────────
  **COMPACT JSON.**

  The values, the texts that say them without white space, and a decoder.
  Both are transparent to bytes: a string is a list of bytes, and a byte
  from `0x80` on stands for itself.  A number keeps the text it was written
  with.

    • `Text` — which texts say which value,
    • `decode_text` — the decoder finds the value that a text says,
    • `Phrase` — values that are built together with their texts.

  Nothing here is about a particular program.
-/
import ItbCpp.Lib.CNumber
import ItbCpp.Lib.Delimited

/-- A JSON value. -/
inductive Json where
  | null
  | bool (b : Bool)
  | num (lit : List UInt8)
  | str (s : List UInt8)
  | arr (l : List Json)
  | obj (l : List (List UInt8 × Json))

namespace Json

open CNumber (isDigit Stops takeWhile_run dropWhile_run stops_nil stops_cons decimal natDecimal)

/-! ## §1. Numbers. -/

/-- The bytes that numbers are made of. -/
def isNumberByte (c : UInt8) : Bool :=
  isDigit c || c == 43 || c == 45 || c == 46 || c == 69 || c == 101

/-- An exponent, or nothing. -/
def isExponent : List UInt8 → Bool
  | [] => true
  | c :: t =>
      let ds := if t.head? = some 43 ∨ t.head? = some 45 then t.tail else t
      (c == 69 || c == 101) && !ds.isEmpty && ds.all isDigit

/-- A fraction, or none, and an exponent. -/
def isFraction (s : List UInt8) : Bool :=
  if s.head? = some 46 then
    !(s.tail.takeWhile isDigit).isEmpty && isExponent (s.tail.dropWhile isDigit)
  else isExponent s

/-- A number of the JSON grammar: a minus sign or none, digits that begin
with zero only if that is all, a fraction and an exponent. -/
def isNumber (s : List UInt8) : Bool :=
  let u := if s.head? = some 45 then s.tail else s
  let int := u.takeWhile isDigit
  s.all isNumberByte && !int.isEmpty && (int == [48] || int.head? != some 48) &&
    isFraction (u.dropWhile isDigit)

/-- An integer and a fraction are a number. -/
theorem isNumber_append (n : Int) {frac : List UInt8} (hfrac : isFraction frac = true)
    (hbytes : frac.all isNumberByte = true) (hstop : Stops isDigit frac) :
    isNumber (decimal n ++ frac) = true := by
  obtain ⟨hne, hdigits, -⟩ := CNumber.natDecimal_spec n.natAbs
  have hall : (decimal n ++ frac).all isNumberByte = true := by
    rw [List.all_append, hbytes, Bool.and_true, List.all_eq_true]
    intro c hc
    unfold isNumberByte
    rcases CNumber.mem_decimal hc with hdigit | rfl
    · simp [hdigit]
    · decide
  have htake : (natDecimal n.natAbs ++ frac).takeWhile isDigit = natDecimal n.natAbs :=
    takeWhile_run hdigits hstop
  have hdrop : (natDecimal n.natAbs ++ frac).dropWhile isDigit = frac := dropWhile_run hdigits hstop
  have hunsigned : (if (decimal n ++ frac).head? = some 45 then (decimal n ++ frac).tail
      else decimal n ++ frac) = natDecimal n.natAbs ++ frac := by
    unfold decimal
    by_cases hneg : n < 0
    · rw [if_pos hneg]
      rfl
    · rw [if_neg hneg, if_neg]
      -- a digit is no minus sign
      intro hminus
      rw [List.head?_append_of_ne_nil _ hne] at hminus
      have hdigit := hdigits 45 (List.mem_of_head? hminus)
      exact absurd hdigit (by decide)
  have hlead : (natDecimal n.natAbs == [48] || (natDecimal n.natAbs).head? != some 48) = true := by
    rcases CNumber.natDecimal_head n.natAbs with hzero | hhead
    · rw [hzero]
      rfl
    · simp [hhead]
  unfold isNumber
  dsimp only
  rw [hunsigned, htake, hdrop, hall, hlead, hfrac]
  simp [hne]

/-- What is printed of an integer is a number. -/
theorem isNumber_decimal (n : Int) : isNumber (decimal n) = true := by
  have h : isNumber (decimal n ++ []) = true := isNumber_append n rfl rfl stops_nil
  rwa [List.append_nil] at h

/-- So is an integer with zeros behind the point. -/
theorem isNumber_zeros (n : Int) (k : Nat) :
    isNumber (decimal n ++ 46 :: List.replicate (k + 1) 48) = true := by
  have hzeros : ∀ c ∈ List.replicate (k + 1) (48 : UInt8), isDigit c = true := by
    intro c hc
    rw [List.eq_of_mem_replicate hc]
    decide
  have hbytes : ∀ c ∈ List.replicate (k + 1) (48 : UInt8), isNumberByte c = true := by
    intro c hc
    rw [List.eq_of_mem_replicate hc]
    decide
  refine isNumber_append n ?_ ?_ (stops_cons (by decide) _)
  · unfold isFraction
    rw [if_pos List.head?_cons, List.tail_cons, List.takeWhile_eq_self_iff.mpr hzeros,
      List.dropWhile_eq_nil_iff.mpr hzeros]
    rfl
  · rw [List.all_cons, List.all_eq_true.mpr hbytes]
    rfl

/-- A number begins with a digit or a minus sign. -/
theorem isNumber_head {s : List UInt8} (h : isNumber s = true) :
    ∃ c t, s = c :: t ∧ (isDigit c = true ∨ c = 45) := by
  unfold isNumber at h
  dsimp only at h
  simp only [Bool.and_eq_true, Bool.not_eq_true', List.isEmpty_eq_false_iff] at h
  obtain ⟨⟨⟨-, hint⟩, -⟩, -⟩ := h
  cases s with
  | nil => exact (hint rfl).elim
  | cons c t =>
      refine ⟨c, t, rfl, ?_⟩
      by_cases hminus : c = 45
      · exact Or.inr hminus
      · left
        have hhead : ¬ (c :: t).head? = some 45 := by simpa using hminus
        rw [if_neg hhead] at hint
        by_contra hdigit
        rw [List.takeWhile_cons_of_neg hdigit] at hint
        exact hint rfl

theorem isNumber_bytes {s : List UInt8} (h : isNumber s = true) :
    ∀ c ∈ s, isNumberByte c = true := by
  unfold isNumber at h
  dsimp only at h
  simp only [Bool.and_eq_true] at h
  exact List.all_eq_true.mp h.1.1.1

/-! ## §2. Strings. -/

/-- What `\\e` stands for. -/
def shortEscape (e : UInt8) : Option UInt8 :=
  [(34, 34), (92, 92), (47, 47), (98, 8), (102, 12), (110, 10), (114, 13), (116, 9)].lookup e

def hexValue (c : UInt8) : Option Nat :=
  if isDigit c then some (c.toNat - 48)
  else if 97 ≤ c ∧ c ≤ 102 then some (c.toNat - 87)
  else if 65 ≤ c ∧ c ≤ 70 then some (c.toNat - 55)
  else none

/-- The code unit of four hexadecimal digits. -/
def hex4 (a b c d : UInt8) : Option Nat := do
  let a ← hexValue a
  let b ← hexValue b
  let c ← hexValue c
  let d ← hexValue d
  some (((a * 16 + b) * 16 + c) * 16 + d)

/-- A code unit as bytes. -/
def utf8 (u : Nat) : List UInt8 :=
  if u < 0x80 then [UInt8.ofNat u]
  else if u < 0x800 then [UInt8.ofNat (0xC0 + u / 64), UInt8.ofNat (0x80 + u % 64)]
  else [UInt8.ofNat (0xE0 + u / 4096), UInt8.ofNat (0x80 + u / 64 % 64),
    UInt8.ofNat (0x80 + u % 64)]

/-- The texts of one character of a string. -/
inductive CharText : List UInt8 → List UInt8 → Prop where
  | raw {c : UInt8} (control : ¬ c < 32) (quote : c ≠ 34) (slash : c ≠ 92) : CharText [c] [c]
  | short {e x : UInt8} (h : shortEscape e = some x) : CharText [x] [92, e]
  | unicode {a b c d : UInt8} {u : Nat} (h : hex4 a b c d = some u) :
      CharText (utf8 u) [92, 117, a, b, c, d]

/-- The texts of a string, without its quotation marks. -/
inductive StringText : List UInt8 → List UInt8 → Prop where
  | nil : StringText [] []
  | cons {x t y u : List UInt8} (head : CharText x t) (tail : StringText y u) :
      StringText (x ++ y) (t ++ u)

/-- The first character of a string, and what comes behind it. -/
def char : List UInt8 → Option (List UInt8 × List UInt8)
  | [] => none
  | c :: t =>
      if c = 92 then
        match t with
        | [] => none
        | e :: t =>
            if e = 117 then
              match t with
              | a :: b :: c :: d :: t => (hex4 a b c d).map fun u => (utf8 u, t)
              | _ => none
            else (shortEscape e).map fun x => ([x], t)
      else if c < 32 then none
      else some ([c], t)

/-- The rest of a string behind its opening quotation mark. -/
def string : Nat → List UInt8 → Option (List UInt8 × List UInt8)
  | 0, _ => none
  | fuel + 1, s =>
      if s.head? = some 34 then some ([], s.tail)
      else do
        let (x, r) ← char s
        let (y, r) ← string fuel r
        some (x ++ y, r)

theorem char_text {x t : List UInt8} (h : CharText x t) (rest : List UInt8) :
    char (t ++ rest) = some (x, rest) ∧ (t ++ rest).head? ≠ some 34 ∧ t ≠ [] := by
  cases h with
  | @raw c control quote slash =>
      refine ⟨?_, by simpa using quote, List.cons_ne_nil _ _⟩
      simp [char, control, slash]
  | @short e x h =>
      have hu : e ≠ 117 := by
        intro heq
        rw [heq] at h
        cases h
      refine ⟨?_, by simp, List.cons_ne_nil _ _⟩
      simp [char, hu, h]
  | unicode h =>
      refine ⟨?_, by simp, List.cons_ne_nil _ _⟩
      simp [char, h]

theorem string_text {s t : List UInt8} (h : StringText s t) {fuel : Nat} (hfuel : t.length < fuel)
    (rest : List UInt8) : string fuel (t ++ 34 :: rest) = some (s, rest) := by
  induction h generalizing fuel with
  | nil =>
      obtain ⟨fuel, rfl⟩ := Nat.exists_eq_succ_of_ne_zero (Nat.ne_of_gt hfuel)
      rfl
  | @cons x t y u head _ ih =>
      obtain ⟨fuel, rfl⟩ := Nat.exists_eq_succ_of_ne_zero (Nat.ne_of_gt (Nat.zero_lt_of_lt hfuel))
      rw [List.append_assoc]
      obtain ⟨hchar, hquote, hne⟩ := char_text head (u ++ 34 :: rest)
      have hlen := List.length_pos_iff.mpr hne
      rw [List.length_append] at hfuel
      unfold string
      rw [if_neg hquote, hchar]
      show (do
        let (y, r) ← string fuel (u ++ 34 :: rest)
        some (x ++ y, r)) = _
      rw [ih (by omega)]
      rfl

/-! ## §3. Values. -/

/-- A value and a text of it. -/
structure Said where
  value : Json
  text : List UInt8

/-- A member of an object and its text. -/
structure Member where
  key : List UInt8
  keyText : List UInt8
  said : Said

def Member.text (m : Member) : List UInt8 := 34 :: (m.keyText ++ 34 :: 58 :: m.said.text)

theorem Member.text_length (m : Member) :
    m.text.length = m.keyText.length + m.said.text.length + 3 := by
  simp [Member.text]
  omega

/-- What stands between two brackets, with commas in between. -/
def commas (l : List (List UInt8)) : List UInt8 := [44].intercalate l

/-- The compact texts of a value. -/
inductive Text : Json → List UInt8 → Prop where
  | null : Text .null [110, 117, 108, 108]
  | true : Text (.bool true) [116, 114, 117, 101]
  | false : Text (.bool false) [102, 97, 108, 115, 101]
  | num {lit : List UInt8} (h : isNumber lit = Bool.true) : Text (.num lit) lit
  | str {s t : List UInt8} (h : StringText s t) : Text (.str s) (34 :: (t ++ [34]))
  | arr {l : List Said} (h : ∀ x ∈ l, Text x.value x.text) :
      Text (.arr (l.map Said.value)) (91 :: (commas (l.map Said.text) ++ [93]))
  | obj {l : List Member} (keys : ∀ m ∈ l, StringText m.key m.keyText)
      (h : ∀ m ∈ l, Text m.said.value m.said.text) :
      Text (.obj (l.map fun m => (m.key, m.said.value)))
        (123 :: (commas (l.map Member.text) ++ [125]))

/-- One item after the other, separated by commas, up to `close`. -/
def items {α : Type} (item : List UInt8 → Option (α × List UInt8)) (close : UInt8) :
    Nat → List UInt8 → Option (List α × List UInt8)
  | 0, _ => none
  | fuel + 1, s => do
      let (a, r) ← item s
      if r.head? = some close then some ([a], r.tail)
      else if r.head? = some 44 then do
        let (l, r) ← items item close fuel r.tail
        some (a :: l, r)
      else none

/-- Items up to `close`, or none. -/
def bracketed {α : Type} (item : List UInt8 → Option (α × List UInt8)) (close : UInt8)
    (fuel : Nat) (s : List UInt8) : Option (List α × List UInt8) :=
  if s.head? = some close then some ([], s.tail) else items item close fuel s

/-- A key, a colon and a value. -/
def member (value : List UInt8 → Option (Json × List UInt8)) (fuel : Nat) (s : List UInt8) :
    Option ((List UInt8 × Json) × List UInt8) :=
  if s.head? = some 34 then do
    let (k, r) ← string fuel s.tail
    if r.head? = some 58 then do
      let (v, r) ← value r.tail
      some ((k, v), r)
    else none
  else none

/-- One of the three names. -/
def name (s : List UInt8) : Option (Json × List UInt8) :=
  if [110, 117, 108, 108] <+: s then some (.null, s.drop 4)
  else if [116, 114, 117, 101] <+: s then some (.bool true, s.drop 4)
  else if [102, 97, 108, 115, 101] <+: s then some (.bool false, s.drop 5)
  else none

/-- The value that a text begins with, and what comes behind it. -/
def value : Nat → List UInt8 → Option (Json × List UInt8)
  | 0, _ => none
  | fuel + 1, s =>
      if s.head? = some 34 then (string fuel s.tail).map fun p => (.str p.1, p.2)
      else if s.head? = some 91 then
        (bracketed (value fuel) 93 fuel s.tail).map fun p => (.arr p.1, p.2)
      else if s.head? = some 123 then
        (bracketed (member (value fuel) fuel) 125 fuel s.tail).map fun p => (.obj p.1, p.2)
      else if isNumber (s.takeWhile isNumberByte) then
        some (.num (s.takeWhile isNumberByte), s.dropWhile isNumberByte)
      else name s

/-- The value of a text, with white space behind it. -/
def decode (s : List UInt8) : Option Json :=
  match value (s.length + 1) s with
  | some (v, r) => if r.all CNumber.isSpace then some v else none
  | none => none

/-! ## §4. The decoder finds what a text says. -/

/-- What a text begins with is no closing bracket. -/
theorem text_head {v : Json} {t : List UInt8} (h : Text v t) :
    ∃ c u, t = c :: u ∧ c ≠ 93 := by
  cases h with
  | null => exact ⟨_, _, rfl, by decide⟩
  | true => exact ⟨_, _, rfl, by decide⟩
  | false => exact ⟨_, _, rfl, by decide⟩
  | num h =>
      obtain ⟨c, u, rfl, hc⟩ := isNumber_head h
      refine ⟨c, u, rfl, ?_⟩
      intro heq
      subst heq
      rcases hc with hc | hc
      · exact absurd hc (by decide)
      · exact absurd hc (by decide)
  | str h => exact ⟨_, _, rfl, by decide⟩
  | arr h => exact ⟨_, _, rfl, by decide⟩
  | obj keys h => exact ⟨_, _, rfl, by decide⟩

/-- What can come behind an item. -/
def Behind (close : UInt8) (r : List UInt8) : Prop :=
  ∃ c t, r = c :: t ∧ (c = 44 ∨ c = close)

section Items

variable {α β : Type} {item : List UInt8 → Option (α × List UInt8)} {close : UInt8}
  {l : List β} {val : β → α} {txt : β → List UInt8}

/-- Items that are each read up to what comes behind them are read in a
row. -/
theorem items_commas (hclose : close ≠ 44) (hne : l ≠ [])
    (hitem : ∀ x ∈ l, ∀ r, Behind close r → item (txt x ++ r) = some (val x, r)) {fuel : Nat}
    (hfuel : l.length ≤ fuel) (rest : List UInt8) :
    items item close fuel (commas (l.map txt) ++ close :: rest) = some (l.map val, rest) := by
  induction l generalizing fuel with
  | nil => exact (hne rfl).elim
  | cons x l ih =>
      obtain ⟨fuel, rfl⟩ := Nat.exists_eq_succ_of_ne_zero (Nat.ne_of_gt (Nat.zero_lt_of_lt hfuel))
      have hhere := hitem x List.mem_cons_self
      unfold items
      by_cases hl : l = []
      · subst hl
        have hread := hhere (close :: rest) ⟨close, rest, rfl, Or.inr rfl⟩
        have htext : commas ([x].map txt) = txt x := List.intercalate_singleton
        rw [htext, hread]
        exact if_pos rfl
      · have hread := hhere (44 :: (commas (l.map txt) ++ close :: rest)) ⟨44, _, rfl, Or.inl rfl⟩
        have htext : commas ((x :: l).map txt) = txt x ++ 44 :: commas (l.map txt) := by
          unfold commas
          rw [List.map_cons, List.intercalate_cons_of_ne_nil (by simpa using hl)]
          simp
        have hrest := ih hl (fun y hy => hitem y (List.mem_cons_of_mem x hy))
          (Nat.le_of_succ_le_succ hfuel)
        have hcomma : ¬ (some (44 : UInt8) = some close) := by
          intro heq
          exact hclose (Option.some.inj heq).symm
        rw [htext, List.append_assoc, List.cons_append, hread]
        show (if some (44 : UInt8) = some close then _ else _) = _
        rw [if_neg hcomma, if_pos List.head?_cons, List.tail_cons, hrest]
        rfl

/-- The same in brackets, when no item begins with the closing one. -/
theorem bracketed_commas (hclose : close ≠ 44)
    (hhead : ∀ x ∈ l, ∃ c u, txt x = c :: u ∧ c ≠ close)
    (hitem : ∀ x ∈ l, ∀ r, Behind close r → item (txt x ++ r) = some (val x, r)) {fuel : Nat}
    (hfuel : l.length ≤ fuel) (rest : List UInt8) :
    bracketed item close fuel (commas (l.map txt) ++ close :: rest) = some (l.map val, rest) := by
  unfold bracketed
  cases l with
  | nil => exact if_pos rfl
  | cons x l =>
      obtain ⟨c, u, hx, hc⟩ := hhead x List.mem_cons_self
      rw [if_neg, items_commas hclose (List.cons_ne_nil _ _) hitem hfuel]
      unfold commas
      rw [List.map_cons, Delimited.intercalate_cons, hx]
      intro heq
      exact hc (Option.some.inj heq)

/-- There are no more items than bytes, and none is longer than all of
them. -/
theorem commas_length (h : ∀ x ∈ l, txt x ≠ []) :
    l.length ≤ (commas (l.map txt)).length ∧
      ∀ x ∈ l, (txt x).length ≤ (commas (l.map txt)).length := by
  have htail : ∀ l : List β, l.length ≤ ((l.map txt).flatMap (44 :: ·)).length ∧
      ∀ x ∈ l, (txt x).length ≤ ((l.map txt).flatMap (44 :: ·)).length := by
    intro l
    induction l with
    | nil => exact ⟨Nat.le_refl 0, fun x hx => by cases hx⟩
    | cons y l ih =>
        rw [List.map_cons, List.flatMap_cons, List.length_append, List.length_cons,
          List.length_cons]
        refine ⟨by omega, fun x hx => ?_⟩
        rcases List.mem_cons.mp hx with rfl | hx
        · omega
        · have := ih.2 x hx
          omega
  cases l with
  | nil => exact ⟨Nat.le_refl 0, fun x hx => by cases hx⟩
  | cons y l =>
      obtain ⟨hcount, hlong⟩ := htail l
      have hpos := List.length_pos_iff.mpr (h y List.mem_cons_self)
      unfold commas
      rw [List.map_cons, Delimited.intercalate_cons, List.length_append, List.length_cons]
      refine ⟨by omega, fun x hx => ?_⟩
      rcases List.mem_cons.mp hx with rfl | hx
      · omega
      · have := hlong x hx
        omega

end Items

/-- Numbers stop where an item ends. -/
theorem stops_behind {close : UInt8} {r : List UInt8} (hclose : isNumberByte close = false)
    (h : Behind close r) : Stops isNumberByte r := by
  obtain ⟨c, t, rfl, hc⟩ := h
  rcases hc with rfl | rfl
  · exact stops_cons (by decide) t
  · exact stops_cons hclose t

/-- Where one of the names stands no number does. -/
theorem value_name {fuel : Nat} {c : UInt8} {u : List UInt8} (hc : isNumberByte c = false)
    (hquote : c ≠ 34) (hbracket : c ≠ 91) (hbrace : c ≠ 123) :
    value (fuel + 1) (c :: u) = name (c :: u) := by
  have htake : (c :: u).takeWhile isNumberByte = [] :=
    List.takeWhile_cons_of_neg (by simp [hc])
  unfold value
  rw [if_neg (by simpa using hquote), if_neg (by simpa using hbracket),
    if_neg (by simpa using hbrace), htake, if_neg (by decide)]

theorem value_num {fuel : Nat} {lit rest : List UInt8} (h : isNumber lit = true)
    (hrest : Stops isNumberByte rest) : value (fuel + 1) (lit ++ rest) = some (.num lit, rest) := by
  have hbytes := isNumber_bytes h
  obtain ⟨c, u, hlit, hc⟩ := isNumber_head h
  have hother : ∀ d : UInt8, isDigit d = false → d ≠ 45 → ¬ (lit ++ rest).head? = some d := by
    intro d hdigit hminus heq
    rw [hlit] at heq
    obtain rfl : c = d := Option.some.inj heq
    rcases hc with hc | hc
    · rw [hdigit] at hc
      cases hc
    · exact hminus hc
  unfold value
  rw [if_neg (hother 34 (by decide) (by decide)), if_neg (hother 91 (by decide) (by decide)),
    if_neg (hother 123 (by decide) (by decide)), takeWhile_run hbytes hrest,
    dropWhile_run hbytes hrest, if_pos h]

/-- A member is read up to what comes behind it. -/
theorem member_text {m : Member} {fuel : Nat} {r : List UInt8} (hkey : StringText m.key m.keyText)
    (hfuel : m.text.length ≤ fuel)
    (hvalue : value fuel (m.said.text ++ r) = some (m.said.value, r)) :
    member (value fuel) fuel (m.text ++ r) = some ((m.key, m.said.value), r) := by
  have hlen : m.keyText.length < fuel := by
    rw [Member.text_length] at hfuel
    omega
  have htext : m.text ++ r = 34 :: (m.keyText ++ 34 :: (58 :: (m.said.text ++ r))) := by
    simp [Member.text]
  unfold member
  rw [htext, if_pos List.head?_cons, List.tail_cons, string_text hkey hlen]
  simp [hvalue]

/-- **A text is read up to what comes behind it.** -/
theorem value_text {v : Json} {t : List UInt8} (h : Text v t) {fuel : Nat}
    (hfuel : t.length < fuel) {rest : List UInt8} (hrest : Stops isNumberByte rest) :
    value fuel (t ++ rest) = some (v, rest) := by
  induction h generalizing fuel rest with
  | null =>
      obtain ⟨fuel, rfl⟩ := Nat.exists_eq_succ_of_ne_zero (Nat.ne_of_gt (Nat.zero_lt_of_lt hfuel))
      exact value_name (by decide) (by decide) (by decide) (by decide)
  | true =>
      obtain ⟨fuel, rfl⟩ := Nat.exists_eq_succ_of_ne_zero (Nat.ne_of_gt (Nat.zero_lt_of_lt hfuel))
      exact value_name (by decide) (by decide) (by decide) (by decide)
  | false =>
      obtain ⟨fuel, rfl⟩ := Nat.exists_eq_succ_of_ne_zero (Nat.ne_of_gt (Nat.zero_lt_of_lt hfuel))
      exact value_name (by decide) (by decide) (by decide) (by decide)
  | num h =>
      obtain ⟨fuel, rfl⟩ := Nat.exists_eq_succ_of_ne_zero (Nat.ne_of_gt (Nat.zero_lt_of_lt hfuel))
      exact value_num h hrest
  | @str s t h =>
      obtain ⟨fuel, rfl⟩ := Nat.exists_eq_succ_of_ne_zero (Nat.ne_of_gt (Nat.zero_lt_of_lt hfuel))
      have htext : 34 :: (t ++ [34]) ++ rest = 34 :: (t ++ 34 :: rest) := by simp
      rw [List.length_cons, List.length_append] at hfuel
      unfold value
      rw [htext, if_pos List.head?_cons, List.tail_cons, string_text h (by omega)]
      rfl
  | @arr l htexts ih =>
      obtain ⟨fuel, rfl⟩ := Nat.exists_eq_succ_of_ne_zero (Nat.ne_of_gt (Nat.zero_lt_of_lt hfuel))
      have hhead : ∀ x ∈ l, ∃ c u, x.text = c :: u ∧ c ≠ 93 := fun x hx => text_head (htexts x hx)
      have hne : ∀ x ∈ l, x.text ≠ [] := by
        intro x hx
        obtain ⟨c, u, hc, -⟩ := hhead x hx
        rw [hc]
        exact List.cons_ne_nil c u
      obtain ⟨hcount, hlong⟩ := commas_length hne
      have htext : 91 :: (commas (l.map Said.text) ++ [93]) ++ rest =
          91 :: (commas (l.map Said.text) ++ 93 :: rest) := by simp
      rw [List.length_cons, List.length_append] at hfuel
      -- an element is shorter than the array, so there is fuel for it
      have hitem : ∀ x ∈ l, ∀ r, Behind 93 r → value fuel (x.text ++ r) = some (x.value, r) := by
        intro x hx r hr
        have := hlong x hx
        exact ih x hx (by omega) (stops_behind (by decide) hr)
      unfold value
      rw [htext, if_neg (by simp), if_pos List.head?_cons, List.tail_cons,
        bracketed_commas (by decide) hhead hitem (by omega)]
      rfl
  | @obj l keys htexts ih =>
      obtain ⟨fuel, rfl⟩ := Nat.exists_eq_succ_of_ne_zero (Nat.ne_of_gt (Nat.zero_lt_of_lt hfuel))
      have hhead : ∀ m ∈ l, ∃ c u, m.text = c :: u ∧ c ≠ 125 :=
        fun m _ => ⟨34, _, rfl, by decide⟩
      have hne : ∀ m ∈ l, m.text ≠ [] := fun m _ => List.cons_ne_nil _ _
      obtain ⟨hcount, hlong⟩ := commas_length hne
      have htext : 123 :: (commas (l.map Member.text) ++ [125]) ++ rest =
          123 :: (commas (l.map Member.text) ++ 125 :: rest) := by simp
      rw [List.length_cons, List.length_append] at hfuel
      have hitem : ∀ m ∈ l, ∀ r, Behind 125 r →
          member (value fuel) fuel (m.text ++ r) = some ((m.key, m.said.value), r) := by
        intro m hm r hr
        have hlen := hlong m hm
        have hshort : m.said.text.length < fuel := by
          rw [Member.text_length] at hlen
          omega
        exact member_text (keys m hm) (by omega)
          (ih m hm hshort (stops_behind (by decide) hr))
      unfold value
      rw [htext, if_neg (by simp), if_neg (by simp), if_pos List.head?_cons, List.tail_cons,
        bracketed_commas (by decide) hhead hitem (by omega)]
      rfl

/-- White space is in no number. -/
theorem isNumberByte_of_isSpace {c : UInt8} (h : CNumber.isSpace c = true) :
    isNumberByte c = false := by
  by_contra hno
  have hyes : isNumberByte c = true := by simpa using hno
  unfold isNumberByte at hyes
  simp only [Bool.or_eq_true, beq_iff_eq] at hyes
  rcases hyes with ((((hdigit | rfl) | rfl) | rfl) | rfl) | rfl
  · rw [CNumber.not_isSpace_of_isDigit hdigit] at h
    cases h
  all_goals exact absurd h (by decide)

/-- **The decoder finds the value that a text says.** -/
theorem decode_text {v : Json} {t ws : List UInt8} (h : Text v t)
    (hws : ∀ c ∈ ws, CNumber.isSpace c = true) : decode (t ++ ws) = some v := by
  have hstops : Stops isNumberByte ws := by
    intro c u heq
    exact isNumberByte_of_isSpace (hws c (heq ▸ List.mem_cons_self))
  have hfuel : t.length < (t ++ ws).length + 1 := by
    rw [List.length_append]
    omega
  unfold decode
  rw [value_text h hfuel hstops]
  exact if_pos (List.all_eq_true.mpr hws)

/-! ## §5. Values with a text of theirs. -/

/-- A value and a text of it. -/
structure Phrase where
  value : Json
  text : List UInt8
  valid : Text value text

/-- A byte that stands for itself in a string. -/
def isPlain (c : UInt8) : Bool := !decide (c < 32) && c != 34 && c != 92

theorem isPlain_of_isDigit {c : UInt8} (h : isDigit c = true) : isPlain c = true := by
  unfold isDigit at h
  simp only [Bool.and_eq_true, decide_eq_true_eq, UInt8.le_iff_toNat_le, UInt8.reduceToNat] at h
  simp only [isPlain, Bool.and_eq_true, Bool.not_eq_true', decide_eq_false_iff_not, bne_iff_ne,
    ne_eq, UInt8.lt_iff_toNat_lt, ← UInt8.toNat_inj, UInt8.reduceToNat]
  omega

theorem stringText_plain {s : List UInt8} (h : ∀ c ∈ s, isPlain c = true) : StringText s s := by
  induction s with
  | nil => exact .nil
  | cons c s ih =>
      have hc := h c List.mem_cons_self
      simp only [isPlain, Bool.and_eq_true, Bool.not_eq_true', decide_eq_false_iff_not,
        bne_iff_ne] at hc
      exact .cons (.raw hc.1.1 hc.1.2 hc.2) (ih fun d hd => h d (List.mem_cons_of_mem c hd))

namespace Phrase

def num (lit : List UInt8) (h : isNumber lit = true) : Phrase := ⟨.num lit, lit, .num h⟩

def int (n : Int) : Phrase := num (decimal n) (isNumber_decimal n)

/-- A string that needs no escapes. -/
def plain (s : List UInt8) (h : ∀ c ∈ s, isPlain c = true) : Phrase :=
  ⟨.str s, 34 :: (s ++ [34]), .str (stringText_plain h)⟩

def arr (l : List Phrase) : Phrase where
  value := .arr (l.map Phrase.value)
  text := 91 :: (commas (l.map Phrase.text) ++ [93])
  valid := by
    have hall : ∀ x ∈ l.map (fun p => Said.mk p.value p.text), Text x.value x.text := by
      intro x hx
      obtain ⟨p, -, rfl⟩ := List.mem_map.mp hx
      exact p.valid
    have hvalid := Text.arr hall
    rw [List.map_map, List.map_map] at hvalid
    exact hvalid

/-- The text of a member with a plain key. -/
def memberText (p : List UInt8 × Phrase) : List UInt8 := 34 :: (p.1 ++ 34 :: 58 :: p.2.text)

def obj (l : List (List UInt8 × Phrase)) (h : ∀ p ∈ l, ∀ c ∈ p.1, isPlain c = true) : Phrase where
  value := .obj (l.map fun p => (p.1, p.2.value))
  text := 123 :: (commas (l.map memberText) ++ [125])
  valid := by
    have hkeys : ∀ m ∈ l.map (fun p => Member.mk p.1 p.1 ⟨p.2.value, p.2.text⟩),
        StringText m.key m.keyText := by
      intro m hm
      obtain ⟨p, hp, rfl⟩ := List.mem_map.mp hm
      exact stringText_plain (h p hp)
    have hall : ∀ m ∈ l.map (fun p => Member.mk p.1 p.1 ⟨p.2.value, p.2.text⟩),
        Text m.said.value m.said.text := by
      intro m hm
      obtain ⟨p, -, rfl⟩ := List.mem_map.mp hm
      exact p.2.valid
    have hvalid := Text.obj hkeys hall
    rw [List.map_map, List.map_map] at hvalid
    exact hvalid

end Phrase

/-! ## §6. Reading values. -/

/-- A member is found under its key when no key is there twice. -/
theorem lookup_of_mem {l : List (List UInt8 × Json)} {p : List UInt8 × Json}
    (hkeys : (l.map Prod.fst).Nodup) (hp : p ∈ l) : l.lookup p.1 = some p.2 := by
  induction l with
  | nil => cases hp
  | cons q l ih =>
      rw [List.map_cons, List.nodup_cons] at hkeys
      rcases List.mem_cons.mp hp with rfl | hp
      · exact List.lookup_cons_self
      · have hother : (p.1 == q.1) = false := by
          rw [beq_eq_false_iff_ne]
          intro heq
          exact hkeys.1 (heq ▸ List.mem_map_of_mem hp)
        rw [List.lookup_cons, hother]
        exact ih hkeys.2 hp

/-- The member of an object. -/
def get? (key : List UInt8) : Json → Option Json
  | .obj l => l.lookup key
  | _ => none

/-- The bytes of a string. -/
def str? : Json → Option (List UInt8)
  | .str s => some s
  | _ => none

theorem eq_str_of_str? {v : Json} {s : List UInt8} (h : v.str? = some s) : v = .str s := by
  cases v with
  | str t =>
      obtain rfl : t = s := Option.some.inj h
      rfl
  | null => cases h
  | bool b => cases h
  | num lit => cases h
  | arr l => cases h
  | obj l => cases h

/-- The integer that a number is. -/
def toInt? : Json → Option Int
  | .num lit =>
      match CNumber.scanInt lit with
      | some x => if x.rest = [] then some x.value else none
      | none => none
  | _ => none

/-- An integer that was printed. -/
theorem toInt?_int (n : Int) : toInt? (Phrase.int n).value = some n := by
  obtain ⟨x, hscan, hrest, hvalue⟩ := CNumber.scanInt_decimal n stops_nil
  rw [List.append_nil] at hscan
  show toInt? (.num (decimal n)) = some n
  simp [toInt?, hscan, hrest, hvalue]

end Json
