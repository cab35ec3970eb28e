/-
  ItbCpp.Lib.FormUrl
  ──────────────────
  **URL-ENCODED FORMS.**

  The reader of an `application/x-www-form-urlencoded` query, over bytes:
  split at `&`, drop empty parts, cut each part at its first `=`, and
  decode both sides (`%XX` escapes, `+` for a space).  Nothing in it knows
  how the query was written.

  A writer escapes every byte outside a `safe` class of its own choice.
  Main results:

    • `decode_percentEncode` — decoding undoes escaping whenever `%` and
      `+` are escaped,
    • `parse_render` — reading a rendered list of pairs gives the list
      back whenever `%`, `+`, `&` and `=` are escaped.
-/
import Mathlib.Data.List.Basic

namespace FormUrl

abbrev Bytes := List UInt8

/-! ## §1. The reader. -/

/-- The value of a hexadecimal digit of either case. -/
def hexValue (b : UInt8) : Option UInt8 :=
  if 48 ≤ b ∧ b ≤ 57 then some (b - 48)
  else if 65 ≤ b ∧ b ≤ 70 then some (b - 55)
  else if 97 ≤ b ∧ b ≤ 102 then some (b - 87)
  else none

/-- Form decoding; `none` on a broken escape. -/
def decode : Bytes → Option Bytes
  | [] => some []
  | b :: rest =>
      if b = 37 then
        match rest with
        | hi :: lo :: rest' => do
            let x ← hexValue hi
            let y ← hexValue lo
            (decode rest').map ((16 * x + y) :: ·)
        | _ => none
      else (decode rest).map ((if b = 43 then 32 else b) :: ·)

/-- Cut at the first `=`; a part without one is a key with no value. -/
def cut (part : Bytes) : Bytes × Bytes :=
  (part.takeWhile (· != 61), (part.dropWhile (· != 61)).drop 1)

/-- One part, both sides decoded. -/
def readPart (part : Bytes) : Option (Bytes × Bytes) := do
  let k ← decode (cut part).1
  let v ← decode (cut part).2
  pure (k, v)

/-- The pairs of a query, in order. -/
def parse (query : Bytes) : Option (List (Bytes × Bytes)) :=
  ((query.splitOn 38).filter (· ≠ [])).mapM readPart

/-! ## §2. The writer. -/

/-- The upper-case hexadecimal digit of a value below 16. -/
def hexDigit (v : UInt8) : UInt8 := if v < 10 then 48 + v else 55 + v

/-- One byte, escaped unless it is safe. -/
def percentByte (safe : UInt8 → Bool) (b : UInt8) : Bytes :=
  if safe b then [b] else [37, hexDigit (b >>> 4), hexDigit (b &&& 15)]

def percentEncode (safe : UInt8 → Bool) (s : Bytes) : Bytes := s.flatMap (percentByte safe)

/-- `key=value`. -/
def renderPair (safe : UInt8 → Bool) (p : Bytes × Bytes) : Bytes :=
  percentEncode safe p.1 ++ 61 :: percentEncode safe p.2

/-- The pairs joined with `&`. -/
def render (safe : UInt8 → Bool) (ps : List (Bytes × Bytes)) : Bytes :=
  [38].intercalate (ps.map (renderPair safe))

/-! ## §3. One byte. -/

/-- An escape is read back, whatever the byte. -/
theorem hexValue_hexDigit (b : UInt8) :
    hexValue (hexDigit (b >>> 4)) = some (b >>> 4) ∧
      hexValue (hexDigit (b &&& 15)) = some (b &&& 15) ∧
      (16 : UInt8) * (b >>> 4) + (b &&& 15) = b := by
  -- 256 bytes, by evaluation
  have all : ∀ n : Fin 256,
      hexValue (hexDigit (UInt8.ofFin n >>> 4)) = some (UInt8.ofFin n >>> 4) ∧
        hexValue (hexDigit (UInt8.ofFin n &&& 15)) = some (UInt8.ofFin n &&& 15) ∧
        (16 : UInt8) * (UInt8.ofFin n >>> 4) + (UInt8.ofFin n &&& 15) = UInt8.ofFin n := by
    decide +kernel
  exact all b.toFin

/-- An escape is made of `%` and hexadecimal digits. -/
theorem hexDigit_upper (b : UInt8) :
    hexValue (hexDigit (b >>> 4)) ≠ none ∧ hexValue (hexDigit (b &&& 15)) ≠ none := by
  obtain ⟨hhi, hlo, _⟩ := hexValue_hexDigit b
  rw [hhi, hlo]
  exact ⟨by simp, by simp⟩

theorem decode_cons {b : UInt8} (hb : b ≠ 37) (rest : Bytes) :
    decode (b :: rest) = (decode rest).map ((if b = 43 then 32 else b) :: ·) := by
  rw [decode.eq_def]
  simp only [if_neg hb]

theorem decode_escape (hi lo : UInt8) (rest : Bytes) :
    decode (37 :: hi :: lo :: rest) = (hexValue hi).bind fun x => (hexValue lo).bind fun y =>
      (decode rest).map ((16 * x + y) :: ·) := by
  rw [decode.eq_def]
  rfl

theorem decode_percentByte {safe : UInt8 → Bool} (hpct : safe 37 = false)
    (hplus : safe 43 = false) (b : UInt8) (rest : Bytes) :
    decode (percentByte safe b ++ rest) = (decode rest).map (b :: ·) := by
  unfold percentByte
  cases hb : safe b with
  | true =>
      have h37 : b ≠ 37 := by
        intro heq
        subst heq
        rw [hpct] at hb
        cases hb
      have h43 : b ≠ 43 := by
        intro heq
        subst heq
        rw [hplus] at hb
        cases hb
      rw [if_pos rfl]
      show decode (b :: rest) = _
      rw [decode_cons h37, if_neg h43]
  | false =>
      obtain ⟨hhi, hlo, hsum⟩ := hexValue_hexDigit b
      rw [if_neg (by simp)]
      show decode (37 :: hexDigit (b >>> 4) :: hexDigit (b &&& 15) :: rest) = _
      rw [decode_escape, hhi, hlo, Option.bind_some, Option.bind_some, hsum]

/-- **Decoding undoes escaping.** -/
theorem decode_percentEncode {safe : UInt8 → Bool} (hpct : safe 37 = false)
    (hplus : safe 43 = false) (s : Bytes) : decode (percentEncode safe s) = some s := by
  induction s with
  | nil => rfl
  | cons b s ih =>
      show decode (percentByte safe b ++ percentEncode safe s) = _
      rw [decode_percentByte hpct hplus, ih]
      rfl

/-! ## §4. Where the separators are. -/

/-- What an escaped byte can consist of. -/
theorem mem_percentByte {safe : UInt8 → Bool} {b c : UInt8} (h : c ∈ percentByte safe b) :
    safe c = true ∨ c = 37 ∨ hexValue c ≠ none := by
  unfold percentByte at h
  split at h
  next hb =>
      rw [List.mem_singleton] at h
      exact Or.inl (h ▸ hb)
  next =>
      obtain ⟨hhi, hlo⟩ := hexDigit_upper b
      rcases List.mem_cons.mp h with h | h
      · exact Or.inr (Or.inl h)
      · rcases List.mem_cons.mp h with h | h
        · exact Or.inr (Or.inr (h ▸ hhi))
        · rw [List.mem_singleton] at h
          exact Or.inr (Or.inr (h ▸ hlo))

theorem mem_percentEncode {safe : UInt8 → Bool} {s : Bytes} {c : UInt8}
    (h : c ∈ percentEncode safe s) : safe c = true ∨ c = 37 ∨ hexValue c ≠ none := by
  obtain ⟨b, _, hc⟩ := List.mem_flatMap.mp h
  exact mem_percentByte hc

/-- An unsafe byte that is neither `%` nor a hexadecimal digit does not
occur in an escaped string. -/
theorem notMem_percentEncode {safe : UInt8 → Bool} {c : UInt8} (hsafe : safe c = false)
    (hpct : c ≠ 37) (hhex : hexValue c = none) (s : Bytes) : c ∉ percentEncode safe s := by
  intro h
  -- safe, a percent sign or a digit: each is excluded
  rcases mem_percentEncode h with h | h | h
  · rw [hsafe] at h; cases h
  · exact hpct h
  · exact h hhex

theorem cut_append {k : Bytes} (hk : 61 ∉ k) (v : Bytes) : cut (k ++ 61 :: v) = (k, v) := by
  have hall : ∀ b ∈ k, (b != 61) = true := by
    intro b hb
    simp only [bne_iff_ne, ne_eq]
    intro heq
    subst heq
    exact hk hb
  have htake : (k ++ 61 :: v).takeWhile (· != 61) = k := by
    rw [List.takeWhile_append_of_pos hall]
    simp
  have hdrop : (k ++ 61 :: v).dropWhile (· != 61) = 61 :: v := by
    rw [List.dropWhile_append_of_pos hall]
    simp
  rw [cut, htake, hdrop]
  rfl

/-! ## §5. The round trip. -/

theorem readPart_renderPair {safe : UInt8 → Bool} (hpct : safe 37 = false)
    (hplus : safe 43 = false) (heq : safe 61 = false) (p : Bytes × Bytes) :
    readPart (renderPair safe p) = some p := by
  have hk : 61 ∉ percentEncode safe p.1 :=
    notMem_percentEncode heq (by decide) (by decide) p.1
  unfold readPart renderPair
  rw [cut_append hk, decode_percentEncode hpct hplus, decode_percentEncode hpct hplus]
  rfl

theorem amp_notMem_renderPair {safe : UInt8 → Bool} (hamp : safe 38 = false)
    (p : Bytes × Bytes) : 38 ∉ renderPair safe p := by
  intro h
  have hnot : ∀ s, 38 ∉ percentEncode safe s :=
    notMem_percentEncode hamp (by decide) (by decide)
  rcases List.mem_append.mp h with h | h
  · exact hnot _ h
  · rcases List.mem_cons.mp h with h | h
    · exact absurd h (by decide)
    · exact hnot _ h

theorem renderPair_ne_nil (safe : UInt8 → Bool) (p : Bytes × Bytes) : renderPair safe p ≠ [] := by
  simp [renderPair]

theorem mapM_readPart {safe : UInt8 → Bool} (hpct : safe 37 = false) (hplus : safe 43 = false)
    (heq : safe 61 = false) (ps : List (Bytes × Bytes)) :
    (ps.map (renderPair safe)).mapM readPart = some ps := by
  induction ps with
  | nil => rfl
  | cons p ps ih =>
      rw [List.map_cons, List.mapM_cons, readPart_renderPair hpct hplus heq, ih]
      rfl

/-- **Reading a rendered list of pairs gives the list back.** -/
theorem parse_render {safe : UInt8 → Bool} (hpct : safe 37 = false) (hplus : safe 43 = false)
    (hamp : safe 38 = false) (heq : safe 61 = false) (ps : List (Bytes × Bytes)) :
    parse (render safe ps) = some ps := by
  cases ps with
  | nil => rfl
  | cons p ps =>
      -- no part holds an `&`, so the split undoes the join
      have hparts : (render safe (p :: ps)).splitOn 38 = (p :: ps).map (renderPair safe) := by
        refine List.splitOn_intercalate 38 ?_ (by simp)
        intro part hpart
        obtain ⟨q, _, rfl⟩ := List.mem_map.mp hpart
        exact amp_notMem_renderPair hamp q
      -- every part has its `=`, so none is dropped as empty
      have hfull : ((p :: ps).map (renderPair safe)).filter (· ≠ []) =
          (p :: ps).map (renderPair safe) := by
        rw [List.filter_eq_self]
        intro part hpart
        obtain ⟨q, _, rfl⟩ := List.mem_map.mp hpart
        simp [renderPair_ne_nil]
      rw [parse, hparts, hfull, mapM_readPart hpct hplus heq]

end FormUrl
