/-
  ItbCpp.Loop.Rendering
  ─────────────────────
  **DURATIONS AS THEY ARE PRINTED** (`loop/size.cpp`).

  `human_duration` cuts a number of nanoseconds into hours, minutes, seconds
  and a fraction, or into milliseconds and a fraction.  `Rendered` is a text
  of that form by its parts; its fields are what the comment says of them.

    • `appendFraction_spec` — the digits after the point are the fraction,
      trimmed,
    • `Rendered.duration` — such a text is a duration of the grammar of
      `parse_duration`, for the exact value of its parts,
    • `humanDuration_exact` — what is printed is such a text, its value is
      the number of nanoseconds, and no other number prints the same.
-/
import ItbCpp.Loop.Durations
import Mathlib.Tactic.FieldSimp
import Mathlib.Tactic.Positivity

namespace ItbCpp.Loop

open CNumber (isDigit natDecimal decimal padded trimZeros value)
open Strtod (Decimal)

/-! ## §1. The code. -/

/-- `append_fraction`. -/
def appendFraction (out : Bytes) (fracNs : Int) : Bytes :=
  if fracNs = 0 then out
  else
    let digits := padded 9 fracNs
    -- `pop_back` while the last digit is a zero
    let digits := trimZeros digits
    out ++ text "." ++ digits

/-- `human_duration`.  The source's `-ns` is undefined for the smallest 64-bit
value. -/
def humanDuration (ns : Int) : Bytes :=
  let ns := if ns < 0 then -ns else ns
  if ns = 0 then text "0s"
  else if ns < 1000000000 then
    let out := decimal (ns.tdiv 1000000)
    let out := appendFraction out (ns.tmod 1000000 * 1000) -- scale to 9 digits
    out ++ text "ms"
  else
    let hours := ns.tdiv 3600000000000
    let rem := ns.tmod 3600000000000
    let minutes := rem.tdiv 60000000000
    let rem := rem.tmod 60000000000
    let seconds := rem.tdiv 1000000000
    let frac := rem.tmod 1000000000
    let out := if hours > 0 then decimal hours ++ text "h" else []
    let out := if hours > 0 ∨ minutes > 0 then out ++ decimal minutes ++ text "m" else out
    let out := out ++ decimal seconds
    let out := appendFraction out frac
    out ++ text "s"

/-! ## §2. Rendered durations. -/

/-- The last unit of a rendered duration. -/
inductive LastUnit where
  | s | ms
  deriving DecidableEq, Repr

def LastUnit.text : LastUnit → Bytes
  | .s => ItbCpp.text "s"
  | .ms => ItbCpp.text "ms"

def LastUnit.ns : LastUnit → Nat
  | .s => 10 ^ 9
  | .ms => 10 ^ 6

/-- **A rendered duration**: `[Hh][Mm]S[.frac]s` or `X[.frac]ms`.  Without
digits after the point there is no point. -/
structure Rendered where
  hours : Option Nat
  minutes : Option Nat
  whole : Nat
  frac : Bytes
  unit : LastUnit
  /-- milliseconds stand alone -/
  alone : unit = .ms → hours = none ∧ minutes = none
  /-- the minutes are there whenever the hours are -/
  present : hours.isSome → minutes.isSome
  minutesBelow : hours.isSome → ∀ m, minutes = some m → m < 60
  secondsBelow : minutes.isSome → whole < 60
  digits : ∀ c ∈ frac, isDigit c = true
  /-- no zero at the end -/
  trimmed : frac.getLast? ≠ some 48

/-- A part that may be left out. -/
def leading (n : Option Nat) (unit : Bytes) : Bytes :=
  match n with
  | none => []
  | some n => natDecimal n ++ unit

/-- The digits behind a point. -/
def pointed (frac : Bytes) : Bytes := if frac = [] then [] else 46 :: frac

/-- What digits behind a point denote. -/
def fraction (frac : Bytes) : ℚ := value frac / 10 ^ frac.length

def Rendered.text (r : Rendered) : Bytes :=
  leading r.hours (ItbCpp.text "h") ++ (leading r.minutes (ItbCpp.text "m") ++
    (natDecimal r.whole ++ pointed r.frac ++ r.unit.text))

/-- Its exact value in nanoseconds. -/
def Rendered.value (r : Rendered) : ℚ :=
  r.hours.getD 0 * (3600 * 10 ^ 9 : ℕ) + (r.minutes.getD 0 * (60 * 10 ^ 9 : ℕ) +
    (r.whole + fraction r.frac) * r.unit.ns)

/-! ## §3. They are durations. -/

/-- A whole number and the digits behind a point. -/
theorem decimal_pointed (whole : Nat) {frac : Bytes} (hdigits : ∀ c ∈ frac, isDigit c = true) :
    Decimal (natDecimal whole ++ pointed frac) (whole + fraction frac) := by
  obtain ⟨hne, hwhole, hvalue⟩ := CNumber.natDecimal_spec whole
  by_cases hfrac : frac = []
  · have hzero : (whole : ℚ) + fraction frac = value (natDecimal whole) := by
      rw [hvalue, hfrac]
      simp [fraction, value]
    rw [hzero, pointed, if_pos hfrac, List.append_nil]
    exact .whole hne hwhole
  · have hsum : (whole : ℚ) + fraction frac =
        value (natDecimal whole ++ frac) / 10 ^ frac.length := by
      rw [CNumber.value_append, hvalue, fraction, Nat.cast_add, Nat.cast_mul, Nat.cast_pow,
        Nat.cast_ofNat, add_div, mul_div_assoc, div_self (by positivity), mul_one]
    rw [hsum, pointed, if_neg hfrac]
    refine .point (by simp [hfrac]) ?_
    intro c hc
    rcases List.mem_append.mp hc with hc | hc
    · exact hwhole c hc
    · exact hdigits c hc

/-- A part in front, if it is there. -/
theorem duration_leading {n : Option Nat} {unit s : Bytes} {ns : Nat} {t : ℚ}
    (known : (unit, ns) ∈ durationUnits) (h : Duration s t) :
    Duration (leading n unit ++ s) (n.getD 0 * ns + t) := by
  cases n with
  | none => simpa [leading] using h
  | some n =>
      obtain ⟨hne, hdigits, hvalue⟩ := CNumber.natDecimal_spec n
      have number : Decimal (natDecimal n) (value (natDecimal n)) := .whole hne hdigits
      rw [hvalue] at number
      have hcons := Duration.cons number known h
      simpa [leading, List.append_assoc] using hcons

/-- **A rendered duration is a duration**, for its exact value. -/
theorem Rendered.duration (r : Rendered) : Duration r.text r.value := by
  have hlast : Duration (natDecimal r.whole ++ pointed r.frac ++ r.unit.text)
      ((r.whole + fraction r.frac) * r.unit.ns) := by
    refine .single (decimal_pointed r.whole r.digits) ?_
    cases r.unit <;> decide
  exact duration_leading (by decide) (duration_leading (by decide) hlast)

/-- A text has one exact value. -/
theorem duration_unique {s : Bytes} {t t' : ℚ} (h : Duration s t) (h' : Duration s t') :
    t = t' := by
  obtain ⟨l, hl, -, -, rfl⟩ := duration_iff.mp h
  obtain ⟨l', hl', -, -, rfl⟩ := duration_iff.mp h'
  rw [hl] at hl'
  rw [Option.some.inj hl']

/-! ## §4. The fraction. -/

/-- **The digits after the point**: trimmed, and for the fraction they are given. -/
theorem appendFraction_spec {f : Nat} (hf : f < 10 ^ 9) :
    ∃ fs, (∀ c ∈ fs, isDigit c = true) ∧ fs.getLast? ≠ some 48 ∧
      fraction fs * 10 ^ 9 = f ∧ ∀ out, appendFraction out f = out ++ pointed fs := by
  by_cases hzero : f = 0
  · subst hzero
    refine ⟨[], by simp, by simp, by simp [fraction, value], ?_⟩
    intro out
    exact (List.append_nil out).symm
  obtain ⟨hlen, hdigits, hvalue⟩ := CNumber.padded_spec (show 0 < 9 by decide) hf
  obtain ⟨k, hcut, hpow⟩ := CNumber.trimZeros_spec (padded 9 f)
  rw [hlen] at hcut
  rw [hvalue] at hpow
  -- something is left of a fraction that is not zero
  have hne : trimZeros (padded 9 f) ≠ [] := by
    intro hnil
    rw [hnil] at hpow
    simp [value] at hpow
    omega
  refine ⟨trimZeros (padded 9 f), fun c hc => hdigits c (CNumber.mem_trimZeros hc),
    CNumber.trimZeros_last _, ?_, ?_⟩
  · have hnine : (10 : ℚ) ^ 9 = 10 ^ (trimZeros (padded 9 f)).length * 10 ^ k := by
      rw [← pow_add, ← hcut]
    rw [fraction, hnine, ← mul_assoc, div_mul_cancel₀ _ (by positivity)]
    exact_mod_cast hpow.symm
  · intro out
    have hcast : (f : Int) ≠ 0 := by omega
    rw [appendFraction, if_neg hcast, pointed, if_neg hne, List.append_assoc]
    rfl

/-! ## §5. What is printed. -/

theorem decimal_natCast (n : Nat) : decimal n = natDecimal n := by
  unfold decimal
  rw [if_neg (by omega), Int.natAbs_natCast]

/-- Below a second, on natural numbers. -/
theorem humanDuration_below {n : Nat} (hpos : 0 < n) (hlt : n < 1000000000) :
    humanDuration n =
      appendFraction (natDecimal (n / 1000000)) (n % 1000000 * 1000 : ℕ) ++ text "ms" := by
  have hsign : (if (n : Int) < 0 then -(n : Int) else n) = n := if_neg (by omega)
  have hne : ¬ (n : Int) = 0 := by omega
  have hbelow : (n : Int) < 1000000000 := by omega
  unfold humanDuration
  simp only [hsign]
  rw [if_neg hne, if_pos hbelow]
  show appendFraction (decimal ((n / 1000000 : ℕ) : Int)) (n % 1000000 * 1000 : ℕ) ++ _ = _
  rw [decimal_natCast]

/-- From a second on, on natural numbers. -/
theorem humanDuration_above {n hours minutes : Nat} (hge : 1000000000 ≤ n)
    (hhours : n / 3600000000000 = hours)
    (hminutes : n % 3600000000000 / 60000000000 = minutes) :
    humanDuration n =
      appendFraction
        ((if hours > 0 ∨ minutes > 0 then
            (if hours > 0 then natDecimal hours ++ text "h" else []) ++
              natDecimal minutes ++ text "m"
          else if hours > 0 then natDecimal hours ++ text "h" else []) ++
          natDecimal (n % 3600000000000 % 60000000000 / 1000000000))
        (n % 3600000000000 % 60000000000 % 1000000000 : ℕ) ++ text "s" := by
  have hsign : (if (n : Int) < 0 then -(n : Int) else n) = n := if_neg (by omega)
  have hne : ¬ (n : Int) = 0 := by omega
  have habove : ¬ (n : Int) < 1000000000 := by omega
  have hh : (n : Int).tdiv 3600000000000 = hours := by
    rw [← hhours]
    rfl
  have hm : ((n : Int).tmod 3600000000000).tdiv 60000000000 = minutes := by
    rw [← hminutes]
    rfl
  have hs : (((n : Int).tmod 3600000000000).tmod 60000000000).tdiv 1000000000 =
      (n % 3600000000000 % 60000000000 / 1000000000 : ℕ) := rfl
  have hf : (((n : Int).tmod 3600000000000).tmod 60000000000).tmod 1000000000 =
      (n % 3600000000000 % 60000000000 % 1000000000 : ℕ) := rfl
  unfold humanDuration
  simp only [hsign]
  rw [if_neg hne, if_neg habove, hh, hm, hs, hf]
  simp only [decimal_natCast, gt_iff_lt, Int.natCast_pos]

/-- Below a second: milliseconds. -/
theorem humanDuration_ms {n : Nat} (hpos : 0 < n) (hlt : n < 1000000000) :
    ∃ r : Rendered, r.text = humanDuration n ∧ r.value = n := by
  obtain ⟨fs, hdigits, hlast, hvalue, hout⟩ :=
    appendFraction_spec (f := n % 1000000 * 1000) (by omega)
  refine ⟨⟨none, none, n / 1000000, fs, .ms, fun _ => ⟨rfl, rfl⟩, fun h => h,
    fun h => (Bool.false_ne_true h).elim, fun h => (Bool.false_ne_true h).elim, hdigits, hlast⟩,
    ?_, ?_⟩
  · rw [humanDuration_below hpos hlt, hout]
    rfl
  · show ((none : Option Nat).getD 0 : ℚ) * _ + (((none : Option Nat).getD 0 : ℚ) * _ +
      ((n / 1000000 : ℕ) + fraction fs) * (10 ^ 6 : ℕ)) = n
    have hsplit : n / 1000000 * 10 ^ 6 * 1000 + n % 1000000 * 1000 = n * 1000 := by omega
    have hcast : ((n / 1000000 : ℕ) : ℚ) * 10 ^ 6 * 1000 + fraction fs * 10 ^ 9 = n * 1000 := by
      rw [hvalue]
      exact_mod_cast hsplit
    simp only [Option.getD_none, Nat.cast_zero, zero_mul, zero_add]
    push_cast
    linarith

/-- A part that is left out is 0. -/
theorem getD_ite_some {p : Prop} [Decidable p] {n : Nat} (h : ¬ p → n = 0) :
    (if p then some n else none).getD 0 = n := by
  by_cases hp : p
  · rw [if_pos hp, Option.getD_some]
  · rw [if_neg hp, Option.getD_none, h hp]

/-- From a second on: hours and minutes as far as they are needed. -/
theorem humanDuration_clock {n : Nat} (hge : 1000000000 ≤ n) :
    ∃ r : Rendered, r.text = humanDuration n ∧ r.value = n := by
  obtain ⟨hours, hhours⟩ : ∃ hours, n / 3600000000000 = hours := ⟨_, rfl⟩
  obtain ⟨minutes, hminutes⟩ : ∃ minutes, n % 3600000000000 / 60000000000 = minutes := ⟨_, rfl⟩
  obtain ⟨seconds, hseconds⟩ :
      ∃ seconds, n % 3600000000000 % 60000000000 / 1000000000 = seconds := ⟨_, rfl⟩
  obtain ⟨fs, hdigits, hlast, hvalue, hout⟩ :=
    appendFraction_spec (f := n % 3600000000000 % 60000000000 % 1000000000) (by omega)
  refine ⟨⟨if hours > 0 then some hours else none,
    if hours > 0 ∨ minutes > 0 then some minutes else none, seconds, fs, .s,
    (fun h => by cases h), ?_, ?_, fun _ => by omega, hdigits, hlast⟩, ?_, ?_⟩
  · intro hsome
    by_cases hh : hours > 0
    · rw [if_pos (Or.inl hh)]
      rfl
    · rw [if_neg hh] at hsome
      cases hsome
  · intro _ m hm
    by_cases hshown : hours > 0 ∨ minutes > 0
    · rw [if_pos hshown] at hm
      have hm := Option.some.inj hm
      omega
    · rw [if_neg hshown] at hm
      cases hm
  · rw [humanDuration_above hge hhours hminutes, hseconds, hout]
    by_cases hh : hours > 0
    · simp [Rendered.text, leading, hh, LastUnit.text, List.append_assoc]
    · by_cases hm : minutes > 0
      · simp [Rendered.text, leading, hh, hm, LastUnit.text, List.append_assoc]
      · simp [Rendered.text, leading, hh, hm, LastUnit.text, List.append_assoc]
  · have hshownHours : (if hours > 0 then some hours else none).getD 0 = hours :=
      getD_ite_some (by omega)
    have hshownMinutes :
        (if hours > 0 ∨ minutes > 0 then some minutes else none).getD 0 = minutes :=
      getD_ite_some (by omega)
    have hsplit : hours * (3600 * 10 ^ 9) + (minutes * (60 * 10 ^ 9) + (seconds * 10 ^ 9 +
        n % 3600000000000 % 60000000000 % 1000000000)) = n := by omega
    unfold Rendered.value
    rw [hshownHours, hshownMinutes]
    show (hours : ℚ) * (3600 * 10 ^ 9 : ℕ) + (minutes * (60 * 10 ^ 9 : ℕ) +
      (seconds + fraction fs) * (10 ^ 9 : ℕ)) = n
    rw [add_mul, Nat.cast_pow, Nat.cast_ofNat, hvalue]
    exact_mod_cast hsplit

/-- **DURATIONS ARE PRINTED WITHOUT LOSS.**  For every `ns` from 0 on, what
`human_duration` prints is a rendered duration, and read as one, or in any way
as decimal numbers with units, it is exactly `ns` nanoseconds.  So different
durations never print alike. -/
theorem humanDuration_exact :
    (∀ ns, 0 ≤ ns → (∃ r : Rendered, r.text = humanDuration ns) ∧
      (∀ r : Rendered, r.text = humanDuration ns → r.value = ns) ∧
      ∀ t, Duration (humanDuration ns) t ↔ t = ns) ∧
    (∀ ns ns', 0 ≤ ns → 0 ≤ ns' → humanDuration ns = humanDuration ns' → ns = ns') := by
  have hrendered : ∀ ns, 0 ≤ ns → ∃ r : Rendered, r.text = humanDuration ns ∧ r.value = ns := by
    intro ns hns
    obtain ⟨n, rfl⟩ := Int.eq_ofNat_of_zero_le hns
    by_cases hzero : n = 0
    · subst hzero
      refine ⟨⟨none, none, 0, [], .s, fun _ => ⟨rfl, rfl⟩, fun h => h,
        fun h => (Bool.false_ne_true h).elim, fun h => (Bool.false_ne_true h).elim, by simp,
        by simp⟩, by decide, ?_⟩
      simp [Rendered.value, fraction, value]
    · rcases Nat.lt_or_ge n 1000000000 with hlt | hge
      · exact humanDuration_ms (by omega) hlt
      · exact humanDuration_clock hge
  have hduration : ∀ ns, 0 ≤ ns → Duration (humanDuration ns) ns := by
    intro ns hns
    obtain ⟨r, htext, hvalue⟩ := hrendered ns hns
    rw [← htext, ← hvalue]
    exact r.duration
  refine ⟨?_, ?_⟩
  · intro ns hns
    obtain ⟨r, htext, -⟩ := hrendered ns hns
    refine ⟨⟨r, htext⟩, ?_, ?_⟩
    · intro r' htext'
      have hr' := r'.duration
      rw [htext'] at hr'
      exact duration_unique hr' (hduration ns hns)
    · intro t
      constructor
      · intro ht
        exact duration_unique ht (hduration ns hns)
      · intro ht
        rw [ht]
        exact hduration ns hns
  · intro ns ns' hns hns' heq
    have h := hduration ns hns
    rw [heq] at h
    exact_mod_cast duration_unique h (hduration ns' hns')

/-- An hour and a nanosecond, and a millisecond and a half. -/
theorem humanDuration_exact_hour :
    humanDuration 3600000000001 = text "1h0m0.000000001s" ∧
      Duration (text "1h0m0.000000001s") 3600000000001 ∧
      Duration (text "1.5ms") 1500000 := by
  have hhour : humanDuration 3600000000001 = text "1h0m0.000000001s" := by decide
  have hms : humanDuration 1500000 = text "1.5ms" := by decide
  refine ⟨hhour, ?_, ?_⟩
  · rw [← hhour]
    exact ((humanDuration_exact.1 3600000000001 (by decide)).2.2 _).mpr (by norm_num)
  · rw [← hms]
    exact ((humanDuration_exact.1 1500000 (by decide)).2.2 _).mpr (by norm_num)

end ItbCpp.Loop
