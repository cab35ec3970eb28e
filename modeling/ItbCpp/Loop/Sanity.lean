/-
  ItbCpp.Loop.Sanity
  ──────────────────
  **WHICH CONFIGURATIONS THERE ARE** (`loop/main.cpp`, `loop/size.cpp`).

  What the validation lets through is what some command line says.  Each
  value of a slot has a text that is read back as that value, so nothing more
  is lost in the parse than the types of the slots demand.

    • `flags_spelled` — the flags that some line leaves are those whose
      slots hold texts and numbers in range,
    • `settings_exactly_sane` — the configurations that `parse_flags` returns
      on some line are exactly the sane ones, the name of the hash as far as
      the search for it can tell.
-/
import ItbCpp.Loop.Rendering
import ItbCpp.Loop.Settings

namespace ItbCpp.Loop

open CNumber (decimal natDecimal int64Max uint64Max isDigit isSpace stops_nil)

/-! ## §1. Numbers as texts. -/

/-- A printed number is converted whole. -/
theorem strtoSigned_decimal {lo hi n : Int} (hlo : lo ≤ n) (hhi : n ≤ hi) :
    CNumber.strtoSigned lo hi (decimal n) = ⟨n, [], false⟩ := by
  obtain ⟨x, hscan, hrest, hvalue⟩ := CNumber.scanInt_decimal n (stops_nil (p := isDigit))
  rw [List.append_nil] at hscan
  unfold CNumber.strtoSigned
  rw [hscan]
  dsimp only
  rw [hvalue, hrest, if_neg (Int.not_lt.mpr hlo), if_neg (Int.not_lt.mpr hhi)]

theorem decimal_ne_nil (n : Int) : decimal n ≠ [] := by
  unfold decimal
  split
  · exact List.cons_ne_nil _ _
  · exact (CNumber.natDecimal_spec _).1

/-- A printed number is a C string. -/
theorem decimal_zero_free (n : Int) : 0 ∉ decimal n := by
  intro h
  rcases CNumber.mem_decimal h with h | h
  · revert h
    decide
  · revert h
    decide

/-- A number in range, printed, is read back: the three readers, each in its
range. -/
theorem parseInt_decimal {n : Int} (h : Flags.IsInt n) (slot : Int) :
    parseInt (decimal n) slot = (true, n) := by
  obtain ⟨hlo, hhi⟩ := h
  have hscan : CNumber.strtol (decimal n) = ⟨n, [], false⟩ := by
    refine strtoSigned_decimal ?_ ?_
    · unfold CNumber.int64Min
      omega
    · unfold int64Max
      omega
  unfold parseInt
  rw [if_neg (decimal_ne_nil n), CNumber.cString_eq (decimal_zero_free n)]
  dsimp only
  rw [hscan, if_neg (by simp; omega)]

theorem parseInt64_decimal {n : Int} (h : Flags.IsInt64 n) (slot : Int) :
    parseInt64 (decimal n) slot = (true, n) := by
  have hscan : CNumber.strtoll (decimal n) = ⟨n, [], false⟩ := strtoSigned_decimal h.1 h.2
  unfold parseInt64
  rw [if_neg (decimal_ne_nil n), CNumber.cString_eq (decimal_zero_free n)]
  dsimp only
  rw [hscan, if_neg (by simp)]

theorem parseUint64_decimal {n : Nat} (h : n ≤ uint64Max) (slot : Nat) :
    parseUint64 (decimal n) slot = (true, n) := by
  obtain ⟨hne, hdigits, hvalue⟩ := CNumber.natDecimal_spec n
  have hscan : CNumber.scanInt (natDecimal n) = some ⟨false, natDecimal n, []⟩ :=
    CNumber.scanInt_eq_some.mpr ⟨[], [], by simp, by simp, .none, hne, hdigits, stops_nil⟩
  have hminus : (natDecimal n).head? ≠ some 45 := by
    intro hhead
    have hdigit := hdigits 45 (List.mem_of_mem_head? hhead)
    revert hdigit
    decide
  have hzero : 0 ∉ natDecimal n := by
    have hfree := decimal_zero_free n
    rw [decimal_natCast] at hfree
    exact hfree
  rw [decimal_natCast]
  unfold parseUint64 CNumber.strtoull
  rw [if_neg (by simp [hne, hminus]), CNumber.cString_eq hzero, hscan]
  dsimp only
  rw [hvalue, if_neg (Nat.not_lt.mpr h)]
  simp

/-- Digits have no white space around them. -/
theorem trim_digits {ds : Bytes} (h : ∀ c ∈ ds, isDigit c = true) : trim ds = ds := by
  have hspace : ∀ c ∈ ds, isSpace c = false := fun c hc =>
    CNumber.not_isSpace_of_isDigit (h c hc)
  have hleft : ds.dropWhile isSpace = ds := by
    have hstop : CNumber.Stops isSpace ds := by
      intro c t heq
      rw [heq] at hspace
      exact hspace c List.mem_cons_self
    exact CNumber.dropWhile_run (l := []) (by simp) hstop
  have hright : (ds ++ []).rdropWhile isSpace = ds :=
    CNumber.rdropWhile_run hspace (by simp)
  rw [List.append_nil] at hright
  unfold trim
  rw [hleft, hright]

/-- A number of bytes says itself. -/
theorem sizeText_decimal {n : Nat} (h : n < 2 ^ 63) : SizeText (decimal n) n := by
  obtain ⟨hne, hdigits, hvalue⟩ := CNumber.natDecimal_spec n
  have htrim : trim (decimal n) = natDecimal n ++ [] ++ [] := by
    rw [decimal_natCast, trim_digits hdigits, List.append_nil, List.append_nil]
  have hlength : (natDecimal n).length ≤ 19 := by
    unfold natDecimal
    rw [List.length_map]
    refine (Nat.length_toDigits_le_iff (by decide) (by decide)).mpr ?_
    omega
  have hsays : SizeText (decimal n) (CNumber.value (natDecimal n) * 1) := by
    refine .mk htrim ?_ hne hdigits (by simp) (by decide) ?_
    · rw [htrim, List.append_nil, List.append_nil]
      omega
    · rw [hvalue]
      omega
  rw [hvalue, Nat.mul_one] at hsays
  exact hsays

/-- A whole number of nanoseconds that is a double says itself. -/
theorem times_decimal {n : Nat} (hrange : n ≤ 92 * 10 ^ 17)
    (hdouble : Binary64.IsDouble (n : ℚ)) : Times (decimal n ++ text "ns") n := by
  obtain ⟨hne, hdigits, hvalue⟩ := CNumber.natDecimal_spec n
  have hnumber : Strtod.Decimal (decimal n) n := by
    have hwhole : Strtod.Decimal (natDecimal n) (CNumber.value (natDecimal n)) :=
      .whole hne hdigits
    rw [hvalue] at hwhole
    rw [decimal_natCast]
    exact hwhole
  have hpart : part (decimal n ++ text "ns") = some ⟨.decimal, n, ⟨text "ns", 1⟩, []⟩ := by
    have happend : part (decimal n ++ (text "ns" ++ [])) =
        some ⟨.decimal, n, ⟨text "ns", 1⟩, []⟩ := part_append hnumber (by decide) stops_nil
    rw [List.append_nil] at happend
    exact happend
  have hsum : Binary64.accumulate (.fin 0) [((n : ℚ), 1)] = .fin n := by
    have hround : Binary64.round (n : ℚ) = .fin n := hdouble
    simp [Binary64.accumulate, hround, Binary64.Double.mul, Binary64.Double.add]
  refine ⟨_, parts_cons hpart parts_nil, List.cons_ne_nil _ _, ?_, ?_⟩
  · show ¬ (Binary64.accumulate (.fin 0) [((n : ℚ), 1)]).Above durationLimit
    rw [hsum]
    show ¬ durationLimit < (n : ℚ)
    rw [not_lt]
    unfold durationLimit
    exact_mod_cast hrange
  · show (Binary64.accumulate (.fin 0) [((n : ℚ), 1)]).toInt64 = some (n : Int)
    rw [hsum, Binary64.Double.toInt64_fin (Nat.cast_nonneg n)]
    · simp
    · have hcast : (n : ℚ) ≤ 92 * 10 ^ 17 := by exact_mod_cast hrange
      norm_num at hcast ⊢
      linarith

/-! ## §2. Flags as lines. -/

/-- The text that says a value. -/
def SlotValue.shown : SlotValue → Bytes
  | .int n => decimal n
  | .uint n => decimal n
  | .string b => b
  | .bool b => if b then text "true" else text "false"

/-- Given the text of a value, the flag at place `k` puts the value into its
slot. -/
def Flag.Takes (fl : Flag) (k : Nat) (x : SlotValue) : Prop :=
  ∀ f, (fl.assign x.shown f).1 = true ∧ (fl.assign x.shown f).2.slots[k]? = some x

/-- Each flag of a table, from place `k` on. -/
def TakesFrom : Nat → List Flag → List SlotValue → Prop
  | k, fl :: fls, x :: xs => fl.Takes k x ∧ TakesFrom (k + 1) fls xs
  | _, _, _ => True

theorem TakesFrom.at {table : List Flag} {xs : List SlotValue} {n k : Nat}
    (h : TakesFrom n table xs) {fl : Flag} {x : SlotValue} (hk : table[k]? = some fl)
    (hx : xs[k]? = some x) : fl.Takes (n + k) x := by
  induction table generalizing n k xs with
  | nil => cases hk
  | cons g rest ih =>
      cases xs with
      | nil => cases hx
      | cons y ys =>
          cases k with
          | zero =>
              obtain rfl := Option.some.inj hk
              obtain rfl := Option.some.inj hx
              exact h.1
          | succ k =>
              have hrest := ih h.2 hk hx
              rw [Nat.add_assoc, Nat.add_comm 1] at hrest
              exact hrest

section Takes

variable {f₀ : RawFlags} {name label help : String} {k : Nat}

/-- A slot takes what is printed of a value in its range: one lemma for each
kind of flag. -/
theorem takes_addInt {get : RawFlags → Int} {set : RawFlags → Int → RawFlags} {n : Int}
    (hslots : ∀ f n, (set f n).slots[k]? = some (.int n)) (hn : Flags.IsInt n) :
    (addInt f₀ name get set help).Takes k (.int n) := by
  intro f
  show (parseInt (decimal n) (get f)).1 = true ∧
    (set f (parseInt (decimal n) (get f)).2).slots[k]? = some (.int n)
  rw [parseInt_decimal hn]
  exact ⟨rfl, hslots f n⟩

theorem takes_addInt64 {get : RawFlags → Int} {set : RawFlags → Int → RawFlags} {n : Int}
    (hslots : ∀ f n, (set f n).slots[k]? = some (.int n)) (hn : Flags.IsInt64 n) :
    (addInt64 name get set help).Takes k (.int n) := by
  intro f
  show (parseInt64 (decimal n) (get f)).1 = true ∧
    (set f (parseInt64 (decimal n) (get f)).2).slots[k]? = some (.int n)
  rw [parseInt64_decimal hn]
  exact ⟨rfl, hslots f n⟩

theorem takes_addUint64 {get : RawFlags → Nat} {set : RawFlags → Nat → RawFlags} {n : Nat}
    (hslots : ∀ f n, (set f n).slots[k]? = some (.uint n)) (hn : n ≤ uint64Max) :
    (addUint64 name get set help).Takes k (.uint n) := by
  intro f
  show (parseUint64 (decimal n) (get f)).1 = true ∧
    (set f (parseUint64 (decimal n) (get f)).2).slots[k]? = some (.uint n)
  rw [parseUint64_decimal hn]
  exact ⟨rfl, hslots f n⟩

theorem takes_addString {get : RawFlags → Bytes} {set : RawFlags → Bytes → RawFlags} {b : Bytes}
    (hslots : ∀ f b, (set f b).slots[k]? = some (.string b)) :
    (addString f₀ name label get set help).Takes k (.string b) :=
  fun f => ⟨rfl, hslots f b⟩

theorem takes_addBool {set : RawFlags → Bool → RawFlags} {b : Bool}
    (hslots : ∀ f b, (set f b).slots[k]? = some (.bool b)) :
    (addBool name set help).Takes k (.bool b) := by
  have hne : text "false" ≠ text "true" := by decide
  intro f
  cases b with
  | true => simp [addBool, SlotValue.shown, hslots]
  | false => simp [addBool, SlotValue.shown, hslots, hne]

/-- **Each slot takes back what it holds.** -/
theorem flagTable_takes {f : RawFlags} (h : f.Typed) : TakesFrom 0 (flagTable f₀) f.slots := by
  unfold flagTable RawFlags.slots
  refine ⟨takes_addInt (fun _ _ => rfl) h.barrierFill,
    takes_addInt64 (fun _ _ => rfl) h.blobCycleEvery,
    takes_addInt (fun _ _ => rfl) h.blobMode,
    takes_addString fun _ _ => rfl,
    takes_addString fun _ _ => rfl,
    takes_addString fun _ _ => rfl,
    takes_addInt (fun _ _ => rfl) h.gogc,
    takes_addInt (fun _ _ => rfl) h.gomaxprocs,
    takes_addInt (fun _ _ => rfl) h.goroutines,
    takes_addString fun _ _ => rfl,
    takes_addString fun _ _ => rfl,
    takes_addInt64 (fun _ _ => rfl) h.iterations,
    takes_addBool fun _ _ => rfl,
    takes_addInt (fun _ _ => rfl) h.keyBits,
    takes_addString fun _ _ => rfl,
    takes_addString fun _ _ => rfl,
    takes_addString fun _ _ => rfl,
    takes_addInt (fun _ _ => rfl) h.nonceBits,
    takes_addString fun _ _ => rfl,
    takes_addString fun _ _ => rfl,
    takes_addString fun _ _ => rfl,
    takes_addString fun _ _ => rfl,
    takes_addInt64 (fun _ _ => rfl) h.rekeyEvery,
    takes_addUint64 (fun _ _ => rfl) h.seed,
    takes_addString fun _ _ => rfl,
    takes_addString fun _ _ => rfl, trivial⟩

end Takes

/-- What the flags hold, said flag by flag. -/
def RawFlags.spelled (f : RawFlags) : List (Occurrence (flagTable {})) :=
  ((flagTable {}).zip f.slots).attach.map fun p =>
    { flag := p.val.1, mem := (List.of_mem_zip p.property).1, value := p.val.2.shown,
      twoDashes := true, spelling := .joined, fits := trivial }

section Spelled

variable {f g : RawFlags}

/-- A spelled line sets the slots by name, each to its value as it is shown.
-/
theorem mem_spelled {o : Occurrence (flagTable {})} (h : o ∈ f.spelled) :
    o.spelling = .joined ∧ ∃ (k : Nat) (x : SlotValue), (flagTable {})[k]? = some o.flag ∧
      f.slots[k]? = some x ∧ o.value = x.shown := by
  obtain ⟨p, -, rfl⟩ := List.mem_map.mp h
  obtain ⟨k, hk⟩ := List.mem_iff_getElem?.mp p.property
  obtain ⟨hflag, hslot⟩ := List.getElem?_zip_eq_some.mp hk
  exact ⟨rfl, k, p.val.2, hflag, hslot, rfl⟩

/-- It leaves no flag out. -/
theorem spelled_mem {k : Nat} {fl : Flag} (hk : (flagTable {})[k]? = some fl) :
    ∃ o ∈ f.spelled, o.flag = fl := by
  have hlt : k < f.slots.length := by
    rw [slots_length {} f]
    exact (List.getElem?_eq_some_iff.mp hk).1
  have hslot : f.slots[k]? = some f.slots[k] := List.getElem?_eq_getElem hlt
  have hzip : (fl, f.slots[k]) ∈ (flagTable {}).zip f.slots :=
    List.mem_iff_getElem?.mpr ⟨k, List.getElem?_zip_eq_some.mpr ⟨hk, hslot⟩⟩
  exact ⟨_, List.mem_map.mpr ⟨⟨_, hzip⟩, List.mem_attach _ _, rfl⟩, rfl⟩

theorem allLand_of_forall {os : List (Occurrence (flagTable {}))}
    (h : ∀ o ∈ os, ∀ g, o.Lands g) : AllLand os g := by
  induction os generalizing g with
  | nil => trivial
  | cons o os ih =>
      refine ⟨h o List.mem_cons_self g, ih fun o' ho' => ?_⟩
      exact h o' (List.mem_cons_of_mem o ho')

/-- The slots say what the flags are. -/
theorem slots_injective (h : f.slots = g.slots) : f = g := by
  cases f
  cases g
  simp only [RawFlags.slots, List.cons.injEq, SlotValue.int.injEq, SlotValue.string.injEq,
    SlotValue.uint.injEq, SlotValue.bool.injEq, and_true] at h
  simp only [RawFlags.mk.injEq]
  exact h

/-- **The spelled flags are assigned**, whatever was there before. -/
theorem assigned_spelled (hf : f.Typed) (g : RawFlags) :
    AllLand f.spelled g ∧ assigned f.spelled g = f := by
  have hland : AllLand f.spelled g := by
    refine allLand_of_forall fun o ho g => ?_
    obtain ⟨-, k, x, hflag, hslot, hvalue⟩ := mem_spelled ho
    have htakes := (flagTable_takes hf).at hflag hslot
    unfold Occurrence.Lands
    rw [hvalue]
    exact (htakes g).1
  refine ⟨hland, slots_injective (List.ext_getElem? fun k => ?_)⟩
  by_cases hlt : k < (flagTable {}).length
  · have hk : (flagTable {})[k]? = some (flagTable {})[k] := List.getElem?_eq_getElem hlt
    rw [slot_assigned hland hk]
    -- the last occurrence of this flag is the one that says this slot
    obtain ⟨o, ho, hname⟩ := spelled_mem (f := f) hk
    have hsome : (lastOf (flagTable {})[k].name f.spelled).isSome = true := by
      unfold lastOf
      rw [List.find?_isSome]
      exact ⟨o, List.mem_reverse.mpr ho, by rw [hname]; simp⟩
    obtain ⟨o', ho'⟩ := Option.isSome_iff_exists.mp hsome
    have hmem : o' ∈ f.spelled := List.mem_reverse.mp (List.mem_of_find?_eq_some ho')
    have hsame : o'.flag.name = (flagTable {})[k].name := by simpa using List.find?_some ho'
    obtain ⟨-, j, x, hflag, hslot, hvalue⟩ := mem_spelled hmem
    have hjk : j = k := by
      have hj : j < ((flagTable {}).map Flag.name).length := by
        rw [List.length_map]
        exact (List.getElem?_eq_some_iff.mp hflag).1
      refine (List.getElem?_inj hj (flagTable_named {}).distinct).mp ?_
      rw [List.getElem?_map, List.getElem?_map, hflag, hk]
      exact congrArg some hsame
    subst hjk
    have htakes := (flagTable_takes hf).at hflag hslot
    rw [Nat.zero_add] at htakes
    unfold onlyLast
    rw [ho', Option.elim_some, hvalue, (htakes g).2, hslot]
  · have hnone : ∀ h : RawFlags, h.slots[k]? = none := by
      intro h
      refine List.getElem?_eq_none ?_
      rw [slots_length {} h]
      exact Nat.le_of_not_lt hlt
    rw [hnone, hnone]

/-- The line that says the flags. -/
def RawFlags.line (f : RawFlags) : List Bytes :=
  text "loop" :: f.spelled.flatMap Occurrence.render

/-- **The line is read back**: every slot is what it was, and no argument is
left. -/
theorem line_parsed (hf : f.Typed) : parseArgv (flagTable {}) f.line {} = some ⟨0, f, []⟩ := by
  obtain ⟨hland, hassigned⟩ := assigned_spelled hf {}
  have hfuel := length_le_render f.spelled
  have hpasses : f.spelled.length < f.line.length + 1 := by
    unfold RawFlags.line
    rw [List.length_cons]
    omega
  have hrun : parseArgv (flagTable {}) f.line {} = some ⟨0, assigned f.spelled {}, []⟩ :=
    parseArgvFrom_lands (flagTable_named {}) rfl hpasses hland
  rw [hassigned] at hrun
  exact hrun

/-- The text of a value is one that an argument can hold. -/
theorem shown_zero_free (hf : f.Typed) : ∀ x ∈ f.slots, 0 ∉ x.shown := by
  have htexts : ∀ b, SlotValue.string b ∈ f.slots → 0 ∉ b := by
    intro b hb
    simp only [RawFlags.slots, List.mem_cons, SlotValue.string.injEq, reduceCtorEq, false_or,
      List.not_mem_nil, or_false] at hb
    rcases hb with rfl | rfl | rfl | rfl | rfl | rfl | rfl | rfl | rfl | rfl | rfl | rfl | rfl |
      rfl
    exacts [hf.chunkSize, hf.drbg, hf.duration, hf.hash, hf.interlock, hf.mac, hf.memlimit,
      hf.memprofile, hf.parallax, hf.payloadMode, hf.payloadSize, hf.profile, hf.shape,
      hf.wrapper]
  intro x hx
  cases x with
  | int n => exact decimal_zero_free n
  | uint n => exact decimal_zero_free n
  | string b => exact htexts b hx
  | bool b => cases b <;> decide

set_option maxRecDepth 10000 in
theorem names_zero_free : ∀ fl ∈ flagTable {}, 0 ∉ fl.name := by
  have hall : ∀ name ∈ (flagTable {}).map Flag.name, 0 ∉ name := by decide
  intro fl hfl
  exact hall _ (List.mem_map_of_mem hfl)

/-- No argument of the line is cut short. -/
theorem line_zero_free (hf : f.Typed) : ∀ a ∈ f.line, 0 ∉ a := by
  intro a ha
  rcases List.mem_cons.mp ha with rfl | ha
  · decide
  · obtain ⟨o, ho, hmem⟩ := List.mem_flatMap.mp ha
    obtain ⟨hjoined, k, x, hflag, hslot, hvalue⟩ := mem_spelled ho
    have hname := names_zero_free o.flag o.mem
    have hshown := shown_zero_free hf x (List.mem_iff_getElem?.mpr ⟨k, hslot⟩)
    have hdashes : ∀ two, 0 ∉ dashes two := by decide
    unfold Occurrence.render at hmem
    rw [hjoined, hvalue] at hmem
    obtain rfl := List.mem_singleton.mp hmem
    simp [hdashes, hname, hshown]

/-- **The flags that some line leaves** are those whose slots hold texts and
numbers in range; and the line that says each of them in turn, `--name=value`,
is such a line: it parses back. -/
theorem flags_spelled (f : RawFlags) :
    ((∃ argv, (∀ a ∈ argv, 0 ∉ a) ∧ parseArgv (flagTable {}) argv {} = some ⟨0, f, []⟩) ↔
      f.Typed) ∧
    (((∀ a ∈ f.line, 0 ∉ a) ∧ parseArgv (flagTable {}) f.line {} = some ⟨0, f, []⟩) ↔
      f.Typed) := by
  have htyped : ∀ argv, (∀ a ∈ argv, 0 ∉ a) →
      parseArgv (flagTable {}) argv {} = some ⟨0, f, []⟩ → f.Typed := by
    intro argv hargv hparsed
    obtain ⟨p, hp, hf⟩ : ∃ p, parseArgv (flagTable {}) argv {} = some p ∧ p.flags.Typed :=
      parseArgv_typed hargv typed_defaults
    rw [hparsed] at hp
    cases hp
    exact hf
  constructor
  · constructor
    · intro h
      obtain ⟨argv, hargv, hparsed⟩ := h
      exact htyped argv hargv hparsed
    · intro hf
      exact ⟨f.line, line_zero_free hf, line_parsed hf⟩
  · constructor
    · intro h
      exact htyped f.line h.1 h.2
    · intro hf
      exact ⟨line_zero_free hf, line_parsed hf⟩

end Spelled

/-! ## §3. The sane configurations. -/

/-- The shapes that a surface has. -/
def Exercises (surface shape : Shape) : Prop :=
  if surface = .message then shape = .message else shape = .stream ∨ shape = .streamOneShot

/-- What a run can rely on. -/
structure Sane (cat : Catalogue) (cfg : Settings) : Prop where
  /-- positive, at most `9.2e18`, and a double -/
  duration : 0 < cfg.durationNs ∧ cfg.durationNs ≤ 92 * 10 ^ 17
  whole : Binary64.IsDouble (cfg.durationNs : ℚ)
  iterations : 0 ≤ cfg.iterations ∧ cfg.iterations ≤ int64Max
  workers : 1 ≤ cfg.workers ∧ cfg.workers ≤ 10
  workersRequested : cfg.workersRequested = cfg.workers
  /-- of the surface of the profile, if one is named -/
  shape : cfg.profile = [] ∨ ∃ x, cat.surface cfg.profile = some x ∧ Exercises x cfg.shape
  /-- found in the text of the registry -/
  hash : cat.Finds cfg.hash
  payload : 1 ≤ cfg.payload ∧ cfg.payload ≤ int64Max
  memlimit : 0 ≤ cfg.memlimit ∧ cfg.memlimit ≤ int64Max
  memlimitAuto : cfg.memlimitAuto = true → cfg.memlimit = autoMemlimit cfg.workers
  gogc : 0 ≤ cfg.gogc ∧ cfg.gogc ≤ 2147483647
  gomaxprocs : 0 ≤ cfg.gomaxprocs ∧ cfg.gomaxprocs ≤ 2147483647
  keyBits : cfg.keyBits ∈ [0, 512, 1024, 2048]
  nonceBits : cfg.nonceBits ∈ [0, 128, 256, 512]
  blobMode : cfg.blobMode ∈ [1, 2]
  barrierFill : cfg.barrierFill ∈ [0, 1, 2, 4, 8, 16, 32]
  interlock : cfg.interlock ∈ [[], text "48", text "168"]
  chunkSize : 0 ≤ cfg.chunkSize ∧ cfg.chunkSize ≤ int64Max
  rekeyEvery : 0 ≤ cfg.rekeyEvery ∧ cfg.rekeyEvery ≤ int64Max
  blobCycleEvery : 0 ≤ cfg.blobCycleEvery ∧ cfg.blobCycleEvery ≤ int64Max
  seed : cfg.seed ≤ uint64Max
  /-- texts that an argument can hold -/
  hashText : 0 ∉ cfg.hash
  macText : 0 ∉ cfg.mac
  drbgText : 0 ∉ cfg.drbg
  profileText : 0 ∉ cfg.profile
  memprofileText : 0 ∉ cfg.memprofile
  /-- not known yet -/
  poolSlots : cfg.poolSlots = 0

section Accepted

variable {cat : Catalogue} {f : RawFlags} {cfg : Settings} {s : Bytes}

/-- What a duration comes to: the whole part of a double, within the limit. -/
theorem Times.range {n : Int} (h : Times s n) :
    n ≤ 92 * 10 ^ 17 ∧ Binary64.IsDouble (n : ℚ) := by
  obtain ⟨l, hl, -, hrange, hn⟩ := h
  have hterms : ∀ p ∈ terms l, 0 ≤ p.1 := fun p hp => (terms_bounds hl p hp).1
  have hneg : ¬ (Binary64.accumulate (.fin 0) (terms l)).Negative :=
    Binary64.accumulate_not_negative hterms (lt_irrefl 0)
  have hzero : Binary64.round 0 = .fin 0 := by
    have hdouble : Binary64.IsDouble (((0 : ℕ) : ℚ) * 2 ^ (0 : ℤ)) :=
      Binary64.isDouble_of_lt (by decide) (by decide) (by simp)
    rw [Nat.cast_zero, zero_mul] at hdouble
    exact hdouble
  have hrounded : ∀ x, Binary64.accumulate (.fin 0) (terms l) = .fin x →
      ∃ q, 0 ≤ q ∧ Binary64.round q = .fin x := by
    refine Binary64.accumulate_rounded hterms fun x hx => ?_
    cases hx
    exact ⟨0, le_refl 0, hzero⟩
  unfold OutOfRange at hrange
  cases htotal : Binary64.accumulate (.fin 0) (terms l) with
  | inf =>
      rw [htotal] at hn
      cases hn
  | fin x =>
      rw [htotal] at hn hneg hrange
      have hx : 0 ≤ x := not_lt.mp hneg
      have hle : x ≤ 92 * 10 ^ 17 := not_lt.mp hrange
      have hbelow : x < 2 ^ 63 := by
        norm_num at hle ⊢
        linarith
      rw [Binary64.Double.toInt64_fin hx hbelow] at hn
      cases hn
      obtain ⟨q, hq, hround⟩ := hrounded x htotal
      refine ⟨?_, Binary64.isDouble_floor hq hround⟩
      have hfloor : (⌊x⌋ : ℚ) ≤ 92 * 10 ^ 17 := le_trans (Int.floor_le x) hle
      exact_mod_cast hfloor

/-- A size that was read is within 64 bits. -/
theorem SizeText.range {n : Nat} (h : SizeText s n) : 0 ≤ (n : Int) ∧ (n : Int) ≤ int64Max := by
  have hlt : n < 2 ^ 63 := by
    cases h with
    | mk _ _ _ _ _ _ small => exact small
  unfold int64Max
  omega

/-- Whatever shape is asked for, the narrowed one is served by the surface of the
profile. -/
theorem narrowShape_exercises (asked surface : Shape) :
    Exercises surface (narrowShape asked surface) := by
  cases asked <;> cases surface <;> simp [Exercises, narrowShape]

theorem exercises_narrowShape {surface shape : Shape} (h : Exercises surface shape) :
    narrowShape shape surface = shape := by
  cases shape <;> cases surface <;> simp_all [Exercises, narrowShape]

/-- **What is let through is sane.** -/
theorem sane_of_resolves (hf : f.Typed) (hall : Early.AllHold (flagRules cat f))
    (h : Resolves cat f cfg) : Sane cat cfg := by
  unfold flagRules at hall
  simp only [Early.allHold_cons, Early.allHold_nil, and_true] at hall
  obtain ⟨hduration, hiterations, hworkers, -, hhash, -, hpayload, -, hgogc, -, -, -, -, hkey,
    hnonce, hblob, hbarrier, hinterlock, -, hprocs, hrekey, hcycle, -⟩ := hall
  obtain ⟨hle, hdouble⟩ := h.duration.range
  have hpos : 0 < cfg.durationNs := by
    obtain ⟨n, hn, hpos⟩ := hduration
    rw [h.duration.unique hn]
    exact hpos
  have hpayload' : 1 ≤ cfg.payload ∧ cfg.payload ≤ int64Max := by
    obtain ⟨n, hn, hval⟩ := h.payload
    have hone := hpayload n hn
    have hrange := hn.range
    omega
  have hmemlimit : 0 ≤ cfg.memlimit ∧ cfg.memlimit ≤ int64Max := by
    rcases h.memlimit with ⟨-, hval⟩ | ⟨-, n, hn, hval⟩
    · rw [hval]
      unfold autoMemlimit
      split <;> decide
    · rw [hval]
      exact hn.range
  have hauto : cfg.memlimitAuto = true → cfg.memlimit = autoMemlimit cfg.workers := by
    intro hyes
    rcases h.memlimit with ⟨-, hval⟩ | ⟨hno, -⟩
    · rw [hval, h.workers]
    · exact (hno (h.memlimitAuto.mp hyes)).elim
  have hshape : cfg.profile = [] ∨
      ∃ x, cat.surface cfg.profile = some x ∧ Exercises x cfg.shape := by
    obtain ⟨asked, -, hnarrowed⟩ := h.shape
    rw [h.profile]
    rcases hnarrowed with ⟨hnone, -⟩ | ⟨-, x, hx, hval⟩
    · exact Or.inl hnone
    · refine Or.inr ⟨x, hx, ?_⟩
      rw [hval]
      exact narrowShape_exercises asked x
  have hchunk : 0 ≤ cfg.chunkSize ∧ cfg.chunkSize ≤ int64Max := by
    obtain ⟨n, hn, hval⟩ := h.chunkSize
    rw [hval]
    exact hn.range
  exact
    { duration := ⟨hpos, hle⟩, whole := hdouble, iterations := by
        rw [h.iterations]
        exact ⟨hiterations, hf.iterations.2⟩
      workers := by
        rw [h.workers]
        exact hworkers
      workersRequested := by rw [h.workersRequested, h.workers]
      shape := hshape, hash := by rwa [h.hash], payload := hpayload', memlimit := hmemlimit,
      memlimitAuto := hauto, gogc := by
        rw [h.gogc]
        exact ⟨hgogc, hf.gogc.2⟩
      gomaxprocs := by
        rw [h.gomaxprocs]
        exact ⟨hprocs, hf.gomaxprocs.2⟩
      keyBits := by rwa [h.keyBits]
      nonceBits := by rwa [h.nonceBits]
      blobMode := by rwa [h.blobMode]
      barrierFill := by rwa [h.barrierFill]
      interlock := by rwa [h.interlock]
      chunkSize := hchunk
      rekeyEvery := by
        rw [h.rekeyEvery]
        exact ⟨hrekey, hf.rekeyEvery.2⟩
      blobCycleEvery := by
        rw [h.blobCycleEvery]
        exact ⟨hcycle, hf.blobCycleEvery.2⟩
      seed := by
        rw [h.seed]
        exact hf.seed
      hashText := by
        rw [h.hash]
        exact hf.hash
      macText := by
        rw [h.mac]
        exact hf.mac
      drbgText := by
        rw [h.drbg]
        exact hf.drbg
      profileText := by
        rw [h.profile]
        exact hf.profile
      memprofileText := by
        rw [h.memprofile]
        exact hf.memprofile
      poolSlots := h.poolSlots }

/-! ## §4. Every sane configuration is said. -/

/-- The flags that say a configuration. -/
def Settings.flags (cfg : Settings) : RawFlags where
  barrierFill := cfg.barrierFill
  blobCycleEvery := cfg.blobCycleEvery
  blobMode := cfg.blobMode
  chunkSize := decimal cfg.chunkSize
  drbg := cfg.drbg
  duration := decimal cfg.durationNs ++ text "ns"
  gogc := cfg.gogc
  gomaxprocs := cfg.gomaxprocs
  goroutines := cfg.workers
  hash := cfg.hash
  interlock := cfg.interlock
  iterations := cfg.iterations
  jsonOutput := cfg.jsonOutput
  keyBits := cfg.keyBits
  mac := cfg.mac
  memlimit := if cfg.memlimitAuto = true then text "auto" else decimal cfg.memlimit
  memprofile := cfg.memprofile
  nonceBits := cfg.nonceBits
  parallax := text (onOff cfg.parallax)
  payloadMode := text cfg.payloadMode.name
  payloadSize := decimal cfg.payload
  profile := cfg.profile
  rekeyEvery := cfg.rekeyEvery
  seed := cfg.seed
  shape := text cfg.shape.name
  wrapper := text (onOff cfg.wrapper)

/-- A size within 64 bits is written in decimal. -/
theorem sizeText_of_range {n : Int} (h : 0 ≤ n ∧ n ≤ int64Max) :
    ∃ m : Nat, SizeText (decimal n) m ∧ n = m := by
  obtain ⟨hpos, hle⟩ := h
  obtain ⟨m, rfl⟩ := Int.eq_ofNat_of_zero_le hpos
  unfold int64Max at hle
  exact ⟨m, sizeText_decimal (by omega), rfl⟩

theorem decimal_ne_auto (n : Int) : decimal n ≠ text "auto" := by
  intro h
  have hmem : (97 : UInt8) ∈ decimal n := by
    rw [h]
    decide
  rcases CNumber.mem_decimal hmem with hdigit | hminus
  · revert hdigit
    decide
  · revert hminus
    decide

/-- The flags of a sane configuration fit their slots. -/
theorem Sane.typed (h : Sane cat cfg) : cfg.flags.Typed := by
  have hwidths : ∀ n ∈ [0, 512, 1024, 2048], -2147483647 ≤ n ∧ n ≤ (2147483647 : Int) := by
    decide
  have hnonces : ∀ n ∈ [0, 128, 256, 512], -2147483647 ≤ n ∧ n ≤ (2147483647 : Int) := by
    decide
  have hmodes : ∀ n ∈ [1, 2], -2147483647 ≤ n ∧ n ≤ (2147483647 : Int) := by
    decide
  have hfills : ∀ n ∈ [0, 1, 2, 4, 8, 16, 32], -2147483647 ≤ n ∧ n ≤ (2147483647 : Int) := by
    decide
  have hint64 : ∀ {n : Int}, 0 ≤ n ∧ n ≤ int64Max → Flags.IsInt64 n := by
    intro n hn
    refine ⟨?_, hn.2⟩
    unfold CNumber.int64Min
    omega
  have hint : ∀ {n : Int}, 0 ≤ n ∧ n ≤ 2147483647 → Flags.IsInt n := by
    intro n hn
    exact ⟨by omega, hn.2⟩
  have hworkers : Flags.IsInt cfg.workers := by
    have hrange := h.workers
    exact ⟨by omega, by omega⟩
  exact
    { barrierFill := hfills _ h.barrierFill
      blobCycleEvery := hint64 h.blobCycleEvery
      blobMode := hmodes _ h.blobMode
      chunkSize := decimal_zero_free _
      drbg := h.drbgText
      duration := by
        intro hzero
        rcases List.mem_append.mp hzero with hzero | hzero
        · exact decimal_zero_free _ hzero
        · revert hzero
          decide
      gogc := hint h.gogc
      gomaxprocs := hint h.gomaxprocs
      goroutines := hworkers
      hash := h.hashText
      interlock := by
        have hall : ∀ s ∈ [[], text "48", text "168"], 0 ∉ s := by decide
        exact hall _ h.interlock
      iterations := hint64 h.iterations
      keyBits := hwidths _ h.keyBits
      mac := h.macText
      memlimit := by
        show 0 ∉ (if cfg.memlimitAuto = true then text "auto" else decimal cfg.memlimit)
        split
        · decide
        · exact decimal_zero_free _
      memprofile := h.memprofileText
      nonceBits := hnonces _ h.nonceBits
      parallax := by
        have hall : ∀ b, 0 ∉ text (onOff b) := by decide
        exact hall _
      payloadMode := by
        show 0 ∉ text cfg.payloadMode.name
        cases cfg.payloadMode <;> decide
      payloadSize := decimal_zero_free _
      profile := h.profileText
      rekeyEvery := hint64 h.rekeyEvery
      seed := h.seed
      shape := by
        show 0 ∉ text cfg.shape.name
        cases cfg.shape <;> decide
      wrapper := by
        have hall : ∀ b, 0 ∉ text (onOff b) := by decide
        exact hall _ }

/-- They say it. -/
theorem Sane.resolves (h : Sane cat cfg) : Resolves cat cfg.flags cfg := by
  have hduration : Times cfg.flags.duration cfg.durationNs := by
    show Times (decimal cfg.durationNs ++ text "ns") cfg.durationNs
    obtain ⟨hpos, hle⟩ := h.duration
    have hdouble := h.whole
    obtain ⟨n, hn⟩ := Int.eq_ofNat_of_zero_le (le_of_lt hpos)
    rw [hn] at hle hdouble ⊢
    refine times_decimal (by omega) ?_
    exact_mod_cast hdouble
  have hmemlimit : cfg.flags.memlimit =
      if cfg.memlimitAuto = true then text "auto" else decimal cfg.memlimit := rfl
  have hauto : cfg.memlimitAuto = true ↔ cfg.flags.memlimit = text "auto" := by
    rw [hmemlimit]
    by_cases hyes : cfg.memlimitAuto = true
    · simp [hyes]
    · rw [if_neg hyes]
      exact iff_of_false hyes (decimal_ne_auto _)
  have hshape : Narrowed cat cfg.flags.profile cfg.shape cfg.shape := by
    by_cases hnone : cfg.profile = []
    · exact Or.inl ⟨hnone, rfl⟩
    · rcases h.shape with hno | ⟨x, hx, hexercises⟩
      · exact (hnone hno).elim
      · exact Or.inr ⟨hnone, x, hx, (exercises_narrowShape hexercises).symm⟩
  have hlimit : (cfg.flags.memlimit = text "auto" ∧
        cfg.memlimit = autoMemlimit cfg.flags.goroutines) ∨
      cfg.flags.memlimit ≠ text "auto" ∧
        ∃ n : Nat, SizeText cfg.flags.memlimit n ∧ cfg.memlimit = n := by
    by_cases hyes : cfg.memlimitAuto = true
    · exact Or.inl ⟨hauto.mp hyes, h.memlimitAuto hyes⟩
    · refine Or.inr ⟨fun heq => hyes (hauto.mpr heq), ?_⟩
      rw [hmemlimit, if_neg hyes]
      exact sizeText_of_range h.memlimit
  have hpayload := h.payload
  exact
    { duration := hduration, shape := ⟨cfg.shape, rfl, hshape⟩,
      payload := sizeText_of_range ⟨by omega, hpayload.2⟩, memlimit := hlimit,
      memlimitAuto := hauto, parallax := rfl, wrapper := rfl,
      chunkSize := sizeText_of_range h.chunkSize, payloadMode := rfl, iterations := rfl,
      workersRequested := h.workersRequested, workers := rfl, hash := rfl, mac := rfl,
      gogc := rfl, profile := rfl, keyBits := rfl, nonceBits := rfl, blobMode := rfl,
      barrierFill := rfl, drbg := rfl, interlock := rfl, gomaxprocs := rfl, rekeyEvery := rfl,
      blobCycleEvery := rfl, seed := rfl, jsonOutput := rfl, memprofile := rfl,
      poolSlots := h.poolSlots }

/-- They break no rule. -/
theorem Sane.allHold (h : Sane cat cfg) : Early.AllHold (flagRules cat cfg.flags) := by
  have hresolves := h.resolves
  obtain ⟨asked, hasked, hnarrowed⟩ := hresolves.shape
  have hpayload : ∀ n, SizeText cfg.flags.payloadSize n → 1 ≤ n := by
    intro n hn
    obtain ⟨m, hm, hval⟩ := hresolves.payload
    rw [hn.unique hm]
    have hone := h.payload.1
    omega
  have hmemlimit : cfg.flags.memlimit = text "auto" ∨
      ∃ n, SizeText cfg.flags.memlimit n := by
    rcases hresolves.memlimit with ⟨hauto, -⟩ | ⟨-, n, hn, -⟩
    · exact Or.inl hauto
    · exact Or.inr ⟨n, hn⟩
  have hswitch : ∀ b, text (onOff b) = text "on" ∨ text (onOff b) = text "off" := by
    decide
  have hregistered : cfg.flags.profile = [] ∨ cat.Registers cfg.flags.profile := by
    rcases hnarrowed with ⟨hnone, -⟩ | ⟨-, x, hx, -⟩
    · exact Or.inl hnone
    · unfold Catalogue.surface at hx
      unfold Catalogue.Registers
      cases hrecord : cat.record cfg.flags.profile with
      | refused rc =>
          rw [hrecord] at hx
          cases hx
      | output json => exact Or.inr ⟨json, rfl⟩
  have hsurface : cfg.flags.profile = [] ∨ (cat.surface cfg.flags.profile).isSome = true := by
    rcases hnarrowed with ⟨hnone, -⟩ | ⟨-, x, hx, -⟩
    · exact Or.inl hnone
    · exact Or.inr (by rw [hx]; rfl)
  have hpayloadSize : ∃ n, SizeText cfg.flags.payloadSize n := by
    obtain ⟨n, hn, -⟩ := hresolves.payload
    exact ⟨n, hn⟩
  have hchunkSize : ∃ n, SizeText cfg.flags.chunkSize n := by
    obtain ⟨n, hn, -⟩ := hresolves.chunkSize
    exact ⟨n, hn⟩
  unfold flagRules
  simp only [Early.allHold_cons, Early.allHold_nil, and_true]
  exact ⟨⟨cfg.durationNs, hresolves.duration, h.duration.1⟩, h.iterations.1, h.workers,
    ⟨asked, hasked⟩, h.hash, hpayloadSize, hpayload, hmemlimit, h.gogc.1, hswitch _, hswitch _,
    hregistered, hsurface, h.keyBits, h.nonceBits, h.blobMode, h.barrierFill, h.interlock,
    hchunkSize, h.gomaxprocs.1, h.rekeyEvery.1, h.blobCycleEvery.1, ⟨cfg.payloadMode, rfl⟩⟩

/-- **The configurations that `parse_flags` returns** on some line, from any
state of the library, are exactly the sane ones.  Over a registry that the
library renders, the hash of a sane one is a registered name, or a text that
straddles a comma of the registry and is no name. -/
theorem settings_exactly_sane {σ : Type} {L : Lib σ} (hL : Offers L cat) (w : World σ)
    (cfg : Settings) :
    ((∃ argv, (∀ a ∈ argv, 0 ∉ a) ∧ ∃ w', (parseFlags L argv).run w = .ok (.ok cfg) w') ↔
      Sane cat cfg) ∧
    ∀ reg : Registry, cat.hashes = .output (renderWords reg.names) →
      (cat.Finds cfg.hash ↔ (∃ n ∈ reg.names, n.val = cfg.hash) ∨ reg.Straddles cfg.hash) := by
  refine ⟨?_, fun reg hreg => cat.finds_iff hreg⟩
  constructor
  · intro h
    obtain ⟨argv, hargv, w', hrun⟩ := h
    obtain ⟨p, hp, hf⟩ : ∃ p, parseArgv (flagTable {}) argv {} = some p ∧ p.flags.Typed :=
      parseArgv_typed hargv typed_defaults
    by_cases hrc : p.rc = 0
    · rw [parseFlags_parsed hp hrc] at hrun
      obtain ⟨hall, hresolves⟩ := ((judged_validate hL hf).goes_iff
        (fun _ _ h h' => h.unique h') w).mp ⟨w', hrun⟩
      exact sane_of_resolves hf hall hresolves
    · rw [parseFlags_stops hp hrc] at hrun
      cases hrun
  · intro h
    refine ⟨cfg.flags.line, line_zero_free h.typed, ?_⟩
    rw [parseFlags_parsed (line_parsed h.typed) rfl]
    exact ((judged_validate hL h.typed).goes_iff (fun _ _ h h' => h.unique h') w).mpr
      ⟨h.allHold, h.resolves⟩

end Accepted

/-- A nanosecond, with ten workers, on a registered name; and the comma between
the two names, which the search finds as well. -/
theorem settings_exactly_sane_nanosecond :
    (∃ argv, (∀ a ∈ argv, 0 ∉ a) ∧ ∃ w', (parseFlags twoNamesLib argv).run ⟨(), []⟩ =
      .ok (.ok { durationNs := 1, workers := 10, workersRequested := 10, shape := .both,
                 hash := text "blake3", payload := 1 }) w') ∧
    twoNamesCatalogue.Finds (text ",") := by
  refine ⟨(settings_exactly_sane twoNamesLib_offers ⟨(), []⟩ _).1.mpr ?_,
    ((settings_exactly_sane twoNamesLib_offers ⟨(), []⟩
      { durationNs := 1, shape := .both, hash := text ",", payload := 1 }).2
        twoNames rfl).mpr (Or.inr ?_)⟩
  case refine_2 => exact ⟨by decide, by decide⟩
  have hdouble : Binary64.IsDouble (((1 : ℕ) : ℚ) * 2 ^ (0 : ℤ)) :=
    Binary64.isDouble_of_lt (by decide) (by decide) (lt_of_eq_of_lt (by simp)
      (one_lt_pow₀ one_lt_two (by decide)))
  exact
    { duration := by decide, whole := by simpa using hdouble, iterations := by decide,
      workers := by decide, workersRequested := rfl, shape := Or.inl rfl,
      hash := ⟨_, rfl, by decide⟩, payload := by decide, memlimit := by decide,
      memlimitAuto := nofun, gogc := by decide, gomaxprocs := by decide, keyBits := by decide,
      nonceBits := by decide, blobMode := by decide, barrierFill := by decide,
      interlock := by decide, chunkSize := by decide, rekeyEvery := by decide,
      blobCycleEvery := by decide, seed := by decide, hashText := by decide,
      macText := by decide, drbgText := by decide, profileText := by decide,
      memprofileText := by decide, poolSlots := rfl }

end ItbCpp.Loop
