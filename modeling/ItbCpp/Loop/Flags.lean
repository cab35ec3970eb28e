/-
  ItbCpp.Loop.Flags
  ─────────────────
  **THE COMMAND LINE OF THE HARNESS** (`loop/main.cpp`).

  The integer parsers, the flag table and `parse_argv`.  A parser gets the
  text of a flag and its slot, and gives its verdict and the slot again.

    • `integers_sound_iff` — the three parsers leave exactly what the text
      says, unless a minus sign hides behind white space,
    • `spellings_agree` — however the flags are spelled, `parse_argv` does
      what their assigners do from left to right.
-/
import ItbCpp.Ffi
import ItbCpp.Lib.CNumber
import Mathlib.Data.List.Induction

namespace ItbCpp.Loop

open CNumber (isSpace isDigit Numeral cString int64Min int64Max uint64Max)

/-! ## §1. Integers. -/

/-- `parse_int`. -/
def parseInt (v : Bytes) (slot : Int) : Bool × Int :=
  if v = [] then (false, slot)
  else
    let r := CNumber.strtol (cString v)
    if r.rest ≠ [] ∨ r.erange = true ∨ r.value > 2147483647 ∨ r.value < -2147483647 then
      (false, slot)
    else (true, r.value)

/-- `parse_int64`. -/
def parseInt64 (v : Bytes) (slot : Int) : Bool × Int :=
  if v = [] then (false, slot)
  else
    let r := CNumber.strtoll (cString v)
    if r.rest ≠ [] ∨ r.erange = true then (false, slot) else (true, r.value)

/-- `parse_uint64`. -/
def parseUint64 (v : Bytes) (slot : Nat) : Bool × Nat :=
  -- only the first byte is looked at
  if v = [] ∨ v.head? = some 45 then (false, slot)
  else
    let r := CNumber.strtoull (cString v)
    if r.rest ≠ [] ∨ r.erange = true then (false, slot) else (true, r.value)

/-- What is asked of a parser on the text `v`, whatever its slot held: when it
accepts, `v` is a numeral and the slot holds its value, within the slot's
type; when it does not, the slot is as it was. -/
def SlotSound {τ : Type} (val : τ → Int) (lo hi : Int) (parse : Bytes → τ → Bool × τ)
    (v : Bytes) : Prop :=
  ∀ slot, ((parse v slot).1 = true → Numeral v (val (parse v slot).2) ∧
      lo ≤ val (parse v slot).2 ∧ val (parse v slot).2 ≤ hi) ∧
    ((parse v slot).1 = false → (parse v slot).2 = slot)

/-- A numeral whose minus sign stands behind white space, with a magnitude
from 1 to the largest `unsigned long long`. -/
def MinusBehindSpace (v : Bytes) : Prop :=
  ∃ ws ds, v = ws ++ 45 :: ds ∧ ws ≠ [] ∧ (∀ c ∈ ws, isSpace c = true) ∧ ds ≠ [] ∧
    (∀ c ∈ ds, isDigit c = true) ∧ 0 < CNumber.value ds ∧ CNumber.value ds ≤ uint64Max

section Integers

variable {v : Bytes}

theorem int_sound (h : 0 ∉ v) : SlotSound id (-(2 ^ 31)) (2 ^ 31 - 1) parseInt v := by
  intro slot
  unfold parseInt
  rw [CNumber.cString_eq h]
  by_cases hnil : v = []
  · simp [hnil]
  · rw [if_neg hnil]
    dsimp only
    split
    · simp
    · rename_i hgood
      simp only [not_or, not_not, Bool.not_eq_true] at hgood
      obtain ⟨hrest, hrange, hhi, hlo⟩ := hgood
      have hread := (CNumber.strtoSigned_reads hnil).mp ⟨hrest, hrange⟩
      refine ⟨fun _ => ⟨hread.1, ?_, ?_⟩, fun hfalse => (by cases hfalse)⟩
      · show -(2 ^ 31) ≤ (CNumber.strtol v).value
        omega
      · show (CNumber.strtol v).value ≤ 2 ^ 31 - 1
        omega

theorem int64_sound (h : 0 ∉ v) : SlotSound id int64Min int64Max parseInt64 v := by
  intro slot
  unfold parseInt64
  rw [CNumber.cString_eq h]
  by_cases hnil : v = []
  · simp [hnil]
  · rw [if_neg hnil]
    dsimp only
    split
    · simp
    · rename_i hgood
      simp only [not_or, not_not, Bool.not_eq_true] at hgood
      have hread := (CNumber.strtoSigned_reads hnil).mp hgood
      exact ⟨fun _ => ⟨hread.1, hread.2.1, hread.2.2.1⟩, fun hfalse => (by cases hfalse)⟩

/-- What `parse_uint64` accepts, and what it leaves in the slot. -/
theorem parseUint64_true (h : 0 ∉ v) (slot : Nat) :
    (parseUint64 v slot).1 = true ↔ v.head? ≠ some 45 ∧
      ∃ x, CNumber.scanInt v = some x ∧ x.rest = [] ∧ CNumber.value x.digits ≤ uint64Max ∧
        (parseUint64 v slot).2 =
          if x.neg then (2 ^ 64 - CNumber.value x.digits) % 2 ^ 64
          else CNumber.value x.digits := by
  unfold parseUint64
  rw [CNumber.cString_eq h]
  by_cases hnil : v = []
  · subst hnil
    have hnone : CNumber.scanInt [] = none := by decide
    simp [hnone]
  · by_cases hminus : v.head? = some 45
    · simp [hminus]
    · rw [if_neg (by simp [hnil, hminus])]
      have hreads := CNumber.strtoull_reads hnil
      dsimp only
      split
      · rename_i hbad
        refine ⟨fun hfalse => (by cases hfalse), fun hx => ?_⟩
        obtain ⟨-, x, hscan, hrest, hle, -⟩ := hx
        -- such a string is converted whole and in range
        exfalso
        have hgood : (CNumber.strtoull v).rest = [] ∧ (CNumber.strtoull v).erange = false := by
          unfold CNumber.strtoull
          rw [hscan]
          dsimp only
          rw [if_neg (Nat.not_lt.mpr hle)]
          split <;> exact ⟨hrest, rfl⟩
        rcases hbad with hbad | hbad
        · exact hbad hgood.1
        · rw [hgood.2] at hbad
          cases hbad
      · rename_i hgood
        simp only [not_or, not_not, Bool.not_eq_true] at hgood
        exact ⟨fun _ => ⟨hminus, hreads.mp hgood⟩, fun _ => rfl⟩

theorem parseUint64_false {slot : Nat} (h : (parseUint64 v slot).1 = false) :
    (parseUint64 v slot).2 = slot := by
  unfold parseUint64 at h ⊢
  by_cases hempty : v = [] ∨ v.head? = some 45
  · rw [if_pos hempty]
  · rw [if_neg hempty] at h ⊢
    dsimp only at h ⊢
    split at h
    · rename_i hbad
      rw [if_pos hbad]
    · cases h

/-- A minus sign that is not the first byte has white space before it. -/
theorem scanInt_minus {x : CNumber.Scan} (hscan : CNumber.scanInt v = some x)
    (hneg : x.neg = true) (hrest : x.rest = []) (hhead : v.head? ≠ some 45)
    (hpos : 0 < CNumber.value x.digits) (hle : CNumber.value x.digits ≤ uint64Max) :
    MinusBehindSpace v := by
  obtain ⟨neg, ds, rest⟩ := x
  obtain rfl : rest = [] := hrest
  obtain rfl : neg = true := hneg
  obtain ⟨ws, sg, rfl, hws, hsg, hne, hds, -⟩ := CNumber.scanInt_eq_some.mp hscan
  cases hsg
  refine ⟨ws, ds, by simp, ?_, hws, hne, hds, hpos, hle⟩
  intro hnil
  subst hnil
  exact hhead rfl

theorem MinusBehindSpace.scan (h : MinusBehindSpace v) :
    v.head? ≠ some 45 ∧ ∃ ds, CNumber.scanInt v = some ⟨true, ds, []⟩ ∧
      0 < CNumber.value ds ∧ CNumber.value ds ≤ uint64Max := by
  obtain ⟨ws, ds, rfl, hne, hws, hds, hdigits, hpos, hle⟩ := h
  constructor
  · cases ws with
    | nil => exact (hne rfl).elim
    | cons c ws =>
        intro hhead
        obtain rfl : c = 45 := Option.some.inj hhead
        exact absurd (hws 45 List.mem_cons_self) (by decide)
  · refine ⟨ds, CNumber.scanInt_eq_some.mpr ⟨ws, [45], by simp, hws, .minus, hds, hdigits,
      CNumber.stops_nil⟩, hpos, hle⟩

/-- **The unsigned parser** is exact unless a minus sign hides behind white
space. -/
theorem uint64_sound_iff (h : 0 ∉ v) :
    SlotSound (fun n : Nat => (n : Int)) 0 uint64Max parseUint64 v ↔ ¬ MinusBehindSpace v := by
  constructor
  · intro hsound hminus
    obtain ⟨hhead, ds, hscan, hpos, hle⟩ := hminus.scan
    have htrue : (parseUint64 v 0).1 = true := by
      unfold parseUint64
      rw [CNumber.cString_eq h, if_neg]
      · unfold CNumber.strtoull
        rw [hscan]
        dsimp only
        rw [if_neg (Nat.not_lt.mpr hle)]
        rfl
      · intro hbad
        rcases hbad with hbad | hbad
        · subst hbad
          cases hscan
        · exact hhead hbad
    obtain ⟨-, x, hx, -, -, hslot⟩ := (parseUint64_true h 0).mp htrue
    rw [hscan] at hx
    cases hx
    obtain ⟨y, hy, -, hval⟩ := CNumber.numeral_iff.mp ((hsound 0).1 htrue).1
    rw [hscan] at hy
    cases hy
    -- the slot holds `2^64` less the magnitude, the text says less than zero
    have hneg : -(CNumber.value ds : Int) = ((parseUint64 v 0).2 : Int) := hval
    omega
  · intro hnot slot
    refine ⟨fun htrue => ?_, parseUint64_false⟩
    obtain ⟨hhead, x, hscan, hrest, hle, hslot⟩ := (parseUint64_true h slot).mp htrue
    have hvalue : ((parseUint64 v slot).2 : Int) = x.value := by
      rw [hslot]
      unfold CNumber.Scan.value
      by_cases hneg : x.neg = true
      · -- minus zero
        have hzero : CNumber.value x.digits = 0 := by
          by_contra hne
          exact hnot (scanInt_minus hscan hneg hrest hhead (Nat.pos_of_ne_zero hne) hle)
        simp [hneg, hzero]
      · simp [hneg]
    refine ⟨CNumber.numeral_iff.mpr ⟨x, hscan, hrest, hvalue.symm⟩, Int.natCast_nonneg _, ?_⟩
    have hmax : (parseUint64 v slot).2 ≤ uint64Max := by
      rw [hslot]
      split
      · have hlt := Nat.mod_lt (2 ^ 64 - CNumber.value x.digits) (y := 2 ^ 64) (by decide)
        unfold uint64Max
        omega
      · exact hle
    show ((parseUint64 v slot).2 : Int) ≤ (uint64Max : Int)
    exact_mod_cast hmax

/-- **Integer flags.**  On every NUL-free text the three parsers leave exactly
what the text says, if and only if it is no minus sign behind white space:
`parse_uint64` looks for the sign in the first byte only, and `strtoull`
skips the white space and negates. -/
theorem integers_sound_iff (h : 0 ∉ v) :
    (SlotSound id (-(2 ^ 31)) (2 ^ 31 - 1) parseInt v ∧
      SlotSound id int64Min int64Max parseInt64 v ∧
      SlotSound (fun n : Nat => (n : Int)) 0 uint64Max parseUint64 v) ↔
        ¬ MinusBehindSpace v := by
  constructor
  · exact fun hall => (uint64_sound_iff h).mp hall.2.2
  · exact fun hnot => ⟨int_sound h, int64_sound h, (uint64_sound_iff h).mpr hnot⟩

/-- A plain numeral. -/
theorem integers_sound_iff_plain :
    (SlotSound id (-(2 ^ 31)) (2 ^ 31 - 1) parseInt (text "42") ∧
      SlotSound id int64Min int64Max parseInt64 (text "42") ∧
      SlotSound (fun n : Nat => (n : Int)) 0 uint64Max parseUint64 (text "42")) := by
  refine (integers_sound_iff (by decide)).mpr ?_
  intro hminus
  obtain ⟨ws, ds, heq, -⟩ := hminus
  have hmem : (45 : UInt8) ∈ text "42" := by
    rw [heq]
    simp
  exact absurd hmem (by decide)

/-- `--seed " -5"` is accepted, and wraps. -/
theorem seed_wraps :
    0 ∉ text " -5" ∧ parseUint64 (text " -5") 0 = (true, 18446744073709551611) ∧
      ¬ SlotSound (fun n : Nat => (n : Int)) 0 uint64Max parseUint64 (text " -5") := by
  refine ⟨by decide, by decide, ?_⟩
  intro hsound
  obtain ⟨hnum, -⟩ := (hsound 0).1 (by decide)
  obtain ⟨x, hscan, -, hval⟩ := CNumber.numeral_iff.mp hnum
  have hminus : CNumber.scanInt (text " -5") = some ⟨true, [53], []⟩ := by decide
  rw [hminus] at hscan
  cases hscan
  exact absurd hval (by decide)

end Integers

/-! ## §2. The flag table. -/

/-- `RawFlags`: the values before validation, with their defaults. -/
structure RawFlags where
  barrierFill : Int := 0
  blobCycleEvery : Int := 0
  blobMode : Int := 1
  chunkSize : Bytes := text "0"
  drbg : Bytes := []
  duration : Bytes := text "5m"
  gogc : Int := 0
  gomaxprocs : Int := 0
  goroutines : Int := 3
  hash : Bytes := text "areion512"
  interlock : Bytes := []
  iterations : Int := 0
  jsonOutput : Bool := false
  keyBits : Int := 0
  mac : Bytes := text "hmac-blake3"
  memlimit : Bytes := text "auto"
  memprofile : Bytes := []
  nonceBits : Int := 0
  parallax : Bytes := text "on"
  payloadMode : Bytes := text "fixed"
  payloadSize : Bytes := text "16MB"
  profile : Bytes := []
  rekeyEvery : Int := 0
  seed : Nat := 0
  shape : Bytes := text "stream"
  wrapper : Bytes := text "on"

/-- What a slot holds. -/
inductive SlotValue where
  | int (n : Int)
  | uint (n : Nat)
  | string (b : Bytes)
  | bool (b : Bool)
  deriving DecidableEq

/-- The slots, in the order of the table. -/
def RawFlags.slots (f : RawFlags) : List SlotValue :=
  [.int f.barrierFill, .int f.blobCycleEvery, .int f.blobMode, .string f.chunkSize,
    .string f.drbg, .string f.duration, .int f.gogc, .int f.gomaxprocs, .int f.goroutines,
    .string f.hash, .string f.interlock, .int f.iterations, .bool f.jsonOutput, .int f.keyBits,
    .string f.mac, .string f.memlimit, .string f.memprofile, .int f.nonceBits,
    .string f.parallax, .string f.payloadMode, .string f.payloadSize, .string f.profile,
    .int f.rekeyEvery, .uint f.seed, .string f.shape, .string f.wrapper]

/-- `Flag`.  An assigner answers whether the value lands, and what the flags
hold then. -/
structure Flag where
  name : Bytes
  typeLabel : Bytes
  help : Bytes
  boolean : Bool
  defaultSuffix : Bytes
  assign : Bytes → RawFlags → Bool × RawFlags

section Table

variable (f : RawFlags)

/-- `add_int`. -/
def addInt (name : String) (get : RawFlags → Int) (set : RawFlags → Int → RawFlags)
    (help : String) : Flag where
  name := text name
  typeLabel := text "int"
  help := text help
  boolean := false
  defaultSuffix :=
    if get f ≠ 0 then text " (default " ++ text (toString (get f)) ++ text ")" else []
  assign v f := ((parseInt v (get f)).1, set f (parseInt v (get f)).2)

/-- `add_int64`. -/
def addInt64 (name : String) (get : RawFlags → Int) (set : RawFlags → Int → RawFlags)
    (help : String) : Flag where
  name := text name
  typeLabel := text "int"
  help := text help
  boolean := false
  defaultSuffix := []
  assign v f := ((parseInt64 v (get f)).1, set f (parseInt64 v (get f)).2)

/-- `add_uint64`. -/
def addUint64 (name : String) (get : RawFlags → Nat) (set : RawFlags → Nat → RawFlags)
    (help : String) : Flag where
  name := text name
  typeLabel := text "uint"
  help := text help
  boolean := false
  defaultSuffix := []
  assign v f := ((parseUint64 v (get f)).1, set f (parseUint64 v (get f)).2)

/-- `add_string`. -/
def addString (name label : String) (get : RawFlags → Bytes) (set : RawFlags → Bytes → RawFlags)
    (help : String) : Flag where
  name := text name
  typeLabel := text label
  help := text help
  boolean := false
  defaultSuffix :=
    if get f = [] then [] else text " (default \"" ++ cString (get f) ++ text "\")"
  assign v f := (true, set f v)

/-- `add_bool`. -/
def addBool (name : String) (set : RawFlags → Bool → RawFlags) (help : String) : Flag where
  name := text name
  typeLabel := []
  help := text help
  boolean := true
  defaultSuffix := []
  assign v f :=
    if v = text "true" then (true, set f true)
    else if v = text "false" then (true, set f false)
    else (false, f)

/-- `flag_table`, over flags that still hold their defaults. -/
def flagTable : List Flag :=
  [ addInt f "barrier-fill" (·.barrierFill) (fun f n => { f with barrierFill := n })
      "DRBG barrier fill margin: 1 | 2 | 4 | 8 | 16 | 32; 0 = profile default (1)",
    addInt64 "blob-cycle-every" (·.blobCycleEvery) (fun f n => { f with blobCycleEvery := n })
      ("reopen each pipeline from its session blob every N iterations per worker; " ++
        "0 = never"),
    addInt f "blob-mode" (·.blobMode) (fun f n => { f with blobMode := n })
      "container floor sizing mode: 1 (per-region, default) | 2 (per-container)",
    addString f "chunk-size" "string" (·.chunkSize) (fun f b => { f with chunkSize := b })
      ("streaming chunk-size budget (e.g. 4MB); 0 = profile default; " ++
        "inert for pure message shape"),
    addString f "drbg" "string" (·.drbg) (fun f b => { f with drbg := b })
      "DRBG fill primitive name (see itb3 drbgs); empty = profile default (auto tier)",
    addString f "duration" "duration" (·.duration) (fun f b => { f with duration := b })
      "run duration (Go format: 30s / 5m / 1h); ignored when --iterations > 0",
    addInt f "gogc" (·.gogc) (fun f n => { f with gogc := n })
      "GC trigger percentage; 0 = leave the runtime default",
    addInt f "gomaxprocs" (·.gomaxprocs) (fun f n => { f with gomaxprocs := n })
      "Go runtime GOMAXPROCS override; 0 = inherit from the environment",
    addInt f "goroutines" (·.goroutines) (fun f n => { f with goroutines := n })
      ("concurrent workers (1..10); on runtimes without parallelism values above 1 " ++
        "are clamped to 1"),
    addString f "hash" "string" (·.hash) (fun f b => { f with hash := b })
      "inner ITB hash primitive name",
    addString f "interlock" "string" (·.interlock) (fun f b => { f with interlock := b })
      ("Interlocked Barrier chunk width: 48 | 168; empty = profile default " ++
        "(48; 168 requires 512-bit hash)"),
    addInt64 "iterations" (·.iterations) (fun f n => { f with iterations := n })
      "fixed per-worker iteration count; 0 = duration-based",
    addBool "json-output" (fun f b => { f with jsonOutput := b })
      "print the final summary as one compact JSON object instead of log lines",
    addInt f "key-bits" (·.keyBits) (fun f n => { f with keyBits := n })
      "per-seed key width in bits: 512 | 1024 | 2048; 0 = profile default (1024)",
    addString f "mac" "string" (·.mac) (fun f b => { f with mac := b })
      "MAC primitive name",
    addString f "memlimit" "string" (·.memlimit) (fun f b => { f with memlimit := b })
      ("Go heap soft limit: auto (1GiB when goroutines <= 3, else 256MiB, applied only " ++
        "when the runtime has no limit) or a size (e.g. 512MB)"),
    addString f "memprofile" "string" (·.memprofile) (fun f b => { f with memprofile := b })
      ("write a Go runtime heap profile (pprof) to this path at the end of the run; " ++
        "empty = none"),
    addInt f "nonce-bits" (·.nonceBits) (fun f n => { f with nonceBits := n })
      "on-wire nonce width in bits: 128 | 256 | 512; 0 = profile default (512)",
    addString f "parallax" "string" (·.parallax) (fun f b => { f with parallax := b })
      "parallax layer: on | off",
    addString f "payload-mode" "string" (·.payloadMode) (fun f b => { f with payloadMode := b })
      "plaintext content: fixed | rotating | pattern-zero | pattern-ff | pattern-ascii",
    addString f "payload-size" "string" (·.payloadSize) (fun f b => { f with payloadSize := b })
      "per-iteration plaintext size (e.g. 1MB / 16MB / 64MB)",
    addString f "profile" "string" (·.profile) (fun f b => { f with profile := b })
      ("exercise this single registered triple profile (overrides --shape with the " ++
        "profile's surface); empty = shape-based profile pair"),
    addInt64 "rekey-every" (·.rekeyEvery) (fun f n => { f with rekeyEvery := n })
      ("rotate the parallax + wrapper masters via Rekey every N iterations per worker; " ++
        "0 = never"),
    addUint64 "seed" (·.seed) (fun f n => { f with seed := n })
      ("deterministic plaintext RNG seed for bug reproduction, NOT for security testing " ++
        "(pipeline keys stay CSPRNG-drawn); 0 = crypto/rand plaintexts"),
    addString f "shape" "string" (·.shape) (fun f b => { f with shape := b })
      "cipher surface to exercise: stream | message | stream_one_shot | both",
    addString f "wrapper" "string" (·.wrapper) (fun f b => { f with wrapper := b })
      "wrapper layer: on | off" ]

end Table

/-! ## §3. The line. -/

/-- What `err_line` prints. -/
def errLine (t : Bytes) : Bytes := text "loop: " ++ t ++ text "\n"

/-- What `usage` prints. -/
def usage (table : List Flag) : Bytes :=
  text "Usage of loop:\n" ++ table.flatMap fun fl =>
    text "  -" ++ fl.name ++ (if fl.typeLabel ≠ [] then text " " else []) ++ fl.typeLabel ++
      text "\n" ++ text "    \t" ++ fl.help ++ fl.defaultSuffix ++ text "\n"

/-- What `parse_argv` returns, what the flags hold then and what it has
printed. -/
structure Parsed where
  rc : Int
  flags : RawFlags
  err : Bytes

/-- What a pass of the loop finds: the flag, its value and the argument they
end at, or how the parse ends there. -/
abbrev Found := Except Parsed (Flag × Bytes × Nat)

/-- The value of a flag that was given none after a `=`: nothing is asked of a
boolean flag, any other takes the next argument if there is one.  What lies
beyond the last argument is undefined. -/
def nextValue (argv : List Bytes) (i : Nat) (f : RawFlags) (fl : Flag) : Option Found :=
  if fl.boolean then some (.ok (fl, text "true", i))
  else if i + 1 < argv.length then (argv[i + 1]?).map fun v => .ok (fl, v, i + 1)
  else some (.error ⟨-1, f, errLine (text "flag needs an argument: -" ++ fl.name)⟩)

/-- A name, with or without a `=` and a value behind it. -/
def findFlag (table : List Flag) (argv : List Bytes) (i : Nat) (f : RawFlags) (name : Bytes) :
    Option Found :=
  -- cut at the first `=`, if there is one
  let cut := name.takeWhile (· != 61)
  match table.find? fun candidate => candidate.name = cut with
  | none =>
      some (.error ⟨-1, f, errLine (text "flag provided but not defined: -" ++ cut) ++ usage table⟩)
  | some fl =>
      if 61 ∈ name then some (.ok (fl, (name.dropWhile (· != 61)).drop 1, i))
      else nextValue argv i f fl

/-- The argument `i`. -/
def readFlag (table : List Flag) (argv : List Bytes) (i : Nat) (f : RawFlags) : Option Found := do
  let arg ← argv[i]?
  if arg.length < 2 ∨ arg.head? ≠ some 45 then
    some (.error ⟨-1, f, errLine (text "unexpected positional arguments: [" ++ arg ++ text "]")⟩)
  else
    let name := arg.drop (if arg[1]? = some 45 then 2 else 1)
    if name = text "h" ∨ name = text "help" then some (.error ⟨1, f, usage table⟩)
    else findFlag table argv i f name

/-- The loop of `parse_argv`, from argument `i` on.  Each pass moves on, so as
many passes as there are arguments will do; nothing is returned when one
would be read that is not there. -/
def parseArgvFrom (table : List Flag) (argv : List Bytes) :
    Nat → Nat → RawFlags → Option Parsed
  | 0, _, _ => none
  | fuel + 1, i, f =>
      if i < argv.length then
        match readFlag table argv i f with
        | none => none
        | some (.error parsed) => some parsed
        | some (.ok (fl, v, j)) =>
            let landed := fl.assign v f
            if landed.1 then parseArgvFrom table argv fuel (j + 1) landed.2
            else some ⟨-1, landed.2, errLine (text "invalid value \"" ++ v ++
              text "\" for flag -" ++ fl.name)⟩
      else some ⟨0, f, []⟩

/-- `parse_argv`. -/
def parseArgv (table : List Flag) (argv : List Bytes) (f : RawFlags) : Option Parsed :=
  parseArgvFrom table argv (argv.length + 1) 1 f

/-! ## §4. One slot for each flag. -/

/-- The flag at place `k` of the table takes a text for what it says, whatever
the flags hold: it refuses it and leaves them, or puts one value into slot
`k` and nothing anywhere else. -/
def Flag.Slotted (fl : Flag) (k : Nat) : Prop :=
  ∀ v, (∀ f, fl.assign v f = (false, f)) ∨
    ∃ x, ∀ f, (fl.assign v f).1 = true ∧ (fl.assign v f).2.slots = f.slots.set k x

/-- Each flag of a table, from place `k` on. -/
def SlottedFrom : Nat → List Flag → Prop
  | _, [] => True
  | k, fl :: fls => fl.Slotted k ∧ SlottedFrom (k + 1) fls

/-- What is asked of the names: they differ, and none can be taken for a dash,
a `=` or a call for help. -/
structure Named (table : List Flag) : Prop where
  distinct : (table.map Flag.name).Nodup
  plain : ∀ name ∈ table.map Flag.name, name ≠ [] ∧ name.head? ≠ some 45 ∧ 61 ∉ name ∧
    name ≠ text "h" ∧ name ≠ text "help"

section Slots

/-- A parser that makes two checks: it leaves the slot alone, or what it puts
there has nothing to do with what was there. -/
theorem reads_of_checks {τ : Type} {parse : τ → Bool × τ} {c c' : Prop} [Decidable c]
    [Decidable c'] {n : τ}
    (h : ∀ slot, parse slot =
      if c then (false, slot) else if c' then (false, slot) else (true, n)) :
    (∀ slot, parse slot = (false, slot)) ∨ ∃ n, ∀ slot, parse slot = (true, n) := by
  by_cases hc : c
  · refine Or.inl fun slot => ?_
    rw [h, if_pos hc]
  · by_cases hc' : c'
    · refine Or.inl fun slot => ?_
      rw [h, if_neg hc, if_pos hc']
    · refine Or.inr ⟨n, fun slot => ?_⟩
      rw [h, if_neg hc, if_neg hc']

theorem parseInt_reads (v : Bytes) :
    (∀ slot, parseInt v slot = (false, slot)) ∨ ∃ n, ∀ slot, parseInt v slot = (true, n) :=
  reads_of_checks fun _ => rfl

theorem parseInt64_reads (v : Bytes) :
    (∀ slot, parseInt64 v slot = (false, slot)) ∨ ∃ n, ∀ slot, parseInt64 v slot = (true, n) :=
  reads_of_checks fun _ => rfl

theorem parseUint64_reads (v : Bytes) :
    (∀ slot, parseUint64 v slot = (false, slot)) ∨
      ∃ n, ∀ slot, parseUint64 v slot = (true, n) :=
  reads_of_checks fun _ => rfl

/-- A flag whose text is read by a parser, into a slot of its own. -/
theorem slotted_of_reads {τ : Type} {fl : Flag} {k : Nat} {parse : Bytes → τ → Bool × τ}
    {get : RawFlags → τ} {set : RawFlags → τ → RawFlags} {wrap : τ → SlotValue}
    (hassign : ∀ v f, fl.assign v f = ((parse v (get f)).1, set f (parse v (get f)).2))
    (hreads : ∀ v, (∀ slot, parse v slot = (false, slot)) ∨
      ∃ n, ∀ slot, parse v slot = (true, n))
    (hback : ∀ f, set f (get f) = f)
    (hslots : ∀ f n, (set f n).slots = f.slots.set k (wrap n)) : fl.Slotted k := by
  intro v
  rcases hreads v with hno | ⟨n, hyes⟩
  · refine Or.inl fun f => ?_
    rw [hassign, hno, hback]
  · refine Or.inr ⟨wrap n, fun f => ?_⟩
    rw [hassign, hyes]
    exact ⟨rfl, hslots f n⟩

variable {f₀ : RawFlags} {name label help : String} {k : Nat}

theorem slotted_addInt {get : RawFlags → Int} {set : RawFlags → Int → RawFlags}
    (hback : ∀ f, set f (get f) = f)
    (hslots : ∀ f n, (set f n).slots = f.slots.set k (.int n)) :
    (addInt f₀ name get set help).Slotted k :=
  slotted_of_reads (fun _ _ => rfl) parseInt_reads hback hslots

theorem slotted_addInt64 {get : RawFlags → Int} {set : RawFlags → Int → RawFlags}
    (hback : ∀ f, set f (get f) = f)
    (hslots : ∀ f n, (set f n).slots = f.slots.set k (.int n)) :
    (addInt64 name get set help).Slotted k :=
  slotted_of_reads (fun _ _ => rfl) parseInt64_reads hback hslots

theorem slotted_addUint64 {get : RawFlags → Nat} {set : RawFlags → Nat → RawFlags}
    (hback : ∀ f, set f (get f) = f)
    (hslots : ∀ f n, (set f n).slots = f.slots.set k (.uint n)) :
    (addUint64 name get set help).Slotted k :=
  slotted_of_reads (fun _ _ => rfl) parseUint64_reads hback hslots

theorem slotted_addString {get : RawFlags → Bytes} {set : RawFlags → Bytes → RawFlags}
    (hslots : ∀ f b, (set f b).slots = f.slots.set k (.string b)) :
    (addString f₀ name label get set help).Slotted k :=
  fun v => Or.inr ⟨.string v, fun f => ⟨rfl, hslots f v⟩⟩

theorem slotted_addBool {set : RawFlags → Bool → RawFlags}
    (hslots : ∀ f b, (set f b).slots = f.slots.set k (.bool b)) :
    (addBool name set help).Slotted k := by
  intro v
  unfold addBool
  dsimp only
  by_cases htrue : v = text "true"
  · refine Or.inr ⟨.bool true, fun f => ?_⟩
    rw [if_pos htrue]
    exact ⟨rfl, hslots f true⟩
  · by_cases hfalse : v = text "false"
    · refine Or.inr ⟨.bool false, fun f => ?_⟩
      rw [if_neg htrue, if_pos hfalse]
      exact ⟨rfl, hslots f false⟩
    · refine Or.inl fun f => ?_
      rw [if_neg htrue, if_neg hfalse]

/-- **Every flag has a slot of its own**, the one at its place in the table. -/
theorem flagTable_slotted (f₀ : RawFlags) : SlottedFrom 0 (flagTable f₀) := by
  unfold flagTable
  refine ⟨slotted_addInt (fun _ => rfl) fun _ _ => rfl,
    slotted_addInt64 (fun _ => rfl) fun _ _ => rfl,
    slotted_addInt (fun _ => rfl) fun _ _ => rfl,
    slotted_addString fun _ _ => rfl,
    slotted_addString fun _ _ => rfl,
    slotted_addString fun _ _ => rfl,
    slotted_addInt (fun _ => rfl) fun _ _ => rfl,
    slotted_addInt (fun _ => rfl) fun _ _ => rfl,
    slotted_addInt (fun _ => rfl) fun _ _ => rfl,
    slotted_addString fun _ _ => rfl,
    slotted_addString fun _ _ => rfl,
    slotted_addInt64 (fun _ => rfl) fun _ _ => rfl,
    slotted_addBool fun _ _ => rfl,
    slotted_addInt (fun _ => rfl) fun _ _ => rfl,
    slotted_addString fun _ _ => rfl,
    slotted_addString fun _ _ => rfl,
    slotted_addString fun _ _ => rfl,
    slotted_addInt (fun _ => rfl) fun _ _ => rfl,
    slotted_addString fun _ _ => rfl,
    slotted_addString fun _ _ => rfl,
    slotted_addString fun _ _ => rfl,
    slotted_addString fun _ _ => rfl,
    slotted_addInt64 (fun _ => rfl) fun _ _ => rfl,
    slotted_addUint64 (fun _ => rfl) fun _ _ => rfl,
    slotted_addString fun _ _ => rfl,
    slotted_addString fun _ _ => rfl, trivial⟩

theorem SlottedFrom.at {table : List Flag} {n : Nat} (h : SlottedFrom n table) {fl : Flag}
    (hk : table[k]? = some fl) : fl.Slotted (n + k) := by
  induction table generalizing n k with
  | nil => cases hk
  | cons g rest ih =>
      cases k with
      | zero =>
          obtain rfl := Option.some.inj hk
          exact h.1
      | succ k =>
          have := ih h.2 hk
          rwa [Nat.add_assoc, Nat.add_comm 1] at this

set_option maxRecDepth 4000 in
/-- The names of the table. -/
theorem flagTable_named (f₀ : RawFlags) : Named (flagTable f₀) := by
  have hnames : (flagTable f₀).map Flag.name = (flagTable {}).map Flag.name := rfl
  constructor
  · rw [hnames]
    decide
  · rw [hnames]
    decide

end Slots

/-! ## §5. Spellings. -/

/-- How a flag and its value stand in the line. -/
inductive Spelling where
  /-- `-name value` -/
  | spaced
  /-- `-name=value` -/
  | joined
  /-- `-name` -/
  | bare
  deriving DecidableEq

/-- Which spellings a flag has: a boolean one takes no argument of its own and
means true when it stands alone. -/
def Spelling.Fits : Spelling → Flag → Bytes → Prop
  | .spaced, fl, _ => fl.boolean = false
  | .joined, _, _ => True
  | .bare, fl, v => fl.boolean = true ∧ v = text "true"

/-- A flag of the table, given a value, in one of its spellings. -/
structure Occurrence (table : List Flag) where
  flag : Flag
  mem : flag ∈ table
  value : Bytes
  twoDashes : Bool
  spelling : Spelling
  fits : spelling.Fits flag value

section Occurrences

variable {table : List Flag}

/-- `-` or `--`. -/
def dashes (two : Bool) : Bytes := if two then [45, 45] else [45]

/-- The arguments it is. -/
def Occurrence.render (o : Occurrence table) : List Bytes :=
  match o.spelling with
  | .spaced => [dashes o.twoDashes ++ o.flag.name, o.value]
  | .joined => [dashes o.twoDashes ++ (o.flag.name ++ 61 :: o.value)]
  | .bare => [dashes o.twoDashes ++ o.flag.name]

/-- Its value lands. -/
def Occurrence.Lands (o : Occurrence table) (f : RawFlags) : Prop :=
  (o.flag.assign o.value f).1 = true

/-- The flags after the assigners have been applied from left to right. -/
def assigned (os : List (Occurrence table)) (f : RawFlags) : RawFlags :=
  os.foldl (fun f o => (o.flag.assign o.value f).2) f

/-- Each value lands when its turn comes. -/
def AllLand : List (Occurrence table) → RawFlags → Prop
  | [], _ => True
  | o :: os, f => o.Lands f ∧ AllLand os (o.flag.assign o.value f).2

/-- How the line ends at a value that does not land. -/
def Occurrence.refused (o : Occurrence table) (f : RawFlags) : Parsed where
  rc := -1
  flags := f
  err := errLine (text "invalid value \"" ++ o.value ++ text "\" for flag -" ++ o.flag.name)

/-- The last occurrence of a flag. -/
def lastOf (name : Bytes) (os : List (Occurrence table)) : Option (Occurrence table) :=
  os.reverse.find? fun o => o.flag.name = name

/-- The flags after the last occurrence of a flag alone, if there is one. -/
def onlyLast (name : Bytes) (os : List (Occurrence table)) (f : RawFlags) : RawFlags :=
  (lastOf name os).elim f fun o => (o.flag.assign o.value f).2

/-- The flag of that name is found. -/
theorem find_name (hn : Named table) {fl : Flag} (hmem : fl ∈ table) :
    (table.find? fun c => c.name = fl.name) = some fl := by
  have hdistinct := hn.distinct
  clear hn
  induction table with
  | nil => cases hmem
  | cons g rest ih =>
      rw [List.map_cons, List.nodup_cons] at hdistinct
      rcases List.mem_cons.mp hmem with rfl | hrest
      · exact List.find?_cons_of_pos (by simp)
      · have hne : g.name ≠ fl.name := by
          intro heq
          exact hdistinct.1 (heq ▸ List.mem_map_of_mem hrest)
        rw [List.find?_cons_of_neg (by simpa using hne)]
        exact ih hrest hdistinct.2

/-- The name begins behind the dashes. -/
theorem drop_dashes (two : Bool) {name : Bytes} (h : name.head? ≠ some 45) (tail : Bytes)
    (hne : name ≠ []) :
    (dashes two ++ (name ++ tail)).drop
      (if (dashes two ++ (name ++ tail))[1]? = some 45 then 2 else 1) = name ++ tail := by
  cases two with
  | true => rfl
  | false =>
      cases name with
      | nil => exact (hne rfl).elim
      | cons c b =>
          have hc : ¬ c = 45 := fun heq => h (heq ▸ rfl)
          simp [dashes, hc]

/-- The part before the first `=`, and the part from it on. -/
theorem cut_name {name tail : Bytes} (hname : 61 ∉ name) (htail : CNumber.Stops (· != 61) tail) :
    (name ++ tail).takeWhile (· != 61) = name ∧ (name ++ tail).dropWhile (· != 61) = tail := by
  have hall : ∀ c ∈ name, (c != 61) = true := by
    intro c hc
    have hne : c ≠ 61 := fun heq => hname (heq ▸ hc)
    simpa using hne
  exact ⟨CNumber.takeWhile_run hall htail, CNumber.dropWhile_run hall htail⟩

theorem getElem?_of_drop {α : Type} {l : List α} {i : Nat} {a : α} {t : List α}
    (h : l.drop i = a :: t) : l[i]? = some a ∧ i < l.length ∧ l.drop (i + 1) = t := by
  have hlt : i < l.length := by
    by_contra hge
    rw [List.drop_of_length_le (Nat.le_of_not_lt hge)] at h
    cases h
  refine ⟨?_, hlt, ?_⟩
  · rw [← List.head?_drop, h]
    rfl
  · rw [← List.tail_drop, h]
    rfl

/-- An argument that begins with the dashes and the name of a flag. -/
theorem readFlag_named (hn : Named table) (o : Occurrence table) {argv : List Bytes} {i : Nat}
    {tail : Bytes} (htail : CNumber.Stops (· != 61) tail)
    (harg : argv[i]? = some (dashes o.twoDashes ++ (o.flag.name ++ tail))) (f : RawFlags) :
    readFlag table argv i f =
      if tail = [] then nextValue argv i f o.flag
      else some (.ok (o.flag, tail.drop 1, i)) := by
  obtain ⟨hne, hhead, hnoeq, hnoh, hnohelp⟩ :=
    hn.plain o.flag.name (List.mem_map_of_mem o.mem)
  obtain ⟨hcut, hafter⟩ := cut_name hnoeq htail
  have hfind := find_name hn o.mem
  have hlong : ¬ ((dashes o.twoDashes ++ (o.flag.name ++ tail)).length < 2 ∨
      (dashes o.twoDashes ++ (o.flag.name ++ tail)).head? ≠ some 45) := by
    have hpos : 0 < o.flag.name.length := List.length_pos_iff.mpr hne
    have hlen : 2 ≤ (dashes o.twoDashes ++ (o.flag.name ++ tail)).length := by
      rw [List.length_append, List.length_append]
      cases o.twoDashes
      · show 2 ≤ 1 + (o.flag.name.length + tail.length)
        omega
      · show 2 ≤ 2 + (o.flag.name.length + tail.length)
        omega
    have hdash : (dashes o.twoDashes ++ (o.flag.name ++ tail)).head? = some 45 := by
      cases o.twoDashes <;> rfl
    intro hor
    rcases hor with hshort | hother
    · omega
    · exact hother hdash
  -- with a `=` in it the argument is no call for help
  have hplain : ∀ help : Bytes, 61 ∉ help → o.flag.name ≠ help → o.flag.name ++ tail ≠ help := by
    intro help hno hother heq
    have hnil : tail = [] := by
      cases tail with
      | nil => rfl
      | cons c t =>
          have hc : c = 61 := by simpa using htail c t rfl
          exact (hno (heq ▸ by simp [hc])).elim
    rw [hnil, List.append_nil] at heq
    exact hother heq
  have hhelp : ¬ (o.flag.name ++ tail = text "h" ∨ o.flag.name ++ tail = text "help") := by
    intro hh
    rcases hh with hh | hh
    · exact hplain _ (by decide) hnoh hh
    · exact hplain _ (by decide) hnohelp hh
  have hmem : 61 ∈ o.flag.name ++ tail ↔ tail ≠ [] := by
    constructor
    · intro h hnil
      rw [hnil, List.append_nil] at h
      exact hnoeq h
    · intro h
      cases tail with
      | nil => exact (h rfl).elim
      | cons c t =>
          have hc : c = 61 := by simpa using htail c t rfl
          simp [hc]
  unfold readFlag
  rw [harg]
  show (if _ then _ else _) = _
  rw [if_neg hlong, drop_dashes _ hhead _ hne]
  rw [if_neg hhelp]
  unfold findFlag
  dsimp only
  rw [hcut, hafter, hfind]
  dsimp only
  by_cases hnil : tail = []
  · rw [if_pos hnil, if_neg (fun h => hmem.mp h hnil)]
  · rw [if_neg hnil, if_pos (hmem.mpr hnil)]

/-- **What a pass finds**, however the flag is spelled. -/
theorem readFlag_occurrence (hn : Named table) {argv : List Bytes} {i : Nat}
    (o : Occurrence table) {rest : List Bytes} (hdrop : argv.drop i = o.render ++ rest)
    (f : RawFlags) :
    ∃ j, readFlag table argv i f = some (.ok (o.flag, o.value, j)) ∧ i < argv.length ∧
      argv.drop (j + 1) = rest := by
  have hfits := o.fits
  unfold Occurrence.render at hdrop
  cases hspelling : o.spelling with
  | spaced =>
      rw [hspelling] at hfits hdrop
      obtain ⟨harg, hlt, hnext⟩ := getElem?_of_drop hdrop
      obtain ⟨hvalue, hlt', hrest⟩ := getElem?_of_drop hnext
      rw [← List.append_nil o.flag.name] at harg
      refine ⟨i + 1, ?_, hlt, hrest⟩
      have hboolean : o.flag.boolean = false := hfits
      rw [readFlag_named hn o CNumber.stops_nil harg, if_pos rfl, nextValue, hboolean,
        if_neg Bool.false_ne_true, if_pos hlt', hvalue]
      rfl
  | joined =>
      rw [hspelling] at hdrop
      obtain ⟨harg, hlt, hrest⟩ := getElem?_of_drop hdrop
      refine ⟨i, ?_, hlt, hrest⟩
      rw [readFlag_named hn o (CNumber.stops_cons rfl _) harg, if_neg (List.cons_ne_nil _ _)]
      rfl
  | bare =>
      rw [hspelling] at hfits hdrop
      obtain ⟨hboolean, hvalue⟩ := hfits
      obtain ⟨harg, hlt, hrest⟩ := getElem?_of_drop hdrop
      rw [← List.append_nil o.flag.name] at harg
      refine ⟨i, ?_, hlt, hrest⟩
      rw [readFlag_named hn o CNumber.stops_nil harg, if_pos rfl, nextValue, if_pos hboolean,
        hvalue]

/-- **The loop does what the assigners do**, one occurrence a pass. -/
theorem parseArgvFrom_occurrence (hn : Named table) {argv : List Bytes} {i fuel : Nat}
    (o : Occurrence table) {rest : List Bytes} (hdrop : argv.drop i = o.render ++ rest)
    (f : RawFlags) :
    ∃ j, argv.drop j = rest ∧
      (o.Lands f → parseArgvFrom table argv (fuel + 1) i f =
        parseArgvFrom table argv fuel j (o.flag.assign o.value f).2) ∧
      (¬ o.Lands f → parseArgvFrom table argv (fuel + 1) i f =
        some (o.refused (o.flag.assign o.value f).2)) := by
  obtain ⟨j, hread, hlt, hrest⟩ := readFlag_occurrence hn o hdrop f
  refine ⟨j + 1, hrest, fun hland => ?_, fun hno => ?_⟩
  · conv => lhs; unfold parseArgvFrom
    rw [if_pos hlt, hread]
    exact if_pos hland
  · conv => lhs; unfold parseArgvFrom
    rw [if_pos hlt, hread]
    exact if_neg hno

/-- All of them land. -/
theorem parseArgvFrom_lands (hn : Named table) {argv : List Bytes} {i fuel : Nat}
    {os : List (Occurrence table)} {f : RawFlags}
    (hdrop : argv.drop i = os.flatMap Occurrence.render) (hfuel : os.length < fuel)
    (hland : AllLand os f) :
    parseArgvFrom table argv fuel i f = some ⟨0, assigned os f, []⟩ := by
  induction os generalizing i fuel f with
  | nil =>
      obtain ⟨fuel, rfl⟩ := Nat.exists_eq_succ_of_ne_zero (Nat.ne_of_gt hfuel)
      have hend : ¬ i < argv.length := by
        have := List.drop_eq_nil_iff.mp hdrop
        omega
      unfold parseArgvFrom
      rw [if_neg hend]
      rfl
  | cons o os ih =>
      obtain ⟨fuel, rfl⟩ := Nat.exists_eq_succ_of_ne_zero (Nat.ne_of_gt (Nat.zero_lt_of_lt hfuel))
      obtain ⟨j, hrest, hpass, -⟩ := parseArgvFrom_occurrence hn o hdrop f
      rw [hpass hland.1]
      exact ih hrest (Nat.lt_of_succ_lt_succ hfuel) hland.2

/-- The first that does not ends it. -/
theorem parseArgvFrom_refused (hn : Named table) {argv : List Bytes} {i fuel : Nat}
    {pre post : List (Occurrence table)} {o : Occurrence table} {f : RawFlags}
    (hdrop : argv.drop i = (pre ++ o :: post).flatMap Occurrence.render)
    (hfuel : pre.length < fuel) (hland : AllLand pre f)
    (hno : ¬ o.Lands (assigned pre f)) :
    parseArgvFrom table argv fuel i f =
      some (o.refused (o.flag.assign o.value (assigned pre f)).2) := by
  induction pre generalizing i fuel f with
  | nil =>
      obtain ⟨fuel, rfl⟩ := Nat.exists_eq_succ_of_ne_zero (Nat.ne_of_gt hfuel)
      obtain ⟨j, -, -, hpass⟩ := parseArgvFrom_occurrence hn o hdrop f
      exact hpass hno
  | cons p pre ih =>
      obtain ⟨fuel, rfl⟩ := Nat.exists_eq_succ_of_ne_zero (Nat.ne_of_gt (Nat.zero_lt_of_lt hfuel))
      obtain ⟨j, hrest, hpass, -⟩ := parseArgvFrom_occurrence hn p hdrop f
      rw [hpass hland.1]
      exact ih hrest (Nat.lt_of_succ_lt_succ hfuel) hland.2 hno

theorem AllLand.append {os os' : List (Occurrence table)} {f : RawFlags} :
    AllLand (os ++ os') f ↔ AllLand os f ∧ AllLand os' (assigned os f) := by
  induction os generalizing f with
  | nil => exact ⟨fun h => ⟨trivial, h⟩, fun h => h.2⟩
  | cons o os ih =>
      constructor
      · intro h
        obtain ⟨hos, hos'⟩ := ih.mp h.2
        exact ⟨⟨h.1, hos⟩, hos'⟩
      · intro h
        exact ⟨h.1.1, ih.mpr ⟨h.1.2, h.2⟩⟩

theorem assigned_concat (os : List (Occurrence table)) (o : Occurrence table) (f : RawFlags) :
    assigned (os ++ [o]) f = (o.flag.assign o.value (assigned os f)).2 := by
  unfold assigned
  rw [List.foldl_append]
  rfl

/-- If they do not all land, there is a first that does not. -/
theorem first_refused {os : List (Occurrence table)} {f : RawFlags} (h : ¬ AllLand os f) :
    ∃ pre o post, os = pre ++ o :: post ∧ AllLand pre f ∧ ¬ o.Lands (assigned pre f) := by
  induction os generalizing f with
  | nil => exact (h trivial).elim
  | cons o os ih =>
      by_cases hland : o.Lands f
      · obtain ⟨pre, o', post, rfl, hpre, hno⟩ := ih fun hrest => h ⟨hland, hrest⟩
        exact ⟨o :: pre, o', post, rfl, ⟨hland, hpre⟩, hno⟩
      · exact ⟨[], o, os, rfl, trivial, hland⟩

/-- As many passes as there are arguments will do. -/
theorem length_le_render (os : List (Occurrence table)) :
    os.length ≤ (os.flatMap Occurrence.render).length := by
  induction os with
  | nil => exact Nat.le_refl 0
  | cons o os ih =>
      have hone : 1 ≤ o.render.length := by
        unfold Occurrence.render
        cases o.spelling <;> exact Nat.le_add_left 1 _
      rw [List.flatMap_cons, List.length_append, List.length_cons]
      omega

end Occurrences

section Lands

variable {f₀ : RawFlags}

/-- There are as many slots as flags. -/
theorem slots_length (f₀ f : RawFlags) : f.slots.length = (flagTable f₀).length := rfl

/-- A flag of the table stands at a place of it, and has that slot. -/
theorem Occurrence.slotted (o : Occurrence (flagTable f₀)) :
    ∃ j, (flagTable f₀)[j]? = some o.flag ∧ o.flag.Slotted j := by
  obtain ⟨j, hj⟩ := List.mem_iff_getElem?.mp o.mem
  have hslot := (flagTable_slotted f₀).at hj
  rw [Nat.zero_add] at hslot
  exact ⟨j, hj, hslot⟩

/-- A value that does not land changes nothing. -/
theorem Occurrence.assign_refused {o : Occurrence (flagTable f₀)} {f : RawFlags}
    (h : ¬ o.Lands f) : (o.flag.assign o.value f).2 = f := by
  obtain ⟨j, -, hslot⟩ := o.slotted
  rcases hslot o.value with hrefuse | ⟨x, hx⟩
  · rw [hrefuse f]
  · exact absurd (hx f).1 h

/-- One that lands goes into the slot of its flag, whatever the flags held,
and leaves the others. -/
theorem Occurrence.assign_lands {o : Occurrence (flagTable f₀)} {f : RawFlags}
    (h : o.Lands f) {k : Nat} {fl : Flag} (hk : (flagTable f₀)[k]? = some fl) (g : RawFlags) :
    (o.flag.assign o.value f).2.slots[k]? =
      if o.flag.name = fl.name then (o.flag.assign o.value g).2.slots[k]? else f.slots[k]? := by
  obtain ⟨j, hj, hslot⟩ := o.slotted
  rcases hslot o.value with hrefuse | ⟨x, hx⟩
  · rw [Occurrence.Lands, hrefuse f] at h
    cases h
  · have hlt : k < (flagTable f₀).length := (List.getElem?_eq_some_iff.mp hk).1
    rw [(hx f).2, (hx g).2]
    by_cases hkj : j = k
    · subst hkj
      rw [hk] at hj
      cases hj
      rw [if_pos rfl, List.getElem?_set_self (slots_length f₀ f ▸ hlt),
        List.getElem?_set_self (slots_length f₀ g ▸ hlt)]
    · -- at different places the names differ
      have hname : o.flag.name ≠ fl.name := by
        intro heq
        have hlt' : j < ((flagTable f₀).map Flag.name).length := by
          rw [List.length_map]
          exact (List.getElem?_eq_some_iff.mp hj).1
        refine hkj ((List.getElem?_inj hlt' (flagTable_named f₀).distinct).mp ?_)
        rw [List.getElem?_map, List.getElem?_map, hj, hk]
        exact congrArg some heq
      rw [if_neg hname, List.getElem?_set_ne hkj]

/-- Each slot holds what the last occurrence of its flag put there. -/
theorem slot_assigned {os : List (Occurrence (flagTable f₀))} {f : RawFlags}
    (h : AllLand os f) {k : Nat} {fl : Flag} (hk : (flagTable f₀)[k]? = some fl) :
    (assigned os f).slots[k]? = (onlyLast fl.name os f).slots[k]? := by
  -- from the right: the last occurrence decides, or the ones before it do
  induction os using List.reverseRecOn with
  | nil => rfl
  | append_singleton os o ih =>
      obtain ⟨hos, hland, -⟩ := AllLand.append.mp h
      rw [assigned_concat, Occurrence.assign_lands hland hk f]
      unfold onlyLast lastOf
      rw [List.reverse_append]
      by_cases hname : o.flag.name = fl.name
      · rw [if_pos hname, List.reverse_singleton, List.singleton_append,
          List.find?_cons_of_pos (by simpa using hname)]
        rfl
      · rw [if_neg hname, List.reverse_singleton, List.singleton_append,
          List.find?_cons_of_neg (by simpa using hname)]
        exact ih hos

/-- **Flags and values.**  On every list of flags and values, each in any of
its spellings, `parse_argv` reads no argument that is not there and does what
the assigners do from left to right: if every value lands it returns 0, and
each slot holds what the last occurrence of its flag put there; else it
returns -1 at the first value that does not, and nothing after it counts. -/
theorem spellings_agree (f₀ f : RawFlags) (prog : Bytes)
    (os : List (Occurrence (flagTable f₀))) :
    (AllLand os f →
      parseArgv (flagTable f₀) (prog :: os.flatMap Occurrence.render) f =
          some ⟨0, assigned os f, []⟩ ∧
        ∀ (k : Nat) (fl : Flag), (flagTable f₀)[k]? = some fl →
          (assigned os f).slots[k]? = (onlyLast fl.name os f).slots[k]?) ∧
      (¬ AllLand os f → ∃ pre o post, os = pre ++ o :: post ∧ AllLand pre f ∧
        ¬ o.Lands (assigned pre f) ∧
        parseArgv (flagTable f₀) (prog :: os.flatMap Occurrence.render) f =
          some (o.refused (assigned pre f))) := by
  have hfuel := length_le_render os
  have hn := flagTable_named f₀
  have hdrop : (prog :: os.flatMap Occurrence.render).drop 1 = os.flatMap Occurrence.render := rfl
  constructor
  · intro hland
    refine ⟨parseArgvFrom_lands hn hdrop ?_ hland, fun k fl hk => slot_assigned hland hk⟩
    rw [List.length_cons]
    omega
  · intro hno
    obtain ⟨pre, o, post, hos, hpre, hrefused⟩ := first_refused hno
    refine ⟨pre, o, post, hos, hpre, hrefused, ?_⟩
    rw [hos] at hdrop hfuel ⊢
    have hpasses : pre.length <
        (prog :: (pre ++ o :: post).flatMap Occurrence.render).length + 1 := by
      rw [List.length_append] at hfuel
      rw [List.length_cons]
      omega
    have hends := parseArgvFrom_refused hn hdrop hpasses hpre hrefused
    rw [Occurrence.assign_refused hrefused] at hends
    exact hends

end Lands

end ItbCpp.Loop
