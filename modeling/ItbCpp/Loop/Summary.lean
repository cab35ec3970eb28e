/-
  ItbCpp.Loop.Summary
  ───────────────────
  **THE SUMMARY LINE** (`loop/summary.cpp`).

  The JSON rendering of `final_summary`, put together by hand.  Doubles are
  a parameter; what is needed of them is that the finite ones print as JSON
  numbers.  The totals are exact: an `int64_t` sum that overflows is undefined.

    • `finite_mbPerSec`, `finite_missPercent`, `finite_rssGrowth` — the guards
      keep every division by zero off the line,
    • `summaryLine_eq` — the line is the text of one object,
    • `summary_faithful` — what a decoder finds in it.
-/
import ItbCpp.Lib.Json
import ItbCpp.Loop.PoolFigures
import ItbCpp.Loop.State

namespace ItbCpp.Loop

open CNumber (decimal)

/-! ## §1. What is summed up. -/

/-- Doubles, and how they print.  What comes of integers of 64 bits is far from
the ends of the range, so only a divisor that is zero leads to an infinity or to
something that is no number. -/
structure Doubles where
  Double : Type
  /-- neither an infinity nor no number -/
  Finite : Double → Prop
  ofInt : Int → Double
  mul : Double → Double → Double
  div : Double → Double → Double
  /-- `%.Nf` -/
  fixed : Nat → Double → Bytes
  finite_ofInt : ∀ n, Finite (ofInt n)
  finite_mul : ∀ m n, Finite (mul (ofInt m) (ofInt n))
  finite_div : ∀ x n, Finite x → n ≠ 0 → Finite (div x (ofInt n))
  /-- a quotient of two that are not zero is not zero -/
  finite_rate : ∀ a b m n, b ≠ 0 → m ≠ 0 → n ≠ 0 →
    Finite (div (div (ofInt a) (ofInt b)) (div (ofInt m) (ofInt n)))

/-- `Config`, with what only the summary reads. -/
structure SummaryConfig extends Config where
  workersRequested : Int := 0
  memlimit : Int := 0
  gogc : Int := 0
  seed : Nat := 0

/-- What the summary reads of a `Worker`. -/
structure Totals where
  iters : Int := 0
  bytesEnc : Int := 0
  bytesDec : Int := 0
  nanosEnc : Int := 0
  nanosDec : Int := 0
  failed : Bool := false
  error : Bytes := []

/-- What it reads of the `RunState`, and what it is told by the library and
the environment. -/
structure SummaryState where
  cfg : SummaryConfig := {}
  workers : List Totals := []
  /-- `stream_pipe.has_value()` -/
  streamPipe : Bool := false
  msgPipe : Bool := false
  streamProfile : Bytes := []
  msgProfile : Bytes := []
  rekeys : Int := 0
  blobCycles : Int := 0
  rssWarmup : Nat := 0
  rssPeak : Nat := 0
  rssFinal : Nat := 0
  poolWarmup : List Int := []
  poolSteady : List Int := []
  elapsedNs : Int := 0
  /-- what `set_gomaxprocs(0)` answers -/
  gomaxprocs : Int := 0
  /-- what `set_gc_percent(-1)` answers -/
  gcPercent : Int := 0
  /-- what `drbg_auto_tier` returns, nothing when it throws -/
  drbgAutoTier : Option Bytes := none
  /-- the two environment variables -/
  microbatchTiers : Option Bytes := none
  hashpoolStarters : Option Bytes := none

/-! ## §2. The code. -/

/-- `kConcurrency`. -/
def kConcurrency : String := "shared-handle"

/-- `payload_mode_name`. -/
def PayloadMode.name : PayloadMode → String
  | .fixed => "fixed"
  | .rotating => "rotating"
  | .patternZero => "pattern-zero"
  | .patternFF => "pattern-ff"
  | .patternAscii => "pattern-ascii"

/-- `on_off`. -/
def onOff (b : Bool) : String := if b then "on" else "off"

/-- `policy_label`. -/
def policyLabel (env : Option Bytes) : Bytes :=
  match env with
  | none => text "default"
  | some v =>
      let v := v.dropWhile fun c => c == 32 || c == 9
      if v = [] then text "default" else v

/-- `effective_gogc`. -/
def effectiveGogc (flag gcPercent : Int) : Int := if 0 < flag then flag else gcPercent

/-- A hexadecimal digit of `%x`. -/
def hexDigit (n : Nat) : UInt8 := UInt8.ofNat (if n < 10 then 48 + n else 87 + n)

/-- What `json_string` makes of a byte. -/
def jsonByte (c : UInt8) : Bytes :=
  if c = 34 then [92, 34]
  else if c = 92 then [92, 92]
  else if c = 10 then [92, 110]
  else if c = 13 then [92, 114]
  else if c = 9 then [92, 116]
  else if c < 0x20 then
    [92, 117, hexDigit (c.toNat / 4096 % 16), hexDigit (c.toNat / 256 % 16),
      hexDigit (c.toNat / 16 % 16), hexDigit (c.toNat % 16)]
  else [c]

/-- `json_string`. -/
def jsonString (s : Bytes) : Bytes := 34 :: (s.flatMap jsonByte ++ [34])

/-- `"%s"` and `"%d"`, in quotation marks. -/
def quotes (t : Bytes) : Bytes := 34 :: (t ++ [34])

/-- The loop that fills an array: how many entries there are so far, and the
text.  An entry is left out when it has no text. -/
def listed {α : Type} (entry : α → Option Bytes) (l : List α) : Nat × Bytes :=
  l.foldl (fun p a =>
    match entry a with
    | none => p
    | some t => (p.1 + 1, p.2 ++ (if 0 < p.1 then text "," else []) ++ t)) (0, [])

/-- `static_cast<std::int64_t>` of a `std::uint64_t`. -/
def toInt64 (n : Nat) : Int := if n < 2 ^ 63 then n else (n : Int) - 2 ^ 64

/-- `,"key":value` -/
def field (key : String) (value : Bytes) : Bytes :=
  text ",\"" ++ text key ++ text "\":" ++ value

section Render

variable (D : Doubles)

/-- `mb_per_sec`. -/
def mbPerSec (bytes ns : Int) : D.Double :=
  if ns ≤ 0 then D.ofInt 0
  else D.div (D.div (D.ofInt bytes) (D.ofInt (2 ^ 20))) (D.div (D.ofInt ns) (D.ofInt 1000000000))

/-- `miss_percent`. -/
def missPercent (miss get : Int) : D.Double :=
  if get ≤ 0 then D.ofInt 0 else D.div (D.mul (D.ofInt 100) (D.ofInt miss)) (D.ofInt get)

/-- `rss_growth`. -/
def rssGrowth (r : SummaryState) : D.Double :=
  if 0 < r.rssWarmup then
    D.div (D.mul (D.ofInt 100) (D.ofInt (toInt64 r.rssFinal - toInt64 r.rssWarmup)))
      (D.ofInt r.rssWarmup)
  else D.ofInt 0

/-- The sum of a counter over the workers. -/
def SummaryState.total (r : SummaryState) (counter : Totals → Int) : Int :=
  r.workers.foldl (fun sum w => sum + counter w) 0

/-- The failed workers. -/
def SummaryState.errors (r : SummaryState) : Nat :=
  r.workers.foldl (fun n w => if w.failed then n + 1 else n) 0

/-- `avg_enc` and `avg_dec`. -/
def SummaryState.average (r : SummaryState) (nanos : Totals → Int) : Int :=
  if 0 < r.total nanos then r.total nanos / r.workers.length else 0

/-- The text of a tier, none when it has no starter. -/
def tierText (p : TierFigures × Nat) : Option Bytes :=
  if p.1.starter = 0 then none
  else some (text "\x7b\"tier\":" ++ decimal p.2 ++ field "starter" (decimal p.1.starter) ++
    field "get" (decimal p.1.get) ++ field "new" (decimal p.1.fresh) ++
    field "regrow" (decimal p.1.regrow) ++ field "new_bytes" (decimal p.1.newBytes) ++
    field "miss_percent" (D.fixed 2 (missPercent D (p.1.fresh + p.1.regrow) p.1.get)) ++
    text "\x7d")

/-- The text of a byte pool. -/
def poolText (p : BytePool) : Bytes :=
  text "\x7b\"get\":" ++ decimal p.get ++ field "new" (decimal p.fresh) ++
    field "regrow" (decimal p.regrow) ++ field "regrow_bytes" (decimal p.regrowBytes) ++
    field "miss_percent" (D.fixed 2 (missPercent D p.regrow p.get)) ++ text "\x7d"

/-- The fields behind the first, in order. -/
def summaryFields (r : SummaryState) (pd : PoolDelta) : List (String × Bytes) :=
  let cfg := r.cfg
  let totalEnc := r.total Totals.bytesEnc
  let totalDec := r.total Totals.bytesDec
  [ ("iterations", decimal (r.total Totals.iters)),
    ("per_worker_iterations",
      text "[" ++ (listed (fun w => some (decimal w.iters)) r.workers).2 ++ text "]"),
    ("bytes_encrypted", decimal totalEnc),
    ("bytes_decrypted", decimal totalDec),
    ("encrypt_mb_per_sec", D.fixed 1 (mbPerSec D totalEnc (r.average Totals.nanosEnc))),
    ("decrypt_mb_per_sec", D.fixed 1 (mbPerSec D totalDec (r.average Totals.nanosDec))),
    ("combined_mb_per_sec", D.fixed 1 (mbPerSec D (totalEnc + totalDec) r.elapsedNs)),
    ("rekeys", decimal r.rekeys),
    ("blob_cycles", decimal r.blobCycles),
    ("worker_errors",
      text "[" ++
        (listed (fun w => if w.failed then some (jsonString w.error) else none) r.workers).2 ++
        text "]"),
    ("verdict", quotes (text (if r.errors = 0 then "PASS" else "FAIL"))),
    ("shape", quotes (text cfg.shape.name)),
    ("stream_profile", jsonString (if r.streamPipe then r.streamProfile else [])),
    ("message_profile", jsonString (if r.msgPipe then r.msgProfile else [])),
    ("hash", jsonString cfg.hash),
    ("mac", jsonString cfg.mac),
    ("payload_bytes", decimal cfg.payload),
    ("payload_mode", quotes (text cfg.payloadMode.name)),
    ("seed", decimal cfg.seed),
    ("key_bits", decimal cfg.keyBits),
    ("nonce_bits", decimal cfg.nonceBits),
    ("blob_mode", decimal cfg.blobMode),
    ("drbg", jsonString cfg.drbg),
    ("drbg_auto_tier", jsonString (r.drbgAutoTier.getD [])),
    ("interlock", jsonString cfg.interlock),
    ("chunk_size_bytes", decimal cfg.chunkSize),
    ("barrier_fill", decimal cfg.barrierFill),
    ("parallax", quotes (text (onOff cfg.parallax))),
    ("wrapper", quotes (text (onOff cfg.wrapper))),
    ("goroutines_requested", decimal cfg.workersRequested),
    ("goroutines", decimal r.workers.length),
    ("concurrency", quotes (text kConcurrency)),
    ("gogc", quotes (decimal (effectiveGogc cfg.gogc r.gcPercent))),
    ("memlimit_bytes", decimal cfg.memlimit),
    ("gomaxprocs", decimal r.gomaxprocs),
    ("microbatch_tiers", jsonString (policyLabel r.microbatchTiers)),
    ("hashpool_starters", jsonString (policyLabel r.hashpoolStarters)),
    ("rss_warmup_bytes", decimal r.rssWarmup),
    ("rss_peak_bytes", decimal r.rssPeak),
    ("rss_final_bytes", decimal r.rssFinal),
    ("rss_growth_percent", D.fixed 2 (rssGrowth D r)),
    ("hash_pool_tiers", text "[" ++ (listed (tierText D) pd.tiers.zipIdx).2 ++ text "]"),
    ("buf_pool", poolText D pd.buf),
    ("parallax_chunk_pool", poolText D pd.chunk) ]

/-- The line. -/
def summaryLine (r : SummaryState) (pd : PoolDelta) : Bytes :=
  text "\x7b\"duration_seconds\":" ++
    D.fixed 3 (D.div (D.ofInt r.elapsedNs) (D.ofInt 1000000000)) ++
    (summaryFields D r pd).flatMap (fun p => field p.1 p.2) ++ text "\x7d\n"

/-- `final_summary` with `--json-output`: what it prints and what it
returns; nothing when it reads outside a snapshot. -/
def finalSummaryJson (r : SummaryState) : Option (Bytes × Int) := do
  let pd ← poolDiff r.poolWarmup r.poolSteady
  some (summaryLine D r pd, if r.errors = 0 then 0 else 1)

end Render

/-! ## §3. The doubles. -/

section Guards

variable (D : Doubles)

/-- **What is printed is finite**: no time, no look-up and no warmup, and there
is no division. -/
theorem finite_mbPerSec (bytes ns : Int) : D.Finite (mbPerSec D bytes ns) := by
  unfold mbPerSec
  split
  · exact D.finite_ofInt 0
  · exact D.finite_rate bytes _ ns _ (by decide) (by omega) (by decide)

theorem finite_missPercent (miss get : Int) : D.Finite (missPercent D miss get) := by
  unfold missPercent
  split
  · exact D.finite_ofInt 0
  · exact D.finite_div _ _ (D.finite_mul _ _) (by omega)

theorem finite_rssGrowth (r : SummaryState) : D.Finite (rssGrowth D r) := by
  unfold rssGrowth
  split
  · exact D.finite_div _ _ (D.finite_mul _ _) (by omega)
  · exact D.finite_ofInt 0

theorem finite_seconds (ns : Int) : D.Finite (D.div (D.ofInt ns) (D.ofInt 1000000000)) :=
  D.finite_div _ _ (D.finite_ofInt ns) (by decide)

end Guards

/-! ## §4. The arrays. -/

section Arrays

variable {α : Type}

theorem commas_concat (ts : List Bytes) (t : Bytes) :
    Json.commas (ts ++ [t]) = Json.commas ts ++ (if 0 < ts.length then text "," else []) ++ t := by
  unfold Json.commas
  cases ts with
  | nil => simp
  | cons a ts =>
      rw [List.cons_append, Delimited.intercalate_cons, Delimited.intercalate_cons]
      have hcomma : text "," = [44] := by decide
      simp [hcomma]

/-- **The commas of a filtered array** stand between the entries that are
there. -/
theorem listed_eq (entry : α → Option Bytes) (l : List α) :
    listed entry l = ((l.filterMap entry).length, Json.commas (l.filterMap entry)) := by
  -- from the right: the last element adds an entry or none
  induction l using List.reverseRecOn with
  | nil => rfl
  | append_singleton l a ih =>
      unfold listed at ih ⊢
      rw [List.foldl_append, ih, List.filterMap_append]
      cases hentry : entry a with
      | none => simp [hentry]
      | some t => simp [hentry, commas_concat]

/-- Leaving out is filtering. -/
theorem filterMap_kept {β : Type} (keep : α → Bool) (f : α → β) (l : List α) :
    (l.filterMap fun a => if keep a then some (f a) else none) = (l.filter keep).map f := by
  rw [← List.filterMap_eq_map', List.filterMap_filter]

/-- The text of an array of phrases. -/
theorem arr_text (phrase : α → Option Json.Phrase) (l : List α) :
    text "[" ++ (listed (fun a => (phrase a).map Json.Phrase.text) l).2 ++ text "]" =
      (Json.Phrase.arr (l.filterMap phrase)).text := by
  rw [listed_eq, ← List.map_filterMap]
  rfl

end Arrays

/-! ## §5. The strings. -/

section Strings

theorem hex4_control : ∀ n < 32, Json.hex4 (hexDigit (n / 4096 % 16)) (hexDigit (n / 256 % 16))
    (hexDigit (n / 16 % 16)) (hexDigit (n % 16)) = some n := by
  decide

/-- Every byte is escaped as it has to be. -/
theorem charText_jsonByte (c : UInt8) : Json.CharText [c] (jsonByte c) := by
  unfold jsonByte
  by_cases hquote : c = 34
  · subst hquote
    exact .short rfl
  by_cases hslash : c = 92
  · subst hslash
    exact .short rfl
  rw [if_neg hquote, if_neg hslash]
  by_cases hnewline : c = 10
  · subst hnewline
    exact .short rfl
  by_cases hreturn : c = 13
  · subst hreturn
    exact .short rfl
  by_cases htab : c = 9
  · subst htab
    exact .short rfl
  rw [if_neg hnewline, if_neg hreturn, if_neg htab]
  split
  · rename_i hcontrol
    have hlt : c.toNat < 32 := UInt8.lt_iff_toNat_lt.mp hcontrol
    have hutf : Json.utf8 c.toNat = [c] := by
      unfold Json.utf8
      rw [if_pos (by omega), UInt8.ofNat_toNat]
    rw [← hutf]
    exact .unicode (hex4_control c.toNat hlt)
  · rename_i hcontrol
    exact .raw hcontrol hquote hslash

theorem stringText_jsonBytes (s : Bytes) : Json.StringText s (s.flatMap jsonByte) := by
  induction s with
  | nil => exact .nil
  | cons c s ih => exact .cons (charText_jsonByte c) ih

/-- What `json_string` writes. -/
def jsonPhrase (s : Bytes) : Json.Phrase := ⟨.str s, jsonString s, .str (stringText_jsonBytes s)⟩

end Strings

/-! ## §6. Objects. -/

/-- Keys that need no escapes. -/
def PlainKeys (l : List (String × Json.Phrase)) : Prop :=
  ∀ k ∈ l.map Prod.fst, ∀ c ∈ text k, Json.isPlain c = true

/-- How names are seen to be plain. -/
theorem plain_of_all {keys : List String}
    (h : (keys.all fun k => (text k).all Json.isPlain) = true) :
    ∀ k ∈ keys, ∀ c ∈ text k, Json.isPlain c = true := by
  intro k hk
  exact List.all_eq_true.mp (List.all_eq_true.mp h k hk)

theorem plainKeys_of {l : List (String × Json.Phrase)} {keys : List String}
    (hl : l.map Prod.fst = keys) (h : ∀ k ∈ keys, ∀ c ∈ text k, Json.isPlain c = true) :
    PlainKeys l := by
  unfold PlainKeys
  rw [hl]
  exact h

/-- An object with such keys. -/
def object (l : List (String × Json.Phrase)) (h : PlainKeys l) : Json.Phrase :=
  .obj (l.map fun p => (text p.1, p.2)) (by
    intro q hq
    obtain ⟨p, hp, rfl⟩ := List.mem_map.mp hq
    exact h p.1 (List.mem_map_of_mem hp))

/-- Its members, as a decoder has them. -/
def members (l : List (String × Json.Phrase)) : List (Bytes × Json) :=
  l.map fun p => (text p.1, p.2.value)

theorem object_value {l : List (String × Json.Phrase)} (h : PlainKeys l) :
    (object l h).value = .obj (members l) := by
  unfold object Json.Phrase.obj members
  dsimp only
  rw [List.map_map]
  rfl

theorem members_keys (l : List (String × Json.Phrase)) :
    (members l).map Prod.fst = (l.map Prod.fst).map text := by
  unfold members
  rw [List.map_map, List.map_map]
  rfl

/-- A member is found under its name. -/
theorem lookup_member {l : List (String × Json.Phrase)} {p : String × Json.Phrase}
    (hkeys : ((l.map Prod.fst).map text).Nodup) (hp : p ∈ l) :
    (members l).lookup (text p.1) = some p.2.value := by
  rw [← members_keys] at hkeys
  exact Json.lookup_of_mem hkeys (List.mem_map.mpr ⟨p, hp, rfl⟩)

/-- Its text: a brace, the first member, the others as fields. -/
theorem object_text {k : String} {p : Json.Phrase} {l m : List (String × Json.Phrase)}
    (h : PlainKeys m) (hm : m = (k, p) :: l) :
    (object m h).text =
      text "\x7b\"" ++ text k ++ text "\":" ++ p.text ++
        l.flatMap (fun q => field q.1 q.2.text) ++ text "\x7d" := by
  subst hm
  have hopen : text "\x7b\"" = [123, 34] := by decide
  have hcolon : text "\":" = [34, 58] := by decide
  have hclose : text "\x7d" = [125] := by decide
  have hcomma : text ",\"" = [44, 34] := by decide
  have htail : ∀ l : List (String × Json.Phrase),
      ((l.map fun p => (text p.1, p.2)).map Json.Phrase.memberText).flatMap (44 :: ·) =
        l.flatMap fun q => field q.1 q.2.text := by
    intro l
    rw [List.map_map, List.flatMap_map]
    refine List.flatMap_congr fun q _ => ?_
    simp [field, Json.Phrase.memberText, hcomma, hcolon]
  show 123 :: (Json.commas (((((k, p) :: l).map fun p => (text p.1, p.2))).map
    Json.Phrase.memberText) ++ [125]) = _
  rw [List.map_cons, List.map_cons]
  unfold Json.commas
  rw [Delimited.intercalate_cons, htail, hopen, hcolon, hclose]
  simp [Json.Phrase.memberText]

section Line

variable {D : Doubles} (hprint : ∀ n x, D.Finite x → Json.isNumber (D.fixed n x) = true)

/-- `%.Nf` -/
def fixedPhrase (n : Nat) {x : D.Double} (hx : D.Finite x) : Json.Phrase :=
  .num (D.fixed n x) (hprint n x hx)

/-- The keys of a tier whose values are integers. -/
def tierKeys : List String := ["tier", "starter", "get", "new", "regrow", "new_bytes"]

def tierInts (p : TierFigures × Nat) : List Int :=
  [p.2, p.1.starter, p.1.get, p.1.fresh, p.1.regrow, p.1.newBytes]

theorem tierKeys_plain : ∀ k ∈ tierKeys ++ ["miss_percent"], ∀ c ∈ text k,
    Json.isPlain c = true :=
  plain_of_all (by decide)

theorem tierKeys_distinct : ((tierKeys ++ ["miss_percent"]).map text).Nodup := by
  decide

def tierMembers (p : TierFigures × Nat) : List (String × Json.Phrase) :=
  [ ("tier", .int p.2), ("starter", .int p.1.starter), ("get", .int p.1.get),
    ("new", .int p.1.fresh), ("regrow", .int p.1.regrow), ("new_bytes", .int p.1.newBytes),
    ("miss_percent", fixedPhrase hprint 2 (finite_missPercent D (p.1.fresh + p.1.regrow) p.1.get)) ]

theorem tierMembers_plain (p : TierFigures × Nat) : PlainKeys (tierMembers hprint p) :=
  plainKeys_of rfl tierKeys_plain

theorem tierMembers_distinct (p : TierFigures × Nat) :
    (((tierMembers hprint p).map Prod.fst).map text).Nodup :=
  tierKeys_distinct

/-- A tier. -/
def tierPhrase (p : TierFigures × Nat) : Json.Phrase :=
  object (tierMembers hprint p) (tierMembers_plain hprint p)

theorem poolKeys_plain : ∀ k ∈ ["get", "new", "regrow", "regrow_bytes", "miss_percent"],
    ∀ c ∈ text k, Json.isPlain c = true :=
  plain_of_all (by decide)

/-- A byte pool. -/
def poolPhrase (p : BytePool) : Json.Phrase :=
  object
    [ ("get", .int p.get), ("new", .int p.fresh), ("regrow", .int p.regrow),
      ("regrow_bytes", .int p.regrowBytes),
      ("miss_percent", fixedPhrase hprint 2 (finite_missPercent D p.regrow p.get)) ]
    (plainKeys_of rfl poolKeys_plain)

theorem tierText_eq (p : TierFigures × Nat) :
    tierText D p = if p.1.starter = 0 then none else some (tierPhrase hprint p).text := by
  have hopen : text "\x7b\"tier\":" = text "\x7b\"" ++ text "tier" ++ text "\":" := by decide
  unfold tierText tierPhrase
  rw [object_text (tierMembers_plain hprint p) rfl, hopen]
  simp [Json.Phrase.int, Json.Phrase.num, fixedPhrase]

theorem poolText_eq (p : BytePool) : poolText D p = (poolPhrase hprint p).text := by
  have hopen : text "\x7b\"get\":" = text "\x7b\"" ++ text "get" ++ text "\":" := by decide
  unfold poolText poolPhrase
  rw [object_text _ rfl, hopen]
  simp [Json.Phrase.int, Json.Phrase.num, fixedPhrase]

/-! ## §7. The line. -/

/-- The keys of the line. -/
def summaryKeys : List String :=
  ["duration_seconds", "iterations", "per_worker_iterations", "bytes_encrypted",
    "bytes_decrypted", "encrypt_mb_per_sec", "decrypt_mb_per_sec", "combined_mb_per_sec", "rekeys",
    "blob_cycles", "worker_errors", "verdict", "shape", "stream_profile", "message_profile", "hash",
    "mac", "payload_bytes", "payload_mode", "seed", "key_bits", "nonce_bits", "blob_mode", "drbg",
    "drbg_auto_tier", "interlock", "chunk_size_bytes", "barrier_fill", "parallax", "wrapper",
    "goroutines_requested", "goroutines", "concurrency", "gogc", "memlimit_bytes", "gomaxprocs",
    "microbatch_tiers", "hashpool_starters", "rss_warmup_bytes", "rss_peak_bytes",
    "rss_final_bytes", "rss_growth_percent", "hash_pool_tiers", "buf_pool", "parallax_chunk_pool"]

theorem summaryKeys_plain : ∀ k ∈ summaryKeys, ∀ c ∈ text k, Json.isPlain c = true :=
  plain_of_all (by decide +kernel)

theorem summaryKeys_distinct : (summaryKeys.map text).Nodup := by
  decide +kernel

/-- A name that needs no escapes, whichever it is. -/
theorem verdict_plain (p : Prop) [Decidable p] :
    ∀ c ∈ text (if p then "PASS" else "FAIL"), Json.isPlain c = true := by
  refine List.all_eq_true.mp ?_
  split <;> decide

theorem shape_plain (x : Shape) : ∀ c ∈ text x.name, Json.isPlain c = true := by
  refine List.all_eq_true.mp ?_
  cases x <;> decide

theorem payloadMode_plain (x : PayloadMode) : ∀ c ∈ text x.name, Json.isPlain c = true := by
  refine List.all_eq_true.mp ?_
  cases x <;> decide

theorem onOff_plain (b : Bool) : ∀ c ∈ text (onOff b), Json.isPlain c = true := by
  refine List.all_eq_true.mp ?_
  cases b <;> decide

theorem decimal_plain (n : Int) : ∀ c ∈ decimal n, Json.isPlain c = true := by
  intro c hc
  rcases CNumber.mem_decimal hc with hdigit | rfl
  · exact Json.isPlain_of_isDigit hdigit
  · decide

/-- The fields with the values they say. -/
def summaryPhrases (r : SummaryState) (pd : PoolDelta) : List (String × Json.Phrase) :=
  let cfg := r.cfg
  let totalEnc := r.total Totals.bytesEnc
  let totalDec := r.total Totals.bytesDec
  [ ("iterations", .int (r.total Totals.iters)),
    ("per_worker_iterations", .arr (r.workers.filterMap fun w => some (.int w.iters))),
    ("bytes_encrypted", .int totalEnc),
    ("bytes_decrypted", .int totalDec),
    ("encrypt_mb_per_sec",
      fixedPhrase hprint 1 (finite_mbPerSec D totalEnc (r.average Totals.nanosEnc))),
    ("decrypt_mb_per_sec",
      fixedPhrase hprint 1 (finite_mbPerSec D totalDec (r.average Totals.nanosDec))),
    ("combined_mb_per_sec",
      fixedPhrase hprint 1 (finite_mbPerSec D (totalEnc + totalDec) r.elapsedNs)),
    ("rekeys", .int r.rekeys),
    ("blob_cycles", .int r.blobCycles),
    ("worker_errors",
      .arr (r.workers.filterMap fun w => if w.failed then some (jsonPhrase w.error) else none)),
    ("verdict", .plain (text (if r.errors = 0 then "PASS" else "FAIL")) (verdict_plain _)),
    ("shape", .plain (text cfg.shape.name) (shape_plain _)),
    ("stream_profile", jsonPhrase (if r.streamPipe then r.streamProfile else [])),
    ("message_profile", jsonPhrase (if r.msgPipe then r.msgProfile else [])),
    ("hash", jsonPhrase cfg.hash),
    ("mac", jsonPhrase cfg.mac),
    ("payload_bytes", .int cfg.payload),
    ("payload_mode", .plain (text cfg.payloadMode.name) (payloadMode_plain _)),
    ("seed", .int cfg.seed),
    ("key_bits", .int cfg.keyBits),
    ("nonce_bits", .int cfg.nonceBits),
    ("blob_mode", .int cfg.blobMode),
    ("drbg", jsonPhrase cfg.drbg),
    ("drbg_auto_tier", jsonPhrase (r.drbgAutoTier.getD [])),
    ("interlock", jsonPhrase cfg.interlock),
    ("chunk_size_bytes", .int cfg.chunkSize),
    ("barrier_fill", .int cfg.barrierFill),
    ("parallax", .plain (text (onOff cfg.parallax)) (onOff_plain _)),
    ("wrapper", .plain (text (onOff cfg.wrapper)) (onOff_plain _)),
    ("goroutines_requested", .int cfg.workersRequested),
    ("goroutines", .int r.workers.length),
    ("concurrency", .plain (text kConcurrency) (List.all_eq_true.mp (by decide))),
    ("gogc", .plain (decimal (effectiveGogc cfg.gogc r.gcPercent)) (decimal_plain _)),
    ("memlimit_bytes", .int cfg.memlimit),
    ("gomaxprocs", .int r.gomaxprocs),
    ("microbatch_tiers", jsonPhrase (policyLabel r.microbatchTiers)),
    ("hashpool_starters", jsonPhrase (policyLabel r.hashpoolStarters)),
    ("rss_warmup_bytes", .int r.rssWarmup),
    ("rss_peak_bytes", .int r.rssPeak),
    ("rss_final_bytes", .int r.rssFinal),
    ("rss_growth_percent", fixedPhrase hprint 2 (finite_rssGrowth D r)),
    ("hash_pool_tiers",
      .arr (pd.tiers.zipIdx.filterMap fun p =>
        if p.1.starter = 0 then none else some (tierPhrase hprint p))),
    ("buf_pool", poolPhrase hprint pd.buf),
    ("parallax_chunk_pool", poolPhrase hprint pd.chunk) ]

/-- All of them. -/
def summaryMembers (r : SummaryState) (pd : PoolDelta) : List (String × Json.Phrase) :=
  ("duration_seconds", fixedPhrase hprint 3 (finite_seconds D r.elapsedNs)) ::
    summaryPhrases hprint r pd

theorem summaryMembers_plain (r : SummaryState) (pd : PoolDelta) :
    PlainKeys (summaryMembers hprint r pd) :=
  plainKeys_of rfl summaryKeys_plain

theorem summaryMembers_distinct (r : SummaryState) (pd : PoolDelta) :
    (((summaryMembers hprint r pd).map Prod.fst).map text).Nodup :=
  summaryKeys_distinct

/-- The object of the line. -/
def summaryPhrase (r : SummaryState) (pd : PoolDelta) : Json.Phrase :=
  object (summaryMembers hprint r pd) (summaryMembers_plain hprint r pd)

/-- **Every field is the text of its value.** -/
theorem summaryFields_eq (r : SummaryState) (pd : PoolDelta) :
    summaryFields D r pd = (summaryPhrases hprint r pd).map fun p => (p.1, p.2.text) := by
  have hiters : text "[" ++ (listed (fun w : Totals => some (decimal w.iters)) r.workers).2 ++
      text "]" = (Json.Phrase.arr (r.workers.filterMap fun w => some (.int w.iters))).text :=
    arr_text (fun w : Totals => some (.int w.iters)) r.workers
  have herrors : text "[" ++ (listed (fun w : Totals =>
        if w.failed then some (jsonString w.error) else none) r.workers).2 ++ text "]" =
      (Json.Phrase.arr (r.workers.filterMap fun w =>
        if w.failed then some (jsonPhrase w.error) else none)).text := by
    rw [← arr_text]
    congr 5
    funext w
    split <;> rfl
  have htiers : text "[" ++ (listed (tierText D) pd.tiers.zipIdx).2 ++ text "]" =
      (Json.Phrase.arr (pd.tiers.zipIdx.filterMap fun p =>
        if p.1.starter = 0 then none else some (tierPhrase hprint p))).text := by
    rw [← arr_text]
    congr 5
    funext p
    rw [tierText_eq hprint]
    split <;> rfl
  unfold summaryFields
  dsimp only
  rw [hiters, herrors, htiers, poolText_eq hprint, poolText_eq hprint]
  rfl

/-- A field is found under its name. -/
theorem lookup_field {r : SummaryState} {pd : PoolDelta} {p : String × Json.Phrase}
    (hp : p ∈ summaryPhrases hprint r pd) :
    (members (summaryMembers hprint r pd)).lookup (text p.1) = some p.2.value :=
  lookup_member (summaryMembers_distinct hprint r pd) (List.mem_cons_of_mem _ hp)

theorem mem_iterations (r : SummaryState) (pd : PoolDelta) :
    ("iterations", Json.Phrase.int (r.total Totals.iters)) ∈ summaryPhrases hprint r pd := by
  simp [summaryPhrases]

theorem mem_workers (r : SummaryState) (pd : PoolDelta) :
    ("per_worker_iterations",
      Json.Phrase.arr (r.workers.filterMap fun w => some (.int w.iters))) ∈
        summaryPhrases hprint r pd := by
  simp [summaryPhrases]

theorem mem_errors (r : SummaryState) (pd : PoolDelta) :
    ("worker_errors",
      Json.Phrase.arr (r.workers.filterMap fun w =>
        if w.failed then some (jsonPhrase w.error) else none)) ∈ summaryPhrases hprint r pd := by
  simp [summaryPhrases]

theorem mem_tiers (r : SummaryState) (pd : PoolDelta) :
    ("hash_pool_tiers",
      Json.Phrase.arr (pd.tiers.zipIdx.filterMap fun p =>
        if p.1.starter = 0 then none else some (tierPhrase hprint p))) ∈
        summaryPhrases hprint r pd := by
  simp [summaryPhrases]

/-- **The line is the text of one object**, and a newline. -/
theorem summaryLine_eq (r : SummaryState) (pd : PoolDelta) :
    summaryLine D r pd = (summaryPhrase hprint r pd).text ++ [10] := by
  have hopen : text "\x7b\"duration_seconds\":" =
      text "\x7b\"" ++ text "duration_seconds" ++ text "\":" := by decide
  have hclose : text "\x7d\n" = text "\x7d" ++ [10] := by decide
  unfold summaryLine summaryPhrase
  rw [object_text (summaryMembers_plain hprint r pd) rfl, summaryFields_eq hprint, hopen, hclose,
    List.flatMap_map]
  simp [fixedPhrase, Json.Phrase.num]

end Line

/-! ## §8. What is in it. -/

/-- The error texts of the failed workers, in the order of their ids. -/
def SummaryState.errorTexts (r : SummaryState) : List Bytes :=
  (r.workers.filter Totals.failed).map Totals.error

/-- The tiers that are shown, with their numbers. -/
def PoolDelta.shown (d : PoolDelta) : List (TierFigures × Nat) :=
  d.tiers.zipIdx.filter fun p => p.1.starter ≠ 0

/-- The fields that are strings, and what they are to hold. -/
def stringFields (r : SummaryState) : List (String × Bytes) :=
  [ ("shape", text r.cfg.shape.name),
    ("stream_profile", if r.streamPipe then r.streamProfile else []),
    ("message_profile", if r.msgPipe then r.msgProfile else []),
    ("hash", r.cfg.hash),
    ("mac", r.cfg.mac),
    ("payload_mode", text r.cfg.payloadMode.name),
    ("drbg", r.cfg.drbg),
    ("drbg_auto_tier", r.drbgAutoTier.getD []),
    ("interlock", r.cfg.interlock),
    ("parallax", text (onOff r.cfg.parallax)),
    ("wrapper", text (onOff r.cfg.wrapper)),
    ("concurrency", text kConcurrency),
    ("gogc", decimal (effectiveGogc r.cfg.gogc r.gcPercent)),
    ("microbatch_tiers", policyLabel r.microbatchTiers),
    ("hashpool_starters", policyLabel r.hashpoolStarters) ]

section Faithful

variable {D : Doubles}

theorem errors_eq (r : SummaryState) : r.errors = r.errorTexts.length := by
  have hcount : ∀ (l : List Totals) (n : Nat),
      l.foldl (fun n w => if w.failed then n + 1 else n) n =
        n + (l.filter Totals.failed).length := by
    intro l
    induction l with
    | nil => intro n; rfl
    | cons w l ih =>
        intro n
        rw [List.foldl_cons, ih]
        by_cases hfailed : w.failed = true
        · rw [if_pos hfailed, List.filter_cons_of_pos hfailed, List.length_cons]
          omega
        · rw [if_neg hfailed, List.filter_cons_of_neg hfailed]
  unfold SummaryState.errors SummaryState.errorTexts
  rw [hcount, List.length_map, Nat.zero_add]

theorem errors_eq_zero (r : SummaryState) : r.errors = 0 ↔ r.errorTexts = [] := by
  rw [errors_eq, List.length_eq_zero_iff]

theorem total_eq (r : SummaryState) (counter : Totals → Int) :
    r.total counter = (r.workers.map counter).sum := by
  have hsum : ∀ (l : List Totals) (n : Int),
      l.foldl (fun sum w => sum + counter w) n = n + (l.map counter).sum := by
    intro l
    induction l with
    | nil => intro n; simp
    | cons w l ih =>
        intro n
        rw [List.foldl_cons, ih, List.map_cons, List.sum_cons]
        omega
  unfold SummaryState.total
  rw [hsum, Int.zero_add]

section Found

variable (hprint : ∀ n x, D.Finite x → Json.isNumber (D.fixed n x) = true)

/-- The values of the fields that are strings. -/
theorem strings_eq (r : SummaryState) (pd : PoolDelta) :
    ((summaryPhrases hprint r pd).filterMap fun p => p.2.value.str?.map (p.1, ·)) =
      ("verdict", text (if r.errors = 0 then "PASS" else "FAIL")) :: stringFields r :=
  rfl

/-- Each of them is found under its name. -/
theorem lookup_string {r : SummaryState} {pd : PoolDelta} {f : String × Bytes}
    (hf : f ∈ ("verdict", text (if r.errors = 0 then "PASS" else "FAIL")) :: stringFields r) :
    (members (summaryMembers hprint r pd)).lookup (text f.1) = some (.str f.2) := by
  rw [← strings_eq hprint r pd] at hf
  obtain ⟨p, hp, hstr⟩ := List.mem_filterMap.mp hf
  obtain ⟨s, hs, rfl⟩ := Option.map_eq_some_iff.mp hstr
  rw [lookup_field hprint hp, Json.eq_str_of_str? hs]

theorem shownPhrases_eq (pd : PoolDelta) :
    (pd.tiers.zipIdx.filterMap fun p =>
      if p.1.starter = 0 then none else some (tierPhrase hprint p)) =
        pd.shown.map (tierPhrase hprint) := by
  unfold PoolDelta.shown
  rw [← filterMap_kept]
  refine List.filterMap_congr fun p _ => ?_
  by_cases hzero : p.1.starter = 0
  · simp [hzero]
  · simp [hzero]

/-- A tier reads as its figures. -/
theorem tier_ints (p : TierFigures × Nat) :
    (tierKeys.map fun k => ((tierPhrase hprint p).value.get? (text k)).bind Json.toInt?) =
      (tierInts p).map some := by
  have hget : ∀ k n, (k, Json.Phrase.int n) ∈ tierMembers hprint p →
      ((tierPhrase hprint p).value.get? (text k)).bind Json.toInt? = some n := by
    intro k n hmem
    show ((members (tierMembers hprint p)).lookup (text k)).bind Json.toInt? = some n
    rw [lookup_member (tierMembers_distinct hprint p) hmem]
    exact Json.toInt?_int n
  simp only [tierKeys, tierInts, List.map_cons, List.map_nil]
  rw [hget "tier" p.2 (by simp [tierMembers]), hget "starter" p.1.starter (by simp [tierMembers]),
    hget "get" p.1.get (by simp [tierMembers]), hget "new" p.1.fresh (by simp [tierMembers]),
    hget "regrow" p.1.regrow (by simp [tierMembers]),
    hget "new_bytes" p.1.newBytes (by simp [tierMembers])]

end Found

/-- The tiers are shown in increasing order. -/
theorem shown_increasing (d : PoolDelta) : (d.shown.map Prod.snd).Pairwise (· < ·) := by
  have hsub : (d.shown.map Prod.snd).Sublist (d.tiers.zipIdx.map Prod.snd) :=
    List.filter_sublist.map Prod.snd
  refine List.Pairwise.sublist hsub ?_
  rw [List.zipIdx_map_snd]
  exact List.pairwise_lt_range'

/-- **The JSON summary.**  For every state of a run, `final_summary` prints
one object that a decoder reads, no key twice; in it are the iterations of
each worker and their sum, the error texts of the failed workers, the pool
tiers that have a starter, and every string byte for byte; and the verdict
and the exit code say whether there was an error. -/
theorem summary_faithful (hprint : ∀ n x, D.Finite x → Json.isNumber (D.fixed n x) = true)
    (r : SummaryState) :
    ∃ out o pd, finalSummaryJson D r = some (out, if r.errorTexts = [] then 0 else 1) ∧
      poolDiff r.poolWarmup r.poolSteady = some pd ∧
      Json.decode out = some (.obj o) ∧ (o.map Prod.fst).Nodup ∧
      (o.lookup (text "iterations")).bind Json.toInt? = some ((r.workers.map Totals.iters).sum) ∧
      (∃ l, o.lookup (text "per_worker_iterations") = some (.arr l) ∧
        l.map Json.toInt? = r.workers.map fun w => some w.iters) ∧
      o.lookup (text "worker_errors") = some (.arr (r.errorTexts.map .str)) ∧
      (∃ l, o.lookup (text "hash_pool_tiers") = some (.arr l) ∧
        l.map (fun j => tierKeys.map fun k => (j.get? (text k)).bind Json.toInt?) =
          pd.shown.map (fun p => (tierInts p).map some)) ∧
      (pd.shown.map Prod.snd).Pairwise (· < ·) ∧
      (∀ f ∈ stringFields r, o.lookup (text f.1) = some (.str f.2)) ∧
      o.lookup (text "verdict") =
        some (.str (text (if r.errorTexts = [] then "PASS" else "FAIL"))) := by
  obtain ⟨pd, hpd⟩ : ∃ pd, poolDiff r.poolWarmup r.poolSteady = some pd :=
    ⟨_, poolDiff_eq r.poolWarmup r.poolSteady⟩
  have hexit : (if r.errors = 0 then (0 : Int) else 1) =
      if r.errorTexts = [] then 0 else 1 := if_congr (errors_eq_zero r) rfl rfl
  have hverdict : (if r.errors = 0 then "PASS" else "FAIL") =
      if r.errorTexts = [] then "PASS" else "FAIL" := if_congr (errors_eq_zero r) rfl rfl
  have hdecode : Json.decode (summaryLine D r pd) =
      some (.obj (members (summaryMembers hprint r pd))) := by
    rw [summaryLine_eq hprint, ← object_value (summaryMembers_plain hprint r pd)]
    exact Json.decode_text (summaryPhrase hprint r pd).valid (List.all_eq_true.mp (by decide))
  have hiters := lookup_field hprint (mem_iterations hprint r pd)
  have hworkers := lookup_field hprint (mem_workers hprint r pd)
  have herrors := lookup_field hprint (mem_errors hprint r pd)
  have htiers := lookup_field hprint (mem_tiers hprint r pd)
  refine ⟨summaryLine D r pd, _, pd, ?_, hpd, hdecode, ?_, ?_, ⟨_, hworkers, ?_⟩, ?_,
    ⟨_, htiers, ?_⟩, shown_increasing pd, ?_, ?_⟩
  · unfold finalSummaryJson
    rw [hpd, ← hexit]
    rfl
  · rw [members_keys]
    exact summaryMembers_distinct hprint r pd
  · rw [← total_eq, hiters]
    exact Json.toInt?_int _
  · rw [List.filterMap_eq_map', List.map_map, List.map_map]
    refine List.map_congr_left fun w _ => ?_
    exact Json.toInt?_int w.iters
  · rw [herrors]
    show some (Json.arr _) = _
    rw [filterMap_kept, List.map_map]
    unfold SummaryState.errorTexts
    rw [List.map_map]
    rfl
  · rw [shownPhrases_eq hprint, List.map_map, List.map_map]
    refine List.map_congr_left fun p _ => ?_
    exact tier_ints hprint p
  · intro f hf
    exact lookup_string hprint (List.mem_cons_of_mem _ hf)
  · rw [← hverdict]
    exact lookup_string hprint List.mem_cons_self

end Faithful

/-- Doubles without rounding, and nothing for the quotient by zero; they print
with zeros behind the point. -/
def exactDoubles : Doubles where
  Double := Option ℚ
  Finite x := x.isSome = true
  ofInt n := some n
  mul x y := x.bind fun a => y.map (a * ·)
  div x y := x.bind fun a => y.bind fun b => if b = 0 then none else some (a / b)
  fixed n x :=
    match x with
    | none => text "nan"
    | some a => decimal a.floor ++ if n = 0 then [] else 46 :: List.replicate n 48
  finite_ofInt _ := rfl
  finite_mul _ _ := rfl
  finite_div x n hx hn := by
    obtain ⟨a, rfl⟩ := Option.isSome_iff_exists.mp hx
    simp [hn]
  finite_rate a b m n hb hm hn := by simp [hb, hm, hn]

theorem exactDoubles_print (n : Nat) (x : Option ℚ) (hx : x.isSome = true) :
    Json.isNumber (exactDoubles.fixed n x) = true := by
  obtain ⟨a, rfl⟩ := Option.isSome_iff_exists.mp hx
  cases n with
  | zero =>
      show Json.isNumber (decimal a.floor ++ []) = true
      rw [List.append_nil]
      exact Json.isNumber_decimal a.floor
  | succ n => exact Json.isNumber_zeros a.floor n

/-- A run of two workers, one of which failed; the second of two tiers has no
starter. -/
def failedRun : SummaryState where
  cfg := { hash := text "areion512", seed := 7 }
  workers := [{ iters := 3 }, { iters := 2, failed := true, error := text "\"eof\"\n" }]
  msgPipe := true
  msgProfile := text "c:\\keys"
  elapsedNs := 5000000000
  poolWarmup := [2, 4, 8, 1, 0, 64, 0, 0, 0, 0, 0, 9, 1, 0, 0, 0, 0, 0, 0]
  poolSteady := [2, 4, 12, 2, 0, 96, 0, 0, 0, 0, 0, 29, 6, 0, 0, 0, 0, 0, 0]

theorem summary_faithful_failed :
    ∃ out o pd, finalSummaryJson exactDoubles failedRun = some (out, 1) ∧
      poolDiff failedRun.poolWarmup failedRun.poolSteady = some pd ∧
      Json.decode out = some (.obj o) ∧ (o.map Prod.fst).Nodup ∧
      (o.lookup (text "iterations")).bind Json.toInt? = some 5 ∧
      (∃ l, o.lookup (text "per_worker_iterations") = some (.arr l) ∧
        l.map Json.toInt? = [some 3, some 2]) ∧
      o.lookup (text "worker_errors") = some (.arr [.str (text "\"eof\"\n")]) ∧
      (∃ l, o.lookup (text "hash_pool_tiers") = some (.arr l) ∧
        l.map (fun j => tierKeys.map fun k => (j.get? (text k)).bind Json.toInt?) =
          pd.shown.map (fun p => (tierInts p).map some)) ∧
      (pd.shown.map Prod.snd).Pairwise (· < ·) ∧
      (∀ f ∈ stringFields failedRun, o.lookup (text f.1) = some (.str f.2)) ∧
      o.lookup (text "verdict") = some (.str (text "FAIL")) :=
  summary_faithful exactDoubles_print failedRun

end ItbCpp.Loop
