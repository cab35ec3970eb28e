/-
  ItbCpp.Loop.Payload
  ───────────────────
  **PLAINTEXT CONTENT** (`loop/payload.cpp`).

  The payload modes, the generator of a seeded worker and the buffer fill.

    • `fillWords_eq` — a seeded fill writes the generator's words one after
      the other, the last one cut at the end of the buffer, and leaves the
      generator that many steps on,
    • `drawn_rng`, `drawn_plaintext` — what any number of seeded fills leaves,
    • `seeded_distinct` — so no two workers of a seeded run hold the same
      plaintext.
-/
import ItbCpp.Lib.Buffer
import ItbCpp.Lib.Words
import ItbCpp.Loop.State

namespace ItbCpp.Loop

/-! ## §1. The generator. -/

/-- `kMaxWorkers`. -/
def kMaxWorkers : Nat := 10

/-- `splitmix64`: the output, and the state it leaves. -/
def splitmix64 (state : UInt64) : UInt64 × UInt64 :=
  let state := state + 0x9E3779B97F4A7C15
  let z := state
  let z := (z ^^^ (z >>> 30)) * 0xBF58476D1CE4E5B9
  let z := (z ^^^ (z >>> 27)) * 0x94D049BB133111EB
  (z ^^^ (z >>> 31), state)

/-- `seed_worker`. -/
def seedWorker (seed : UInt64) (workerId : Nat) : UInt64 := seed + UInt64.ofNat workerId + 1

/-! ## §2. The fill. -/

/-- The bytes of a 64-bit word in memory. -/
def wordBytes (v : UInt64) : Bytes := Words.leBytes 8 v.toNat

@[simp] theorem length_wordBytes (v : UInt64) : (wordBytes v).length = 8 :=
  Words.length_leBytes 8 _

/-- The loop of a seeded fill, from `i` on: the state of the generator and the
buffer it leaves. -/
def fillWords (rng : UInt64) (i : Nat) (buf : Bytes) : UInt64 × Bytes :=
  if i < buf.length then
    let (v, rng) := splitmix64 rng
    let take := if buf.length - i < 8 then buf.length - i else 8
    fillWords rng (i + 8) (Buffer.overlayAt buf i ((wordBytes v).take take))
  else (rng, buf)
termination_by buf.length - i
decreasing_by
  rw [Buffer.length_overlayAt]
  omega

/-- `fill_random`, from `off` on.  `getrandom k` is what call `k` has to give:
nothing when it fails. -/
def fillRandom (getrandom : Nat → Bytes) (k off : Nat) (buf : Bytes) : Bool × Bytes :=
  if off < buf.length then
    let got := (getrandom k).take (buf.length - off)
    if got = [] then (false, buf)
    -- the call may come back short
    else fillRandom getrandom (k + 1) (off + got.length) (Buffer.overlayAt buf off got)
  else (true, buf)
termination_by buf.length - off
decreasing_by
  rename_i _ hgot
  have hpos : 0 < got.length := List.length_pos_iff.mpr hgot
  rw [Buffer.length_overlayAt]
  show buf.length - (off + got.length) < buf.length - off
  omega

/-- `fill_payload`: whether the buffer is filled, the state of the generator and
the buffer. -/
def fillPayload (getrandom : Nat → Bytes) (mode : PayloadMode) (seeded : Bool) (rng : UInt64)
    (buf : Bytes) : Bool × UInt64 × Bytes :=
  match mode with
  | .fixed | .rotating =>
      if !seeded then
        let (ok, buf) := fillRandom getrandom 0 0 buf
        (ok, rng, buf)
      else (true, fillWords rng 0 buf)
  | .patternZero => (true, rng, buf.map fun _ => 0x00)
  | .patternFF => (true, rng, buf.map fun _ => 0xFF)
  | .patternAscii =>
      (true, rng, (List.range buf.length).map fun i => UInt8.ofNat ('A'.toNat + i % 26))

theorem length_fillWords (rng : UInt64) (i : Nat) (buf : Bytes) :
    (fillWords rng i buf).2.length = buf.length := by
  fun_induction fillWords rng i buf with
  | case1 rng i buf hi v rng' hstep take ih =>
      rw [ih]
      exact Buffer.length_overlayAt ..
  | case2 rng i buf hi => rfl

theorem length_fillRandom (getrandom : Nat → Bytes) (k off : Nat) (buf : Bytes) :
    (fillRandom getrandom k off buf).2.length = buf.length := by
  fun_induction fillRandom getrandom k off buf with
  | case1 k off buf hoff got hgot => rfl
  | case2 k off buf hoff got hgot ih =>
      rw [ih]
      exact Buffer.length_overlayAt ..
  | case3 k off buf hoff => rfl

/-- A fill keeps the size of the buffer, also when it fails. -/
theorem length_fillPayload (getrandom : Nat → Bytes) (mode : PayloadMode) (seeded : Bool)
    (rng : UInt64) (buf : Bytes) :
    (fillPayload getrandom mode seeded rng buf).2.2.length = buf.length := by
  unfold fillPayload
  cases mode with
  | fixed | rotating =>
      cases seeded with
      | true => exact length_fillWords rng 0 buf
      | false => exact length_fillRandom getrandom 0 0 buf
  | patternZero | patternFF => exact List.length_map _
  | patternAscii => simp

/-! ## §3. The output function. -/

/-- What `splitmix64` makes of the state it has stepped to. -/
def mix (z : UInt64) : UInt64 :=
  let z := (z ^^^ (z >>> 30)) * 0xBF58476D1CE4E5B9
  let z := (z ^^^ (z >>> 27)) * 0x94D049BB133111EB
  z ^^^ (z >>> 31)

/-- The generator `n` steps on. -/
def steps (rng : UInt64) (n : Nat) : UInt64 := rng + UInt64.ofNat n * 0x9E3779B97F4A7C15

theorem splitmix64_eq (rng : UInt64) : splitmix64 rng = (mix (steps rng 1), steps rng 1) := by
  have hone : UInt64.ofNat 1 * 0x9E3779B97F4A7C15 = 0x9E3779B97F4A7C15 := by decide
  unfold splitmix64 steps
  rw [hone]
  rfl

theorem steps_zero (rng : UInt64) : steps rng 0 = rng := by
  have hzero : UInt64.ofNat 0 * 0x9E3779B97F4A7C15 = 0 := by decide
  unfold steps
  rw [hzero, UInt64.add_zero]

theorem steps_add (rng : UInt64) (m n : Nat) : steps (steps rng m) n = steps rng (m + n) := by
  unfold steps
  rw [UInt64.add_assoc, ← UInt64.add_mul, UInt64.ofNat_add]

theorem steps_injective (n : Nat) : Function.Injective fun rng : UInt64 => steps rng n := by
  intro x y h
  exact (UInt64.add_left_inj _).mp h

theorem toNat_steps (rng : UInt64) (n : Nat) :
    (steps rng n).toNat = (rng.toNat + n * 0x9E3779B97F4A7C15) % 2 ^ 64 := by
  unfold steps
  rw [UInt64.toNat_add, UInt64.toNat_mul, UInt64.toNat_ofNat']
  show (rng.toNat + n % 2 ^ 64 * 0x9E3779B97F4A7C15 % 2 ^ 64) % 2 ^ 64 = _
  omega

/-- **The output function maps no two states to one word.** -/
theorem mix_injective : Function.Injective mix := by
  have hfirst := Words.xorShift64_injective (k := 30) (by decide)
  have hsecond := Words.xorShift64_injective (k := 27) (by decide)
  have hlast := Words.xorShift64_injective (k := 31) (by decide)
  -- the inverses of the two multipliers modulo 2^64
  have hmul := Words.mulUnit_injective
    (show (0xBF58476D1CE4E5B9 : UInt64) * 0x96DE1B173F119089 = 1 by decide)
  have hmul' := Words.mulUnit_injective
    (show (0x94D049BB133111EB : UInt64) * 0x319642B2D24D8EC3 = 1 by decide)
  exact hlast.comp (hmul'.comp (hsecond.comp (hmul.comp hfirst)))

theorem splitmix64_injective : Function.Injective fun state => (splitmix64 state).1 := by
  intro x y h
  have h : (splitmix64 x).1 = (splitmix64 y).1 := h
  rw [splitmix64_eq, splitmix64_eq] at h
  exact steps_injective 1 (mix_injective h)

/-! ## §4. What a seeded fill leaves. -/

/-- The first `n` words of a generator. -/
def words (rng : UInt64) : Nat → List UInt64
  | 0 => []
  | n + 1 => (splitmix64 rng).1 :: words (splitmix64 rng).2 n

/-- The first `n` bytes of a generator: its words, the last one cut. -/
def stream (rng : UInt64) (n : Nat) : Bytes :=
  ((words rng ((n + 7) / 8)).flatMap wordBytes).take n

theorem stream_zero (rng : UInt64) : stream rng 0 = [] := List.take_zero

/-- One word, then the bytes of the generator after it. -/
theorem stream_of_pos (rng : UInt64) {n : Nat} (hn : 0 < n) :
    stream rng n = (wordBytes (splitmix64 rng).1).take n ++ stream (splitmix64 rng).2 (n - 8) := by
  have hwords : (n + 7) / 8 = (n - 8 + 7) / 8 + 1 := by omega
  unfold stream
  rw [hwords, words, List.flatMap_cons, List.take_append, length_wordBytes]

/-- The write at `i`, up to the next word. -/
theorem take_overlayAt_word (v : UInt64) {buf : Bytes} {i take : Nat} (hi : i < buf.length)
    (htake : take = if buf.length - i < 8 then buf.length - i else 8) :
    (Buffer.overlayAt buf i ((wordBytes v).take take)).take (i + 8) =
      buf.take i ++ (wordBytes v).take (buf.length - i) := by
  have hword := length_wordBytes v
  have hwritten : (Buffer.overlayAt buf i ((wordBytes v).take take)).take (i + take) =
      buf.take i ++ ((wordBytes v).take take).take take := by
    refine Buffer.take_add_overlayAt ?_ ?_
    · split at htake <;> omega
    · rw [List.length_take]
      split at htake <;> omega
  rw [List.take_take, Nat.min_self] at hwritten
  by_cases hlast : buf.length - i < 8
  -- a word that is cut ends with the buffer
  · rw [if_pos hlast] at htake
    have hlen : (Buffer.overlayAt buf i ((wordBytes v).take take)).length = i + take := by
      rw [Buffer.length_overlayAt]
      omega
    rw [List.take_of_length_le (by omega)] at hwritten ⊢
    rw [hwritten, htake]
  · rw [if_neg hlast] at htake
    have hwhole : (wordBytes v).take 8 = (wordBytes v).take (buf.length - i) := by
      rw [List.take_of_length_le hword.le, List.take_of_length_le (by omega)]
    rw [htake] at hwritten ⊢
    rw [hwritten, hwhole]

/-- **A seeded fill**: the bytes of the generator from `i` on, and the generator
as many steps further as words were begun. -/
theorem fillWords_eq (rng : UInt64) (i : Nat) (buf : Bytes) :
    fillWords rng i buf = (steps rng ((buf.length - i + 7) / 8),
      buf.take i ++ stream rng (buf.length - i)) := by
  induction rng, i, buf using fillWords.induct with
  | case1 rng i buf hi v rng' hv take ih =>
      have hstep : rng' = steps rng 1 := by
        rw [splitmix64_eq] at hv
        exact (Prod.mk.inj hv).2.symm
      have htake : take = if buf.length - i < 8 then buf.length - i else 8 := rfl
      have hcount : 1 + (buf.length - (i + 8) + 7) / 8 = (buf.length - i + 7) / 8 := by omega
      unfold fillWords
      rw [if_pos hi, hv]
      show fillWords rng' (i + 8) (Buffer.overlayAt buf i ((wordBytes v).take take)) = _
      rw [ih, Buffer.length_overlayAt, take_overlayAt_word v hi htake,
        stream_of_pos rng (show 0 < buf.length - i by omega), hv, hstep, steps_add, hcount,
        List.append_assoc, Nat.sub_sub]
  | case2 rng i buf hi =>
      have hzero : buf.length - i = 0 := by omega
      unfold fillWords
      rw [if_neg hi, hzero, stream_zero, List.append_nil, List.take_of_length_le (by omega)]
      exact Prod.ext (steps_zero rng).symm rfl

/-- The first word of a stream of at least 8 bytes. -/
theorem take_stream (rng : UInt64) {n : Nat} (hn : 8 ≤ n) :
    (stream rng n).take 8 = wordBytes (splitmix64 rng).1 := by
  have hword := length_wordBytes (splitmix64 rng).1
  rw [stream_of_pos rng (by omega), List.take_of_length_le (show (wordBytes _).length ≤ n by omega),
    List.take_append_of_le_length (by omega), List.take_of_length_le (by omega)]

theorem wordBytes_injective : Function.Injective wordBytes := by
  intro v w h
  exact UInt64.toNat_inj.mp (Words.leBytes_injective 8 _ _ v.toNat_lt w.toNat_lt h)

/-- Generators apart give streams apart. -/
theorem stream_injective {rng rng' : UInt64} {n : Nat} (hn : 8 ≤ n)
    (h : stream rng n = stream rng' n) : rng = rng' := by
  have hfirst : wordBytes (splitmix64 rng).1 = wordBytes (splitmix64 rng').1 := by
    rw [← take_stream rng hn, h, take_stream rng' hn]
  exact splitmix64_injective (wordBytes_injective hfirst)

/-! ## §5. The workers of a seeded run. -/

/-- What a seeded worker fills its plaintext from: `Worker::rng` and
`Worker::plaintext`. -/
structure Source where
  rng : UInt64
  plaintext : Bytes

section Fills

variable (getrandom : Nat → Bytes)

/-- The worker as `run` sets it up, with a plaintext of `n` bytes. -/
def Source.start (seed : UInt64) (id n : Nat) : Source := ⟨seedWorker seed id, zeros n⟩

/-- One seeded `fill_payload`. -/
def Source.fill (d : Source) (mode : PayloadMode) : Source :=
  let (_, rng, buf) := fillPayload getrandom mode true d.rng d.plaintext
  ⟨rng, buf⟩

/-- The worker after its fills, the modes in order. -/
def filled (seed : UInt64) (id n : Nat) (modes : List PayloadMode) : Source :=
  modes.foldl (Source.fill getrandom) (.start seed id n)

/-- A mode that draws from the generator. -/
def PayloadMode.draws : PayloadMode → Bool
  | .fixed | .rotating => true
  | _ => false

variable {getrandom} {mode : PayloadMode} {modes : List PayloadMode} {seed : UInt64} {id n : Nat}

theorem fill_of_draws (d : Source) (h : mode.draws = true) :
    d.fill getrandom mode =
      ⟨steps d.rng ((d.plaintext.length + 7) / 8), stream d.rng d.plaintext.length⟩ := by
  have hfill : d.fill getrandom mode =
      ⟨(fillWords d.rng 0 d.plaintext).1, (fillWords d.rng 0 d.plaintext).2⟩ := by
    cases mode with
    | fixed | rotating => rfl
    | patternZero | patternFF | patternAscii => exact (Bool.false_ne_true h).elim
  rw [hfill, fillWords_eq, List.take_zero, List.nil_append, Nat.sub_zero]

theorem length_stream (rng : UInt64) (n : Nat) : (stream rng n).length = n := by
  induction n using Nat.strongRecOn generalizing rng with
  | ind n ih =>
      by_cases hn : n = 0
      · subst hn
        rw [stream_zero]
        rfl
      · rw [stream_of_pos rng (by omega), List.length_append, List.length_take, length_wordBytes,
          ih (n - 8) (by omega)]
        omega

/-- The state after any number of fills. -/
theorem filled_state (h : ∀ m ∈ modes, m.draws = true) :
    (filled getrandom seed id n modes).rng =
        steps (seedWorker seed id) (modes.length * ((n + 7) / 8)) ∧
      (filled getrandom seed id n modes).plaintext.length = n := by
  induction modes using List.reverseRecOn with
  | nil =>
      refine ⟨?_, length_zeros n⟩
      rw [List.length_nil, Nat.zero_mul, steps_zero]
      rfl
  | append_singleton modes mode ih =>
      obtain ⟨hrng, hlen⟩ := ih fun m hm => h m (List.mem_append_left _ hm)
      have hmode : mode.draws = true := h mode (by simp)
      have hlast : filled getrandom seed id n (modes ++ [mode]) =
          (filled getrandom seed id n modes).fill getrandom mode := List.foldl_concat ..
      rw [hlast, fill_of_draws _ hmode, hlen]
      refine ⟨?_, length_stream _ n⟩
      show steps (filled getrandom seed id n modes).rng ((n + 7) / 8) = _
      rw [hrng, steps_add, List.length_append, List.length_singleton, Nat.add_mul, Nat.one_mul]

/-- The buffer the last fill leaves: what the generator before it gives. -/
theorem filled_plaintext {k : Nat} (hk : modes.length = k + 1)
    (h : ∀ m ∈ modes, m.draws = true) :
    (filled getrandom seed id n modes).plaintext =
      stream (steps (seedWorker seed id) (k * ((n + 7) / 8))) n := by
  obtain ⟨ms, mode, rfl⟩ : ∃ ms mode, modes = ms ++ [mode] :=
    ⟨modes.dropLast, modes.getLast (by intro hnil; simp [hnil] at hk),
      (List.dropLast_append_getLast _).symm⟩
  have hlen : ms.length = k := by simpa using hk
  have hms : ∀ m ∈ ms, m.draws = true := fun m hm => h m (List.mem_append_left _ hm)
  have hlast : filled getrandom seed id n (ms ++ [mode]) =
      (filled getrandom seed id n ms).fill getrandom mode := List.foldl_concat ..
  rw [hlast, fill_of_draws _ (h mode (by simp)), (filled_state hms).1, (filled_state hms).2, hlen]

theorem toNat_seedWorker (seed : UInt64) (id : Nat) :
    (seedWorker seed id).toNat = (seed.toNat + id + 1) % 2 ^ 64 := by
  unfold seedWorker
  rw [UInt64.toNat_add, UInt64.toNat_add, UInt64.toNat_ofNat']
  show ((seed.toNat + id % 2 ^ 64) % 2 ^ 64 + 1) % 2 ^ 64 = _
  omega

/-- Worker ids give seeds apart. -/
theorem seedWorker_injective {i j : Nat} (hi : i < kMaxWorkers) (hj : j < kMaxWorkers)
    (h : seedWorker seed i = seedWorker seed j) : i = j := by
  have hnat := congrArg UInt64.toNat h
  rw [toNat_seedWorker, toNat_seedWorker] at hnat
  unfold kMaxWorkers at hi hj
  omega

end Fills

/-- **SEEDED WORKERS HOLD DISTINCT PLAINTEXTS.**  `splitmix64` gives different
outputs in different states.  So for every seed, payloads of at least 8 bytes
and two worker ids, the plaintexts after the `k`-th fill differ for every `k`;
and `k` fills leave a worker's generator `k` times the words of a payload on. -/
theorem seeded_distinct (getrandom : Nat → Bytes) (seed : UInt64) (n : Nat) :
    Function.Injective (fun state => (splitmix64 state).1) ∧
    (∀ i j, i < kMaxWorkers → j < kMaxWorkers → i ≠ j → 8 ≤ n →
      ∀ k modes modes', 0 < k → modes.length = k → modes'.length = k →
        (∀ m ∈ modes, m.draws = true) → (∀ m ∈ modes', m.draws = true) →
        (filled getrandom seed i n modes).plaintext ≠
          (filled getrandom seed j n modes').plaintext) ∧
    (∀ id k modes, modes.length = k → (∀ m ∈ modes, m.draws = true) →
      (filled getrandom seed id n modes).rng.toNat =
        (seed.toNat + id + 1 + k * ((n + 7) / 8) * 0x9E3779B97F4A7C15) % 2 ^ 64) := by
  refine ⟨splitmix64_injective, ?_, ?_⟩
  · intro i j hi hj hij hn k modes modes' hk hmodes hmodes' hdraws hdraws' heq
    obtain ⟨p, rfl⟩ : ∃ p, k = p + 1 := ⟨k - 1, by omega⟩
    rw [filled_plaintext hmodes hdraws, filled_plaintext hmodes' hdraws'] at heq
    have hstate := steps_injective _ (stream_injective hn heq)
    exact hij (seedWorker_injective hi hj hstate)
  · intro id k modes hmodes hdraws
    rw [(filled_state hdraws).1, toNat_steps, toNat_seedWorker, hmodes]
    omega

/-- Workers 0 and 1 on a partial word, after the second fill of rotating mode. -/
theorem seeded_distinct_rotating :
    let getrandom : Nat → Bytes := fun _ => []
    (filled getrandom 7 0 12 [.rotating, .rotating]).plaintext ≠
        (filled getrandom 7 1 12 [.rotating, .rotating]).plaintext ∧
      (filled getrandom 7 0 12 [.rotating, .rotating]).rng.toNat =
        (7 + 0 + 1 + 2 * 2 * 0x9E3779B97F4A7C15) % 2 ^ 64 := by
  intro getrandom
  have hdraws : ∀ m ∈ [PayloadMode.rotating, .rotating], m.draws = true := by decide
  obtain ⟨-, hne, hrng⟩ := seeded_distinct getrandom 7 12
  exact ⟨hne 0 1 (by decide) (by decide) (by decide) (by decide) 2 _ _ (by decide) rfl rfl
    hdraws hdraws, hrng 0 2 _ rfl hdraws⟩

end ItbCpp.Loop
