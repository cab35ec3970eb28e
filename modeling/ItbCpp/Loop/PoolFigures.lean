/-
  ItbCpp.Loop.PoolFigures
  ───────────────────────
  **THE POOL FIGURES** (`loop/summary.cpp`).

  Two snapshots of the library's pool counters bracket the main loop, and
  `pool_diff` takes one from the other.  The harness does not look at
  whether a snapshot was taken: one that failed is a buffer of zeros.

    • `poolDiff_eq` — no read is outside the snapshots, whatever they hold,
    • `figures_attributed_iff` — the figures are right unless exactly one
      snapshot was taken and holds something where they are read.
-/
import Mathlib.Data.List.Basic

namespace ItbCpp.Loop

/-! ## §1. The code. -/

/-- The figures of one tier, in the order of its slots. -/
structure TierFigures where
  starter : Int
  get : Int
  fresh : Int
  regrow : Int
  newBytes : Int
  deriving DecidableEq

/-- The figures of a byte pool, in the order of its slots. -/
structure BytePool where
  get : Int := 0
  fresh : Int := 0
  regrow : Int := 0
  regrowBytes : Int := 0
  deriving DecidableEq

/-- `PoolDelta`.  Its five vectors are one list, tier by tier. -/
structure PoolDelta where
  tiers : List TierFigures := []
  buf : BytePool := {}
  chunk : BytePool := {}
  deriving DecidableEq

/-- `s[i] - w[i]`; nothing outside either of them. -/
def slotDiff (w s : List Int) (i : Nat) : Option Int := do
  let a ← s[i]?
  let b ← w[i]?
  some (a - b)

/-- A pass of the loop of `pool_diff`. -/
def tierDiff (w s : List Int) (i : Nat) : Option TierFigures := do
  let base := 1 + 5 * i
  let starter ← s[base]?
  let get ← slotDiff w s (base + 1)
  let fresh ← slotDiff w s (base + 2)
  let regrow ← slotDiff w s (base + 3)
  let newBytes ← slotDiff w s (base + 4)
  some { starter, get, fresh, regrow, newBytes }

/-- The four slots of a byte pool. -/
def byteDiff (w s : List Int) (base : Nat) : Option BytePool := do
  let get ← slotDiff w s base
  let fresh ← slotDiff w s (base + 1)
  let regrow ← slotDiff w s (base + 2)
  let regrowBytes ← slotDiff w s (base + 3)
  some { get, fresh, regrow, regrowBytes }

/-- `pool_diff`, of the warmup snapshot `w` and the steady one `s`; nothing
when a slot is read that is not there. -/
def poolDiff (w s : List Int) : Option PoolDelta :=
  if w.length < 9 ∨ s.length ≠ w.length then some {}
  else do
    let tiers ← s[0]?
    if tiers < 0 ∨ 64 < tiers ∨ (s.length : Int) < 1 + 5 * tiers + 8 then some {}
    else
      let rows ← (List.range tiers.toNat).mapM (tierDiff w s)
      let tail := 1 + 5 * tiers.toNat
      let buf ← byteDiff w s tail
      let chunk ← byteDiff w s (tail + 4)
      some { tiers := rows, buf, chunk }

/-! ## §2. No read is outside. -/

section Reads

/-- The figures over `t` tiers, of slots that are there. -/
def tierOf (g f : Nat → Int) (i : Nat) : TierFigures where
  starter := f (1 + 5 * i)
  get := f (1 + 5 * i + 1) - g (1 + 5 * i + 1)
  fresh := f (1 + 5 * i + 2) - g (1 + 5 * i + 2)
  regrow := f (1 + 5 * i + 3) - g (1 + 5 * i + 3)
  newBytes := f (1 + 5 * i + 4) - g (1 + 5 * i + 4)

def byteOf (g f : Nat → Int) (base : Nat) : BytePool where
  get := f base - g base
  fresh := f (base + 1) - g (base + 1)
  regrow := f (base + 2) - g (base + 2)
  regrowBytes := f (base + 3) - g (base + 3)

def deltaOf (g f : Nat → Int) (t : Nat) : PoolDelta where
  tiers := (List.range t).map (tierOf g f)
  buf := byteOf g f (1 + 5 * t)
  chunk := byteOf g f (1 + 5 * t + 4)

/-- What a snapshot holds at a slot. -/
def slot (s : List Int) (i : Nat) : Int := (s[i]?).getD 0

/-- Whether `pool_diff` looks at the snapshots at all. -/
def Readable (w s : List Int) : Prop :=
  9 ≤ w.length ∧ s.length = w.length ∧ 0 ≤ slot s 0 ∧ slot s 0 ≤ 64 ∧
    1 + 5 * (slot s 0).toNat + 8 ≤ s.length

instance (w s : List Int) : Decidable (Readable w s) :=
  inferInstanceAs (Decidable (9 ≤ w.length ∧ s.length = w.length ∧ 0 ≤ slot s 0 ∧
    slot s 0 ≤ 64 ∧ 1 + 5 * (slot s 0).toNat + 8 ≤ s.length))

variable {w s : List Int}

theorem getElem?_slot {i : Nat} (h : i < s.length) : s[i]? = some (slot s i) := by
  unfold slot
  rw [List.getElem?_eq_getElem h]
  rfl

theorem slotDiff_eq (hlen : s.length = w.length) {i : Nat} (h : i < s.length) :
    slotDiff w s i = some (slot s i - slot w i) := by
  unfold slotDiff
  rw [getElem?_slot h, getElem?_slot (hlen ▸ h)]
  rfl

theorem tierDiff_eq (hlen : s.length = w.length) {i : Nat} (h : 1 + 5 * i + 4 < s.length) :
    tierDiff w s i = some (tierOf (slot w) (slot s) i) := by
  unfold tierDiff
  dsimp only
  rw [getElem?_slot (by omega), slotDiff_eq hlen (by omega), slotDiff_eq hlen (by omega),
    slotDiff_eq hlen (by omega), slotDiff_eq hlen h]
  rfl

theorem byteDiff_eq (hlen : s.length = w.length) {base : Nat} (h : base + 3 < s.length) :
    byteDiff w s base = some (byteOf (slot w) (slot s) base) := by
  unfold byteDiff
  rw [slotDiff_eq hlen (by omega), slotDiff_eq hlen (by omega), slotDiff_eq hlen (by omega),
    slotDiff_eq hlen h]
  rfl

/-- As many passes as there are tiers. -/
theorem rows_eq (hlen : s.length = w.length) {t : Nat} (h : 1 + 5 * t ≤ s.length) :
    (List.range t).mapM (tierDiff w s) = some ((List.range t).map (tierOf (slot w) (slot s))) := by
  induction t with
  | zero => rfl
  | succ t ih =>
      have hrow := tierDiff_eq hlen (i := t) (by omega)
      rw [List.range_succ, List.mapM_append, ih (by omega), List.mapM_cons, hrow, List.map_append]
      rfl

/-- **No read is outside the snapshots**, whatever they hold: the figures are
all zero, or the differences slot by slot. -/
theorem poolDiff_eq (w s : List Int) :
    poolDiff w s =
      some (if Readable w s then deltaOf (slot w) (slot s) (slot s 0).toNat else {}) := by
  unfold poolDiff
  by_cases hsize : w.length < 9 ∨ s.length ≠ w.length
  · have hnot : ¬ Readable w s := by
      intro h
      rcases hsize with hsize | hsize
      · exact absurd h.1 (Nat.not_le.mpr hsize)
      · exact hsize h.2.1
    rw [if_pos hsize, if_neg hnot]
  · rw [if_neg hsize]
    simp only [not_or, not_not, Nat.not_lt] at hsize
    obtain ⟨hmin, hlen⟩ := hsize
    rw [getElem?_slot (i := 0) (by omega)]
    show (if _ then _ else _) = _
    by_cases htiers : slot s 0 < 0 ∨ 64 < slot s 0 ∨ (s.length : Int) < 1 + 5 * slot s 0 + 8
    · have hnot : ¬ Readable w s := by
        intro h
        obtain ⟨-, -, hlo, hhi, hfits⟩ := h
        omega
      rw [if_pos htiers, if_neg hnot]
    · have hyes : Readable w s := by
        refine ⟨hmin, hlen, ?_, ?_, ?_⟩ <;> omega
      rw [if_neg htiers, if_pos hyes]
      have hfits := hyes.2.2.2.2
      rw [rows_eq hlen (by omega)]
      dsimp only [Option.bind_eq_bind, Option.bind_some]
      rw [byteDiff_eq hlen (by omega), byteDiff_eq hlen (by omega)]
      rfl

end Reads

/-! ## §3. The snapshots. -/

/-- What a snapshot delivers: the tier count, five slots for each tier and
eight for the two byte pools. -/
structure Counters (slots : Nat) where
  tiers : Nat
  held : List Int
  layout : slots = 1 + 5 * tiers + 8
  full : held.length = slots
  count : slot held 0 = tiers

/-- A snapshot that was tried. -/
inductive Attempt (slots : Nat) where
  | failed
  | delivered (c : Counters slots)

/-- What is in its buffer then: `pool_snapshot_alloc` has put zeros there. -/
def Attempt.buffer {slots : Nat} : Attempt slots → List Int
  | .failed => List.replicate slots 0
  | .delivered c => c.held

/-- The two snapshots of a run; no counter goes down. -/
structure Snapshots where
  slots : Nat
  warmup : Attempt slots
  steady : Attempt slots
  grows : ∀ c c', warmup = .delivered c → steady = .delivered c' →
    ∀ i, slot c.held i ≤ slot c'.held i

/-- The figures of a tier that are differences. -/
def TierFigures.differenced (x : TierFigures) : List Int := [x.get, x.fresh, x.regrow, x.newBytes]

def BytePool.differenced (x : BytePool) : List Int := [x.get, x.fresh, x.regrow, x.regrowBytes]

def PoolDelta.differenced (d : PoolDelta) : List Int :=
  d.tiers.flatMap TierFigures.differenced ++ (d.buf.differenced ++ d.chunk.differenced)

/-- All the figures. -/
def PoolDelta.figures (d : PoolDelta) : List Int :=
  d.tiers.map TierFigures.starter ++ d.differenced

/-- What is asked of the figures: every read is within the snapshots, no
difference is negative, and if a snapshot failed all figures are zero. -/
def Snapshots.Attributed (S : Snapshots) : Prop :=
  ∃ d, poolDiff S.warmup.buffer S.steady.buffer = some d ∧ (∀ x ∈ d.differenced, 0 ≤ x) ∧
    (S.warmup = .failed ∨ S.steady = .failed → ∀ x ∈ d.figures, x = 0)

/-- Both snapshots were taken or neither was; or the one that was taken holds
nothing where it is read.  A steady snapshot of more than 64 tiers is not
read, and after one that failed only the eight slots behind the tier count
are. -/
def Paired {slots : Nat} : Attempt slots → Attempt slots → Prop
  | .failed, .delivered c => 64 < c.tiers ∨ ∀ i, 1 ≤ i → i < slots → slot c.held i = 0
  | .delivered c, .failed => ∀ i, 1 ≤ i → i ≤ 8 → slot c.held i = 0
  | _, _ => True

section Figures

variable {g f : Nat → Int} {t : Nat}

/-- The differences, by their slots. -/
theorem forall_differenced {P : Int → Prop} :
    (∀ x ∈ (deltaOf g f t).differenced, P x) ↔
      (∀ k < t, ∀ r < 4, P (f (1 + 5 * k + 1 + r) - g (1 + 5 * k + 1 + r))) ∧
        ∀ r < 8, P (f (1 + 5 * t + r) - g (1 + 5 * t + r)) := by
  have hfour : ∀ h : Nat → Int, (∀ x ∈ [h 0, h 1, h 2, h 3], P x) ↔ ∀ r < 4, P (h r) := by
    intro h
    constructor
    · intro hall r hr
      have hcases : r = 0 ∨ r = 1 ∨ r = 2 ∨ r = 3 := by omega
      rcases hcases with rfl | rfl | rfl | rfl <;> exact hall _ (by simp)
    · intro hall x hx
      simp only [List.mem_cons, List.not_mem_nil, or_false] at hx
      rcases hx with rfl | rfl | rfl | rfl <;> exact hall _ (by decide)
  unfold PoolDelta.differenced
  rw [List.forall_mem_append, List.forall_mem_append]
  refine and_congr ?_ ?_
  · constructor
    · intro hall k hk
      refine (hfour fun r => f (1 + 5 * k + 1 + r) - g (1 + 5 * k + 1 + r)).mp fun x hx => ?_
      exact hall x (List.mem_flatMap.mpr ⟨tierOf g f k,
        List.mem_map_of_mem (List.mem_range.mpr hk), hx⟩)
    · intro hall x hx
      obtain ⟨row, hrow, hx⟩ := List.mem_flatMap.mp hx
      obtain ⟨k, hk, rfl⟩ := List.mem_map.mp hrow
      exact (hfour fun r => f (1 + 5 * k + 1 + r) - g (1 + 5 * k + 1 + r)).mpr
        (hall k (List.mem_range.mp hk)) x hx
  · -- the four slots of either byte pool
    have hbuf := hfour fun r => f (1 + 5 * t + r) - g (1 + 5 * t + r)
    have hchunk := hfour fun r => f (1 + 5 * t + 4 + r) - g (1 + 5 * t + 4 + r)
    constructor
    · intro hall r hr
      by_cases hlow : r < 4
      · exact hbuf.mp hall.1 r hlow
      · have hhigh := hchunk.mp hall.2 (r - 4) (by omega)
        have hr' : 1 + 5 * t + 4 + (r - 4) = 1 + 5 * t + r := by omega
        rw [hr'] at hhigh
        exact hhigh
    · intro hall
      refine ⟨hbuf.mpr fun r hr => hall r (by omega), hchunk.mpr fun r hr => ?_⟩
      have hhigh := hall (4 + r) (by omega)
      rw [← Nat.add_assoc] at hhigh
      exact hhigh

theorem forall_starters {P : Int → Prop} :
    (∀ x ∈ (deltaOf g f t).tiers.map TierFigures.starter, P x) ↔ ∀ k < t, P (f (1 + 5 * k)) := by
  constructor
  · intro hall k hk
    exact hall _ (List.mem_map_of_mem (List.mem_map_of_mem (List.mem_range.mpr hk)))
  · intro hall x hx
    obtain ⟨row, hrow, rfl⟩ := List.mem_map.mp hx
    obtain ⟨k, hk, rfl⟩ := List.mem_map.mp hrow
    exact hall k (List.mem_range.mp hk)

/-- Against a buffer of zeros the figures are the counters. -/
theorem figures_zero_iff (hg : ∀ i, g i = 0) :
    (∀ x ∈ (deltaOf g f t).figures, x = 0) ↔ ∀ i, 1 ≤ i → i < 1 + 5 * t + 8 → f i = 0 := by
  unfold PoolDelta.figures
  rw [List.forall_mem_append, forall_starters, forall_differenced]
  simp only [hg, Int.sub_zero]
  constructor
  · intro hall i hlo hhi
    obtain ⟨hstart, htiers, htail⟩ := hall
    by_cases htier : i < 1 + 5 * t
    · -- the slot is in tier `(i - 1) / 5`
      have hk : (i - 1) / 5 < t := by omega
      by_cases hfirst : (i - 1) % 5 = 0
      · have hi : 1 + 5 * ((i - 1) / 5) = i := by omega
        rw [← hi]
        exact hstart _ hk
      · have hi : 1 + 5 * ((i - 1) / 5) + 1 + ((i - 1) % 5 - 1) = i := by omega
        rw [← hi]
        exact htiers _ hk _ (by omega)
    · have hi : 1 + 5 * t + (i - (1 + 5 * t)) = i := by omega
      rw [← hi]
      exact htail _ (by omega)
  · intro hall
    refine ⟨fun k hk => hall _ ?_ ?_, fun k hk r hr => hall _ ?_ ?_, fun r hr => hall _ ?_ ?_⟩ <;>
      omega

/-- All zero is not negative. -/
theorem differenced_nonneg {d : PoolDelta} (h : ∀ x ∈ d.figures, x = 0) :
    ∀ x ∈ d.differenced, 0 ≤ x := by
  intro x hx
  exact Int.le_of_eq (h x (List.mem_append_right _ hx)).symm

theorem slot_replicate (n i : Nat) : slot (List.replicate n 0) i = 0 := by
  unfold slot
  rw [List.getElem?_replicate]
  split <;> rfl

end Figures

section Pairs

variable {slots : Nat}

/-- The figures of a pair of buffers. -/
def figuresOf (w s : List Int) : PoolDelta :=
  if Readable w s then deltaOf (slot w) (slot s) (slot s 0).toNat else {}

theorem empty_figures : ∀ x ∈ ({} : PoolDelta).figures, x = 0 := by
  decide

theorem figures_both_failed :
    ∀ x ∈ (figuresOf (List.replicate slots 0) (List.replicate slots 0)).figures, x = 0 := by
  unfold figuresOf
  split
  · exact (figures_zero_iff (slot_replicate slots)).mpr fun i _ _ => slot_replicate slots i
  · exact empty_figures

theorem readable_delivered (c : Counters slots) :
    Readable (List.replicate slots 0) c.held ↔ c.tiers ≤ 64 := by
  have hlayout := c.layout
  unfold Readable
  rw [c.count, c.full, List.length_replicate, Int.toNat_natCast]
  omega

theorem readable_zeros (c : Counters slots) : Readable c.held (List.replicate slots 0) := by
  have hlayout := c.layout
  unfold Readable
  rw [slot_replicate, c.full, List.length_replicate]
  omega

/-- Without a warmup snapshot the figures are totals. -/
theorem figures_warmup_failed (c : Counters slots) :
    (∀ x ∈ (figuresOf (List.replicate slots 0) c.held).figures, x = 0) ↔
      64 < c.tiers ∨ ∀ i, 1 ≤ i → i < slots → slot c.held i = 0 := by
  unfold figuresOf
  by_cases hmany : 64 < c.tiers
  · rw [if_neg (fun h => absurd ((readable_delivered c).mp h) (Nat.not_le.mpr hmany))]
    exact iff_of_true empty_figures (Or.inl hmany)
  · rw [if_pos ((readable_delivered c).mpr (Nat.le_of_not_lt hmany)),
      figures_zero_iff (slot_replicate slots), c.count, Int.toNat_natCast, ← c.layout]
    exact (or_iff_right hmany).symm

/-- Without a steady snapshot the first eight counters are taken from zero. -/
theorem figures_steady_failed (c : Counters slots) :
    (∀ x ∈ (figuresOf c.held (List.replicate slots 0)).figures, x = 0) ↔
      ∀ i, 1 ≤ i → i ≤ 8 → slot c.held i = 0 := by
  unfold figuresOf
  rw [if_pos (readable_zeros c), slot_replicate]
  unfold PoolDelta.figures
  rw [List.forall_mem_append, forall_starters, forall_differenced]
  simp only [slot_replicate]
  constructor
  · intro hall i hlo hhi
    have htail := hall.2.2 (i - 1) (by omega)
    have hi : 1 + 5 * Int.toNat 0 + (i - 1) = i := by
      show 1 + 5 * 0 + (i - 1) = i
      omega
    rw [hi] at htail
    omega
  · intro hall
    refine ⟨fun k hk => absurd hk (Nat.not_lt_zero k),
      fun k hk => absurd hk (Nat.not_lt_zero k), fun r hr => ?_⟩
    have htail := hall (1 + 5 * 0 + r) (by omega) (by omega)
    show 0 - slot c.held (1 + 5 * 0 + r) = 0
    rw [htail]
    rfl

/-- No counter goes down, so no difference is negative. -/
theorem differenced_both (c c' : Counters slots) (h : ∀ i, slot c.held i ≤ slot c'.held i) :
    ∀ x ∈ (figuresOf c.held c'.held).differenced, 0 ≤ x := by
  unfold figuresOf
  split
  · exact forall_differenced.mpr
      ⟨fun k _ r _ => Int.sub_nonneg.mpr (h _), fun r _ => Int.sub_nonneg.mpr (h _)⟩
  · exact differenced_nonneg empty_figures

end Pairs

/-- **The pool figures** of the two snapshots are right if and only if the
snapshots are a pair. -/
theorem figures_attributed_iff (S : Snapshots) :
    S.Attributed ↔ Paired S.warmup S.steady := by
  have hread : S.Attributed ↔
      (∀ x ∈ (figuresOf S.warmup.buffer S.steady.buffer).differenced, 0 ≤ x) ∧
        (S.warmup = .failed ∨ S.steady = .failed →
          ∀ x ∈ (figuresOf S.warmup.buffer S.steady.buffer).figures, x = 0) := by
    unfold Snapshots.Attributed
    rw [poolDiff_eq]
    constructor
    · intro h
      obtain ⟨d, hd, h⟩ := h
      cases hd
      exact h
    · exact fun h => ⟨_, rfl, h⟩
  rw [hread]
  obtain ⟨slots, warmup, steady, grows⟩ := S
  dsimp only at grows ⊢
  -- with a snapshot missing it is the zeros that decide
  have hzero : ∀ {d : PoolDelta} {p : Prop}, p →
      ((∀ x ∈ d.differenced, 0 ≤ x) ∧ (p → ∀ x ∈ d.figures, x = 0) ↔ ∀ x ∈ d.figures, x = 0) :=
    fun hp => ⟨fun h => h.2 hp, fun h => ⟨differenced_nonneg h, fun _ => h⟩⟩
  cases warmup with
  | failed =>
      cases steady with
      | failed => exact (hzero (Or.inl rfl)).trans (iff_of_true figures_both_failed trivial)
      | delivered c => exact (hzero (Or.inl rfl)).trans (figures_warmup_failed c)
  | delivered c =>
      cases steady with
      | failed => exact (hzero (Or.inr rfl)).trans (figures_steady_failed c)
      | delivered c' =>
          refine iff_of_true ⟨differenced_both c c' (grows c c' rfl rfl), fun h => ?_⟩ trivial
          rcases h with h | h <;> cases h

/-- One tier: nothing checked out, then ten buffers from the byte pool. -/
def lostSteady : Snapshots where
  slots := 14
  warmup := .delivered
    { tiers := 1, held := [1, 8, 2, 1, 0, 64, 10, 3, 0, 0, 5, 1, 0, 0], layout := rfl,
      full := rfl, count := rfl }
  steady := .failed
  grows := by
    intro c c' _ h
    cases h

/-- The steady snapshot fails: the byte pool reports minus eight checkouts. -/
theorem lostSteady_misattributed :
    (∃ d, poolDiff lostSteady.warmup.buffer lostSteady.steady.buffer = some d ∧
      d.buf.get = -8) ∧ ¬ lostSteady.Attributed := by
  have hdiff : poolDiff lostSteady.warmup.buffer lostSteady.steady.buffer =
      some { tiers := [], buf := ⟨-8, -2, -1, 0⟩, chunk := ⟨-64, -10, -3, 0⟩ } := by
    decide
  refine ⟨⟨_, hdiff, rfl⟩, ?_⟩
  intro h
  obtain ⟨d, hd, hnonneg, -⟩ := h
  rw [hdiff] at hd
  cases hd
  exact absurd (hnonneg (-8) (by decide)) (by decide)

end ItbCpp.Loop
