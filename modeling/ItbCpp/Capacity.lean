/-
  ItbCpp.Capacity
  ───────────────
  **CAPACITIES, AND WHAT OVERFLOW DOES TO THEM** (`src/error.cpp`,
  `src/pipeline.cpp`, `src/stream.cpp`).

  `out_cap` adds modulo 2^64 and finds out by comparisons whether a sum has
  wrapped.  Over the integers the bound is `exactCap`:

    • `outCap_eq` — the guards fire exactly when `exactCap` does not fit, and
      then the capacity is the payload itself,
    • `outBound_mono_iff` — so the bound is monotone except across that
      switch, where it falls,
    • `capacities_exact` — no capacity of `cipher_call` or `pump_alloc` is
      what an overflow has left of a larger number.
-/
import ItbCpp.Lib.Words
import ItbCpp.PumpAlloc
import ItbCpp.RetryOnce

namespace ItbCpp

/-! ## §1. `out_cap` over the integers. -/

/-- The bound of `out_cap`, computed without a modulus. -/
def exactCap (payload : Nat) : Nat := payload + payload / 4 + 131072

/-- The capacity that is meant: the bound if it fits in a `size_t`, the
payload otherwise. -/
def meantCap (payload : Nat) : Nat :=
  if exactCap payload < sizeMod then exactCap payload else payload

/-- The largest payload whose bound fits. -/
def lastExact : Nat := 14757395258967536435

section Exact

variable {payload a b : Nat}

theorem sizeMod_eq : sizeMod = 18446744073709551616 := rfl

/-- **The guards fire exactly when the bound does not fit.** -/
theorem outCap_eq (hp : payload < sizeMod) : outCap payload = meantCap payload := by
  have hsize := sizeMod_eq
  have hfirst : (payload + payload / 4) % sizeMod < payload ↔ sizeMod ≤ payload + payload / 4 :=
    Words.wrapped_lt_iff hp (by omega)
  unfold outCap meantCap exactCap
  by_cases hquarter : sizeMod ≤ payload + payload / 4
  -- the first sum has wrapped
  · simp only [if_pos (Or.inl (hfirst.mpr hquarter))]
    rw [if_neg (by omega)]
  · have hsum : (payload + payload / 4) % sizeMod = payload + payload / 4 :=
      Nat.mod_eq_of_lt (by omega)
    have hsecond := Words.wrapped_lt_iff (show payload + payload / 4 < sizeMod by omega)
      (show 131072 < sizeMod by omega)
    simp only [hsum]
    by_cases hfloor : sizeMod ≤ payload + payload / 4 + 131072
    -- the second one has
    · rw [if_pos (Or.inr (hsecond.mpr hfloor)), if_neg (by omega)]
    · have hguard : ¬ (payload + payload / 4 < payload ∨
          (payload + payload / 4 + 131072) % sizeMod < payload + payload / 4) := by
        rw [hsecond]
        omega
      have hfits : payload + payload / 4 + 131072 < sizeMod := by omega
      rw [if_neg hguard, if_pos hfits, Nat.mod_eq_of_lt hfits]
      -- with the floor added, only the empty payload is not above it
      split <;> omega

theorem exactCap_mono (hab : a ≤ b) : exactCap a ≤ exactCap b := by
  unfold exactCap
  omega

theorem le_exactCap (payload : Nat) : payload < exactCap payload := by
  unfold exactCap
  omega

theorem exactCap_fits_iff : exactCap payload < sizeMod ↔ payload ≤ lastExact := by
  have hsize := sizeMod_eq
  unfold exactCap lastExact
  omega

theorem le_meantCap (payload : Nat) : payload ≤ meantCap payload := by
  have hle := le_exactCap payload
  unfold meantCap
  split <;> omega

theorem meantCap_pos (payload : Nat) : 0 < meantCap payload := by
  have hsize := sizeMod_eq
  unfold meantCap
  split
  · unfold exactCap
    omega
  · rename_i h
    unfold exactCap at h
    omega

theorem meantCap_lt (hp : payload < sizeMod) : meantCap payload < sizeMod := by
  unfold meantCap
  split <;> assumption

end Exact

/-! ## §2. The bound for a larger payload. -/

section Monotone

variable {a b : Nat}

/-- The bound falls only where the larger payload's own bound does not fit,
the smaller one's does, and that is above the larger payload. -/
theorem meantCap_le_iff (hab : a ≤ b) : meantCap a ≤ meantCap b ↔
    ¬ (exactCap a < sizeMod ∧ sizeMod ≤ exactCap b ∧ b < exactCap a) := by
  have hmono := exactCap_mono hab
  have hle := le_exactCap b
  unfold meantCap
  split
  · split <;> omega
  · split <;> omega

/-- A destination at the bound for `b` has room for the bound of every smaller
payload. -/
def SizedOnce (b : Nat) : Prop :=
  ∀ dst : Bytes, dst.length = outBound b → ∀ src : Bytes, src.length ≤ b →
    outBound src.length ≤ dst.length

/-- **THE BOUND AND ITS SWITCH.**  For 64-bit payload sizes `a ≤ b` the bound
for `a` is at most the bound for `b`, unless the switch to the exact payload
lies between the two and `b` is below the bound for `a`.  A destination sized
once for `b` serves every smaller payload if and only if the bound for `b` fits,
or `b` is the largest `size_t`. -/
theorem outBound_mono_iff :
    (∀ a b, a ≤ b → b < sizeMod → (outBound a ≤ outBound b ↔
      ¬ (exactCap a < sizeMod ∧ sizeMod ≤ exactCap b ∧ b < exactCap a))) ∧
    (∀ b < sizeMod, SizedOnce b ↔ exactCap b < sizeMod ∨ b = sizeMod - 1) := by
  have hpair : ∀ a b, a ≤ b → b < sizeMod → (outBound a ≤ outBound b ↔
      ¬ (exactCap a < sizeMod ∧ sizeMod ≤ exactCap b ∧ b < exactCap a)) := by
    intro a b hab hb
    unfold outBound
    rw [outCap_eq (by omega), outCap_eq hb]
    exact meantCap_le_iff hab
  have hsize := sizeMod_eq
  refine ⟨hpair, fun b hb => ?_⟩
  constructor
  · intro honce
    by_contra hnot
    have hlast : ¬ b ≤ lastExact := fun h => hnot (Or.inl (exactCap_fits_iff.mpr h))
    -- the last payload whose bound fits has the largest bound of all
    have hle : outBound lastExact ≤ outBound b := by
      have := honce (zeros (outBound b)) (length_zeros _) (zeros lastExact)
        (by rw [length_zeros]; omega)
      rwa [length_zeros, length_zeros] at this
    have htop : exactCap lastExact = sizeMod - 1 := rfl
    exact (hpair lastExact b (by omega) hb).mp hle ⟨by omega, by omega, by omega⟩
  · intro hfits dst hdst src hsrc
    rw [hdst]
    refine (hpair _ b hsrc hb).mpr ?_
    intro hfall
    obtain ⟨ha, hover, hlt⟩ := hfall
    omega

/-- The bound fits for 14757395258967536435 bytes, and is smaller for one byte
more. -/
theorem outBound_falls : ¬ ∀ a b, a ≤ b → b < sizeMod → outBound a ≤ outBound b := by
  intro h
  have hfall := h 14757395258967536435 14757395258967536436 (by decide) (by decide)
  revert hfall
  decide

/-- A message of 1 KiB into a destination for 256 KiB. -/
theorem outBound_mono_iff_small : outBound 1024 ≤ outBound 262144 ∧ SizedOnce 262144 := by
  refine ⟨(outBound_mono_iff.1 1024 262144 (by decide) (by decide)).mpr (by decide), ?_⟩
  exact (outBound_mono_iff.2 262144 (by decide)).mpr (Or.inl (by decide))

end Monotone

/-! ## §3. The capacities of a run. -/

section Runs

variable {σ : Type} {L : Lib σ} {junk : Nat → Nat → UInt8} {begin_ : Prog Exn (World σ) Stream}
  {src : Bytes} {fuel left cap : Nat} {w : World σ} {ts : List (Pass σ)}
  {res : Prog.Result Exn (World σ) Bytes}

/-- The doublings of `cap` are its multiples by the powers of two. -/
theorem doublings_getElem? (i : Nat) :
    ∀ left cap c, (doublings left cap)[i]? = some c → c = 2 ^ i * cap := by
  induction i with
  | zero =>
      intro left cap c h
      cases left <;> simp_all [doublings]
  | succ i ih =>
      intro left cap c h
      cases left with
      | zero => simp [doublings] at h
      | succ left =>
          have h : (doublings left (2 * cap))[i]? = some c := h
          rw [ih left (2 * cap) c h, pow_succ, Nat.mul_assoc]

/-- The capacity of every pass is a multiple of the first one, and fits. -/
theorem Restarts.capOf (h : Restarts L junk begin_ src fuel left cap w ts res)
    (hcap : cap < sizeMod) {i : Nat} {t : Pass σ} (ht : ts[i]? = some t) :
    t.cap = 2 ^ i * cap ∧ t.cap < sizeMod := by
  have hexact : t.cap = 2 ^ i * cap := by
    obtain ⟨rest, hrest⟩ := h.caps
    refine doublings_getElem? i left cap t.cap ?_
    have hi : i < (ts.map Pass.cap).length := by
      rw [List.length_map]
      exact (List.getElem?_eq_some_iff.mp ht).1
    rw [← hrest, List.getElem?_append_left hi, List.getElem?_map, ht]
    rfl
  refine ⟨hexact, ?_⟩
  cases i with
  | zero =>
      rw [hexact]
      simpa using hcap
  | succ i =>
      refine h.fits t ?_
      rw [← List.drop_one]
      refine List.mem_of_getElem? (i := i) ?_
      rw [List.getElem?_drop, Nat.add_comm]
      exact ht

/-- The capacities `cipher_call` passes: the one that is meant, and after it
only a size the library has reported. -/
def CipherCaps (payload : Nat) (tries : List (Nat × Reply)) : Prop :=
  ∃ r₁, tries = [(meantCap payload, r₁)] ∨
    ∃ r₂, tries = [(meantCap payload, r₁), (r₁.len, r₂)] ∧ meantCap payload < r₁.len

theorem attempts_caps (hsrc : src.length < sizeMod) (call : Nat → FfiCall) (s : σ) :
    CipherCaps src.length (attempts L call (outCap src.length) s) := by
  rw [outCap_eq hsrc]
  unfold attempts
  refine ⟨(L (call (meantCap src.length)) s).1, ?_⟩
  by_cases hmore : (L (call (meantCap src.length)) s).1.asksForMore (meantCap src.length)
  · right
    exact ⟨_, if_pos hmore, hmore.2⟩
  · left
    exact if_neg hmore

end Runs

/-- **NO CAPACITY IS A WRAPPED VALUE.**  For every 64-bit payload `out_cap` is
the bound over the integers if that fits and the payload otherwise, so it is
never below the payload and never 0.  Whatever the library does, `cipher_call`
passes that capacity and after it at most a size the library has reported; and
pass `i` of `pump_alloc` has `2 ^ i` times that capacity, over the integers, and
this fits. -/
theorem capacities_exact {σ : Type} (L : Lib σ) (junk : Nat → Nat → UInt8) (w : World σ) :
    (∀ payload < sizeMod,
      outCap payload = (if exactCap payload < sizeMod then exactCap payload else payload) ∧
      payload ≤ outCap payload ∧ 0 < outCap payload) ∧
    (∀ (src : Bytes) h (fn : CipherFn) what, src.length < sizeMod →
      CipherCaps src.length
        (attemptsIn (fn.call h src) (w.since (cipherCall L junk h fn src what w).state))) ∧
    (∀ (src : Bytes) (begin_ : BeginFn) fuel, src.length < sizeMod →
      ∃ ts, Restarts L junk (begin_.run L) src fuel 2 (outCap src.length) w ts
          (pumpAlloc L junk (begin_.run L) src fuel w) ∧
        ∀ i t, ts[i]? = some t → t.cap = 2 ^ i * meantCap src.length ∧ t.cap < sizeMod) := by
  refine ⟨?_, ?_, ?_⟩
  · intro payload hp
    rw [outCap_eq hp]
    exact ⟨rfl, le_meantCap payload, meantCap_pos payload⟩
  · intro src h fn what hsrc
    rw [(cipherCall_follows L w junk h fn src what).calls]
    exact attempts_caps hsrc (fn.call h src) w.lib
  · intro src begin_ fuel hsrc
    obtain ⟨ts, hts⟩ : ∃ ts, Restarts L junk (begin_.run L) src fuel 2 (outCap src.length) w ts
        (pumpAlloc L junk (begin_.run L) src fuel w) :=
      pumpAttempts_restarts begin_ 2 (outCap src.length) w
    refine ⟨ts, hts, ?_⟩
    intro i t ht
    rw [outCap_eq hsrc] at hts
    exact hts.capOf (meantCap_lt hsrc) ht

/-- One byte, and the largest payload of all. -/
theorem capacities_exact_ends :
    let w : World Spool := ⟨⟨[], [], false⟩, []⟩
    let junk : Nat → Nat → UInt8 := fun _ _ => 0
    outCap 1 = 131073 ∧ outCap (sizeMod - 1) = sizeMod - 1 ∧
      ∃ ts, Restarts (refilling [7, 8]) junk ((BeginFn.encrypt ⟨1⟩).run (refilling [7, 8])) [5] 9 2
          131073 w ts (pumpAlloc (refilling [7, 8]) junk
            ((BeginFn.encrypt ⟨1⟩).run (refilling [7, 8])) [5] 9 w) ∧
        ∀ i t, ts[i]? = some t → t.cap = 2 ^ i * 131073 ∧ t.cap < sizeMod := by
  intro w junk
  obtain ⟨hcap, -, hpump⟩ := capacities_exact (refilling [7, 8]) junk w
  have hone := (hcap 1 (by decide)).1
  have htop := (hcap (sizeMod - 1) (by decide)).1
  exact ⟨hone, htop, hpump [5] (.encrypt ⟨1⟩) 9 (by decide)⟩

end ItbCpp
