/-
  ItbCpp.Counts
  ─────────────
  **COUNTS THAT REACH THE CALLER.**

  The entries that fill a span the caller owns and return how much of it
  they filled, against a library that may report any length:

    • `wp_pumpInto_bounded` — the pump's cursor never leaves the buffer,
      whatever the session does,
    • `counts_inRange` — which entries check the length, and what the two
      that do not return.
-/
import ItbCpp.Session
import ItbCpp.Pump

namespace ItbCpp

/-! ## §1. The entries. -/

/-- An entry that returns a count, with its arguments; the span comes last. -/
inductive CountEntry where
  | encryptMessageInto (self : Pipeline) (plain dst : Bytes)
  | decryptMessageInto (self : Pipeline) (wire dst : Bytes)
  | encryptStreamOneShotInto (self : Pipeline) (plain dst : Bytes)
  | decryptStreamOneShotInto (self : Pipeline) (wire dst : Bytes)
  | encryptStreamPumpInto (self : Pipeline) (plain : Bytes) (fuel : Nat) (dst : Bytes)
  | decryptStreamPumpInto (self : Pipeline) (wire : Bytes) (fuel : Nat) (dst : Bytes)
  | streamRead (self : Stream) (dst : Bytes)
  | poolStats (dst : List Int)

/-- The size of the span. -/
def CountEntry.size : CountEntry → Nat
  | .encryptMessageInto _ _ dst | .decryptMessageInto _ _ dst
  | .encryptStreamOneShotInto _ _ dst | .decryptStreamOneShotInto _ _ dst
  | .encryptStreamPumpInto _ _ _ dst | .decryptStreamPumpInto _ _ _ dst
  | .streamRead _ dst => dst.length
  | .poolStats dst => dst.length

section Entries

variable {σ : Type} (L : Lib σ)

/-- The count an entry returns from `w`; nothing when it throws, or when a
pump is still running. -/
def CountEntry.count? (w : World σ) : CountEntry → Option Nat
  | .encryptMessageInto self plain dst =>
      (self.encryptMessageInto L plain dst w).value?.map Prod.fst
  | .decryptMessageInto self wire dst =>
      (self.decryptMessageInto L wire dst w).value?.map Prod.fst
  | .encryptStreamOneShotInto self plain dst =>
      (self.encryptStreamOneShotInto L plain dst w).value?.map Prod.fst
  | .decryptStreamOneShotInto self wire dst =>
      (self.decryptStreamOneShotInto L wire dst w).value?.map Prod.fst
  | .encryptStreamPumpInto self plain fuel dst =>
      (self.encryptStreamPumpInto L plain fuel { world := w, dst := dst }).value?
  | .decryptStreamPumpInto self wire fuel dst =>
      (self.decryptStreamPumpInto L wire fuel { world := w, dst := dst }).value?
  | .streamRead self dst => (self.read L dst w).value?.map fun p => p.1.n
  | .poolStats dst => (ItbCpp.poolStats L dst w).value?.map Prod.fst

/-- A returned count is at most the size of the span. -/
def CountEntry.InRange (w : World σ) (e : CountEntry) : Prop :=
  ∀ n, e.count? L w = some n → n ≤ e.size

/-- A library that reports success and a length beyond the span, to an entry
that does not compare the two. -/
def CountEntry.Overruns (w : World σ) : CountEntry → Prop
  | .streamRead self dst =>
      (L (.streamRead self.handle dst.length) w.lib).1.rc = 0 ∧
        dst.length < (L (.streamRead self.handle dst.length) w.lib).1.len
  | .poolStats dst =>
      (L (.poolStats dst.length) w.lib).1.rc = 0 ∧
        dst.length < (L (.poolStats dst.length) w.lib).1.len
  | _ => False

end Entries

/-! ## §2. The pump stays inside its buffer. -/

section Pumping

variable {σ : Type} {L : Lib σ} {session : Stream}

/-- The cursor of a pump over `n` bytes is inside them. -/
structure Bounded (n : Nat) (p : Pump σ) : Prop where
  size : p.dst.length = n
  used : p.used ≤ n

/-- What a bounded pump leaves, whichever way it stands. -/
def boundedPost (n : Nat) (α : Type) : Prog.Post Exn (Pump σ) α :=
  ⟨fun _ p => Bounded n p, fun _ _ => True, fun _ => True⟩

/-- A computation on the world leaves the buffer and the cursors alone. -/
theorem wp_onWorld_bounded {α : Type} {n : Nat} {p : Pump σ} (hp : Bounded n p)
    (m : Prog Exn (World σ) α) : Prog.wp (Pump.onWorld m) (boundedPost n α) p := by
  rw [wp_onWorld]
  exact Prog.wp_of_forall (fun _ _ => ⟨hp.size, hp.used⟩) (fun _ _ => trivial)
    (fun _ => trivial)

/-- Whatever the library answers, a read hands back a span of the same
length. -/
theorem wp_read_any (dst : Bytes) (w : World σ) :
    Prog.wp (session.read L dst) ⟨fun p _ => p.2.length = dst.length, fun _ _ => True,
      fun _ => True⟩ w := by
  unfold Stream.read
  rw [Prog.wp_bind, wp_ffi]
  show Prog.wp _ _ _
  rw [Prog.wp_bind]
  apply wp_check
  · intro _
    exact Buffer.length_overlay ..
  · intro e w' _ _ _
    trivial

theorem wp_drainOne_bounded {n : Nat} {p : Pump σ} (hp : Bounded n p) :
    Prog.wp (drainOne L session) (boundedPost n StreamRead) p := by
  obtain ⟨hsize, hused⟩ := hp
  unfold drainOne
  rw [Prog.wp_bind, Prog.wp_get]
  show Prog.wp _ _ _
  by_cases hf : p.used = p.dst.length
  · rw [if_pos hf]
    trivial
  · rw [if_neg hf, Prog.wp_bind, wp_onWorld]
    refine (wp_read_any (p.dst.drop p.used) p.world).mono_ok ?_
    intro rt w' htail
    obtain ⟨r, tail⟩ := rt
    have hlen : (p.dst.take p.used ++ tail).length = n := by
      have : tail.length = (p.dst.drop p.used).length := htail
      rw [List.length_append, this, List.length_take, List.length_drop]
      omega
    show Prog.wp _ _ _
    rw [Prog.wp_bind, Prog.wp_modify]
    show Prog.wp (if r.n > p.dst.length - p.used then _ else _) _ _
    -- the guard of the source: an over-long count throws before the cursor moves
    by_cases hbig : r.n > p.dst.length - p.used
    · rw [if_pos hbig]
      apply wp_onWorld_bounded
      exact ⟨hlen, hused⟩
    · rw [if_neg hbig]
      exact ⟨hlen, by show p.used + r.n ≤ n; omega⟩

/-- A drain loop stays bounded, whichever answer it stops at. -/
theorem wp_drain_bounded {n : Nat} (stop : StreamRead → Bool) (fuel : Nat) {p : Pump σ}
    (hp : Bounded n p) :
    Prog.wp (Prog.loop fuel do
      let r ← drainOne L session
      pure (stop r)) (boundedPost n Unit) p := by
  refine Prog.wp_loop_inv (Bounded n) ?_ (fun _ _ => trivial) fuel hp
  intro q hq
  rw [Prog.wp_bind]
  refine (wp_drainOne_bounded hq).mono_ok ?_
  intro r q' hq'
  simp only [Prog.wp_pure]
  split
  · exact hq'
  · exact hq'

theorem wp_feedOne_bounded {n : Nat} {p : Pump σ} (src : Bytes) (hp : Bounded n p) :
    Prog.wp (feedOne L session src) (boundedPost n Unit) p := by
  unfold feedOne
  rw [Prog.wp_bind, Prog.wp_get]
  show Prog.wp _ _ _
  rw [Prog.wp_bind]
  refine (wp_onWorld_bounded hp _).mono_ok ?_
  intro _ p' hp'
  exact ⟨hp'.size, hp'.used⟩

/-- **The pump is bounded**: over any session, the count it returns is at
most the size of its buffer. -/
theorem wp_pumpInto_bounded {n : Nat} {p : Pump σ} (src : Bytes) (fuel : Nat)
    (hp : Bounded n p) :
    Prog.wp (pumpInto L session src fuel) ⟨fun m _ => m ≤ n, fun _ _ => True, fun _ => True⟩
      p := by
  unfold pumpInto
  rw [Prog.wp_bind]
  refine Prog.wp_while_inv (Bounded n) ?_ ?_ (fun _ _ => trivial) fuel hp
  · intro q hq _
    rw [Prog.wp_bind]
    refine (wp_feedOne_bounded src hq).mono_ok ?_
    intro _ q' hq'
    exact (wp_drain_bounded (fun r => r.n ≠ 0) fuel hq').mono_ok (fun _ _ h => h)
  · intro q hq _
    show Prog.wp _ _ _
    rw [Prog.wp_bind]
    refine (wp_onWorld_bounded hq _).mono_ok ?_
    intro _ q₁ hq₁
    show Prog.wp _ _ _
    rw [Prog.wp_bind]
    refine (wp_drain_bounded (fun r => !r.finished) fuel hq₁).mono_ok ?_
    intro _ q₂ hq₂
    exact hq₂.used

/-- The two entries: a local session, then the pump. -/
theorem wp_streamPumpInto_bounded (begin_ : Prog Exn (World σ) Stream) (src : Bytes)
    (fuel : Nat) (w : World σ) (dst : Bytes) :
    Prog.wp (do
        let session ← Pump.onWorld begin_
        Prog.ensuring (pumpInto L session src fuel) (Pump.onWorld (session.destroy L)))
      ⟨fun m _ => m ≤ dst.length, fun _ _ => True, fun _ => True⟩
      ({ world := w, dst := dst } : Pump σ) := by
  have hstart : Bounded dst.length ({ world := w, dst := dst } : Pump σ) :=
    ⟨rfl, Nat.zero_le _⟩
  rw [Prog.wp_bind]
  refine (wp_onWorld_bounded hstart begin_).mono_ok ?_
  intro session p hp
  show Prog.wp _ _ _
  rw [Prog.wp_ensuring]
  refine (wp_pumpInto_bounded src fuel hp).mono ?_ ?_ (fun _ h => h)
  · intro m q hm
    exact Prog.wp_of_forall (fun _ _ => hm) (fun _ _ => trivial) (fun _ => trivial)
  · intro e q _
    exact Prog.wp_of_forall (fun _ _ => trivial) (fun _ _ => trivial) (fun _ => trivial)

end Pumping

/-! ## §3. Every entry. -/

section Entries

variable {σ : Type} {L : Lib σ} {w : World σ}

theorem wp_cipherCallInto_bounded (h : Handle) (fn : CipherFn) (src dst : Bytes)
    (what : String) :
    Prog.wp (cipherCallInto L h fn src dst what)
      ⟨fun p _ => p.1 ≤ dst.length, fun _ _ => True, fun _ => True⟩ w := by
  apply wp_cipherCallInto rfl
  · intro hv
    exact (verdict_eq_none.mp hv).2
  · intro e w' _ _
    trivial

/-- A count read off a pair. -/
theorem value?_map_le {α : Type} {m : Prog Exn (World σ) α} {f : α → Nat} {n k : Nat}
    (hm : Prog.wp m ⟨fun a _ => f a ≤ n, fun _ _ => True, fun _ => True⟩ w)
    (hk : (m w).value?.map f = some k) : k ≤ n := by
  obtain ⟨a, ha, rfl⟩ := Option.map_eq_some_iff.mp hk
  obtain ⟨w', hle⟩ := hm.value ha
  exact hle

/-- One call and a check of its code: the value of the answer, on success. -/
theorem value?_ffi_check {α : Type} (c : FfiCall) (what : String) (f : Reply → α) :
    ((do let r ← ffi L c
         check L r.rc what
         pure (f r) : Prog Exn (World σ) α) w).value? =
      if (L c w.lib).1.rc = 0 then some (f (L c w.lib).1) else none := by
  have hrun : Prog.wp (do
      let r ← ffi L c
      check L r.rc what
      pure (f r) : Prog Exn (World σ) α)
      ⟨fun a _ => (L c w.lib).1.rc = 0 ∧ a = f (L c w.lib).1,
        fun _ _ => (L c w.lib).1.rc ≠ 0, fun _ => False⟩ w := by
    rw [Prog.wp_bind, wp_ffi]
    show Prog.wp _ _ _
    rw [Prog.wp_bind]
    apply wp_check
    · intro hrc
      exact ⟨hrc, rfl⟩
    · intro e w' hrc _ _
      exact hrc
  -- the check lets the answer through exactly on the code 0
  unfold Prog.wp at hrun
  split at hrun
  next a w' hres =>
    rw [hres, if_pos hrun.1, hrun.2]
    rfl
  next e w' hres =>
    rw [hres, if_neg hrun]
    rfl
  next => exact hrun.elim

/-- A read returns exactly on success, and then the length as reported. -/
theorem count?_streamRead (self : Stream) (dst : Bytes) :
    (CountEntry.streamRead self dst).count? L w =
      if (L (.streamRead self.handle dst.length) w.lib).1.rc = 0 then
        some (L (.streamRead self.handle dst.length) w.lib).1.len
      else none := by
  show (self.read L dst w).value?.map (fun p => p.1.n) = _
  unfold Stream.read
  rw [value?_ffi_check]
  split <;> rfl

/-- So does `pool_stats`. -/
theorem count?_poolStats (dst : List Int) :
    (CountEntry.poolStats dst).count? L w =
      if (L (.poolStats dst.length) w.lib).1.rc = 0 then
        some (L (.poolStats dst.length) w.lib).1.len
      else none := by
  show (poolStats L dst w).value?.map Prod.fst = _
  unfold poolStats
  rw [value?_ffi_check]
  split <;> rfl

theorem inRange_of_guarded {rc : Int} {len size : Nat} :
    (∀ n, (if rc = 0 then some len else none) = some n → n ≤ size) ↔
      ¬(rc = 0 ∧ size < len) := by
  by_cases hrc : rc = 0
  · simp [hrc]
  · simp [hrc]

/-- **NO OUT-OF-RANGE COUNT REACHES THE CALLER, SAVE FROM TWO ENTRIES.**
Whatever the library answers, every entry either throws or returns a count
inside the span — except `Stream::read` and `pool_stats`, when the library
reports success and a length beyond it. -/
theorem counts_inRange (L : Lib σ) (w : World σ) (e : CountEntry) :
    e.InRange L w ↔ ¬e.Overruns L w := by
  -- an entry that checks never overruns: both sides hold
  have hchecked : (∀ n, e.count? L w = some n → n ≤ e.size) → ¬e.Overruns L w →
      (e.InRange L w ↔ ¬e.Overruns L w) := fun h h' => ⟨fun _ => h', fun _ => h⟩
  cases e with
  | encryptMessageInto self plain dst =>
      exact hchecked (fun n hn => value?_map_le (wp_cipherCallInto_bounded ..) hn) id
  | decryptMessageInto self wire dst =>
      exact hchecked (fun n hn => value?_map_le (wp_cipherCallInto_bounded ..) hn) id
  | encryptStreamOneShotInto self plain dst =>
      exact hchecked (fun n hn => value?_map_le (wp_cipherCallInto_bounded ..) hn) id
  | decryptStreamOneShotInto self wire dst =>
      exact hchecked (fun n hn => value?_map_le (wp_cipherCallInto_bounded ..) hn) id
  | encryptStreamPumpInto self plain fuel dst =>
      refine hchecked (fun n hn => ?_) id
      obtain ⟨_, hle⟩ := (wp_streamPumpInto_bounded _ plain fuel w dst).value hn
      exact hle
  | decryptStreamPumpInto self wire fuel dst =>
      refine hchecked (fun n hn => ?_) id
      obtain ⟨_, hle⟩ := (wp_streamPumpInto_bounded _ wire fuel w dst).value hn
      exact hle
  | streamRead self dst =>
      unfold CountEntry.InRange
      rw [count?_streamRead]
      exact inRange_of_guarded
  | poolStats dst =>
      unfold CountEntry.InRange
      rw [count?_poolStats]
      exact inRange_of_guarded

end Entries

/-- A library that reports two of whatever it is asked for. -/
def reportsTwo : Lib Unit := fun _ s => ({ rc := 0, len := 2 }, s)

/-- Into one byte, and into one slot, it reads two. -/
theorem streamRead_overruns :
    ¬(CountEntry.streamRead ⟨1⟩ [0]).InRange reportsTwo ⟨(), []⟩ ∧
      ¬(CountEntry.poolStats [0]).InRange reportsTwo ⟨(), []⟩ := by
  constructor
  · intro h
    have hle : 2 ≤ 1 := h 2 rfl
    omega
  · intro h
    have hle : 2 ≤ 1 := h 2 rfl
    omega

end ItbCpp
