/-
  ItbCpp.Secrets
  ──────────────
  **SECRET SCRATCH IS WIPED BEFORE IT IS GIVEN BACK.**

  Blobs and master keys pass through heap buffers of the binding: the
  scratch of every attempt of `buf_call`, the copy it returns, and the flat
  keys.  A buffer is given back by a `dealloc` event that shows its content
  at that moment.

    • `scratchSizes`, `blobCopy` — the buffers a run allocates,
    • `scratch_wiped` — these and no others are given back, all zero.
-/
import ItbCpp.RetryOnce
import ItbCpp.Masters

namespace ItbCpp

/-! ## §1. What a run gives back. -/

/-- The content of the buffer an event gives back. -/
def Event.released : Event → Option Bytes
  | .dealloc content => some content
  | _ => none

/-- The contents of the buffers given back, in order. -/
def released (evs : List Event) : List Bytes := evs.filterMap Event.released

theorem released_append (evs evs' : List Event) :
    released (evs ++ evs') = released evs ++ released evs' :=
  List.filterMap_append

/-- Diagnostics give nothing back. -/
theorem released_lastErrors {evs : List Event} (h : ∀ e ∈ evs, e.isLastError = true) :
    released evs = [] := by
  rw [released, List.filterMap_eq_nil_iff]
  intro e he
  have hlast := h e he
  cases e with
  | dealloc content => cases hlast
  | call c r => rfl
  | adopt g => rfl

/-- A wiped buffer is all zero. -/
theorem wipeBytes_eq (buf : Bytes) : wipeBytes buf = zeros buf.length := by
  unfold wipeBytes zeros
  exact List.map_const'

/-! ## §2. What a run allocates. -/

/-- The lambda that `Pipeline::init` passes to `buf_call`. -/
def initFn (profile : Bytes) (opts : Opts) : BlobFn :=
  .init (ffiStr profile) (ffiStr opts.query)

/-- The lambda that `Pipeline::init_keys` passes to it. -/
def initKeysFn (profile : Bytes) (masters : List Bytes) (opts : Opts) : BlobFn :=
  .initKeys (ffiStr profile) (ffiStr opts.query) (flattenMasters masters) (masterLens masters)

section Runs

variable {σ : Type} (L : Lib σ)

/-- The scratch buffers of `buf_call`: one for each attempt, of the capacity
it offered. -/
def scratchSizes (fn : BlobFn) (s : σ) : List Nat :=
  (attempts L fn.call kBlobCap s).map Prod.fst

/-- The copy `buf_call` returns, when it returns. -/
def blobCopy (fn : BlobFn) (s : σ) : List Nat :=
  if verdict (lastTry L fn.call kBlobCap s).1 (lastTry L fn.call kBlobCap s).2 = none then
    [(lastTry L fn.call kBlobCap s).2.len]
  else []

variable {L} {w : World σ}

/-- Up to its last answer the machine has given back the scratch of the
attempts before the last, wiped. -/
theorem lastAttempt_released {call : Nat → FfiCall} {cap : Nat}
    {a : Attempt σ} (ha : a = lastAttempt L call cap zeros wipeBytes w) :
    ∃ evs, a.world.trace = w.trace ++ evs ∧
      released evs ++ [wipeBytes a.buf] =
        ((attempts L call cap w.lib).map Prod.fst).map zeros := by
  have hlen : a.buf.length = a.cap := by
    rw [ha]
    exact lastAttempt_buf_length length_zeros w
  simp only [lastAttempt] at ha
  rw [wipeBytes_eq, hlen]
  by_cases hmore : (L (call cap) w.lib).1.asksForMore cap
  · rw [if_pos hmore] at ha
    subst ha
    refine ⟨[.call (call cap) (L (call cap) w.lib).1,
        .dealloc (wipeBytes (Buffer.overlay (zeros cap) (L (call cap) w.lib).1.out)),
        .call (call (L (call cap) w.lib).1.len)
          (L (call (L (call cap) w.lib).1.len) (L (call cap) w.lib).2).1], by simp, ?_⟩
    simp only [attempts, if_pos hmore, wipeBytes_eq, Buffer.length_overlay, length_zeros]
    rfl
  · rw [if_neg hmore] at ha
    subst ha
    refine ⟨[.call (call cap) (L (call cap) w.lib).1], rfl, ?_⟩
    simp only [attempts, if_neg hmore]
    rfl

/-- On the way from `w` to `w'` buffers of these sizes were given back, all of
them zero, and no others. -/
def Releases (w w' : World σ) (sizes : List Nat) : Prop :=
  ∃ evs, w'.trace = w.trace ++ evs ∧ released evs = sizes.map zeros

theorem Releases.adopt {w' : World σ} {sizes : List Nat} (h : Releases w w' sizes)
    (g : Handle) : Releases w (w'.log (.adopt g)) sizes := by
  obtain ⟨evs, htrace, hrel⟩ := h
  refine ⟨evs ++ [.adopt g], by rw [World.log_trace, htrace, List.append_assoc], ?_⟩
  rw [released_append, hrel]
  exact List.append_nil _

/-- A buffer wiped and given back. -/
theorem Releases.wiped {w' : World σ} {sizes : List Nat} (h : Releases w w' sizes)
    (buf : Bytes) : Releases w (w'.log (.dealloc (wipeBytes buf))) (sizes ++ [buf.length]) := by
  obtain ⟨evs, htrace, hrel⟩ := h
  refine ⟨evs ++ [.dealloc (wipeBytes buf)], ?_, ?_⟩
  · rw [World.log_trace, htrace, List.append_assoc]
  · rw [released_append, hrel, wipeBytes_eq]
    simp [released, Event.released]

theorem Releases.since {w' : World σ} {sizes : List Nat} (h : Releases w w' sizes) :
    released (w.since w') = sizes.map zeros := by
  obtain ⟨evs, htrace, hrel⟩ := h
  rw [World.since_of_append htrace, hrel]

/-! ## §3. The entries. -/

/-- `buf_call` gives back the scratch of every attempt; what it returns is
still to be given back. -/
theorem wp_bufCall_releases (fn : BlobFn) (what : String) :
    Prog.wp (bufCall L fn what)
      ⟨fun p w' => blobCopy L fn w.lib = [p.1.length] ∧
          Releases w w' (scratchSizes L fn w.lib),
        fun _ w' => blobCopy L fn w.lib = [] ∧ Releases w w' (scratchSizes L fn w.lib),
        fun _ => False⟩ w := by
  rw [bufCall_eq_retryOnce]
  obtain ⟨a, ha⟩ : ∃ a, a = lastAttempt L fn.call kBlobCap zeros wipeBytes w := ⟨_, rfl⟩
  obtain ⟨htry, -⟩ := lastAttempt_spec fn.sized ha
  obtain ⟨evs, htrace, hrel⟩ := lastAttempt_released ha
  have hlen : a.buf.length = a.cap := by
    rw [ha]
    exact lastAttempt_buf_length length_zeros w
  apply wp_retryOnce length_zeros ha
  · intro hv
    have hfit := (verdict_eq_none.mp hv).2
    refine ⟨?_, evs ++ [.dealloc (wipeBytes a.buf)], ?_, ?_⟩
    · rw [blobCopy, ← htry, if_pos hv, List.length_take, hlen, Nat.min_eq_left hfit]
    · rw [World.log_trace, htrace, List.append_assoc]
    · rw [released_append, scratchSizes, ← hrel]
      rfl
  -- the destructor of the guard comes after the diagnostics were read
  · intro e w' hv hw'
    obtain ⟨errs, herrs, hall⟩ := hw'
    refine ⟨?_, evs ++ errs ++ [.dealloc (wipeBytes a.buf)], ?_, ?_⟩
    · rw [blobCopy, ← htry, hv]
      rfl
    · rw [World.log_trace, herrs, htrace]
      simp
    · rw [released_append, released_append, released_lastErrors hall, List.append_nil,
        scratchSizes, ← hrel]
      rfl

/-- What both constructors do with the blob: it is wiped and dropped. -/
theorem wp_adopt_releases (fn : BlobFn) (what : String) :
    Prog.wp (do
        let (blob, r) ← bufCall L fn what
        emit (.adopt r.handle)
        emit (.dealloc (wipeBytes blob))
        pure ({ handle := r.handle } : Pipeline))
      ⟨fun _ w' => Releases w w' (scratchSizes L fn w.lib ++ blobCopy L fn w.lib),
        fun _ w' => Releases w w' (scratchSizes L fn w.lib ++ blobCopy L fn w.lib),
        fun _ => False⟩ w := by
  rw [Prog.wp_bind]
  refine (wp_bufCall_releases fn what).mono ?_ ?_ (fun _ h => h)
  · intro p w' h
    obtain ⟨hcopy, hrel⟩ := h
    rw [hcopy]
    exact (hrel.adopt p.2.handle).wiped p.1
  · intro x w' h
    obtain ⟨hcopy, hrel⟩ := h
    rw [hcopy, List.append_nil]
    exact hrel

/-- A run that never hangs has given back what its postcondition says. -/
theorem released_of_wp {α : Type} {m : Prog Exn (World σ) α} {sizes : List Nat}
    (h : Prog.wp m ⟨fun _ w' => Releases w w' sizes, fun _ w' => Releases w w' sizes,
      fun _ => False⟩ w) : released (w.since (m w).state) = sizes.map zeros := by
  unfold Prog.wp at h
  cases hm : m w with
  | ok a w' => rw [hm] at h; exact h.since
  | threw x w' => rw [hm] at h; exact h.since
  | running w' => rw [hm] at h; exact h.elim

/-- **SECRET SCRATCH IS WIPED ON EVERY PATH.**  Whatever the library answers,
and whichever way the run ends: the buffers given back are the scratch of
every attempt, the copy of the blob when there is one and the flat master
keys, and each of them is all zero when it is given back. -/
theorem scratch_wiped (L : Lib σ) (w : World σ) :
    (∀ fn what, released (w.since (bufCall L fn what w).state) =
      (scratchSizes L fn w.lib).map zeros) ∧
    (∀ profile opts, released (w.since (Pipeline.init L profile opts w).state) =
      (scratchSizes L (initFn profile opts) w.lib ++
        blobCopy L (initFn profile opts) w.lib).map zeros) ∧
    (∀ profile masters opts,
      released (w.since (Pipeline.initKeys L profile masters opts w).state) =
        (scratchSizes L (initKeysFn profile masters opts) w.lib ++
          blobCopy L (initKeysFn profile masters opts) w.lib ++
          [(flattenMasters masters).length]).map zeros) := by
  refine ⟨?_, ?_, ?_⟩
  · intro fn what
    exact released_of_wp ((wp_bufCall_releases fn what).mono (fun _ _ h => h.2)
      (fun _ _ h => h.2) (fun _ h => h))
  · intro profile opts
    exact released_of_wp (wp_adopt_releases (initFn profile opts) _)
  · intro profile masters opts
    apply released_of_wp
    unfold Pipeline.initKeys
    rw [Prog.wp_ensuring]
    -- the flat keys go last, on both ways out
    refine (wp_adopt_releases (initKeysFn profile masters opts) _).mono ?_ ?_ (fun _ h => h)
    · intro p w' h
      exact h.wiped (flattenMasters masters)
    · intro x w' h
      exact h.wiped (flattenMasters masters)

end Runs

end ItbCpp
