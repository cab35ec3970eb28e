/-
  ItbCpp.Constructors
  ───────────────────
  **WHO OWNS A HANDLE AFTER `init` AND `init_keys`.**

  Both constructors catch the handle inside `buf_call` and take ownership
  only after it has returned.  A handle that the library issued with a
  success code is stranded when `buf_call` throws after all, which happens
  on exactly one kind of answer: a success code with a length above the
  capacity offered.

    • `wp_construct` — how a construction ends, against any answers,
    • `init_keepsHandle`, `initKeys_keepsHandle` — the exact condition for
      each constructor.
-/
import ItbCpp.Handles
import ItbCpp.RetryOnce
import ItbCpp.Pipeline

namespace ItbCpp

/-! ## §1. The promise. -/

/-- The handles issued together with a success code. -/
def issued (evs : List Event) : List Handle := (successes evs).filter (· ≠ 0)

/-- What a constructor promises of a run from `w`: it returns a Pipeline
that owns the handle of its last successful call, or it throws and every
handle issued with a success code has been released. -/
def KeepsHandle {σ : Type} (w : World σ) : Prog.Result Exn (World σ) Pipeline → Prop
  | .ok p w' => (successes (w.since w')).getLast? = some p.handle
  | .threw _ w' => ∀ h ∈ issued (w.since w'), h ∈ freed (w.since w')
  | .running _ => False

/-- The last answer is a success with an out-of-range length: the handle
that comes with it is caught and dropped. -/
def Strands {σ : Type} (L : Lib σ) (fn : BlobFn) (s : σ) : Prop :=
  (lastTry L fn.call kBlobCap s).2.rc = 0 ∧
    (lastTry L fn.call kBlobCap s).1 < (lastTry L fn.call kBlobCap s).2.len ∧
    (lastTry L fn.call kBlobCap s).2.handle ≠ 0

/-- The two functions that issue Pipeline handles. -/
def BlobFn.constructs : BlobFn → Bool
  | .init _ _ | .initKeys _ _ _ _ => true
  | _ => false

theorem success_constructs {fn : BlobFn} (h : fn.constructs = true) (n : Nat) (r : Reply) :
    Event.success (.call (fn.call n) r) = if r.rc = 0 then some r.handle else none := by
  cases fn <;> simp [BlobFn.constructs] at h <;> simp [Event.success, FfiCall.issues, BlobFn.call]

/-- One constructor call. -/
theorem successes_constructs {fn : BlobFn} (h : fn.constructs = true) (n : Nat)
    (r : Reply) (evs : List Event) :
    successes (Event.call (fn.call n) r :: evs) =
      (if r.rc = 0 then [r.handle] else []) ++ successes evs := by
  by_cases hrc : r.rc = 0 <;> simp [successes, success_constructs h, hrc]

theorem freed_blobFn (fn : BlobFn) (n : Nat) (r : Reply) :
    Event.freed (.call (fn.call n) r) = none := by
  cases fn <;> rfl

theorem success_lastError {e : Event} (he : e.isLastError = true) :
    e.success = none ∧ e.freed = none := by
  unfold Event.isLastError at he
  split at he
  next => exact ⟨rfl, rfl⟩
  next => cases he

section Runs

variable {σ : Type} {L : Lib σ} {w : World σ}

/-- The successes and releases among the attempts of a constructor. -/
theorem lastAttempt_handles {fn : BlobFn} (hfn : fn.constructs = true) {a : Attempt σ}
    (ha : a = lastAttempt L fn.call kBlobCap zeros wipeBytes w) :
    ∃ evs, a.world.trace = w.trace ++ evs ∧
      successes evs = (if a.reply.rc = 0 then [a.reply.handle] else []) ∧
      freed evs = [] := by
  simp only [lastAttempt] at ha
  by_cases hmore : (L (fn.call kBlobCap) w.lib).1.asksForMore kBlobCap
  · rw [if_pos hmore] at ha
    -- an answer that asks for more is no success, so only the second can be one
    have hrc : (L (fn.call kBlobCap) w.lib).1.rc ≠ 0 := by
      rw [hmore.1]
      decide
    subst ha
    refine ⟨[.call (fn.call kBlobCap) (L (fn.call kBlobCap) w.lib).1,
      .dealloc (wipeBytes (Buffer.overlay (zeros kBlobCap) (L (fn.call kBlobCap) w.lib).1.out)),
      .call (fn.call (L (fn.call kBlobCap) w.lib).1.len)
        (L (fn.call (L (fn.call kBlobCap) w.lib).1.len) (L (fn.call kBlobCap) w.lib).2).1],
      by simp, ?_, ?_⟩
    · rw [successes_constructs hfn, if_neg hrc]
      show successes [.call (fn.call _) _] = _
      rw [successes_constructs hfn]
      simp
    · simp only [freed, List.filterMap_cons, freed_blobFn]
      rfl
  · rw [if_neg hmore] at ha
    subst ha
    refine ⟨[.call (fn.call kBlobCap) (L (fn.call kBlobCap) w.lib).1], rfl, ?_, ?_⟩
    · rw [successes_constructs hfn]
      simp
    · simp only [freed, List.filterMap_cons, freed_blobFn]
      rfl

/-- Neither the diagnostics nor the buffer given back issue or release a
handle. -/
theorem handles_cleanup (evs : List Event) {errs : List Event}
    (herrs : ∀ e ∈ errs, e.isLastError = true)
    (last : Event) (hs : last.success = none) (hf : last.freed = none) :
    successes (evs ++ errs ++ [last]) = successes evs ∧
      freed (evs ++ errs ++ [last]) = freed evs := by
  have hsuccess : successes errs = [] :=
    List.filterMap_eq_nil_iff.mpr fun e he => (success_lastError (herrs e he)).1
  have hfreed : errs.filterMap Event.freed = [] :=
    List.filterMap_eq_nil_iff.mpr fun e he => (success_lastError (herrs e he)).2
  constructor
  · simp [hsuccess, successes_singleton, hs]
  · simp [freed, hfreed, hf]

/-- When `buf_call` returns, the one success among its answers is the last
answer. -/
theorem wp_bufCall_success {fn : BlobFn} (hfn : fn.constructs = true) (what : String) :
    Prog.wp (bufCall L fn what)
      ⟨fun p w' => ∃ evs, w'.trace = w.trace ++ evs ∧ successes evs = [p.2.handle],
        fun _ _ => True, fun _ => True⟩ w := by
  obtain ⟨a, ha⟩ : ∃ a, a = lastAttempt L fn.call kBlobCap zeros wipeBytes w := ⟨_, rfl⟩
  obtain ⟨evs, htrace, hsuccess, -⟩ := lastAttempt_handles hfn ha
  rw [bufCall_eq_retryOnce]
  apply wp_retryOnce length_zeros ha
  · intro hv
    refine ⟨evs ++ [.dealloc (wipeBytes a.buf)], by simp [htrace], ?_⟩
    rw [successes_append, hsuccess, if_pos (verdict_eq_none.mp hv).1]
    rfl
  · intro e w' _ _
    trivial

/-! ## §2. The common core of the two constructors. -/

/-- `buf_call`, then ownership. -/
def construct (L : Lib σ) (fn : BlobFn) (what : String) : Prog Exn (World σ) Pipeline := do
  let (blob, r) ← bufCall L fn what
  emit (.adopt r.handle)
  emit (.dealloc (wipeBytes blob))
  pure { handle := r.handle }

theorem init_eq_construct (profile : Bytes) (opts : Opts) :
    Pipeline.init L profile opts =
      construct L (.init (ffiStr profile) (ffiStr opts.query)) "Pipeline::init" := rfl

theorem initKeys_eq_construct (profile : Bytes) (masters : List Bytes) (opts : Opts) :
    Pipeline.initKeys L profile masters opts =
      Prog.ensuring
        (construct L (.initKeys (ffiStr profile) (ffiStr opts.query) (flattenMasters masters)
          (masterLens masters)) "Pipeline::init_keys")
        (emit (.dealloc (wipeBytes (flattenMasters masters)))) := rfl

/-- How a construction ends: what it returns, what it leaves in the trace. -/
def constructPost (L : Lib σ) (fn : BlobFn) (w : World σ) : Prog.Post Exn (World σ) Pipeline where
  ok p w' := ∃ evs, w'.trace = w.trace ++ evs ∧ ¬Strands L fn w.lib ∧
    (successes evs).getLast? = some p.handle
  threw _ w' := ∃ evs, w'.trace = w.trace ++ evs ∧
    ((∀ h ∈ issued evs, h ∈ freed evs) ↔ ¬Strands L fn w.lib)
  running _ := False

/-- When a construction throws, a handle is left over exactly when the last
answer strands one. -/
theorem nothingLeft_iff {fn : BlobFn} {evs : List Event} {t : Nat × Reply}
    (ht : t = lastTry L fn.call kBlobCap w.lib) {st : Status}
    (hv : verdict t.1 t.2 = some st)
    (hsuccess : successes evs = if t.2.rc = 0 then [t.2.handle] else [])
    (hfreed : freed evs = []) :
    (∀ h ∈ issued evs, h ∈ freed evs) ↔ ¬Strands L fn w.lib := by
  unfold Strands
  rw [← ht, hfreed, issued, hsuccess]
  -- a success is refused for its length only
  by_cases hrc : t.2.rc = 0
  · have hlen : t.1 < t.2.len := by
      by_contra hle
      have hnone := verdict_eq_none.mpr ⟨hrc, Nat.le_of_not_lt hle⟩
      rw [hnone] at hv
      cases hv
    by_cases hh : t.2.handle = 0 <;> simp [hrc, hlen, hh]
  · simp [hrc]

theorem wp_construct {fn : BlobFn} (hfn : fn.constructs = true) (what : String) :
    Prog.wp (construct L fn what) (constructPost L fn w) w := by
  obtain ⟨a, ha⟩ : ∃ a, a = lastAttempt L fn.call kBlobCap zeros wipeBytes w := ⟨_, rfl⟩
  obtain ⟨htry, -, -⟩ := lastAttempt_spec fn.sized ha
  obtain ⟨evs, htrace, hsuccess, hfreed⟩ := lastAttempt_handles hfn ha
  unfold construct
  rw [Prog.wp_bind, bufCall_eq_retryOnce]
  refine wp_retryOnce length_zeros ha ?_ ?_
  · intro hv
    obtain ⟨hrc, hlen⟩ := verdict_eq_none.mp hv
    refine ⟨evs ++ [.dealloc (wipeBytes a.buf), .adopt a.reply.handle,
      .dealloc (wipeBytes (a.buf.take a.reply.len))], by simp [htrace], ?_, ?_⟩
    · intro hs
      -- a good last answer fits its buffer
      unfold Strands at hs
      rw [← htry] at hs
      have hlong : a.cap < a.reply.len := hs.2.1
      omega
    · rw [successes_append, hsuccess, if_pos hrc]
      rfl
  · intro e w' hv hw'
    obtain ⟨errs, herrs, hall⟩ := hw'
    obtain ⟨hs, hf⟩ := handles_cleanup evs hall (.dealloc (wipeBytes a.buf)) rfl rfl
    refine ⟨evs ++ errs ++ [.dealloc (wipeBytes a.buf)], by simp [herrs, htrace], ?_⟩
    exact nothingLeft_iff htry hv (hs.trans hsuccess) (hf.trans hfreed)

/-- An event that is no library call changes nothing. -/
theorem constructPost_log {fn : BlobFn} (content : Bytes) :
    (∀ p w', (constructPost L fn w).ok p w' →
      (constructPost L fn w).ok p (w'.log (.dealloc content))) ∧
    (∀ x w', (constructPost L fn w).threw x w' →
      (constructPost L fn w).threw x (w'.log (.dealloc content))) := by
  constructor
  · intro p w' h
    obtain ⟨evs, htrace, hno, hlast⟩ := h
    refine ⟨evs ++ [.dealloc content], by simp [htrace], hno, ?_⟩
    rw [successes_append, successes_singleton, ← hlast]
    simp [Event.success]
  · intro x w' h
    obtain ⟨evs, htrace, hiff⟩ := h
    refine ⟨evs ++ [.dealloc content], by simp [htrace], ?_⟩
    have hissued : issued (evs ++ [.dealloc content]) = issued evs := by
      simp [issued, successes_singleton, Event.success]
    have hfreed : freed (evs ++ [.dealloc content]) = freed evs := by
      simp [freed, Event.freed]
    rw [hissued, hfreed]
    exact hiff

/-- The postcondition settles the promise. -/
theorem keepsHandle_iff {fn : BlobFn} {m : Prog Exn (World σ) Pipeline}
    (h : Prog.wp m (constructPost L fn w) w) : KeepsHandle w (m w) ↔ ¬Strands L fn w.lib := by
  unfold Prog.wp at h
  cases hm : m w with
  | ok p w' =>
      rw [hm] at h
      obtain ⟨evs, htrace, hno, hlast⟩ := h
      show (successes (w.since w')).getLast? = _ ↔ _
      rw [World.since_of_append htrace]
      exact ⟨fun _ => hno, fun _ => hlast⟩
  | threw x w' =>
      rw [hm] at h
      obtain ⟨evs, htrace, hiff⟩ := h
      show (∀ h ∈ issued (w.since w'), h ∈ freed (w.since w')) ↔ _
      rw [World.since_of_append htrace]
      exact hiff
  | running w' =>
      rw [hm] at h
      exact h.elim

/-! ## §3. The constructors. -/

/-- `Pipeline::init`: a handle is stranded exactly by a last answer that is
a success with an out-of-range length. -/
theorem init_keepsHandle (profile : Bytes) (opts : Opts) :
    KeepsHandle w (Pipeline.init L profile opts w) ↔
      ¬Strands L (.init (ffiStr profile) (ffiStr opts.query)) w.lib := by
  rw [init_eq_construct]
  exact keepsHandle_iff (wp_construct rfl _)

/-- `Pipeline::init_keys`: the wipe of the flat key buffer changes nothing. -/
theorem initKeys_keepsHandle (profile : Bytes) (masters : List Bytes) (opts : Opts) :
    KeepsHandle w (Pipeline.initKeys L profile masters opts w) ↔
      ¬Strands L (.initKeys (ffiStr profile) (ffiStr opts.query) (flattenMasters masters)
        (masterLens masters)) w.lib := by
  rw [initKeys_eq_construct]
  apply keepsHandle_iff
  rw [Prog.wp_ensuring]
  -- the guard of the flat buffer logs one more event, on both ways out
  refine (wp_construct rfl _).mono ?_ ?_ (fun _ hf => hf.elim)
  · intro p w' hp
    exact (constructPost_log _).1 p w' hp
  · intro x w' hx
    exact (constructPost_log _).2 x w' hx

/-- **NO CONSTRUCTOR STRANDS A HANDLE, SAVE ON ONE KIND OF ANSWER.**  For
every library and every state of it, `init` and `init_keys` either return a
Pipeline that owns the handle of their last successful call, or throw with
every issued handle released — unless the last answer is a success code,
a handle, and a length above the capacity offered. -/
theorem constructors_keepHandle (L : Lib σ) (w : World σ) (profile : Bytes)
    (masters : List Bytes) (opts : Opts) :
    (KeepsHandle w (Pipeline.init L profile opts w) ↔
      ¬Strands L (.init (ffiStr profile) (ffiStr opts.query)) w.lib) ∧
    (KeepsHandle w (Pipeline.initKeys L profile masters opts w) ↔
      ¬Strands L (.initKeys (ffiStr profile) (ffiStr opts.query) (flattenMasters masters)
        (masterLens masters)) w.lib) :=
  ⟨init_keepsHandle profile opts, initKeys_keepsHandle profile masters opts⟩

end Runs

/-- A library that answers `init` with a handle and a blob length one above
the buffer it was given, and knows no diagnostic. -/
def oversizedInit : Lib Unit := fun c s =>
  match c with
  | .init _ _ cap => ({ rc := 0, len := cap + 1, handle := 1 }, s)
  | _ => ({ rc := Status.internal.code }, s)

/-- Against it the handle is lost: `init` throws and nothing is released. -/
theorem init_strands_oversized :
    ¬KeepsHandle ⟨(), []⟩ (Pipeline.init oversizedInit (text "aead") {} ⟨(), []⟩) := by
  rw [init_keepsHandle, not_not]
  refine ⟨rfl, ?_, ?_⟩
  · show kBlobCap < kBlobCap + 1
    omega
  · show (1 : Nat) ≠ 0
    omega

end ItbCpp
