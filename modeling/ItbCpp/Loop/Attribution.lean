/-
  ItbCpp.Loop.Attribution
  ───────────────────────
  **WHOSE DIAGNOSTIC A WORKER RECORDS.**

  The library has one cell for the last error, whoever's call wrote it.  A
  worker reads the cell twice: `detail::fail` for the exception, `detail`
  for the text it records.  The two readings agree as long as nothing
  writes the cell in between; when another worker's call does, the text
  pairs one call's status with the other's diagnostic.

    • `Calm` — nothing writes the cell between a worker's two readings,
    • `errors_attributed` — in calm runs every recorded text pairs the
      status of the failed call with the diagnostic its error carries,
    • `noisy_misattributed` — a run of two workers where it does not.
-/
import ItbCpp.Loop.Accounting
import ItbCpp.Loop.Reports

namespace ItbCpp

/-- The library asks for a larger buffer. -/
abbrev Reply.wantsMore (r : Reply) : Prop := r.rc = Status.bufferTooSmall.code ∧ 1 < r.len

namespace Loop

open Interleave Thread

/-! ## §1. The last error. -/

/-- The last error is one cell: what is read depends on the cell alone, and
reading leaves it. -/
structure ErrorCell {σ κ : Type} (L : Lib σ) (cell : σ → κ) : Prop where
  gives : ∀ cap x y, cell x = cell y → (L (.lastError cap) x).1 = (L (.lastError cap) y).1
  keeps : ∀ cap x, cell (L (.lastError cap) x).2 = cell x

/-- A worker is between its two readings: the first has met the cell, the
second has not met it for the last time. -/
def Log.reporting (l : Log) : Option (FfiCall × Option Reply) → Prop
  | some (.lastError _, some r) => l.reads = [] ∨ (l.again = none ∧ r.wantsMore)
  | _ => l.again ≠ none ∨ l.reads.length = 1

section Cell

variable {σ κ : Type} (L : Lib σ) (cell : σ → κ)

/-- What a reading of `cap` bytes is answered at `x`. -/
def answerAt (x : σ) (cap : Nat) : Reply := (L (.lastError cap) x).1

/-- What `last_error` gives at `x`. -/
def diagnostic (x : σ) : Bytes :=
  if (answerAt L x 2048).rc = 0 then said 2048 (answerAt L x 2048)
  else if (answerAt L x 2048).wantsMore then
    if (answerAt L x (answerAt L x 2048).len).rc = 0 then
      said (answerAt L x 2048).len (answerAt L x (answerAt L x 2048).len)
    else []
  else []

/-- Everything a worker has read, it could have read at `x`. -/
structure Log.Met (l : Log) (call : Option (FfiCall × Option Reply)) (x : σ) : Prop where
  reads : ∀ d ∈ l.reads, d = diagnostic L x
  again : ∀ n, l.again = some n →
    (answerAt L x 2048).wantsMore ∧ n = (answerAt L x 2048).len
  reply : ∀ cap r, call = some (.lastError cap, some r) → r = answerAt L x cap
  asked : ∀ cap r, call = some (.lastError cap, r) →
    l.reads.length < 2 ∧ cap = l.again.getD 2048

/-- What a worker between its readings has read is what the cell holds. -/
def Log.Agrees (l : Log) (call : Option (FfiCall × Option Reply)) (y : σ) : Prop :=
  ∃ x, l.Met L call x ∧ (l.reporting call → cell y = cell x)

variable {L cell} {l : Log} {call : Option (FfiCall × Option Reply)} {x y y' : σ} {c : FfiCall}
  {r : Reply}

theorem rc_of_wantsMore (h : r.wantsMore) : r.rc ≠ 0 := by
  rw [h.1]
  decide

/-- **A reading that is over has given the diagnostic.** -/
theorem Log.Met.gave {cap : Nat} (h : l.Met L (some (.lastError cap, some r)) x) :
    (r.rc = 0 → said cap r = diagnostic L x) ∧
      (r.rc ≠ 0 → ¬ (l.again = none ∧ r.wantsMore) → [] = diagnostic L x) := by
  have hr : r = answerAt L x cap := h.reply cap r rfl
  obtain ⟨-, hcap⟩ := h.asked cap _ rfl
  unfold diagnostic
  cases hagain : l.again with
  | none =>
      rw [hagain] at hcap
      obtain rfl : cap = 2048 := hcap
      rw [← hr]
      refine ⟨fun hrc => (if_pos hrc).symm, fun hrc hmore => ?_⟩
      rw [if_neg hrc, if_neg fun hw => hmore ⟨rfl, hw⟩]
  | some n =>
      obtain ⟨hw, hn⟩ := h.again n hagain
      rw [hagain] at hcap
      obtain rfl : cap = n := hcap
      rw [if_neg (rc_of_wantsMore hw), if_pos hw, ← hn, ← hr]
      exact ⟨fun hrc => (if_pos hrc).symm, fun hrc _ => (if_neg hrc).symm⟩

/-! ## §2. One answer. -/

/-- What a call brings about outside a worker's readings. -/
theorem Log.Agrees.calm (h : l.Agrees L cell call y) (hcalm : l.reporting call → cell y' = cell y) :
    l.Agrees L cell call y' := by
  obtain ⟨x, hmet, hcell⟩ := h
  exact ⟨x, hmet, fun hrep => (hcalm hrep).trans (hcell hrep)⟩

/-- A worker enters the library. -/
theorem Log.Agrees.enter (h : l.Agrees L cell none y) (hmay : l.mayCall c) :
    ({ l with inside := some c } : Log).Agrees L cell (some (c, none)) y := by
  obtain ⟨x, hmet, hcell⟩ := h
  refine ⟨x, ⟨hmet.reads, hmet.again, fun cap r hc => (by cases hc), fun cap r hc => ?_⟩, ?_⟩
  · cases hc
    exact hmay
  · intro hrep
    refine hcell ?_
    cases c <;> exact hrep

/-- Its call takes effect: a first reading meets the cell. -/
theorem Log.Agrees.effect (hL : ErrorCell L cell) (h : l.Agrees L cell (some (c, none)) y)
    (hcalm : l.reporting (some (c, none)) → cell (L c y).2 = cell y) :
    l.Agrees L cell (some (c, some (L c y).1)) (L c y).2 := by
  obtain ⟨x, hmet, hcell⟩ := h
  by_cases hc : c.isReading = true
  · obtain ⟨cap, rfl⟩ : ∃ cap, c = .lastError cap := by
      cases c <;> first | exact ⟨_, rfl⟩ | cases hc
    have hasked := hmet.asked cap none rfl
    have hkeeps : cell (L (.lastError cap) y).2 = cell y := hL.keeps cap y
    by_cases hrep : l.reporting (some (.lastError cap, none))
    · have hxy : cell y = cell x := hcell hrep
      refine ⟨x, ⟨hmet.reads, hmet.again, fun cap' r' hr => ?_, fun cap' r' hr => ?_⟩,
        fun _ => hkeeps.trans hxy⟩
      · cases hr
        exact hL.gives cap y x hxy
      · cases hr
        exact hasked
    · -- nothing has been read so far
      have hagain : l.again = none := by
        by_contra hne
        exact hrep (Or.inl hne)
      have hreads : l.reads = [] := by
        have hone : l.reads.length ≠ 1 := fun h => hrep (Or.inr h)
        have htwo := hasked.1
        exact List.length_eq_zero_iff.mp (by omega)
      refine ⟨y, ⟨fun d hd => ?_, fun n hn => ?_, fun cap' r' hr => ?_, fun cap' r' hr => ?_⟩,
        fun _ => hkeeps⟩
      · rw [hreads] at hd
        cases hd
      · rw [hagain] at hn
        cases hn
      · cases hr
        rfl
      · cases hr
        exact hasked
  · -- no reading: the log stands as it did
    have hsame : l.reporting (some (c, some (L c y).1)) → l.reporting (some (c, none)) := by
      intro hrep
      cases c <;> first | exact hrep | exact (hc rfl).elim
    refine ⟨x, ⟨hmet.reads, hmet.again, fun cap' r' hr => ?_, fun cap' r' hr => ?_⟩,
      fun hrep => (hcalm (hsame hrep)).trans (hcell (hsame hrep))⟩
    · cases hr
      exact (hc rfl).elim
    · cases hr
      exact (hc rfl).elim

/-- It returns: a reading that is over has given the diagnostic. -/
theorem Log.Agrees.leave (h : l.Agrees L cell (some (c, some r)) y) :
    ({ l.returned c r with inside := none } : Log).Agrees L cell none y := by
  obtain ⟨x, hmet, hcell⟩ := h
  by_cases hc : c.isReading = true
  · obtain ⟨cap, rfl⟩ : ∃ cap, c = .lastError cap := by
      cases c <;> first | exact ⟨_, rfl⟩ | cases hc
    obtain ⟨hsaid, hnothing⟩ := hmet.gave
    -- one text more
    have hread : ∀ d, d = diagnostic L x →
        ({ l with inside := none, again := none, reads := l.reads ++ [d] } : Log).Agrees L cell
          none y := by
      intro d hd
      refine ⟨x, ⟨fun d' hd' => ?_, fun n hn => (by cases hn), fun _ _ h => (by cases h),
        fun _ _ h => (by cases h)⟩, fun hrep => hcell (Or.inl ?_)⟩
      · rcases List.mem_append.mp hd' with hd' | hd'
        · exact hmet.reads d' hd'
        · rw [List.mem_singleton.mp hd']
          exact hd
      · rcases hrep with hne | hone
        · exact (hne rfl).elim
        · have hlen : l.reads.length + 1 = 1 := List.length_append.symm.trans hone
          exact List.length_eq_zero_iff.mp (by omega)
    by_cases hrc : r.rc = 0
    · rw [returned_said hrc]
      exact hread _ (hsaid hrc)
    · by_cases hmore : l.again = none ∧ r.wantsMore
      · rw [returned_again hrc hmore.1 hmore.2]
        obtain ⟨-, hcap⟩ := hmet.asked cap _ rfl
        rw [hmore.1] at hcap
        obtain rfl : cap = 2048 := hcap
        have hr : r = answerAt L x 2048 := hmet.reply _ _ rfl
        refine ⟨x, ⟨hmet.reads, fun n hn => ?_, fun _ _ h => (by cases h),
          fun _ _ h => (by cases h)⟩, fun _ => hcell (Or.inr hmore)⟩
        obtain rfl : r.len = n := Option.some.inj hn
        exact hr ▸ ⟨hmore.2, rfl⟩
      · rw [returned_nothing hrc hmore]
        exact hread _ (hnothing hrc hmore)
  · -- no reading: at most the latest reply is noted
    obtain ⟨f, hf⟩ : ∃ f, l.returned c r = { l with failing := f } := by
      by_cases hreads : l.reads = []
      · refine ⟨some r, ?_⟩
        cases c <;> first | exact if_pos hreads | exact (hc rfl).elim
      · refine ⟨l.failing, ?_⟩
        cases c <;> first | exact if_neg hreads | exact (hc rfl).elim
    rw [hf]
    refine ⟨x, ⟨hmet.reads, hmet.again, fun _ _ h => (by cases h), fun _ _ h => (by cases h)⟩,
      fun hrep => hcell ?_⟩
    cases c <;> first | exact hrep | exact (hc rfl).elim

end Cell

/-! ## §3. All threads. -/

section Threads

variable {σ κ K : Type} {N : Nat}

/-- Nothing writes the last error while a worker is between its two
readings. -/
def Calm (cell : σ → κ) (evs : List (Ev N)) (s s' : Shared σ K N) : Prop :=
  ∀ k : Fin N, (logs evs (some k)).reporting (s.calls (some k)) → cell s'.lib = cell s.lib

/-- What holds of one worker along a calm run. -/
structure Reported (L : Lib σ) (cell : σ → κ) (evs : List (Ev N)) (s : Shared σ K N) (k : Fin N)
    (t : Report) : Prop where
  log : t.log = logs evs (some k)
  failed : t.failed = (s.workers k).failed
  error : t.error = (s.workers k).error
  inside : t.log.inside = (s.calls (some k)).map Prod.fst
  agrees : t.log.Agrees L cell (s.calls (some k)) s.lib

/-- The protocol of each thread: main records no error. -/
def reportsOf : Tid N → Protocol Req Req.Answer Report
  | none => anything
  | some _ => reporting

variable {L : Lib σ} {cell : σ → κ} {key : σ → Handle → Option K} {i : Tid N} {q : Req}
  {a : q.Answer} {s s' : Shared σ K N} {evs : List (Ev N)} {ts : Tid N → Report} {t' : Report}

/-- Only these requests touch a call. -/
theorem calls_of_answers (hs : answers L key i s q a s') (henter : ∀ c, q ≠ .enter c)
    (heffect : q ≠ .effect) (hleave : q ≠ .leave) : s'.calls = s.calls := by
  by_cases hq : q.quiet = true
  · rw [toPipeState_of_quiet hq hs]
  · cases q with
    | enter c => exact (henter c rfl).elim
    | effect => exact (heffect rfl).elim
    | leave => exact (hleave rfl).elim
    | lock =>
        obtain ⟨-, -, rfl⟩ := hs
        rfl
    | lockShared =>
        obtain ⟨-, rfl⟩ := hs
        rfl
    | unlockShared | unlock | setPipe | setBlob =>
        obtain rfl := hs
        rfl
    | _ => exact (hq rfl).elim

/-- A call of another thread leaves a thread's own. -/
theorem calls_of_ne (hs : answers L key i s q a s') {j : Tid N} (hj : j ≠ i) :
    s'.calls j = s.calls j := by
  cases q with
  | enter c =>
      obtain ⟨-, rfl⟩ := hs
      exact Function.update_of_ne hj ..
  | effect | leave =>
      obtain ⟨c, -, rfl⟩ := hs
      exact Function.update_of_ne hj ..
  | _ =>
      rw [calls_of_answers hs (fun _ h => (by cases h)) (fun h => (by cases h))
        fun h => (by cases h)]

theorem workers_of_ne (hs : answers L key i s q a s') {k : Fin N} (hk : some k ≠ i) :
    s'.workers k = s.workers k := by
  cases q with
  | setSelf f =>
      obtain ⟨j, rfl, rfl⟩ := hs
      exact Function.update_of_ne (fun hkj => hk (congrArg some hkj)) ..
  | _ => rw [(framed_of_answers hs).workers fun _ h => (by cases h)]

variable {k : Fin N} {t : Report}

/-- An answer to another thread, in a calm run. -/
theorem Reported.others (h : Reported L cell evs s k t) (hs : answers L key i s q a s')
    (hcalm : Calm cell evs s s') (hk : some k ≠ i) :
    Reported L cell (evs ++ [⟨i, q, a⟩]) s' k t := by
  have hlog : logs (evs ++ [⟨i, q, a⟩]) (some k) = logs evs (some k) := by
    rw [logs_snoc]
    exact Function.update_of_ne hk ..
  have hcalls : s'.calls (some k) = s.calls (some k) := calls_of_ne hs hk
  have hworkers : s'.workers k = s.workers k := workers_of_ne hs hk
  refine ⟨h.log.trans hlog.symm, ?_, ?_, ?_, ?_⟩
  · rw [hworkers]
    exact h.failed
  · rw [hworkers]
    exact h.error
  · rw [hcalls]
    exact h.inside
  · rw [hcalls]
    refine h.agrees.calm fun hrep => hcalm k ?_
    rw [← h.log]
    exact hrep

/-- An answer to the worker itself. -/
theorem Reported.own (hL : ErrorCell L cell) (h : Reported L cell evs s k t)
    (hask : t.asks q) (hs : answers L key (some k) s q a s') (hcalm : Calm cell evs s s') :
    ∃ t', t.told q a t' ∧ Reported L cell (evs ++ [⟨some k, q, a⟩]) s' k t' := by
  have hlog : logs (evs ++ [⟨some k, q, a⟩]) (some k) = t.log.after q a := by
    rw [logs_snoc, h.log]
    exact Function.update_self ..
  have hrep : t.log.reporting (s.calls (some k)) → cell s'.lib = cell s.lib := by
    intro hrep
    rw [h.log] at hrep
    exact hcalm k hrep
  obtain ⟨hlog₀, hfailed, herror, hinside, hagrees⟩ := h
  cases q with
  | enter c =>
      obtain ⟨hnone, rfl⟩ := hs
      rw [hnone] at hagrees
      refine ⟨_, rfl, hlog.symm, hfailed, herror, ?_, ?_⟩
      · show some c = (Function.update s.calls (some k) _ (some k)).map Prod.fst
        rw [Function.update_self]
        rfl
      · show Log.Agrees L cell _ (Function.update s.calls (some k) _ (some k)) _
        rw [Function.update_self]
        exact hagrees.enter (hask.2 c rfl).2
  | effect =>
      obtain ⟨c, hcall, rfl⟩ := hs
      rw [hcall] at hagrees hinside hrep
      refine ⟨t, rfl, hlog.symm, hfailed, herror, ?_, ?_⟩
      · show _ = (Function.update s.calls (some k) _ (some k)).map Prod.fst
        rw [Function.update_self]
        exact hinside
      · show Log.Agrees L cell _ (Function.update s.calls (some k) _ (some k)) _
        rw [Function.update_self]
        exact hagrees.effect hL hrep
  | leave =>
      obtain ⟨c, hcall, rfl⟩ := hs
      rw [hcall] at hagrees hinside
      refine ⟨_, rfl, hlog.symm, hfailed, herror, ?_, ?_⟩
      · show _ = (Function.update s.calls (some k) none (some k)).map Prod.fst
        rw [Function.update_self]
        show (Log.after t.log .leave a).inside = none
        unfold Log.after
        rw [hinside]
        rfl
      · show Log.Agrees L cell (Log.after t.log .leave a)
          (Function.update s.calls (some k) none (some k)) _
        rw [Function.update_self]
        unfold Log.after
        rw [hinside]
        exact hagrees.leave
  | setSelf f =>
      obtain ⟨j, hj, rfl⟩ := hs
      obtain rfl : k = j := Option.some.inj hj
      refine ⟨_, ⟨s.workers k, hfailed.symm, herror.symm, rfl⟩, hlog.symm, ?_, ?_, hinside,
        hagrees⟩
      · show _ = (Function.update s.workers k _ k).failed
        rw [Function.update_self]
      · show _ = (Function.update s.workers k _ k).error
        rw [Function.update_self]
  | _ =>
      -- the log, the call and the record are as they were
      have hcalls := calls_of_answers hs (fun _ h => (by cases h)) (fun h => (by cases h))
        fun h => (by cases h)
      have hworkers := (framed_of_answers hs).workers fun _ h => (by cases h)
      refine ⟨t, rfl, hlog.symm, ?_, ?_, ?_, ?_⟩
      · rw [hworkers]
        exact hfailed
      · rw [hworkers]
        exact herror
      · rw [hcalls]
        exact hinside
      · rw [hcalls]
        exact hagrees.calm hrep

/-- **What holds along a calm run**, of every worker. -/
theorem upholds_reported (hL : ErrorCell L cell) (key : σ → Handle → Option K) :
    UpholdsIn (machine L key) (Calm cell) (reportsOf (N := N))
      fun evs s ts => ∀ k, Reported L cell evs s k (ts (some k)) := by
  intro evs s ts i q a s' h hask hserve hcalm
  obtain ⟨-, hs⟩ := hserve
  -- the others stand where they stood
  have hothers : ∀ t', ∀ k, some k ≠ i →
      Reported L cell (evs ++ [⟨i, q, a⟩]) s' k (Function.update ts i t' (some k)) := by
    intro t' k hk
    rw [Function.update_of_ne hk]
    exact (h k).others hs hcalm hk
  cases i with
  | none => exact ⟨ts none, trivial, fun k => hothers _ k (Option.some_ne_none k)⟩
  | some j =>
      obtain ⟨t', htold, hreported⟩ := (h j).own hL hask hs hcalm
      refine ⟨t', htold, fun k => ?_⟩
      by_cases hk : k = j
      · rw [hk, Function.update_self]
        exact hreported
      · exact hothers t' k fun hkj => hk (Option.some.inj hkj)

end Threads

/-! ## §4. Two workers that fail together. -/

/-- A library whose message ciphers fail; the last error is one byte, and
each failure moves it on by `step`. -/
def noisy (step : UInt8) : Lib UInt8 := fun c s =>
  match c with
  | .lastError _ => ({ rc := 0, len := 1, out := [s] }, s)
  | .encryptMessage _ _ _ => ({ rc := Status.encryptFailed.code }, s + step)
  | _ => (noBytes, s)

theorem noisy_errorCell (step : UInt8) : ErrorCell (noisy step) id where
  gives _ x y h := by
    obtain rfl : x = y := h
    rfl
  keeps _ _ := rfl

theorem noisy_builds (step : UInt8) :
    Returns (buildPipelines (noisy step) hollowConfig) ⟨65, []⟩ (some hollowBuilt) 65 := by
  have hfits : Fits noBytes := ⟨rfl, rfl, Nat.zero_le kBlobCap⟩
  have hsave : noisy step (.save noBytes.handle kBlobCap) 65 = (noBytes, 65) := rfl
  exact returns_message rfl rfl rfl hsave rfl hfits hfits hfits rfl rfl

/-- Two workers over it, before their first step. -/
def Run.noisy : Run UInt8 Unit 2 :=
  Run.start 2 (fun _ _ => none) (fun _ _ _ => 0) hollowConfig (fun _ _ => 0) hollowBuilt 65 1

/-- The answer to a reading when the cell holds `b`. -/
def oneByte (b : UInt8) : Reply := { rc := 0, len := 1, out := [b] }

/-- Worker 0 fails and throws; worker 1 fails; worker 0 records. -/
theorem noisy_runs (step : UInt8) :
    ∃ evs r, TracedIn (machine (noisy step) fun _ _ => none)
        (fun _ s s' => step = 0 → s'.lib = s.lib) Run.noisy evs r ∧
      (r.state.workers 0).failed = true ∧
      (logs evs (some 0)).reads =
        [said 2048 (oneByte (65 + step)), said 2048 (oneByte (65 + step + step))] ∧
      ∃ pre, (r.state.workers 0).error =
        pre ++ rendered .encryptFailed (said 2048 (oneByte (65 + step + step))) := by
  have hmoved : ∀ x : UInt8, step = 0 → x + step = x := by
    intro x hx
    rw [hx]
    exact UInt8.add_zero x
  have h : TracedIn (machine (noisy step) fun _ _ => none)
    (fun _ s s' => step = 0 → s'.lib = s.lib) Run.noisy [] Run.noisy := .refl
  -- worker 0: read lock, handle, plaintext, the call that fails
  refine h.step (i := some 0) (a := ()) rfl ⟨rfl, rfl, rfl⟩ (fun _ => rfl) fun h => ?_
  refine h.step (i := some 0) (a := (1 : Handle)) rfl ⟨rfl, rfl, rfl⟩ (fun _ => rfl) fun h => ?_
  refine h.step (i := some 0) (a := Worker.start hollowConfig fun _ => 0) rfl
    ⟨rfl, ⟨0, rfl, rfl⟩, rfl⟩ (fun _ => rfl) fun h => ?_
  refine h.step (i := some 0) (a := ()) rfl ⟨rfl, rfl, rfl⟩ (fun _ => rfl) fun h => ?_
  refine h.step (i := some 0) (a := ()) rfl ⟨rfl, _, rfl, rfl⟩ (hmoved _) fun h => ?_
  refine h.step (i := some 0) (a := _) rfl ⟨rfl, _, rfl, rfl⟩ (fun _ => rfl) fun h => ?_
  -- its first reading
  refine h.step (i := some 0) (a := ()) rfl ⟨rfl, rfl, rfl⟩ (fun _ => rfl) fun h => ?_
  refine h.step (i := some 0) (a := ()) rfl ⟨rfl, _, rfl, rfl⟩ (fun _ => rfl) fun h => ?_
  refine h.step (i := some 0) (a := oneByte (65 + step)) rfl ⟨rfl, _, rfl, rfl⟩ (fun _ => rfl)
    fun h => ?_
  -- worker 1, as far as its own failure
  refine h.step (i := some 1) (a := ()) rfl ⟨rfl, rfl, rfl⟩ (fun _ => rfl) fun h => ?_
  refine h.step (i := some 1) (a := (1 : Handle)) rfl ⟨rfl, rfl, rfl⟩ (fun _ => rfl) fun h => ?_
  refine h.step (i := some 1) (a := Worker.start hollowConfig fun _ => 0) rfl
    ⟨rfl, ⟨1, rfl, rfl⟩, rfl⟩ (fun _ => rfl) fun h => ?_
  refine h.step (i := some 1) (a := ()) rfl ⟨rfl, rfl, rfl⟩ (fun _ => rfl) fun h => ?_
  refine h.step (i := some 1) (a := ()) rfl ⟨rfl, _, rfl, rfl⟩ (hmoved _) fun h => ?_
  -- worker 0: its second reading, and the record
  refine h.step (i := some 0) (a := ()) rfl ⟨rfl, rfl, rfl⟩ (fun _ => rfl) fun h => ?_
  refine h.step (i := some 0) (a := ()) rfl ⟨rfl, _, rfl, rfl⟩ (fun _ => rfl) fun h => ?_
  refine h.step (i := some 0) (a := oneByte (65 + step + step)) rfl ⟨rfl, _, rfl, rfl⟩
    (fun _ => rfl) fun h => ?_
  refine h.step (i := some 0) (a := ()) rfl ⟨rfl, _, rfl, rfl⟩ (fun _ => rfl) fun h => ?_
  refine ⟨_, _, h, rfl, ?_, _, rfl⟩
  simp [logs, Log.after, Log.returned, oneByte, CipherFn.call]

/-! ## §5. The results. -/

/-- The text ends with the status of the call that failed and the diagnostic of
the first reading, the one its error was thrown with.  A worker that has read
nothing has failed by no call, and its text says that it was given no random
bytes. -/
def Log.Attributed (l : Log) (t : Bytes) : Prop :=
  (l.reads = [] ∧ CsprngText t) ∨
    ∃ d pre, l.reads.head? = some d ∧ t = pre ++ rendered l.status d

/-- Two readings that agree. -/
theorem attributed_of_recorded {l : Log} {t : Bytes} (h : l.Recorded t)
    (hsame : ∀ d ∈ l.reads, ∀ d' ∈ l.reads, d = d') : l.Attributed t := by
  obtain ⟨e, d₁, d₂, pre, hreads, ⟨hstatus, -⟩, ht⟩ := h
  have hd : d₁ = d₂ := by
    rw [hreads] at hsame
    exact hsame d₁ (by simp) d₂ (by simp)
  refine Or.inr ⟨d₁, pre, ?_, ?_⟩
  · rw [hreads]
    rfl
  · rw [hd, ← hstatus]
    exact ht

section Results

variable {σ κ K : Type} {N : Nat} {L : Lib σ} {cell : σ → κ} {key : σ → Handle → Option K}

/-- How each thread ends, as far as errors go. -/
def reportEnds : Tid N → Ends Exn Report Unit
  | none => ⟨fun _ _ => True, fun _ _ => True⟩
  | some _ => ⟨fun _ => Report.Over, Nowhere⟩

theorem keepsTo_reports (junk : Fin N → Nat → Nat → UInt8) (cfg : Config) (fuel : Nat)
    (i : Tid N) :
    (harness N junk cfg fuel i).wp (reportsOf i) (reportEnds i) {} := by
  cases i with
  | none => exact wp_anything _ _
  | some k => exact reports_workerMain (junk k) cfg k fuel

theorem reported_start (cfg : Config) (content : Fin N → Nat → UInt8)
    (built : Pipe → Option (Pipeline × Bytes)) (lib : σ) (k : Fin N) :
    Reported L cell ([] : List (Ev N)) (Shared.start N key cfg content built lib) k {} := by
  refine ⟨rfl, rfl, rfl, rfl, lib, ⟨fun d hd => (by cases hd), fun n hn => (by cases hn),
    fun cap r hr => (by cases hr), fun cap r hr => (by cases hr)⟩, fun _ => rfl⟩

/-- **Errors are attributed in calm runs**: as long as nothing writes the
last error while a worker is between its two readings, every text that a
worker has recorded pairs the status of its own failed call with the
diagnostic its error was thrown with. -/
theorem errors_attributed (hL : ErrorCell L cell) (junk : Fin N → Nat → Nat → UInt8)
    (cfg : Config) (content : Fin N → Nat → UInt8)
    (built : Pipe → Option (Pipeline × Bytes)) (lib : σ) (fuel : Nat) {evs : List (Ev N)}
    {r : Run σ K N}
    (h : TracedIn (machine L key) (Calm cell)
      (Run.start N key junk cfg content built lib fuel) evs r)
    (k : Fin N) (hfailed : (r.state.workers k).failed = true) :
    (logs evs (some k)).Attributed (r.state.workers k).error := by
  have hkeeps : ∀ i, (harness N junk cfg fuel i).wp (reportsOf i) (reportEnds i)
      ((fun _ => {} : Tid N → Report) i) := keepsTo_reports junk cfg fuel
  obtain ⟨ts, hreported, hwp⟩ := h.upheld (upholds_reported hL key)
    (fun k => reported_start cfg content built lib k) hkeeps
  have hk := hreported k
  have hfair : (ts (some k)).Fair := fair_of_wp (hwp (some k))
  rw [← hk.log, ← hk.error]
  rcases hfair (hk.failed.trans hfailed) with hnone | hrecorded
  · exact Or.inl hnone
  · obtain ⟨x, hmet, -⟩ := hk.agrees
    refine attributed_of_recorded hrecorded fun d hd d' hd' => ?_
    exact (hmet.reads d hd).trans (hmet.reads d' hd').symm

theorem errors_attributed_noisy :
    ∃ evs r, TracedIn (machine (noisy 0) fun _ _ => none) (Calm id) Run.noisy evs r ∧
      (r.state.workers 0).failed = true ∧
      (logs evs (some 0)).Attributed (r.state.workers 0).error := by
  obtain ⟨evs, r, hrun, hfailed, -⟩ := noisy_runs 0
  -- no failure moves the last error
  have hcalm : TracedIn (machine (noisy 0) fun _ _ => none) (Calm id) Run.noisy evs r :=
    hrun.mono fun _ _ _ h _ _ => h rfl
  exact ⟨evs, r, hcalm, hfailed,
    errors_attributed (noisy_errorCell 0) _ _ _ _ _ _ hcalm 0 hfailed⟩

theorem said_oneByte {b : UInt8} (hb : b ≠ 0) (n : Nat) : said (n + 2) (oneByte b) = [b] := by
  have hcut : Buffer.overlay (zeros (n + 2)) [b] = b :: 0 :: zeros n := by
    simp [Buffer.overlay, zeros, List.replicate_succ]
  unfold said oneByte
  rw [hcut, List.takeWhile_cons_of_pos (by simpa using hb)]
  rfl

/-- **Two workers that fail together**: worker 0 records its own status with
the diagnostic of worker 1. -/
theorem noisy_misattributed :
    ErrorCell (noisy 1) id ∧
      Returns (buildPipelines (noisy 1) hollowConfig) ⟨65, []⟩ (some hollowBuilt) 65 ∧
      ∃ evs r, Traced (machine (noisy 1) fun _ _ => none) Run.noisy evs r ∧
        (r.state.workers 0).failed = true ∧
        ¬ (logs evs (some 0)).Attributed (r.state.workers 0).error := by
  obtain ⟨evs, r, hrun, hfailed, hreads, pre, herror⟩ := noisy_runs 1
  refine ⟨noisy_errorCell 1, noisy_builds 1, evs, r, hrun.traced, hfailed, fun hattr => ?_⟩
  have hsaid : ∀ b : UInt8, b ≠ 0 → said 2048 (oneByte b) = [b] :=
    fun b hb => said_oneByte hb 2046
  rw [hsaid _ (by decide), hsaid _ (by decide)] at hreads
  rcases hattr with ⟨hnone, -⟩ | ⟨d, pre', hd, htext⟩
  · rw [hreads] at hnone
    cases hnone
  · -- the text ends with the byte of the second reading, the error with that of the first
    rw [hreads] at hd
    obtain rfl : [65 + 1] = d := Option.some.inj hd
    rw [herror, hsaid _ (by decide)] at htext
    have hlast := congrArg List.getLast? htext
    unfold rendered at hlast
    rw [← List.append_assoc, List.getLast?_concat, ← List.append_assoc, List.getLast?_concat]
      at hlast
    exact absurd hlast (by decide)

end Results

end Loop

end ItbCpp
