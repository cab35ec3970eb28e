/-
  ItbCpp.Loop.Ledger
  ──────────────────
  **THE FIGURES OF A RUN, THREAD BY THREAD.**

  What one thread knows of the figures of the summary: a worker knows its
  own record and what it added to the shared counters, main knows whom it
  has joined.  The protocol (`ledger`) says when a thread may ask for a
  stop and how a worker may change its record.

    • `yields_iterate` — an iteration counts once, or the worker has failed,
    • `yields_workerMaintenance` — the counters move when they are due,
    • `settles_workerMain`, `settles_mainThread` — what a thread's ledger
      says at its end.
-/
import ItbCpp.Loop.Conduct
import Mathlib.Data.Nat.Init

namespace ItbCpp.Loop

open Thread

/-! ## §1. The ledger. -/

/-- What the summary reads of a worker, and the size of its payload. -/
structure Figures where
  size : Nat
  iters : Nat
  bytesEnc : Nat
  bytesDec : Nat
  failed : Bool

/-- The figures of a record. -/
def Worker.figures (w : Worker) : Figures where
  size := w.plaintext.length
  iters := w.iters
  bytesEnc := w.bytesEnc
  bytesDec := w.bytesDec
  failed := w.failed

/-- The same, with an error recorded. -/
def Figures.fail (x : Figures) : Figures := { x with failed := true }

/-- One round trip more. -/
def Figures.count (x : Figures) : Figures :=
  { x with
    iters := x.iters + 1
    bytesEnc := x.bytesEnc + x.size
    bytesDec := x.bytesDec + x.size }

/-- Every round trip moved the payload once each way. -/
structure Figures.Balanced (x : Figures) : Prop where
  enc : x.bytesEnc = x.iters * x.size
  dec : x.bytesDec = x.iters * x.size

theorem Figures.Balanced.fail {x : Figures} (h : x.Balanced) : x.fail.Balanced := ⟨h.enc, h.dec⟩

theorem Figures.Balanced.count {x : Figures} (h : x.Balanced) : x.count.Balanced := by
  refine ⟨?_, ?_⟩
  · show x.bytesEnc + x.size = (x.iters + 1) * x.size
    rw [h.enc, Nat.add_one_mul]
  · show x.bytesDec + x.size = (x.iters + 1) * x.size
    rw [h.dec, Nat.add_one_mul]

/-- What a thread knows. -/
structure Ledger where
  figures : Figures := ⟨0, 0, 0, 0, false⟩
  /-- a worker's share of the two counters -/
  rekeys : Nat := 0
  cycles : Nat := 0
  /-- the worker has found `stop` set -/
  stopped : Bool := false
  /-- the thread function has returned -/
  returned : Bool := false
  /-- round trips may be counted -/
  counting : Bool := true
  /-- how many workers main has joined -/
  joined : Nat := 0
  /-- main has found `signal_seen` set -/
  signalled : Bool := false

/-- Where an answer takes a ledger. -/
def Ledger.told (t : Ledger) : (q : Req) → q.Answer → Ledger → Prop
  | .self, w, t' => w.figures = t.figures ∧ t' = t
  | .setSelf f, _, t' => ∃ w, w.figures = t.figures ∧ t' = { t with figures := (f w).figures }
  | .fillPayload n, drawn, t' => (∀ b, drawn = some b → b.length = n) ∧ t' = t
  | .addRekeys, _, t' => t' = { t with rekeys := t.rekeys + 1 }
  | .addBlobCycles, _, t' => t' = { t with cycles := t.cycles + 1 }
  | .loadStop, b, t' => t' = { t with stopped := t.stopped || b }
  | .signalSeen, b, t' => t' = { t with signalled := t.signalled || b }
  | .return_, _, t' => t' = { t with returned := true }
  | .join _, _, t' => t' = { t with joined := t.joined + 1 }
  | _, _, t' => t' = t

/-- How a worker may change its record. -/
def Ledger.MaySet (t : Ledger) (f : Worker → Worker) : Prop :=
  ∀ w, w.figures = t.figures → (f w).figures = t.figures ∨ (f w).figures = t.figures.fail ∨
    (t.counting = true ∧ (f w).figures.failed = t.figures.failed ∧
      (f w).figures.size = t.figures.size)

/-- What thread `i` may ask while it runs. -/
def Ledger.may {N : Nat} (cfg : Config) (i : Tid N) (t : Ledger) : Req → Prop
  | .setSelf f => t.MaySet f
  -- a worker that has failed; main on a signal or in duration mode
  | .storeStop => (i ≠ none → t.figures.failed = true) ∧
      (i = none → t.signalled = true ∨ cfg.iterations = 0)
  | .addRekeys | .addBlobCycles | .return_ => i ≠ none
  | .signalSeen => i = none
  | .join k => i = none ∧ k = t.joined
  | .exit code => code = 3
  | _ => True

/-- The protocol of thread `i`. -/
def ledger {N : Nat} (cfg : Config) (i : Tid N) : Protocol Req Req.Answer Ledger where
  asks t q := t.returned = false ∧ t.may cfg i q
  told := Ledger.told
  spins t := t.returned = false

/-- The requests that leave every ledger alone. -/
def Req.neutral : Req → Bool
  | .setSelf _ | .storeStop | .addRekeys | .addBlobCycles | .loadStop | .signalSeen | .return_
  | .join _ | .exit _ => false
  | _ => true

/-- An interval that has come round `n` times. -/
def dues (every : Int) (n : Nat) : Nat := if 0 < every then n / every.toNat else 0

theorem dues_succ (every : Int) (n : Nat) :
    dues every (n + 1) = dues every n + (due every (n + 1)).toNat := by
  unfold dues due
  by_cases h : 0 < every
  · obtain ⟨e, rfl⟩ := Int.eq_ofNat_of_zero_le (Int.le_of_lt h)
    have hdvd : ((n + 1 : Nat) : Int) % (e : Int) = 0 ↔ e ∣ n + 1 := by
      rw [← Int.natCast_emod, Int.natCast_eq_zero, Nat.dvd_iff_mod_eq_zero]
    rw [if_pos h, if_pos h, Int.toNat_natCast, Nat.succ_div]
    by_cases hd : e ∣ n + 1
    · rw [if_pos hd, decide_eq_true ⟨h, hdvd.mpr hd⟩]
      rfl
    · rw [if_neg hd, decide_eq_false fun hc => hd (hdvd.mp hc.2)]
      rfl
  · rw [if_neg h, if_neg h, decide_eq_false fun hc => h hc.1]
    rfl

theorem dues_zero (every : Int) : dues every 0 = 0 := by
  unfold dues
  split
  · exact Nat.zero_div _
  · rfl

section Walks

variable {N : Nat} {cfg : Config} {i : Tid N} {k : Fin N} {t u v : Ledger} {α : Type}

/-! ## §2. Requests that change no figure. -/

theorem stays_neutral (ht : t.returned = false) {q : Req} (hq : q.neutral = true) :
    Stays (ledger cfg i) NoExn (ask q) t := by
  cases q with
  | setSelf | storeStop | addRekeys | addBlobCycles | loadStop | signalSeen | return_ | join
  | exit => cases hq
  | self | fillPayload => exact ⟨⟨ht, trivial⟩, fun _ _ h => h.2⟩
  | _ => exact ⟨⟨ht, trivial⟩, fun _ _ h => h⟩

theorem stays_call (ht : t.returned = false) (c : FfiCall) :
    Stays (ledger cfg i) NoExn (libraryCall c) t := by
  refine stays_bind (stays_neutral ht rfl) fun _ => ?_
  exact stays_bind (stays_neutral ht rfl) fun _ => stays_neutral ht rfl

/-- A change of the buffers changes no figure. -/
theorem figures_of_buffers {f : Worker → Worker} (hf : Worker.Buffers f) (w : Worker) :
    (f w).figures = w.figures := by
  simp only [Worker.figures, hf.plaintext, hf.iters, hf.bytesEnc, hf.bytesDec, hf.failed]

theorem undisturbed (ht : t.returned = false) : Undisturbed (ledger cfg i) t where
  call := stays_call ht
  self := stays_neutral ht rfl
  buffers f hf := by
    refine ⟨⟨ht, fun w hw => Or.inl ((figures_of_buffers hf w).trans hw)⟩, fun _ t' h => ?_⟩
    obtain ⟨w, hw, rfl⟩ := h
    show ({ t with figures := (f w).figures } : Ledger) = t
    rw [figures_of_buffers hf, hw]
  spins := ht

/-! ## §3. Results. -/

/-- After a failure: an error is recorded, and nothing was counted. -/
structure Broken (t t' : Ledger) : Prop where
  figures : t'.figures = t.figures.fail
  returned : t'.returned = false

/-- The call gives a result that is `won` and takes the ledger to `u`, or
the worker has failed. -/
def Yields (cfg : Config) (i : Tid N) (m : Task α) (won : α → Bool) (t u : Ledger) : Prop :=
  m.wp (ledger cfg i)
    ⟨fun x t' => (won x = true ∧ t' = u) ∨ (won x = false ∧ Broken t t'), fun _ _ => False⟩ t

/-- What is left to show once a call has given its result. -/
theorem Yields.wp {m : Task α} {won : α → Bool} {R : Ends Exn Ledger α}
    (h : Yields cfg i m won t u) (hwon : ∀ x, won x = true → R.ok x u)
    (hlost : ∀ x t', won x = false → Broken t t' → R.ok x t') : m.wp (ledger cfg i) R t := by
  refine Thread.wp.mono h ?_ fun _ _ h => h.elim
  intro x t' hx
  rcases hx with ⟨hx, rfl⟩ | ⟨hx, hb⟩
  · exact hwon x hx
  · exact hlost x t' hx hb

theorem yields_won {x : α} {won : α → Bool} (hx : won x = true) :
    Yields cfg i (Thread.ret x) won t t := Or.inl ⟨hx, rfl⟩

/-- A call that changes nothing, then one that gives a result. -/
theorem yields_after {β : Type} {m : Task β} {f : β → Task α} {won : α → Bool}
    (hm : Stays (ledger cfg i) NoExn m t) (hf : ∀ b, Yields cfg i (f b) won t u) :
    Yields cfg i (m >>= f) won t u := by
  unfold Yields
  rw [wp_bind]
  exact hm.wp hf fun _ he => he.elim

theorem yields_ite {c : Prop} [Decidable c] {m m' : Task α} {won : α → Bool}
    (h : c → Yields cfg i m won t u) (h' : ¬ c → Yields cfg i m' won t u) :
    Yields cfg i (if c then m else m') won t u := by
  by_cases hc : c
  · rw [if_pos hc]
    exact h hc
  · rw [if_neg hc]
    exact h' hc

/-- One call, and the other only if the first was won. -/
theorem yields_and {m m' : Task Bool} (h : Yields cfg i m (fun b => b) t u)
    (h' : Yields cfg i m' (fun b => b) u v) (hu : u.figures = t.figures) :
    Yields cfg i (m >>= fun b => if b then m' else .ret false) (fun b => b) t v := by
  unfold Yields
  rw [wp_bind]
  refine h.wp (fun b hb => ?_) fun b t' hb hbroken => ?_
  · obtain rfl : b = true := hb
    refine Yields.wp h' (fun b hb => Or.inl ⟨hb, rfl⟩) fun b t' hb hbroken => ?_
    exact Or.inr ⟨hb, ⟨hu ▸ hbroken.figures, hbroken.returned⟩⟩
  · obtain rfl : b = false := hb
    exact Or.inr ⟨rfl, hbroken⟩

/-- A scope whose destructor changes nothing. -/
theorem yields_ensuring {m : Task α} {d : Task Unit} {won : α → Bool}
    (hm : Yields cfg i m won t u) (hu : u.returned = false)
    (hd : ∀ t', t'.returned = false → Stays (ledger cfg i) NoExn d t') :
    Yields cfg i (m.ensuring d) won t u := by
  unfold Yields
  rw [wp_ensuring]
  refine hm.wp (fun x hx => ?_) fun x t' hx hbroken => ?_
  · exact (hd u hu).wp (fun _ => Or.inl ⟨hx, rfl⟩) fun _ he => he.elim
  · exact (hd t' hbroken.returned).wp (fun _ => Or.inr ⟨hx, hbroken⟩) fun _ he => he.elim

/-- **`worker_fail`**, then giving up. -/
theorem yields_fail (ht : t.returned = false) (text : Bytes) {x : α} {won : α → Bool}
    (hx : won x = false) :
    Yields cfg (some k) (workerFail text >>= fun _ => .ret x) won t u := by
  -- whichever error is kept, one is recorded now
  have hfail : ∀ w : Worker, w.figures = t.figures →
      (if w.failed then w else { w with error := text, failed := true }).figures =
        t.figures.fail := by
    intro w hw
    rw [← hw]
    cases hwf : w.failed with
    | true => simp [Worker.figures, Figures.fail, hwf]
    | false => rfl
  refine ⟨⟨ht, fun w hw => Or.inr (Or.inl (hfail w hw))⟩, fun _ t₁ h₁ => ?_⟩
  obtain ⟨w, hw, rfl⟩ := h₁
  have hfigures := hfail w hw
  refine ⟨⟨ht, ?_⟩, fun _ t₂ h₂ => ?_⟩
  · exact ⟨fun _ => congrArg Figures.failed hfigures, fun h => (by cases h)⟩
  · obtain rfl := h₂
    exact Or.inr ⟨hx, ⟨hfigures, ht⟩⟩

/-! ## §4. One iteration. -/

theorem yields_refill (ht : t.returned = false) (id iter : Nat) :
    Yields cfg (some k) (refill cfg id iter) (fun b => b) t t := by
  refine yields_ite (fun _ => ?_) fun _ => yields_won rfl
  refine ⟨⟨ht, trivial⟩, fun w t₁ h₁ => ?_⟩
  obtain ⟨hw, rfl⟩ := h₁
  refine ⟨⟨ht, trivial⟩, fun drawn t₂ h₂ => ?_⟩
  obtain ⟨hlen, rfl⟩ := h₂
  cases drawn with
  | some b =>
      -- what is drawn is as long as what was there
      have hsize : ∀ w' : Worker, w'.figures = t₂.figures →
          ({ w' with plaintext := b } : Worker).figures = t₂.figures := by
        intro w' hw'
        have hb : b.length = t₂.figures.size := (hlen b rfl).trans (congrArg Figures.size hw)
        rw [← hw'] at hb ⊢
        simp only [Worker.figures, Figures.mk.injEq, and_true]
        exact hb
      refine ⟨⟨ht, fun w' hw' => Or.inl (hsize w' hw')⟩, fun _ t₃ h₃ => ?_⟩
      obtain ⟨w', hw', rfl⟩ := h₃
      refine Or.inl ⟨rfl, ?_⟩
      show ({ t₂ with figures := _ } : Ledger) = t₂
      rw [hsize w' hw']
  | none => exact yields_fail ht _ rfl

theorem yields_cipherFail (ht : t.returned = false) (id iter : Nat) (shape : Shape)
    (direction stage : String) (e : Error) :
    Yields cfg (some k) (cipherFail id iter shape direction stage e >>= fun _ =>
      (.ret none : Task (Option Bytes))) Option.isSome t u := by
  show Yields cfg (some k) ((detail e >>= fun d => workerFail _) >>= fun _ => _) _ t u
  rw [bind_bind]
  exact yields_after (stays_detail (undisturbed ht) e) fun d => yields_fail ht _ rfl

theorem yields_streamTrip (ht : t.returned = false) (id iter fuel : Nat) :
    Yields cfg (some k) (streamTrip id iter fuel) Option.isSome t t := by
  have hself : Stays (ledger cfg (some k)) NoExn (ask .self) t := stays_neutral ht rfl
  refine yields_after (stays_neutral ht rfl) fun h => yields_after hself fun w => ?_
  refine yields_after (stays_pump (undisturbed ht) _ _ _ _ fuel) fun r => ?_
  cases r with
  | error e => exact yields_after hself fun w => yields_cipherFail ht _ _ _ "encrypt" _ e
  | ok _ =>
      refine yields_after (stays_neutral ht rfl) fun h => yields_after hself fun w => ?_
      refine yields_after (stays_pump (undisturbed ht) _ _ _ _ fuel) fun r => ?_
      cases r with
      | error e => exact yields_after hself fun w => yields_cipherFail ht _ _ _ "decrypt" _ e
      | ok _ => exact yields_after hself fun w => yields_won rfl

theorem yields_wholeTrip (ht : t.returned = false) (id iter : Nat) (shape : Shape) (p : Pipe)
    {encrypt decrypt : Pipeline → Bytes → Call Bytes}
    (hencrypt : ∀ self src, (encrypt self src).Throws Exn.IsError)
    (hdecrypt : ∀ self src, (decrypt self src).Throws Exn.IsError) :
    Yields cfg (some k) (wholeTrip id iter shape p encrypt decrypt) Option.isSome t t := by
  refine yields_after (stays_attempt ?_) fun wire => ?_
  · refine stays_bind (Stays.anyExn (stays_neutral ht rfl)) fun h => ?_
    refine stays_bind (Stays.anyExn (stays_neutral ht rfl)) fun w => ?_
    exact (undisturbed ht).lib (hencrypt _ _)
  · cases wire with
    | error e => exact yields_cipherFail ht _ _ _ "encrypt" _ e
    | ok wire =>
        refine yields_after (stays_attempt ?_) fun plain => ?_
        · refine stays_bind (Stays.anyExn (stays_neutral ht rfl)) fun h => ?_
          exact (undisturbed ht).lib (hdecrypt _ _)
        · cases plain with
          | error e => exact yields_cipherFail ht _ _ _ "decrypt" _ e
          | ok plain => exact yields_won rfl

theorem yields_roundTrip (ht : t.returned = false) (junk : Nat → Nat → UInt8)
    (id iter fuel : Nat) (shape : Shape) :
    Yields cfg (some k) (roundTrip junk id iter fuel shape) Option.isSome t t := by
  cases shape with
  | stream => exact yields_streamTrip ht id iter fuel
  | streamOneShot =>
      refine yields_wholeTrip ht id iter _ _ ?_ ?_
      · exact fun _ _ => Call.throws_cipherCall junk _ _ _ _
      · exact fun _ _ => Call.throws_cipherCall junk _ _ _ _
  | message =>
      refine yields_wholeTrip ht id iter _ _ ?_ ?_
      · exact fun _ _ => Call.throws_cipherCall junk _ _ _ _
      · exact fun _ _ => Call.throws_cipherCall junk _ _ _ _
  | both => exact yields_won rfl

/-- A change of the counters. -/
theorem wp_tally {f : Worker → Worker} {g : Figures → Figures}
    (hf : ∀ w, (f w).figures = g w.figures)
    (hg : ∀ x, (g x).failed = x.failed ∧ (g x).size = x.size)
    (ht : t.returned = false) (hc : t.counting = true) {R : Ends Exn Ledger Unit}
    (h : R.ok () { t with figures := g t.figures }) :
    (ask (.setSelf f)).wp (ledger cfg i) R t := by
  have hmay : t.MaySet f := by
    intro w hw
    rw [hf, hw]
    exact Or.inr (Or.inr ⟨hc, hg t.figures⟩)
  refine ⟨⟨ht, hmay⟩, fun _ t' h' => ?_⟩
  obtain ⟨w, hw, rfl⟩ := h'
  rw [hf, hw]
  exact h

/-- The ledger after a round trip. -/
def Ledger.count (t : Ledger) : Ledger := { t with figures := t.figures.count }

theorem yields_settle (ht : t.returned = false) (hc : t.counting = true) (got : Bytes) :
    Yields cfg i (settle got) (fun b => b) t t.count := by
  refine ⟨⟨ht, trivial⟩, fun w t₁ h₁ => ?_⟩
  obtain ⟨hw, rfl⟩ := h₁
  show Thread.wp _ (if got ≠ w.plaintext then _ else _) _ _
  rw [wp_ite]
  split
  · -- DATA MISMATCH: nothing is recorded, and the process is gone
    refine ⟨⟨ht, rfl⟩, fun _ t₂ h₂ => ?_⟩
    obtain rfl := h₂
    exact ht
  · rename_i hgot
    have hlen : got.length = t₁.figures.size := by
      rw [not_not.mp hgot]
      exact congrArg Figures.size hw
    refine (wp_bind _ _).mpr (wp_tally (g := fun x => { x with iters := x.iters + 1 })
      (fun _ => rfl) (fun _ => ⟨rfl, rfl⟩) (by exact ht) (by exact hc) ?_)
    refine (wp_bind _ _).mpr (wp_tally (g := fun x => { x with bytesEnc := x.bytesEnc + x.size })
      (fun _ => rfl) (fun _ => ⟨rfl, rfl⟩) (by exact ht) (by exact hc) ?_)
    refine (wp_bind _ _).mpr (wp_tally
      (g := fun x => { x with bytesDec := x.bytesDec + got.length })
      (fun _ => rfl) (fun _ => ⟨rfl, rfl⟩) (by exact ht) (by exact hc) ?_)
    refine Or.inl ⟨rfl, ?_⟩
    show ({ t₁ with figures := _ } : Ledger) = _
    rw [hlen]
    rfl

/-- **An iteration counts one round trip, or records an error.** -/
theorem yields_iterate (ht : t.returned = false) (hc : t.counting = true)
    (junk : Nat → Nat → UInt8) (id iter fuel : Nat) :
    Yields cfg (some k) (iterate junk cfg id iter fuel) (fun b => b) t t.count := by
  refine yields_and (yields_refill ht id iter) ?_ rfl
  refine yields_after (stays_neutral ht rfl) fun _ => ?_
  refine yields_ensuring ?_ ht fun t' ht' => stays_neutral ht' rfl
  unfold Yields
  rw [wp_bind]
  refine (yields_roundTrip ht junk id iter fuel _).wp (fun x hx => ?_) fun x t' hx hbroken => ?_
  · cases x with
    | some got => exact yields_settle ht hc got
    | none => cases hx
  · cases x with
    | some got => cases hx
    | none => exact Or.inr ⟨rfl, hbroken⟩

/-! ## §5. Maintenance. -/

theorem yields_drawMaster (ht : t.returned = false) (on : Bool) (layer : String)
    (id iter : Nat) :
    Yields cfg (some k) (drawMaster on layer id iter) Option.isSome t t := by
  refine yields_ite (fun _ => ?_) fun _ => yields_won rfl
  refine yields_after (stays_neutral ht rfl) fun drawn => ?_
  cases drawn with
  | some b => exact yields_won rfl
  | none => exact yields_fail ht _ rfl

theorem yields_maintenanceFail (ht : t.returned = false) (id iter : Nat) (op : String)
    (p : Pipe) (e : Error) :
    Yields cfg (some k) (maintenanceFail cfg id iter op p e) (fun b => b) t u :=
  yields_after (stays_detail (undisturbed ht) e) fun _ => yields_fail ht _ rfl

theorem yields_rekeyPipe (ht : t.returned = false) (id iter : Nat) (perm wrap : Bytes)
    (p : Pipe) :
    Yields cfg (some k) (rekeyPipe cfg id iter perm wrap p) (fun b => b) t t := by
  refine yields_after (stays_neutral ht rfl) fun has => ?_
  refine yields_ite (fun _ => ?_) fun _ => yields_won rfl
  refine yields_after (stays_attempt ?_) fun done => ?_
  · refine stays_bind (Stays.anyExn (stays_neutral ht rfl)) fun h => ?_
    refine stays_bind ((undisturbed ht).lib (Call.throws_rekey _ _ _)) fun b => ?_
    exact Stays.anyExn (stays_neutral ht rfl)
  · cases done with
    | ok _ => exact yields_won rfl
    | error e => exact yields_maintenanceFail ht id iter "Rekey" p e

theorem yields_blobCyclePipe (ht : t.returned = false) (id iter : Nat) (p : Pipe) :
    Yields cfg (some k) (blobCyclePipe cfg id iter p) (fun b => b) t t := by
  refine yields_after (stays_neutral ht rfl) fun has => ?_
  refine yields_ite (fun _ => ?_) fun _ => yields_won rfl
  refine yields_after (stays_attempt ?_) fun done => ?_
  · refine stays_bind (Stays.anyExn (stays_neutral ht rfl)) fun b => ?_
    refine stays_bind ((undisturbed ht).lib (Call.throws_load _ _ _)) fun fresh => ?_
    refine stays_bind (Stays.anyExn (stays_neutral ht rfl)) fun h => ?_
    refine stays_bind ((undisturbed ht).lib (Call.throws_moveAssign _ _)) fun x => ?_
    refine stays_bind (Stays.anyExn (stays_neutral ht rfl)) fun _ => ?_
    exact (undisturbed ht).lib (Call.throws_destroyPipeline _)
  · cases done with
    | ok _ => exact yields_won rfl
    | error e => exact yields_maintenanceFail ht id iter "Load" p e

/-- Both Pipelines under the write lock, then the counter. -/
theorem yields_bothPipes {stream msg counter : Task Bool}
    (hs : Yields cfg (some k) stream (fun b => b) t t)
    (hm : Yields cfg (some k) msg (fun b => b) t t)
    (hc : Yields cfg (some k) counter (fun b => b) t u) (ht : t.returned = false)
    (hu : u.returned = false) :
    Yields cfg (some k) (ask .lock >>= fun _ => Thread.ensuring
      (stream >>= fun a => if a then msg >>= fun b => if b then counter else .ret false
        else .ret false) (ask .unlock)) (fun b => b) t u := by
  refine yields_after (stays_neutral ht rfl) fun _ => ?_
  refine yields_ensuring ?_ hu fun t' ht' => stays_neutral ht' rfl
  exact yields_and hs (yields_and hm hc rfl) rfl

theorem yields_rekeyPipes (ht : t.returned = false) (id iter : Nat) :
    Yields cfg (some k) (rekeyPipes cfg id iter) (fun b => b) t
      { t with rekeys := t.rekeys + 1 } := by
  have hcounter : Yields cfg (some k) (ask .addRekeys >>= fun _ => .ret true) (fun b => b) t
      { t with rekeys := t.rekeys + 1 } := by
    refine ⟨⟨ht, Option.some_ne_none k⟩, fun _ t' h => ?_⟩
    obtain rfl := h
    exact Or.inl ⟨rfl, rfl⟩
  unfold Yields rekeyPipes
  rw [wp_bind]
  refine (yields_drawMaster ht _ _ id iter).wp (fun x hx => ?_) fun x t' hx hbroken => ?_
  · cases x with
    | none => cases hx
    | some perm =>
        show Thread.wp _ (drawMaster _ _ _ _ >>= _) _ _
        rw [wp_bind]
        refine (yields_drawMaster ht _ _ id iter).wp (fun y hy => ?_) fun y t' hy hbroken => ?_
        · cases y with
          | none => cases hy
          | some wrap =>
              exact yields_bothPipes (yields_rekeyPipe ht id iter perm wrap .stream)
                (yields_rekeyPipe ht id iter perm wrap .msg) hcounter ht ht
        · cases y with
          | none => exact Or.inr ⟨rfl, hbroken⟩
          | some wrap => cases hy
  · cases x with
    | none => exact Or.inr ⟨rfl, hbroken⟩
    | some perm => cases hx

theorem yields_blobCyclePipes (ht : t.returned = false) (id iter : Nat) :
    Yields cfg (some k) (blobCyclePipes cfg id iter) (fun b => b) t
      { t with cycles := t.cycles + 1 } := by
  have hcounter : Yields cfg (some k) (ask .addBlobCycles >>= fun _ => .ret true) (fun b => b) t
      { t with cycles := t.cycles + 1 } := by
    refine ⟨⟨ht, Option.some_ne_none k⟩, fun _ t' h => ?_⟩
    obtain rfl := h
    exact Or.inl ⟨rfl, rfl⟩
  exact yields_bothPipes (yields_blobCyclePipe ht id iter .stream)
    (yields_blobCyclePipe ht id iter .msg) hcounter ht ht

/-- The ledger after the maintenance that was due. -/
def Ledger.maintained (cfg : Config) (iter : Nat) (t : Ledger) : Ledger :=
  { t with
    rekeys := t.rekeys + (due cfg.rekeyEvery iter).toNat
    cycles := t.cycles + (due cfg.blobCycleEvery iter).toNat }

/-- **Maintenance moves each counter when it is due**, or records an error. -/
theorem yields_workerMaintenance (ht : t.returned = false) (id iter : Nat) :
    Yields cfg (some k) (workerMaintenance cfg id iter) (fun b => b) t
      (t.maintained cfg iter) := by
  have hreopen : ∀ t₁ : Ledger, t₁.returned = false →
      Yields cfg (some k) (if due cfg.blobCycleEvery iter then blobCyclePipes cfg id iter
        else .ret true) (fun b => b) t₁
          { t₁ with cycles := t₁.cycles + (due cfg.blobCycleEvery iter).toNat } := by
    intro t₁ h₁
    refine yields_ite (fun hdue => ?_) fun hdue => ?_
    · rw [hdue]
      exact yields_blobCyclePipes h₁ id iter
    · rw [Bool.eq_false_iff.mpr hdue]
      exact yields_won rfl
  unfold Ledger.maintained
  refine yields_ite (fun hdue => ?_) fun hdue => ?_
  · rw [hdue]
    exact yields_and (yields_rekeyPipes ht id iter)
      (hreopen { t with rekeys := t.rekeys + 1 } ht) rfl
  · rw [Bool.eq_false_iff.mpr hdue]
    exact hreopen t ht

/-! ## §6. A worker. -/

/-- A worker that has made `n + 1` good iterations. -/
structure AtLap (cfg : Config) (n : Nat) (t : Ledger) : Prop where
  returned : t.returned = false
  counting : t.counting = true
  iters : t.figures.iters = n + 1
  failed : t.figures.failed = false
  balanced : t.figures.Balanced
  rekeys : t.rekeys = dues cfg.rekeyEvery n
  cycles : t.cycles = dues cfg.blobCycleEvery n
  within : 0 < cfg.iterations → (n : Int) + 1 ≤ cfg.iterations

/-- The figures of a worker that has recorded no error. -/
structure Sound (cfg : Config) (t : Ledger) : Prop where
  warmedUp : 1 ≤ t.figures.iters
  rekeys : t.rekeys = dues cfg.rekeyEvery (t.figures.iters - 1)
  cycles : t.cycles = dues cfg.blobCycleEvery (t.figures.iters - 1)
  /-- it went on until it was stopped or had made all its iterations -/
  spent : t.stopped = true ∨ (0 < cfg.iterations ∧ (t.figures.iters : Int) = cfg.iterations)

/-- A worker that iterates no more. -/
structure Settled (cfg : Config) (t : Ledger) : Prop where
  balanced : t.figures.Balanced
  sound : t.figures.failed = false → Sound cfg t

theorem AtLap.settled {n : Nat} (h : AtLap cfg n t)
    (hspent : t.stopped = true ∨ (0 < cfg.iterations ∧ (t.figures.iters : Int) = cfg.iterations)) :
    Settled cfg t := by
  have hn : t.figures.iters - 1 = n := by
    rw [h.iters]
    rfl
  refine ⟨h.balanced, fun _ => ⟨?_, ?_, ?_, hspent⟩⟩
  · rw [h.iters]
    exact Nat.le_add_left 1 n
  · rw [hn]
    exact h.rekeys
  · rw [hn]
    exact h.cycles

/-- A failure settles the worker. -/
theorem Broken.settled {t' : Ledger} (h : Broken t t') (hb : t.figures.Balanced) :
    Settled cfg t' := by
  refine ⟨h.figures ▸ hb.fail, fun hf => ?_⟩
  rw [h.figures] at hf
  cases hf

/-- How the loop of a worker ends. -/
def loopEnds (cfg : Config) : Ends Exn Ledger Unit where
  ok _ t := t.returned = false ∧ Settled cfg t
  threw _ _ := False

/-- From the lap after `n + 1` good ones on. -/
theorem settles_workerLoop (junk : Nat → Nat → UInt8) (id fuel₀ fuel n : Nat)
    (h : AtLap cfg n t) :
    (workerLoop junk cfg id fuel₀ fuel (n + 1)).wp (ledger cfg (some k)) (loopEnds cfg) t := by
  induction fuel generalizing n t with
  | zero => exact h.returned
  | succ fuel ih =>
      unfold workerLoop
      rw [wp_ite]
      split
      · rename_i hdone
        have hle := h.within hdone.1
        refine ⟨h.returned, h.settled (Or.inr ⟨hdone.1, ?_⟩)⟩
        rw [h.iters]
        omega
      · rename_i hmore
        refine ⟨⟨h.returned, trivial⟩, fun stop t₁ h₁ => ?_⟩
        obtain rfl := h₁
        show Thread.wp _ (if stop then _ else _) _ _
        rw [wp_ite]
        split
        · rename_i hstop
          have hlap : AtLap cfg n { t with stopped := t.stopped || stop } :=
            ⟨h.returned, h.counting, h.iters, h.failed, h.balanced, h.rekeys, h.cycles, h.within⟩
          refine ⟨h.returned, hlap.settled (Or.inl ?_)⟩
          show (t.stopped || stop) = true
          rw [hstop, Bool.or_true]
        · rw [wp_bind]
          refine (yields_iterate (by exact h.returned) (by exact h.counting) junk id (n + 1)
            fuel₀).wp (fun ok hok => ?_) fun ok t' hok hbroken => ?_
          · obtain rfl : ok = true := hok
            show Thread.wp _ (workerMaintenance _ _ _ >>= _) _ _
            rw [wp_bind]
            refine (yields_workerMaintenance (by exact h.returned) id (n + 1)).wp
              (fun ok hok => ?_) fun ok t' hok hbroken => ?_
            · obtain rfl : ok = true := hok
              refine ih (n + 1) ⟨h.returned, h.counting, ?_, h.failed, h.balanced.count, ?_, ?_, ?_⟩
              · exact congrArg (· + 1) h.iters
              · rw [dues_succ, ← h.rekeys]
                rfl
              · rw [dues_succ, ← h.cycles]
                rfl
              · intro hpos
                have hnot : ¬ cfg.iterations ≤ ((n + 1 : Nat) : Int) := fun hc => hmore ⟨hpos, hc⟩
                push_cast at hnot ⊢
                omega
            · obtain rfl : ok = false := hok
              exact ⟨hbroken.returned, hbroken.settled h.balanced.count⟩
          · obtain rfl : ok = false := hok
            exact ⟨hbroken.returned, hbroken.settled h.balanced⟩

theorem stays_arriveAndWait (ht : t.returned = false) (b : Barrier) :
    Stays (ledger cfg i) NoExn (arriveAndWait b) t :=
  stays_bind (stays_neutral ht rfl) fun _ => stays_neutral ht rfl

theorem stays_workerDone (ht : t.returned = false) :
    Stays (ledger cfg i) NoExn workerDone t := by
  refine stays_bind (stays_neutral ht rfl) fun _ => stays_ensuring ?_ (stays_neutral ht rfl)
  refine stays_bind (stays_neutral ht rfl) fun n => stays_bind (stays_neutral ht rfl) fun _ => ?_
  refine stays_ite (fun _ => ?_) fun _ => stays_ret _
  exact stays_bind (stays_neutral ht rfl) fun u => stays_neutral ht rfl

/-- A worker at its start. -/
structure Unbegun (t : Ledger) : Prop where
  returned : t.returned = false
  counting : t.counting = true
  iters : t.figures.iters = 0
  bytesEnc : t.figures.bytesEnc = 0
  bytesDec : t.figures.bytesDec = 0
  failed : t.figures.failed = false
  rekeys : t.rekeys = 0
  cycles : t.cycles = 0

theorem Unbegun.balanced (h : Unbegun t) : t.figures.Balanced := by
  refine ⟨?_, ?_⟩
  · rw [h.bytesEnc, h.iters, Nat.zero_mul]
  · rw [h.bytesDec, h.iters, Nat.zero_mul]

/-- The warmup iteration is the first lap. -/
theorem Unbegun.warmedUp (h : Unbegun t) : AtLap cfg 0 t.count := by
  refine ⟨h.returned, h.counting, ?_, h.failed, h.balanced.count, ?_, ?_, ?_⟩
  · exact congrArg (· + 1) h.iters
  · rw [dues_zero]
    exact h.rekeys
  · rw [dues_zero]
    exact h.cycles
  · intro hpos
    exact hpos

/-- How a worker ends. -/
def workerEnds (cfg : Config) : Ends Exn Ledger Unit where
  ok _ t := t.returned = true ∧ Settled cfg t
  threw _ _ := False

/-- **A worker's figures at its end.** -/
theorem settles_workerMain (junk : Nat → Nat → UInt8) (id fuel : Nat) (h : Unbegun t) :
    (workerMain junk cfg id fuel).wp (ledger cfg (some k)) (workerEnds cfg) t := by
  have hend : ∀ t', t'.returned = false → Settled cfg t' → ((do
      workerDone
      ask .return_) : Task Unit).wp (ledger cfg (some k)) (workerEnds cfg) t' := by
    intro t' ht' hs
    rw [wp_bind]
    refine (stays_workerDone ht').wp (fun _ => ?_) fun _ he => he.elim
    refine ⟨⟨ht', Option.some_ne_none k⟩, fun _ t₁ h₁ => ?_⟩
    obtain rfl := h₁
    exact ⟨rfl, ⟨hs.balanced, fun hf => ⟨(hs.sound hf).warmedUp, (hs.sound hf).rekeys,
      (hs.sound hf).cycles, (hs.sound hf).spent⟩⟩⟩
  -- both barriers, with a good warmup and with a failed one
  have hrest : ∀ (ok : Bool) (t' : Ledger), t'.returned = false →
      (ok = true → AtLap cfg 0 t') → (ok = false → Settled cfg t') → ((do
        arriveAndWait .warmupDone
        arriveAndWait .release
        if ok then workerLoop junk cfg id fuel fuel 1 else pure ()
        workerDone
        ask .return_) : Task Unit).wp (ledger cfg (some k)) (workerEnds cfg) t' := by
    intro ok t' ht' hgood hbad
    rw [wp_bind]
    refine (stays_arriveAndWait ht' _).wp (fun _ => ?_) fun _ he => he.elim
    show Thread.wp _ (arriveAndWait .release >>= _) _ _
    rw [wp_bind]
    refine (stays_arriveAndWait ht' _).wp (fun _ => ?_) fun _ he => he.elim
    show Thread.wp _ (if ok then _ else _) _ _
    rw [wp_ite]
    split
    · rename_i hok
      rw [wp_bind]
      refine (settles_workerLoop junk id fuel fuel 0 (hgood hok)).mono ?_ fun _ _ he => he.elim
      exact fun _ t₁ h₁ => hend t₁ h₁.1 h₁.2
    · rename_i hok
      exact hend t' ht' (hbad (Bool.eq_false_iff.mpr hok))
  unfold workerMain
  rw [wp_bind]
  refine (yields_iterate h.returned h.counting junk id 0 fuel).wp (fun ok hok => ?_)
    fun ok t' hok hbroken => ?_
  · exact hrest ok _ h.returned (fun _ => h.warmedUp) fun hf => Bool.noConfusion (hok.symm.trans hf)
  · refine hrest ok t' hbroken.returned (fun hf => Bool.noConfusion (hok.symm.trans hf)) fun _ => ?_
    exact hbroken.settled h.balanced

/-! ## §7. Main. -/

/-- How main goes through its wait loop. -/
theorem wp_waitLoop_ledger (start : Int) (fuel : Nat) {R : Ends Exn Ledger Unit}
    (hR : ∀ t' : Ledger, t'.returned = false → t'.joined = t.joined → R.ok () t')
    (ht : t.returned = false) :
    (waitLoop cfg start fuel).wp (ledger cfg (none : Tid N)) R t := by
  induction fuel generalizing t with
  | zero => exact ht
  | succ fuel ih =>
      -- `done_mu` is given up and taken again
      have hagain : ∀ t' : Ledger, t'.returned = false → t'.joined = t.joined → ((do
          ask .unlockDone
          ask .lockDone
          waitLoop cfg start fuel) : Task Unit).wp (ledger cfg (none : Tid N)) R t' := by
        intro t' ht' hj
        refine ⟨⟨ht', trivial⟩, fun _ t₁ h₁ => ?_⟩
        obtain rfl := h₁
        refine ⟨⟨ht', trivial⟩, fun _ t₂ h₂ => ?_⟩
        obtain rfl := h₂
        exact ih (fun t₃ h₃ hj₃ => hR t₃ h₃ (hj₃.trans hj)) ht'
      have hdeadline : ∀ t' : Ledger, t'.returned = false → t'.joined = t.joined →
          (if cfg.iterations = 0 then (do
            let u ← ask .now
            if overdue cfg start u then (do
              ask .storeStop
              ask .unlockDone
              ask .lockDone
              waitLoop cfg start fuel)
            else (do
              ask .unlockDone
              ask .lockDone
              waitLoop cfg start fuel))
          else (do
            ask .unlockDone
            ask .lockDone
            waitLoop cfg start fuel) : Task Unit).wp (ledger cfg (none : Tid N)) R t' := by
        intro t' ht' hj
        rw [wp_ite]
        split
        · rename_i hzero
          refine ⟨⟨ht', trivial⟩, fun u t₁ h₁ => ?_⟩
          obtain rfl := h₁
          show Thread.wp _ (if overdue cfg start u = true then _ else _) _ _
          rw [wp_ite]
          split
          · refine ⟨⟨ht', fun h => (h rfl).elim, fun _ => Or.inr hzero⟩, fun _ t₂ h₂ => ?_⟩
            obtain rfl := h₂
            exact hagain t₂ ht' hj
          · exact hagain t₁ ht' hj
        · exact hagain t' ht' hj
      refine ⟨⟨ht, trivial⟩, fun n t₁ h₁ => ?_⟩
      obtain rfl := h₁
      show Thread.wp _ (if 0 < n then _ else _) _ _
      rw [wp_ite]
      split
      · refine ⟨⟨ht, rfl⟩, fun seen t₂ h₂ => ?_⟩
        obtain rfl := h₂
        show Thread.wp _ (if seen = true then _ else _) _ _
        rw [wp_ite]
        split
        · rename_i hseen
          have hsignal : (t₁.signalled || seen) = true := by rw [hseen, Bool.or_true]
          refine ⟨⟨ht, fun h => (h rfl).elim, fun _ => Or.inl hsignal⟩, fun _ t₃ h₃ => ?_⟩
          obtain rfl := h₃
          exact hdeadline _ ht rfl
        · exact hdeadline _ ht rfl
      · exact hR t₁ ht rfl

theorem wp_joinAll (n m : Nat) {R : Ends Exn Ledger Unit}
    (hR : ∀ t' : Ledger, t'.returned = false → t'.joined = m + n → R.ok () t')
    (ht : t.returned = false) (hj : t.joined = m) :
    (joinAll n m).wp (ledger cfg (none : Tid N)) R t := by
  induction n generalizing m t with
  | zero => exact hR t ht hj
  | succ n ih =>
      refine ⟨⟨ht, rfl, hj.symm⟩, fun _ t₁ h₁ => ?_⟩
      obtain rfl := h₁
      refine ih (m + 1) (fun t' ht' hj' => hR t' ht' ?_) ht (congrArg (· + 1) hj)
      omega

/-- How main ends. -/
def mainEnds (N : Nat) : Ends Exn Ledger Unit where
  ok _ t := t.joined = N
  threw _ _ := False

theorem stays_poolSnapshot (ht : t.returned = false) :
    Stays (ledger cfg i) NoExn (poolSnapshotTake cfg) t := by
  have hlib : Stays (ledger cfg i) Exn.IsError
      (lib (Call.poolStats (List.replicate cfg.poolSlots 0))) t :=
    (undisturbed ht).lib (Call.throws_poolStats _)
  refine stays_bind (stays_attempt hlib) fun x => ?_
  cases x with
  | ok r => exact stays_ret _
  | error e => exact stays_ret _

/-- **Main has joined every worker at its end.** -/
theorem settles_mainThread (fuel : Nat) (ht : t.returned = false) (hj : t.joined = 0) :
    (mainThread cfg N fuel).wp (ledger cfg (none : Tid N)) (mainEnds N) t := by
  unfold mainThread
  rw [wp_bind]
  refine (stays_arriveAndWait ht _).wp (fun _ => ?_) fun _ he => he.elim
  show Thread.wp _ (poolSnapshotTake cfg >>= _) _ _
  rw [wp_bind]
  refine (stays_poolSnapshot ht).wp (fun _ => ?_) fun _ he => he.elim
  refine ⟨⟨ht, trivial⟩, fun start t₁ h₁ => ?_⟩
  obtain rfl := h₁
  refine ⟨⟨ht, trivial⟩, fun _ t₂ h₂ => ?_⟩
  obtain rfl := h₂
  show Thread.wp _ (arriveAndWait .release >>= _) _ _
  rw [wp_bind]
  refine (stays_arriveAndWait ht _).wp (fun _ => ?_) fun _ he => he.elim
  refine ⟨⟨ht, trivial⟩, fun _ t₃ h₃ => ?_⟩
  obtain rfl := h₃
  show Thread.wp _ (Thread.ensuring _ _ >>= _) _ _
  rw [wp_bind, wp_ensuring]
  refine wp_waitLoop_ledger start fuel (fun t₄ ht₄ hj₄ => ?_) ht
  refine ⟨⟨ht₄, trivial⟩, fun _ t₅ h₅ => ?_⟩
  obtain rfl := h₅
  show Thread.wp _ (joinAll N 0 >>= _) _ _
  rw [wp_bind]
  refine wp_joinAll N 0 (fun t₆ ht₆ hj₆ => ?_) ht₄ (hj₄.trans hj)
  show Thread.wp _ (poolSnapshotTake cfg >>= _) _ _
  rw [wp_bind]
  refine (stays_poolSnapshot ht₆).wp (fun _ => ?_) fun _ he => he.elim
  exact hj₆.trans (Nat.zero_add N)

end Walks

end ItbCpp.Loop
