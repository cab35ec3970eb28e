/-
  ItbCpp.Loop.Accounting
  ──────────────────────
  **RUN ACCOUNTING.**

  The figures of the summary in every state a run reaches: what a worker
  has counted is what came back equal to the plaintext, and at the end of
  a run without errors the counters are those the intervals ask for.

    • `Round`, `Laps` — one call of `iterate`, and all of a worker's so far,
    • `upholds_tallied` — the shared counters are the workers' shares,
    • `finalSummary` — the totals, the verdict and the exit code,
    • `run_accounted` — all of it, in one statement.
-/
import ItbCpp.Loop.Ledger
import ItbCpp.Loop.Shutdown
import Mathlib.Algebra.BigOperators.Fin

namespace ItbCpp.Loop

open Thread Interleave

/-! ## §1. One call of `iterate`. -/

/-- What an answer does to the record of the worker that asked. -/
def Worker.told (w : Worker) : (q : Req) → q.Answer → Worker → Prop
  | .self, a, w' => a = w ∧ w' = w
  | .setSelf f, _, w' => w' = f w
  | .fillPayload n, drawn, w' => (∀ b, drawn = some b → b.length = n) ∧ w' = w
  | _, _, w' => w' = w

/-- The call has returned `a`, and the worker's record is `w'`. -/
abbrev Ran {α : Type} (m : Task α) (w : Worker) (a : α) (w' : Worker) : Prop :=
  Runs Worker.told m w a w'

section Calls

variable (junk : Nat → Nat → UInt8) (cfg : Config) (id fuel : Nat)

/-- A call of `iterate` that has returned: no plaintext was drawn, the round
trip ended in an error, or it gave back the plaintext and was counted. -/
inductive Round (iter : Nat) (w : Worker) : Bool → Worker → Prop where
  | undrawn {w' : Worker} (refill : Ran (refill cfg id iter) w false w') : Round iter w false w'
  | failed {w₁ w' : Worker} (refill : Ran (refill cfg id iter) w true w₁)
      (trip : Ran (roundTrip junk id iter fuel (surface cfg.shape iter)) w₁ none w') :
      Round iter w false w'
  | matched {w₁ w₂ : Worker} {got : Bytes} (refill : Ran (refill cfg id iter) w true w₁)
      (trip : Ran (roundTrip junk id iter fuel (surface cfg.shape iter)) w₁ (some got) w₂)
      (equal : got = w₂.plaintext) :
      Round iter w true { w₂ with
        iters := w₂.iters + 1
        bytesEnc := w₂.bytesEnc + w₂.plaintext.length
        bytesDec := w₂.bytesDec + got.length }

/-- What a worker does when it does not iterate. -/
inductive Aside : {α : Type} → Task α → Prop where
  | barrier (b : Barrier) : Aside (arriveAndWait b)
  | loadStop : Aside (ask .loadStop)
  | maintenance (iter : Nat) : Aside (workerMaintenance cfg id iter)
  | done : Aside workerDone
  | return_ : Aside (ask .return_)

/-- The worker that began with `w₀` has called `iterate` for the iterations
before the `n`-th, always without an error recorded; `m` of the calls gave
back the plaintext. -/
inductive Laps (w₀ : Worker) : Nat → Nat → Worker → Prop where
  | start : Laps w₀ 0 0 w₀
  | matched {n m : Nat} {w w' : Worker} (before : Laps w₀ n m w) (fine : w.failed = false)
      (trip : Round junk cfg id fuel n w true w') : Laps w₀ (n + 1) (m + 1) w'
  | lost {n m : Nat} {w w' : Worker} (before : Laps w₀ n m w) (fine : w.failed = false)
      (trip : Round junk cfg id fuel n w false w') : Laps w₀ (n + 1) m w'
  | aside {n m : Nat} {w w' : Worker} {α : Type} {x y : Task α} (before : Laps w₀ n m w)
      (other : Aside cfg id x) (way : Leads Worker.told x w y w') : Laps w₀ n m w'

end Calls

section Calls

variable {junk : Nat → Nat → UInt8} {cfg : Config} {id fuel iter : Nat} {α β : Type}
  {w w' w₀ : Worker}

/-- A worker's own record, seen in its ledger. -/
theorem told_ledger (q : Req) (a : q.Answer) {t : Ledger} (h : w.figures = t.figures)
    (hq : w.told q a w') : ∃ t', t.told q a t' ∧ w'.figures = t'.figures := by
  cases q with
  | self =>
      obtain ⟨rfl, rfl⟩ := hq
      exact ⟨t, ⟨h, rfl⟩, h⟩
  | setSelf f =>
      obtain rfl := hq
      exact ⟨{ t with figures := (f w).figures }, ⟨w, h, rfl⟩, rfl⟩
  | fillPayload n =>
      obtain ⟨hlen, rfl⟩ := hq
      exact ⟨t, ⟨hlen, rfl⟩, h⟩
  | loadStop | addRekeys | addBlobCycles | signalSeen | return_ | join =>
      obtain rfl := hq
      exact ⟨_, rfl, h⟩
  | _ =>
      obtain rfl := hq
      exact ⟨t, rfl, h⟩

/-- The figures of a worker whose call has given its result. -/
theorem Ran.figures {m : Task α} {won : α → Bool} {t u : Ledger} {x : α}
    (hm : Yields cfg (some (0 : Fin 1)) m won t u) (h : Ran m w x w')
    (ht : w.figures = t.figures) :
    (won x = true ∧ w'.figures = u.figures) ∨ (won x = false ∧ w'.figures = w.figures.fail) := by
  obtain ⟨t', hrun, hw'⟩ := h.map (S := fun (w : Worker) (t : Ledger) => w.figures = t.figures)
    (fun _ q a _ _ hS hT => told_ledger q a hS hT) ht
  rcases wp.runs hm hrun with ⟨hx, rfl⟩ | ⟨hx, hbroken⟩
  · exact Or.inl ⟨hx, hw'⟩
  · refine Or.inr ⟨hx, ?_⟩
    rw [hw', hbroken.figures, ht]

/-- The ledger of a worker whose record is `w`. -/
def Worker.ledger (w : Worker) : Ledger := { figures := w.figures }

theorem Ran.refill {b : Bool} (h : Ran (refill cfg id iter) w b w') :
    w'.figures = if b then w.figures else w.figures.fail := by
  rcases h.figures (yields_refill (t := w.ledger) rfl id iter) rfl with ⟨rfl, hw⟩ | ⟨rfl, hw⟩
  · exact hw
  · exact hw

theorem Ran.roundTrip {shape : Shape} {got : Option Bytes}
    (h : Ran (roundTrip junk id iter fuel shape) w got w') :
    w'.figures = if got.isSome then w.figures else w.figures.fail := by
  have hyields : Yields {} (some (0 : Fin 1)) (Loop.roundTrip junk id iter fuel shape)
      Option.isSome w.ledger w.ledger := yields_roundTrip rfl junk id iter fuel shape
  rcases h.figures hyields rfl with ⟨hx, hw⟩ | ⟨hx, hw⟩
  · rw [hx]
    exact hw
  · rw [hx]
    exact hw

/-- **What a call of `iterate` does to the figures.** -/
theorem Round.figures {b : Bool} (h : Round junk cfg id fuel iter w b w') :
    w'.figures = if b then w.figures.count else w.figures.fail := by
  cases h with
  | undrawn refill => exact refill.refill
  | failed refill trip =>
      have hrefill := refill.refill
      have htrip := trip.roundTrip
      rw [hrefill] at htrip
      exact htrip
  | @matched w₁ w₂ got refill trip equal =>
      have hrefill := refill.refill
      have htrip : w₂.figures = w.figures := trip.roundTrip.trans hrefill
      show _ = w.figures.count
      rw [← htrip, equal]
      rfl

/-- **A call of `iterate` that has returned is a trip.** -/
theorem round_of_ran {b : Bool} (h : Ran (iterate junk cfg id iter fuel) w b w') :
    Round junk cfg id fuel iter w b w' := by
  obtain ⟨drawn, w₁, hrefill, hrest⟩ := runs_bind.mp h
  rcases runs_ite.mp hrest with ⟨rfl, hrest⟩ | ⟨hdrawn, hrest⟩
  · obtain ⟨_, u, hlock, hscope⟩ := runs_bind.mp hrest
    obtain rfl : u = w₁ := runs_call.mp hlock
    obtain ⟨v, hbody, hunlock⟩ := runs_ensuring.mp hscope
    obtain rfl : w' = v := runs_call.mp hunlock
    obtain ⟨got, w₂, htrip, hsettle⟩ := runs_bind.mp hbody
    cases got with
    | none =>
        obtain ⟨rfl, rfl⟩ := runs_ret.mp hsettle
        exact .failed hrefill htrip
    | some got =>
        obtain ⟨a, w₃, hself, hcompare⟩ := runs_bind.mp hsettle
        obtain ⟨rfl, rfl⟩ : a = w₂ ∧ w₃ = w₂ := runs_call.mp hself
        rcases runs_ite.mp hcompare with ⟨-, hexit⟩ | ⟨hequal, hcount⟩
        · -- after a mismatch nothing returns
          obtain ⟨_, _, -, hspin⟩ := runs_bind.mp hexit
          cases hspin
        · obtain ⟨_, x₁, h₁, hcount⟩ := runs_bind.mp hcount
          obtain ⟨_, x₂, h₂, hcount⟩ := runs_bind.mp hcount
          obtain ⟨_, x₃, h₃, hcount⟩ := runs_bind.mp hcount
          obtain ⟨rfl, rfl⟩ := runs_ret.mp hcount
          obtain rfl := runs_call.mp h₁
          obtain rfl := runs_call.mp h₂
          obtain rfl := runs_call.mp h₃
          exact .matched hrefill htrip (not_not.mp hequal)
  · obtain ⟨rfl, rfl⟩ := runs_ret.mp hrest
    obtain rfl : drawn = false := Bool.eq_false_iff.mpr hdrawn
    exact .undrawn hrefill

/-! ## §2. The calls of a worker. -/

theorem Ran.stays {m : Task α} {E : Exn → Prop} {x : α}
    (hm : Stays (ledger cfg (some (0 : Fin 1))) E m w.ledger) (h : Ran m w x w') :
    w'.figures = w.figures := by
  obtain ⟨t', hrun, hw'⟩ := h.map (S := fun (w : Worker) (t : Ledger) => w.figures = t.figures)
    (fun _ q a _ _ hS hT => told_ledger q a hS hT) (u := w.ledger) rfl
  have ht' : t' = w.ledger := wp.runs hm hrun
  rw [hw', ht']
  rfl

variable (junk cfg id fuel w₀) in
/-- Where a worker is: between two calls of `iterate`, or inside one. -/
inductive History (w : Worker) : Prop where
  | between {n m : Nat} (laps : Laps junk cfg id fuel w₀ n m w)
  | inside {n m : Nat} {w₁ : Worker} {x : Task Bool} (laps : Laps junk cfg id fuel w₀ n m w₁)
      (fine : w₁.failed = false)
      (way : Leads Worker.told (iterate junk cfg id n fuel) w₁ x w)

/-- No round trip is counted on the way, wherever the thread has come to. -/
theorem figures_of_leads {m y : Task α} {t t' : Ledger} {R : Ends Exn Ledger α}
    (hwp : m.wp (ledger cfg (some (0 : Fin 1))) R t) (hc : t.counting = false)
    (h : Leads Ledger.told m t y t') :
    t'.counting = false ∧ (t'.figures = t.figures ∨ t'.figures = t.figures.fail) := by
  induction h with
  | here => exact ⟨hc, Or.inl rfl⟩
  | @on q k a t₁ t₂ far told ih =>
      obtain ⟨hcount, hfig⟩ := ih
      have hmay : t₁.may cfg (some (0 : Fin 1)) q := (hwp.leads far).1.2
      -- of all requests, only a change of the record can change a figure
      have hquiet : t₂.counting = t₁.counting → t₂.figures = t₁.figures →
          t₂.counting = false ∧ (t₂.figures = t.figures ∨ t₂.figures = t.figures.fail) := by
        intro h₁ h₂
        rw [h₁, h₂]
        exact ⟨hcount, hfig⟩
      cases q with
      | setSelf f =>
          obtain ⟨w, hw, rfl⟩ := told
          refine ⟨hcount, ?_⟩
          show (f w).figures = _ ∨ (f w).figures = _
          rcases hmay w hw with hsame | hfail | ⟨hyes, -⟩
          · rw [hsame]
            exact hfig
          · rw [hfail]
            rcases hfig with hfig | hfig
            · exact Or.inr (congrArg Figures.fail hfig)
            · exact Or.inr ((congrArg Figures.fail hfig).trans rfl)
          · exact Bool.noConfusion (hcount.symm.trans hyes)
      | self | fillPayload =>
          obtain ⟨-, rfl⟩ := told
          exact hquiet rfl rfl
      | _ =>
          obtain rfl := told
          exact hquiet rfl rfl

theorem Aside.wp {x : Task α} (h : Aside cfg id x) {t : Ledger} (ht : t.returned = false) :
    x.wp (ledger cfg (some (0 : Fin 1))) ⟨fun _ _ => True, fun _ _ => True⟩ t := by
  cases h with
  | barrier b => exact (stays_arriveAndWait ht b).wp (fun _ => trivial) fun _ _ => trivial
  | loadStop => exact ⟨⟨ht, trivial⟩, fun _ _ _ => trivial⟩
  | maintenance iter =>
      refine (yields_workerMaintenance ht id iter).wp (fun _ _ => trivial) ?_
      exact fun _ _ _ _ => trivial
  | done => exact (stays_workerDone ht).wp (fun _ => trivial) fun _ _ => trivial
  | return_ => exact ⟨⟨ht, Option.some_ne_none 0⟩, fun _ _ _ => trivial⟩

/-- What a worker does aside changes no figure, except to record an error. -/
theorem Aside.figures {x y : Task α} (h : Aside cfg id x)
    (hl : Leads Worker.told x w y w') :
    w'.figures = w.figures ∨ w'.figures = w.figures.fail := by
  obtain ⟨t', hlead, hw'⟩ := hl.map (S := fun (w : Worker) (t : Ledger) => w.figures = t.figures)
    (fun _ q a _ _ hS hT => told_ledger q a hS hT)
    (u := { w.ledger with counting := false }) rfl
  rw [hw']
  exact (figures_of_leads (h.wp rfl) rfl hlead).2

/-- A record whose counters are still at zero. -/
structure Worker.Zero (w : Worker) : Prop where
  iters : w.iters = 0
  bytesEnc : w.bytesEnc = 0
  bytesDec : w.bytesDec = 0

/-- **The counters after any number of calls.** -/
theorem Laps.figures {n m : Nat} (h₀ : w₀.Zero) (h : Laps junk cfg id fuel w₀ n m w) :
    w.figures.size = w₀.figures.size ∧ w.figures.iters = m ∧ w.figures.Balanced := by
  induction h with
  | start =>
      refine ⟨rfl, h₀.iters, ?_, ?_⟩
      · show w₀.bytesEnc = w₀.iters * _
        rw [h₀.bytesEnc, h₀.iters, Nat.zero_mul]
      · show w₀.bytesDec = w₀.iters * _
        rw [h₀.bytesDec, h₀.iters, Nat.zero_mul]
  | matched before fine trip ih =>
      obtain ⟨hsize, hiters, hb⟩ := ih
      rw [show _ = _ from trip.figures]
      exact ⟨hsize, congrArg (· + 1) hiters, hb.count⟩
  | lost before fine trip ih =>
      obtain ⟨hsize, hiters, hb⟩ := ih
      rw [show _ = _ from trip.figures]
      exact ⟨hsize, hiters, hb.fail⟩
  | aside before other way ih =>
      obtain ⟨hsize, hiters, hb⟩ := ih
      rcases other.figures way with hsame | hfail
      · rw [hsame]
        exact ⟨hsize, hiters, hb⟩
      · rw [hfail]
        exact ⟨hsize, hiters, hb.fail⟩

variable {n m : Nat} {w₁ : Worker} {y : Task Unit}

/-- Through what a worker does aside, or still in it. -/
theorem history_aside {x : Task β} {f : β → Task Unit} (hl : Laps junk cfg id fuel w₀ n m w₁)
    (hx : Aside cfg id x) (h : Leads Worker.told (x >>= f) w₁ y w) :
    History junk cfg id fuel w₀ w ∨
      ∃ b u, Laps junk cfg id fuel w₀ n m u ∧ Ran x w₁ b u ∧ Leads Worker.told (f b) u y w := by
  rcases leads_bind h with ⟨x', hin, -⟩ | ⟨b, u, hrun, hrest⟩
  · exact Or.inl (.between (hl.aside hx hin))
  · exact Or.inr ⟨b, u, hl.aside hx hrun.leads, hrun, hrest⟩

/-- Through a call of `iterate`, or still in it. -/
theorem history_iterate {f : Bool → Task Unit} (hl : Laps junk cfg id fuel w₀ n m w₁)
    (hfine : w₁.failed = false)
    (h : Leads Worker.told (iterate junk cfg id n fuel >>= f) w₁ y w) :
    History junk cfg id fuel w₀ w ∨
      ∃ b u m', Laps junk cfg id fuel w₀ (n + 1) m' u ∧ Round junk cfg id fuel n w₁ b u ∧
        Leads Worker.told (f b) u y w := by
  rcases leads_bind h with ⟨x', hin, -⟩ | ⟨b, u, hrun, hrest⟩
  · exact Or.inl (.inside hl hfine hin)
  · have hround := round_of_ran hrun
    cases b with
    | true => exact Or.inr ⟨true, u, m + 1, hl.matched hfine hround, hround, hrest⟩
    | false => exact Or.inr ⟨false, u, m, hl.lost hfine hround, hround, hrest⟩

theorem Round.fine (h : Round junk cfg id fuel n w₁ true w) (hfine : w₁.failed = false) :
    w.failed = false := by
  have hw := congrArg Figures.failed h.figures
  exact hw.trans hfine

/-- The main loop, and what follows it. -/
theorem history_workerLoop {f : Unit → Task Unit} (hf : ∀ n m u,
      Laps junk cfg id fuel w₀ n m u → Leads Worker.told (f ()) u y w →
        History junk cfg id fuel w₀ w) (fuel₁ : Nat) (hl : Laps junk cfg id fuel w₀ n m w₁)
    (hfine : w₁.failed = false)
    (h : Leads Worker.told (workerLoop junk cfg id fuel fuel₁ n >>= f) w₁ y w) :
    History junk cfg id fuel w₀ w := by
  induction fuel₁ generalizing n m w₁ with
  | zero =>
      obtain ⟨-, rfl⟩ := leads_spin h
      exact .between hl
  | succ fuel₁ ih =>
      unfold workerLoop at h
      split at h
      · exact hf n m w₁ hl h
      · rcases history_aside hl .loadStop h with hin | ⟨stop, u, hl, hrun, h⟩
        · exact hin
        · have hu : u.failed = false := by
            obtain rfl : u = w₁ := runs_call.mp hrun
            exact hfine
          cases stop with
          | true => exact hf n m u hl h
          | false =>
              change Leads Worker.told ((iterate junk cfg id n fuel >>= _) >>= f) u y w at h
              rw [bind_bind] at h
              rcases history_iterate hl hu h with hin | ⟨b, v, m', hl, hround, h⟩
              · exact hin
              · cases b with
                | false => exact hf (n + 1) m' v hl h
                | true =>
                    have hv := hround.fine hu
                    change Leads Worker.told ((workerMaintenance cfg id n >>= _) >>= f) v y w at h
                    rw [bind_bind] at h
                    rcases history_aside hl (.maintenance n) h with hin | ⟨b, v', hl, hrun, h⟩
                    · exact hin
                    · cases b with
                      | false => exact hf (n + 1) m' v' hl h
                      | true =>
                          have hv' : v'.failed = false := by
                            rcases hrun.figures (yields_workerMaintenance (t := v.ledger) rfl id n)
                              rfl with ⟨-, hfig⟩ | ⟨hno, -⟩
                            · exact (congrArg Figures.failed hfig).trans hv
                            · cases hno
                          exact ih hl hv' h

/-- **A worker's record is what its calls of `iterate` made it.** -/
theorem history_workerMain (h₀ : w₀.failed = false)
    (h : Leads Worker.told (workerMain junk cfg id fuel) w₀ y w) :
    History junk cfg id fuel w₀ w := by
  -- through the barriers, the figures are as they were
  have hbarrier : ∀ {v v' : Worker} {b : Barrier}, Ran (arriveAndWait b) v () v' →
      v'.failed = v.failed := by
    intro v v' b hrun
    have hstays : Stays (ledger {} (some (0 : Fin 1))) NoExn (arriveAndWait b) v.ledger :=
      stays_arriveAndWait rfl b
    exact congrArg Figures.failed (hrun.stays hstays)
  have hend : ∀ n m u, Laps junk cfg id fuel w₀ n m u →
      Leads Worker.told (workerDone >>= fun _ => ask .return_) u y w →
        History junk cfg id fuel w₀ w := by
    intro n m u hl h
    rcases history_aside hl .done h with hin | ⟨_, u', hl, -, h⟩
    · exact hin
    · exact .between (hl.aside .return_ h)
  rcases history_iterate .start h₀ h with hin | ⟨ok, u, m, hl, hround, h⟩
  · exact hin
  · rcases history_aside hl (.barrier .warmupDone) h with hin | ⟨_, u₁, hl, hrun₁, h⟩
    · exact hin
    · rcases history_aside hl (.barrier .release) h with hin | ⟨_, u₂, hl, hrun₂, h⟩
      · exact hin
      · cases ok with
        | false => exact hend 1 m u₂ hl h
        | true =>
            have hu₂ : u₂.failed = false :=
              (hbarrier hrun₂).trans ((hbarrier hrun₁).trans (hround.fine h₀))
            exact history_workerLoop hend fuel hl hu₂ h

end Calls

/-! ## §3. What the threads know, and the shared state. -/

section Shared

variable {σ K : Type} {N : Nat} {L : Lib σ} {key : σ → Handle → Option K} {cfg : Config}
  {i : Tid N} {q : Req} {a : q.Answer} {s s' : Shared σ K N} {t t' : Ledger}
  {ts : Tid N → Ledger}

/-- Only these requests change these parts of the shared state. -/
structure Framed (q : Req) (s s' : Shared σ K N) : Prop where
  workers : (∀ f, q ≠ .setSelf f) → s'.workers = s.workers
  rekeys : q ≠ .addRekeys → s'.rekeys = s.rekeys
  cycles : q ≠ .addBlobCycles → s'.blobCycles = s.blobCycles
  stop : q ≠ .storeStop → s'.stop = s.stop
  returned : q ≠ .return_ → s'.returned = s.returned
  exited : (∀ c, q ≠ .exit c) → s'.exited = s.exited

theorem framed_of_answers (hs : answers L key i s q a s') : Framed q s s' := by
  have hsame : s'.workers = s.workers → s'.rekeys = s.rekeys → s'.blobCycles = s.blobCycles →
      s'.stop = s.stop → s'.returned = s.returned → s'.exited = s.exited → Framed q s s' :=
    fun h₁ h₂ h₃ h₄ h₅ h₆ =>
      ⟨fun _ => h₁, fun _ => h₂, fun _ => h₃, fun _ => h₄, fun _ => h₅, fun _ => h₆⟩
  cases q with
  | enter | effect | leave =>
      obtain ⟨_, -, rfl⟩ := hs
      exact hsame rfl rfl rfl rfl rfl rfl
  | lock =>
      obtain ⟨-, -, rfl⟩ := hs
      exact hsame rfl rfl rfl rfl rfl rfl
  | lockShared | hasPipe | pipe | blob | fillRandom | fillPayload | self | loadStop | await
  | lockDone | getActive | join =>
      obtain ⟨-, rfl⟩ := hs
      exact hsame rfl rfl rfl rfl rfl rfl
  | unlockShared | unlock | setPipe | setBlob | arrive | unlockDone | setActive | now
  | setFinish | signalSeen =>
      obtain rfl := hs
      exact hsame rfl rfl rfl rfl rfl rfl
  | setSelf f =>
      obtain ⟨k, -, rfl⟩ := hs
      exact ⟨fun h => (h f rfl).elim, fun _ => rfl, fun _ => rfl, fun _ => rfl, fun _ => rfl,
        fun _ => rfl⟩
  | storeStop =>
      obtain rfl := hs
      exact ⟨fun _ => rfl, fun _ => rfl, fun _ => rfl, fun h => (h rfl).elim, fun _ => rfl,
        fun _ => rfl⟩
  | addRekeys =>
      obtain ⟨-, rfl⟩ := hs
      exact ⟨fun _ => rfl, fun h => (h rfl).elim, fun _ => rfl, fun _ => rfl, fun _ => rfl,
        fun _ => rfl⟩
  | addBlobCycles =>
      obtain ⟨-, rfl⟩ := hs
      exact ⟨fun _ => rfl, fun _ => rfl, fun h => (h rfl).elim, fun _ => rfl, fun _ => rfl,
        fun _ => rfl⟩
  | return_ =>
      obtain rfl := hs
      exact ⟨fun _ => rfl, fun _ => rfl, fun _ => rfl, fun _ => rfl, fun h => (h rfl).elim,
        fun _ => rfl⟩
  | exit c =>
      obtain rfl := hs
      exact ⟨fun _ => rfl, fun _ => rfl, fun _ => rfl, fun _ => rfl, fun _ => rfl,
        fun h => (h c rfl).elim⟩

/-- Only these requests change these parts of a ledger. -/
structure Ledger.Framed (q : Req) (t t' : Ledger) : Prop where
  figures : (∀ f, q ≠ .setSelf f) → t'.figures = t.figures
  rekeys : q ≠ .addRekeys → t'.rekeys = t.rekeys
  cycles : q ≠ .addBlobCycles → t'.cycles = t.cycles
  stopped : q ≠ .loadStop → t'.stopped = t.stopped
  returned : q ≠ .return_ → t'.returned = t.returned
  joined : (∀ k, q ≠ .join k) → t'.joined = t.joined
  signalled : q ≠ .signalSeen → t'.signalled = t.signalled

theorem Ledger.framed_of_told (h : t.told q a t') : Ledger.Framed q t t' := by
  cases q with
  | setSelf f =>
      obtain ⟨w, -, rfl⟩ := h
      exact ⟨fun h => (h f rfl).elim, fun _ => rfl, fun _ => rfl, fun _ => rfl, fun _ => rfl,
        fun _ => rfl, fun _ => rfl⟩
  | self | fillPayload =>
      obtain ⟨-, rfl⟩ := h
      exact ⟨fun _ => rfl, fun _ => rfl, fun _ => rfl, fun _ => rfl, fun _ => rfl,
        fun _ => rfl, fun _ => rfl⟩
  | addRekeys =>
      obtain rfl := h
      exact ⟨fun _ => rfl, fun h => (h rfl).elim, fun _ => rfl, fun _ => rfl, fun _ => rfl,
        fun _ => rfl, fun _ => rfl⟩
  | addBlobCycles =>
      obtain rfl := h
      exact ⟨fun _ => rfl, fun _ => rfl, fun h => (h rfl).elim, fun _ => rfl, fun _ => rfl,
        fun _ => rfl, fun _ => rfl⟩
  | loadStop =>
      obtain rfl := h
      exact ⟨fun _ => rfl, fun _ => rfl, fun _ => rfl, fun h => (h rfl).elim, fun _ => rfl,
        fun _ => rfl, fun _ => rfl⟩
  | return_ =>
      obtain rfl := h
      exact ⟨fun _ => rfl, fun _ => rfl, fun _ => rfl, fun _ => rfl, fun h => (h rfl).elim,
        fun _ => rfl, fun _ => rfl⟩
  | join k =>
      obtain rfl := h
      exact ⟨fun _ => rfl, fun _ => rfl, fun _ => rfl, fun _ => rfl, fun _ => rfl,
        fun h => (h k rfl).elim, fun _ => rfl⟩
  | signalSeen =>
      obtain rfl := h
      exact ⟨fun _ => rfl, fun _ => rfl, fun _ => rfl, fun _ => rfl, fun _ => rfl,
        fun _ => rfl, fun h => (h rfl).elim⟩
  | _ =>
      obtain rfl := h
      exact ⟨fun _ => rfl, fun _ => rfl, fun _ => rfl, fun _ => rfl, fun _ => rfl,
        fun _ => rfl, fun _ => rfl⟩

/-- The ledgers know the workers' records, and who has returned. -/
structure Records (s : Shared σ K N) (ts : Tid N → Ledger) : Prop where
  figures : ∀ k, (ts (some k)).figures = (s.workers k).figures
  returned : ∀ i, (ts i).returned = s.returned i

/-- The answer of the shared state is one that the ledger allows. -/
theorem Records.told (h : Records s ts) (hs : answers L key i s q a s') :
    ∃ t', (ts i).told q a t' ∧ ∀ k, i = some k → t'.figures = (s'.workers k).figures := by
  have hsame : s'.workers = s.workers → ∀ k, i = some k →
      (ts i).figures = (s'.workers k).figures := by
    intro hw k hk
    rw [hw, hk]
    exact h.figures k
  cases q with
  | setSelf f =>
      obtain ⟨k, rfl, rfl⟩ := hs
      refine ⟨{ ts (some k) with figures := (f (s.workers k)).figures },
        ⟨s.workers k, (h.figures k).symm, rfl⟩, fun j hj => ?_⟩
      cases hj
      show _ = (Function.update s.workers k _ k).figures
      rw [Function.update_self]
  | self =>
      obtain ⟨⟨k, rfl, rfl⟩, rfl⟩ := hs
      exact ⟨ts (some k), ⟨(h.figures k).symm, rfl⟩, hsame rfl⟩
  | fillPayload n =>
      obtain ⟨hlen, rfl⟩ := hs
      exact ⟨ts i, ⟨hlen, rfl⟩, hsame rfl⟩
  | _ =>
      exact ⟨_, rfl, hsame ((framed_of_answers hs).workers fun _ h => (by cases h))⟩

theorem records_step (h : Records s ts) (hs : answers L key i s q a s')
    (ht : (ts i).told q a t')
    (hfig : ∀ k, i = some k → t'.figures = (s'.workers k).figures) :
    Records s' (Function.update ts i t') := by
  constructor
  · intro k
    rcases update_cases ts i t' (some k) with ⟨hk, hx⟩ | ⟨hk, hx⟩
    · rw [hx]
      exact hfig k hk.symm
    · rw [hx, h.figures]
      cases q with
      | setSelf f =>
          obtain ⟨j, rfl, rfl⟩ := hs
          show _ = (Function.update s.workers j _ k).figures
          rw [Function.update_of_ne fun hkj => hk (congrArg some hkj)]
      | _ => rw [(framed_of_answers hs).workers fun _ h => (by cases h)]
  · intro j
    cases q with
    | return_ =>
        obtain rfl := hs
        obtain rfl := ht
        show _ = Function.update s.returned i true j
        rcases update_cases ts i { ts i with returned := true } j with ⟨hj, hx⟩ | ⟨hj, hx⟩
        · rw [hx, hj, Function.update_self]
        · rw [hx, Function.update_of_ne hj]
          exact h.returned j
    | _ =>
        rw [(framed_of_answers hs).returned fun h => (by cases h)]
        have hsame := (Ledger.framed_of_told ht).returned fun h => (by cases h)
        rcases update_cases ts i t' j with ⟨hj, hx⟩ | ⟨hj, hx⟩
        · rw [hx, hj, hsame]
          exact h.returned i
        · rw [hx]
          exact h.returned j

/-- The counters are the workers' shares. -/
structure Shares (s : Shared σ K N) (ts : Tid N → Ledger) : Prop where
  rekeys : s.rekeys = ∑ k, (ts (some k)).rekeys
  cycles : s.blobCycles = ∑ k, (ts (some k)).cycles

/-- One worker's share has grown by `d`. -/
theorem sum_grown (f : Ledger → Nat) {d : Nat} {k : Fin N} (hf : f t' = f (ts (some k)) + d) :
    ∑ j, f (Function.update ts (some k) t' (some j)) = (∑ j, f (ts (some j))) + d := by
  have hone : ∀ j, f (Function.update ts (some k) t' (some j)) =
      f (ts (some j)) + if j = k then d else 0 := by
    intro j
    rcases update_cases ts (some k) t' (some j) with ⟨hj, hx⟩ | ⟨hj, hx⟩
    · rw [hx, if_pos (Option.some.inj hj), hf, hj]
    · rw [hx, if_neg fun h => hj (congrArg some h), Nat.add_zero]
  rw [Finset.sum_congr rfl fun j _ => hone j, Finset.sum_add_distrib,
    Finset.sum_ite_eq' Finset.univ k fun _ => d, if_pos (Finset.mem_univ k)]

/-- Nobody's share has changed. -/
theorem sum_same (f : Ledger → Nat) (hf : f t' = f (ts i)) :
    ∑ j, f (Function.update ts i t' (some j)) = ∑ j, f (ts (some j)) := by
  refine Finset.sum_congr rfl fun j _ => ?_
  rcases update_cases ts i t' (some j) with ⟨hj, hx⟩ | ⟨-, hx⟩
  · rw [hx, hj, hf]
  · rw [hx]

theorem shares_step (h : Shares s ts) (hs : answers L key i s q a s')
    (hmay : (ts i).may cfg i q) (ht : (ts i).told q a t') :
    Shares s' (Function.update ts i t') := by
  have hi : i ≠ none → ∃ k, i = some k := fun h => Option.ne_none_iff_exists'.mp h
  constructor
  · cases q with
    | addRekeys =>
        obtain ⟨-, rfl⟩ := hs
        obtain ⟨k, rfl⟩ := hi hmay
        obtain rfl := ht
        show s.rekeys + 1 = _
        rw [sum_grown Ledger.rekeys rfl, h.rekeys]
    | _ =>
        rw [(framed_of_answers hs).rekeys fun h => (by cases h), h.rekeys]
        exact (sum_same Ledger.rekeys
          ((Ledger.framed_of_told ht).rekeys fun h => (by cases h))).symm
  · cases q with
    | addBlobCycles =>
        obtain ⟨-, rfl⟩ := hs
        obtain ⟨k, rfl⟩ := hi hmay
        obtain rfl := ht
        show s.blobCycles + 1 = _
        rw [sum_grown Ledger.cycles rfl, h.cycles]
    | _ =>
        rw [(framed_of_answers hs).cycles fun h => (by cases h), h.cycles]
        exact (sum_same Ledger.cycles
          ((Ledger.framed_of_told ht).cycles fun h => (by cases h))).symm

/-- Main finds a signal. -/
def isSignal : Ev N → Bool
  | ⟨none, .signalSeen, seen⟩ => seen
  | _ => false

/-- A signal has arrived, and main has seen it. -/
def signalled (evs : List (Ev N)) : Bool := evs.any isSignal

theorem signalled_snoc (evs : List (Ev N)) (e : Ev N) :
    signalled (evs ++ [e]) = (signalled evs || isSignal e) := by
  simp [signalled]

/-- Nobody stops a run without a reason. -/
structure Stops (cfg : Config) (evs : List (Ev N)) (s : Shared σ K N) (ts : Tid N → Ledger) :
    Prop where
  stopped : ∀ i, (ts i).stopped = true → s.stop = true
  cause : s.stop = true → (∃ k, (s.workers k).failed = true) ∨ (ts none).signalled = true ∨
    cfg.iterations = 0
  signal : (ts none).signalled = true → signalled evs = true

/-- An error that is recorded stays recorded. -/
theorem failed_mono (h : Records s ts) (hs : answers L key i s q a s')
    (hmay : (ts i).may cfg i q) {k : Fin N} (hk : (s.workers k).failed = true) :
    (s'.workers k).failed = true := by
  cases q with
  | setSelf f =>
      obtain ⟨j, rfl, rfl⟩ := hs
      show (Function.update s.workers j _ k).failed = true
      by_cases hkj : k = j
      · subst hkj
        rw [Function.update_self]
        have hfailed : (ts (some k)).figures.failed = true := by
          rw [h.figures]
          exact hk
        rcases hmay (s.workers k) (h.figures k).symm with hsame | hfail | ⟨-, hsame, -⟩
        · exact (congrArg Figures.failed hsame).trans hfailed
        · exact congrArg Figures.failed hfail
        · exact hsame.trans hfailed
      · rw [Function.update_of_ne hkj]
        exact hk
  | _ =>
      rw [(framed_of_answers hs).workers fun _ h => (by cases h)]
      exact hk

/-- A worker's payload keeps its size. -/
theorem size_same (h : Records s ts) (hs : answers L key i s q a s')
    (hmay : (ts i).may cfg i q) (k : Fin N) :
    (s'.workers k).figures.size = (s.workers k).figures.size := by
  cases q with
  | setSelf f =>
      obtain ⟨j, rfl, rfl⟩ := hs
      show (Function.update s.workers j _ k).figures.size = _
      by_cases hkj : k = j
      · subst hkj
        rw [Function.update_self, ← h.figures]
        rcases hmay (s.workers k) (h.figures k).symm with hsame | hfail | ⟨-, -, hsame⟩
        · rw [hsame]
        · rw [hfail]
          rfl
        · exact hsame
      · rw [Function.update_of_ne hkj]
  | _ => rw [(framed_of_answers hs).workers fun _ h => (by cases h)]

theorem signalled_mono (ht : (ts i).told q a t') (h : (ts none).signalled = true) :
    (Function.update ts i t' none).signalled = true := by
  rcases update_cases ts i t' none with ⟨hi, hx⟩ | ⟨-, hx⟩
  · subst hi
    rw [hx]
    cases q with
    | signalSeen =>
        obtain rfl := ht
        show ((ts none).signalled || a) = true
        rw [h, Bool.true_or]
    | _ =>
        rw [(Ledger.framed_of_told ht).signalled fun h => (by cases h)]
        exact h
  · rw [hx]
    exact h

theorem stops_step {evs : List (Ev N)} (h : Stops cfg evs s ts) (hrec : Records s ts)
    (hs : answers L key i s q a s') (hmay : (ts i).may cfg i q) (ht : (ts i).told q a t') :
    Stops cfg (evs ++ [⟨i, q, a⟩]) s' (Function.update ts i t') := by
  constructor
  · intro j hj
    have hmono : s.stop = true → s'.stop = true := by
      intro hstop
      cases q with
      | storeStop =>
          obtain rfl := hs
          rfl
      | _ =>
          rw [(framed_of_answers hs).stop fun h => (by cases h)]
          exact hstop
    rcases update_cases ts i t' j with ⟨rfl, hx⟩ | ⟨-, hx⟩
    · rw [hx] at hj
      cases q with
      | loadStop =>
          -- what it was told is what `stop` is
          obtain ⟨rfl, rfl⟩ := hs
          obtain rfl := ht
          rcases Bool.or_eq_true_iff.mp hj with hold | hnew
          · exact h.stopped j hold
          · exact hnew
      | _ =>
          rw [(Ledger.framed_of_told ht).stopped fun h => (by cases h)] at hj
          exact hmono (h.stopped j hj)
    · rw [hx] at hj
      exact hmono (h.stopped j hj)
  · intro hstop
    have hold : s.stop = true → (∃ k, (s'.workers k).failed = true) ∨
        (Function.update ts i t' none).signalled = true ∨ cfg.iterations = 0 := by
      intro hstop
      rcases h.cause hstop with ⟨k, hk⟩ | hsig | hzero
      · exact Or.inl ⟨k, failed_mono hrec hs hmay hk⟩
      · exact Or.inr (Or.inl (signalled_mono ht hsig))
      · exact Or.inr (Or.inr hzero)
    cases q with
    | storeStop =>
        cases i with
        | none =>
            rcases hmay.2 rfl with hsig | hzero
            · exact Or.inr (Or.inl (signalled_mono ht hsig))
            · exact Or.inr (Or.inr hzero)
        | some k =>
            have hfailed := hmay.1 (Option.some_ne_none k)
            rw [hrec.figures] at hfailed
            exact Or.inl ⟨k, failed_mono hrec hs hmay hfailed⟩
    | _ =>
        rw [(framed_of_answers hs).stop fun h => (by cases h)] at hstop
        exact hold hstop
  · intro hsig
    rw [signalled_snoc, Bool.or_eq_true_iff]
    rcases update_cases ts i t' none with ⟨hi, hx⟩ | ⟨-, hx⟩
    · subst hi
      rw [hx] at hsig
      cases q with
      | signalSeen =>
          obtain rfl := ht
          exact (Bool.or_eq_true_iff.mp hsig).imp h.signal id
      | _ =>
          rw [(Ledger.framed_of_told ht).signalled fun h => (by cases h)] at hsig
          exact Or.inl (h.signal hsig)
    · rw [hx] at hsig
      exact Or.inl (h.signal hsig)

/-- Whom main has joined has returned. -/
def Joins (s : Shared σ K N) (ts : Tid N → Ledger) : Prop :=
  ∀ k : Fin N, k.val < (ts none).joined → s.returned (some k) = true

theorem joins_step (h : Joins s ts) (hs : answers L key i s q a s') (hmay : (ts i).may cfg i q)
    (ht : (ts i).told q a t') : Joins s' (Function.update ts i t') := by
  have hmono : ∀ j, s.returned j = true → s'.returned j = true := by
    intro j hj
    cases q with
    | return_ =>
        obtain rfl := hs
        show Function.update s.returned i true j = true
        rcases update_cases s.returned i true j with ⟨-, hx⟩ | ⟨-, hx⟩
        · exact hx
        · exact hx.trans hj
    | _ =>
        rw [(framed_of_answers hs).returned fun h => (by cases h)]
        exact hj
  intro k hk
  rcases update_cases ts i t' none with ⟨hi, hx⟩ | ⟨-, hx⟩
  · subst hi
    rw [hx] at hk
    cases q with
    | join m =>
        obtain ⟨⟨j, hj, hret⟩, rfl⟩ := hs
        obtain ⟨-, hm⟩ := hmay
        obtain rfl := ht
        have hlt : k.val < (ts none).joined + 1 := hk
        by_cases hlast : k.val < (ts none).joined
        · exact h k hlast
        · -- the one that main has just joined
          have hkj : k = j := Fin.ext (by omega)
          exact hkj ▸ hret
    | _ =>
        rw [(Ledger.framed_of_told ht).joined fun _ h => (by cases h)] at hk
        exact hmono _ (h k hk)
  · rw [hx] at hk
    exact hmono _ (h k hk)

/-- The process exits early with one code only. -/
def Exits (s : Shared σ K N) : Prop := ∀ code, s.exited = some code → code = 3

theorem exits_step (h : Exits s) (hs : answers L key i s q a s') (hmay : t.may cfg i q) :
    Exits s' := by
  cases q with
  | exit c =>
      obtain rfl := hs
      intro code hcode
      exact (Option.some.inj hcode).symm.trans hmay
  | _ =>
      unfold Exits
      rw [(framed_of_answers hs).exited fun _ h => (by cases h)]
      exact h

/-- **What holds along every run.** -/
structure Tallied (cfg : Config) (evs : List (Ev N)) (s : Shared σ K N) (ts : Tid N → Ledger) :
    Prop where
  records : Records s ts
  shares : Shares s ts
  stops : Stops cfg evs s ts
  joins : Joins s ts
  exits : Exits s
  sizes : ∀ k, (s.workers k).figures.size = cfg.payload.toNat

theorem upholds_tallied (L : Lib σ) (key : σ → Handle → Option K) (cfg : Config) :
    Upholds (machine L key) (fun i : Tid N => ledger cfg i) (Tallied cfg) := by
  intro evs s ts i q a s' h hask hserve
  obtain ⟨-, hs⟩ := hserve
  have hmay : (ts i).may cfg i q := hask.2
  obtain ⟨t', ht, hfig⟩ := h.records.told hs
  refine ⟨t', ht, ?_⟩
  exact ⟨records_step h.records hs ht hfig, shares_step h.shares hs hmay ht,
    stops_step h.stops h.records hs hmay ht, joins_step h.joins hs hmay ht,
    exits_step h.exits hs hmay, fun k => (size_same h.records hs hmay k).trans (h.sizes k)⟩

end Shared

/-! ## §4. The summary (`summary.cpp`). -/

/-- What `final_summary` adds up. -/
structure Summary where
  totalIters : Nat := 0
  totalEnc : Nat := 0
  totalDec : Nat := 0
  errors : Nat := 0
  rekeys : Nat := 0
  cycles : Nat := 0

/-- One worker's figures more. -/
def Summary.add (x : Summary) (w : Worker) : Summary :=
  { x with
    totalIters := x.totalIters + w.iters
    totalEnc := x.totalEnc + w.bytesEnc
    totalDec := x.totalDec + w.bytesDec
    errors := if w.failed then x.errors + 1 else x.errors }

section Summary

variable {σ K : Type} {N : Nat}

/-- `final_summary`, up to its verdict. -/
def finalSummary (s : Shared σ K N) : Summary :=
  { (List.finRange N).foldl (fun (x : Summary) k => x.add (s.workers k)) {} with
    rekeys := s.rekeys
    cycles := s.blobCycles }

/-- PASS. -/
def Summary.pass (x : Summary) : Bool := x.errors == 0

/-- What `final_summary` returns. -/
def Summary.exitCode (x : Summary) : Nat := if x.pass then 0 else 1

/-- The exit code of the process, once it has one: `std::_Exit` is sooner
than the summary. -/
def exitCode (r : Run σ K N) : Option Nat :=
  match r.state.exited, r.threads none with
  | some code, _ => some code
  | none, .ret _ => some (finalSummary r.state).exitCode
  | none, _ => none

/-- What the loop over the workers has added up. -/
theorem foldl_add (ws : Fin N → Worker) (l : List (Fin N)) (x : Summary) :
    (l.foldl (fun x k => x.add (ws k)) x).totalIters =
        x.totalIters + (l.map fun k => (ws k).iters).sum ∧
      (l.foldl (fun x k => x.add (ws k)) x).totalEnc =
        x.totalEnc + (l.map fun k => (ws k).bytesEnc).sum ∧
      (l.foldl (fun x k => x.add (ws k)) x).totalDec =
        x.totalDec + (l.map fun k => (ws k).bytesDec).sum ∧
      (l.foldl (fun x k => x.add (ws k)) x).errors =
        x.errors + l.countP fun k => (ws k).failed := by
  induction l generalizing x with
  | nil => simp
  | cons k l ih =>
      obtain ⟨hi, he, hd, hf⟩ := ih (x.add (ws k))
      rw [List.foldl_cons, hi, he, hd, hf]
      refine ⟨?_, ?_, ?_, ?_⟩
      · simp [Summary.add, Nat.add_assoc]
      · simp [Summary.add, Nat.add_assoc]
      · simp [Summary.add, Nat.add_assoc]
      · cases hw : (ws k).failed <;> simp [Summary.add, hw]
        omega

theorem totalIters_finalSummary (s : Shared σ K N) :
    (finalSummary s).totalIters = ∑ k, (s.workers k).iters := by
  have h := (foldl_add s.workers (List.finRange N) {}).1
  rw [Fin.sum_univ_def]
  exact h.trans (Nat.zero_add _)

theorem totalEnc_finalSummary (s : Shared σ K N) :
    (finalSummary s).totalEnc = ∑ k, (s.workers k).bytesEnc := by
  have h := (foldl_add s.workers (List.finRange N) {}).2.1
  rw [Fin.sum_univ_def]
  exact h.trans (Nat.zero_add _)

theorem totalDec_finalSummary (s : Shared σ K N) :
    (finalSummary s).totalDec = ∑ k, (s.workers k).bytesDec := by
  have h := (foldl_add s.workers (List.finRange N) {}).2.2.1
  rw [Fin.sum_univ_def]
  exact h.trans (Nat.zero_add _)

/-- The verdict is PASS when no worker has recorded an error. -/
theorem pass_finalSummary (s : Shared σ K N) :
    (finalSummary s).pass = true ↔ ∀ k, (s.workers k).failed = false := by
  have h := (foldl_add s.workers (List.finRange N) {}).2.2.2
  have herrors : (finalSummary s).errors =
      (List.finRange N).countP fun k => (s.workers k).failed := h.trans (Nat.zero_add _)
  unfold Summary.pass
  rw [beq_iff_eq, herrors, List.countP_eq_zero]
  constructor
  · exact fun hall k => Bool.eq_false_iff.mpr (hall k (List.mem_finRange k))
  · exact fun hall k _ => Bool.eq_false_iff.mp (hall k)

theorem exitCode_finalSummary (s : Shared σ K N) :
    (finalSummary s).exitCode = 0 ↔ ∀ k, (s.workers k).failed = false := by
  rw [← pass_finalSummary]
  unfold Summary.exitCode
  cases (finalSummary s).pass <;> decide

end Summary

/-! ## §5. From the start on. -/

section Results

variable {σ K : Type} {N : Nat} {L : Lib σ} {key : σ → Handle → Option K} {cfg : Config}
  {evs : List (Ev N)} {r : Run σ K N}

/-- The figures a worker starts with. -/
theorem size_start (cfg : Config) (content : Nat → UInt8) :
    (Worker.start cfg content).figures.size = cfg.payload.toNat := by
  simp [Worker.figures, Worker.start]

/-- The ledger a thread starts with. -/
def Ledger.start (cfg : Config) (content : Fin N → Nat → UInt8) : Tid N → Ledger
  | none => {}
  | some k => { figures := (Worker.start cfg (content k)).figures }

/-- How every thread of the harness ends. -/
def ledgerEnds (cfg : Config) : Tid N → Ends Exn Ledger Unit
  | none => mainEnds N
  | some _ => workerEnds cfg

theorem tallied_start (content : Fin N → Nat → UInt8)
    (built : Pipe → Option (Pipeline × Bytes)) (lib : σ) :
    Tallied cfg ([] : List (Ev N)) (Shared.start N key cfg content built lib)
      (Ledger.start cfg content) := by
  refine ⟨⟨fun k => rfl, fun i => ?_⟩, ⟨?_, ?_⟩, ⟨fun i h => ?_, fun h => (by cases h),
    fun h => (by cases h)⟩, fun k h => ?_, fun code h => (by cases h),
    fun k => size_start cfg (content k)⟩
  · cases i <;> rfl
  · exact (Finset.sum_eq_zero fun k _ => rfl).symm
  · exact (Finset.sum_eq_zero fun k _ => rfl).symm
  · cases i <;> cases h
  · exact absurd h (Nat.not_lt_zero _)

theorem keepsTo_ledger (junk : Fin N → Nat → Nat → UInt8) (content : Fin N → Nat → UInt8)
    (fuel : Nat) (i : Tid N) :
    (harness N junk cfg fuel i).wp (ledger cfg i) (ledgerEnds cfg i)
      (Ledger.start cfg content i) := by
  cases i with
  | none => exact settles_mainThread fuel rfl rfl
  | some k => exact settles_workerMain (junk k) k fuel ⟨rfl, rfl, rfl, rfl, rfl, rfl, rfl, rfl⟩

/-- A worker that has returned has its thread at its end. -/
theorem settled_of_returned {m : Task Unit} {k : Fin N} {t : Ledger}
    (h : m.wp (ledger cfg (some k)) (ledgerEnds cfg (some k)) t) (ht : t.returned = true) :
    Settled cfg t := by
  cases m with
  | ret u => exact h.2
  | throw e => exact h.elim
  | spin =>
      have hno : t.returned = false := h
      exact Bool.noConfusion (hno.symm.trans ht)
  | ask q f => exact Bool.noConfusion (h.1.1.symm.trans ht)

/-- A worker's record is seen only by its own thread. -/
theorem history_of_run (junk : Fin N → Nat → Nat → UInt8) (content : Fin N → Nat → UInt8)
    {built : Pipe → Option (Pipeline × Bytes)} {lib : σ} {fuel : Nat}
    (hrun : Traced (machine L key) (Run.start N key junk cfg content built lib fuel) evs r)
    (k : Fin N) :
    History (junk k) cfg k fuel (Worker.start cfg (content k)) (r.state.workers k) := by
  have hown : ∀ s q a s', (machine L key).serve (some k) s q a s' →
      (s.workers k).told q a (s'.workers k) := by
    intro s q a s' hserve
    have hs : answers L key (some k) s q a s' := hserve.2
    cases q with
    | self =>
        obtain ⟨⟨j, hj, rfl⟩, rfl⟩ := hs
        cases hj
        exact ⟨rfl, rfl⟩
    | setSelf f =>
        obtain ⟨j, hj, rfl⟩ := hs
        cases hj
        exact Function.update_self ..
    | fillPayload n =>
        obtain ⟨hlen, rfl⟩ := hs
        exact ⟨hlen, rfl⟩
    | _ => exact congrFun ((framed_of_answers hs).workers fun _ h => (by cases h)) k
  have hothers : ∀ j s q a s', j ≠ some k → (machine L key).serve j s q a s' →
      s'.workers k = s.workers k := by
    intro j s q a s' hj hserve
    have hs : answers L key j s q a s' := hserve.2
    cases q with
    | setSelf f =>
        obtain ⟨l, rfl, rfl⟩ := hs
        exact Function.update_of_ne (fun hkl => hj (congrArg some hkl.symm)) ..
    | _ => exact congrFun ((framed_of_answers hs).workers fun _ h => (by cases h)) k
  exact history_workerMain rfl (hrun.leads hown hothers)

/-- What the summary says of a run that ends with PASS. -/
structure Passed (cfg : Config) (evs : List (Ev N)) (s : Shared σ K N) : Prop where
  warmedUp : ∀ k, 1 ≤ (s.workers k).iters
  rekeys : (finalSummary s).rekeys = ∑ k, dues cfg.rekeyEvery ((s.workers k).iters - 1)
  cycles : (finalSummary s).cycles = ∑ k, dues cfg.blobCycleEvery ((s.workers k).iters - 1)
  iterations : 0 < cfg.iterations → signalled evs = false →
    ∀ k, ((s.workers k).iters : Int) = cfg.iterations

/-- **The figures of a run**, seen at one of its states. -/
structure Accounts (junk : Fin N → Nat → Nat → UInt8) (cfg : Config)
    (content : Fin N → Nat → UInt8) (fuel : Nat) (evs : List (Ev N)) (r : Run σ K N) :
    Prop where
  /-- a worker calls `iterate` only without an error recorded -/
  history : ∀ k, History (junk k) cfg k fuel (Worker.start cfg (content k)) (r.state.workers k)
  /-- `iters` is the number of round trips that gave back the plaintext -/
  counted : ∀ k n m w, Laps (junk k) cfg k fuel (Worker.start cfg (content k)) n m w →
    w.iters = m ∧ w.bytesEnc = w.iters * cfg.payload.toNat ∧
      w.bytesDec = w.iters * cfg.payload.toNat
  /-- every call of `iterate` that returns is one of the three -/
  called : ∀ k iter w b w', Ran (iterate (junk k) cfg k iter fuel) w b w' →
    Round (junk k) cfg k fuel iter w b w'
  /-- a failed one changes no counter, and is recorded -/
  lost : ∀ k iter w w', Round (junk k) cfg k fuel iter w false w' →
    w'.iters = w.iters ∧ w'.bytesEnc = w.bytesEnc ∧ w'.bytesDec = w.bytesDec ∧ w'.failed = true
  /-- the only other way out is the exit after a mismatch -/
  exits : ∀ code, r.state.exited = some code → code = 3
  /-- exit code 0: the summary was reached, and no worker has recorded an error -/
  exit : exitCode r = some 0 ↔
    r.state.exited = none ∧ (∃ u, r.threads none = .ret u) ∧
      ∀ k, (r.state.workers k).failed = false
  /-- the totals are the workers' -/
  totals : (∃ u, r.threads none = .ret u) →
    (finalSummary r.state).totalIters = ∑ k, (r.state.workers k).iters ∧
      (finalSummary r.state).totalEnc =
        (finalSummary r.state).totalIters * cfg.payload.toNat ∧
      (finalSummary r.state).totalDec =
        (finalSummary r.state).totalIters * cfg.payload.toNat
  passed : exitCode r = some 0 → Passed cfg evs r.state

theorem exitCode_eq_zero (hexits : ∀ code, r.state.exited = some code → code = 3) :
    exitCode r = some 0 ↔ r.state.exited = none ∧ (∃ u, r.threads none = .ret u) ∧
      ∀ k, (r.state.workers k).failed = false := by
  unfold exitCode
  cases hexit : r.state.exited with
  | some code =>
      rw [hexits code hexit]
      exact ⟨fun h => (by cases h), fun h => (by cases h.1)⟩
  | none =>
      cases hmain : r.threads none with
      | ret u =>
          rw [← exitCode_finalSummary]
          exact ⟨fun h => ⟨rfl, ⟨u, rfl⟩, Option.some.inj h⟩, fun h => congrArg some h.2.2⟩
      | throw e => exact ⟨fun h => (by cases h), fun h => (by cases h.2.1.choose_spec)⟩
      | spin => exact ⟨fun h => (by cases h), fun h => (by cases h.2.1.choose_spec)⟩
      | ask q f => exact ⟨fun h => (by cases h), fun h => (by cases h.2.1.choose_spec)⟩

/-- **Run accounting**, for any number of workers, whatever the library
answers and however the threads take turns. -/
theorem run_accounted (junk : Fin N → Nat → Nat → UInt8) (content : Fin N → Nat → UInt8)
    {built : Pipe → Option (Pipeline × Bytes)} {lib : σ} {fuel : Nat}
    (hrun : Traced (machine L key) (Run.start N key junk cfg content built lib fuel) evs r) :
    Accounts junk cfg content fuel evs r := by
  obtain ⟨ts, htally, hts⟩ := hrun.upheld (upholds_tallied L key cfg)
    (tallied_start content built lib) (keepsTo_ledger junk content fuel)
  -- once main has ended, every worker has
  have hsettled : (∃ u, r.threads none = .ret u) → ∀ k, Settled cfg (ts (some k)) := by
    intro hmain k
    obtain ⟨u, hu⟩ := hmain
    have hjoined := hts none
    rw [hu] at hjoined
    have hlt : k.val < (ts none).joined := by
      rw [show (ts none).joined = N from hjoined]
      exact k.isLt
    refine settled_of_returned (hts (some k)) ?_
    rw [htally.records.returned]
    exact htally.joins k hlt
  have hcounted : ∀ k n m w, Laps (junk k) cfg k fuel (Worker.start cfg (content k)) n m w →
      w.iters = m ∧ w.bytesEnc = w.iters * cfg.payload.toNat ∧
        w.bytesDec = w.iters * cfg.payload.toNat := by
    intro k n m w hl
    obtain ⟨hsize, hiters, hb⟩ := hl.figures ⟨rfl, rfl, rfl⟩
    rw [size_start] at hsize
    rw [← hsize]
    exact ⟨hiters, hb.enc, hb.dec⟩
  have hexit := exitCode_eq_zero htally.exits
  refine ⟨history_of_run junk content hrun, hcounted, fun _ _ _ _ _ => round_of_ran, ?_,
    htally.exits, hexit, ?_, ?_⟩
  · intro k iter w w' hround
    have hfig := hround.figures
    exact ⟨congrArg Figures.iters hfig, congrArg Figures.bytesEnc hfig,
      congrArg Figures.bytesDec hfig, congrArg Figures.failed hfig⟩
  · intro hmain
    have hbalanced : ∀ k, (r.state.workers k).figures.Balanced := by
      intro k
      rw [← htally.records.figures]
      exact (hsettled hmain k).balanced
    rw [totalIters_finalSummary, totalEnc_finalSummary, totalDec_finalSummary, Finset.sum_mul]
    refine ⟨rfl, Finset.sum_congr rfl fun k _ => ?_, Finset.sum_congr rfl fun k _ => ?_⟩
    · rw [← htally.sizes k]
      exact (hbalanced k).enc
    · rw [← htally.sizes k]
      exact (hbalanced k).dec
  · intro hzero
    obtain ⟨-, hmain, hfine⟩ := hexit.mp hzero
    have hfigures : ∀ k, (ts (some k)).figures = (r.state.workers k).figures :=
      htally.records.figures
    have hsound : ∀ k, Sound cfg (ts (some k)) := by
      intro k
      refine (hsettled hmain k).sound ?_
      rw [hfigures]
      exact hfine k
    have hiters : ∀ k, (ts (some k)).figures.iters = (r.state.workers k).iters :=
      fun k => congrArg Figures.iters (hfigures k)
    refine ⟨fun k => ?_, ?_, ?_, ?_⟩
    · rw [← hiters]
      exact (hsound k).warmedUp
    · refine htally.shares.rekeys.trans (Finset.sum_congr rfl fun k _ => ?_)
      rw [← hiters]
      exact (hsound k).rekeys
    · refine htally.shares.cycles.trans (Finset.sum_congr rfl fun k _ => ?_)
      rw [← hiters]
      exact (hsound k).cycles
    · intro hpos hsignal k
      rw [← hiters]
      rcases (hsound k).spent with hstopped | ⟨-, hspent⟩
      · -- nobody has failed, no signal was seen, and there is no deadline
        rcases htally.stops.cause (htally.stops.stopped _ hstopped) with ⟨j, hj⟩ | hsig | hmode
        · exact Bool.noConfusion ((hfine j).symm.trans hj)
        · exact Bool.noConfusion (hsignal.symm.trans (htally.stops.signal hsig))
        · omega
      · exact hspent

theorem run_accounted_drill :
    ∃ evs r, Traced (machine ratchet Ratchet.key) Run.drill evs r ∧
      Drilled r.state ∧
      Accounts (fun _ _ _ => 0) drill (fun _ _ => 0) 1 evs r := by
  obtain ⟨r, hreach, hdrilled⟩ := drill_reaches
  obtain ⟨evs, hrun⟩ := hreach.traced
  exact ⟨evs, r, hrun, hdrilled, run_accounted _ _ hrun⟩

/-- The reply of a call that succeeds and produces no bytes. -/
def noBytes : Reply := { rc := 0, handle := 1 }

/-- A library whose calls all do. -/
def hollow : Lib Unit := fun _ s => (noBytes, s)

/-- One iteration of one worker over it: `--iterations=1 --duration=1ns`, on a
named hash. -/
def hollowConfig : Config :=
  { durationNs := 1, iterations := 1, shape := .message, hash := text "blake3", payload := 1,
    poolSlots := 14 }

/-- Its Pipelines. -/
def hollowBuilt : Pipe → Option (Pipeline × Bytes)
  | .stream => none
  | .msg => some ({ handle := 1 }, [])

theorem hollow_builds :
    Returns (buildPipelines hollow hollowConfig) ⟨(), []⟩ (some hollowBuilt) () := by
  have hfits : Fits noBytes := ⟨rfl, rfl, Nat.zero_le kBlobCap⟩
  have hsave : hollow (.save noBytes.handle kBlobCap) () = (noBytes, ()) := rfl
  exact returns_message rfl rfl rfl hsave rfl hfits hfits hfits rfl rfl

/-- The run, before its first step. -/
def Run.hollow : Run Unit Unit 1 :=
  Run.start 1 (fun _ _ => none) (fun _ _ _ => 0) hollowConfig (fun _ _ => 0) hollowBuilt () 1

/-- A cipher call over it gives nothing. -/
theorem returns_hollow {junk : Nat → Nat → UInt8} {h : Handle} {fn : CipherFn} {src : Bytes}
    (what : String) (w : World Unit) : Returns (cipherCall hollow junk h fn src what) w [] () :=
  returns_cipherCall what rfl rfl ⟨Nat.zero_le _, Nat.le_refl _, rfl⟩

/-- A mismatch ends the process with exit code 3, and nobody has recorded an
error. -/
theorem exitCode_hollow :
    Returns (buildPipelines hollow hollowConfig) ⟨(), []⟩ (some hollowBuilt) () ∧
    ∃ evs r, Traced (machine hollow fun _ _ => none) Run.hollow evs r ∧
      exitCode r = some 3 ∧ (∀ k, (r.state.workers k).failed = false) ∧
        ¬ (exitCode r = some 0 ↔ ∀ k, (r.state.workers k).failed = false) := by
  let s₀ : Shared Unit Unit 1 := Run.hollow.state
  let s₁ : Shared Unit Unit 1 := { s₀ with
    readers := Function.update s₀.readers (some 0) true
    used := Function.update s₀.used (some 0) [] }
  obtain ⟨n, -, htrip⟩ := runs_messageTrip (fun _ _ => none) (fun _ _ => 0) 0 0 1 (k := 0)
    (s := s₁) rfl rfl rfl (fun w _ => returns_hollow _ w) fun w _ => returns_hollow _ w
  let s₂ : Shared Unit Unit 1 := s₁.noting () n
  -- the comparison in the scope of the read lock
  have hsettle : Leads ((machine hollow fun _ _ => none).serve (some 0)) (settle []) s₂ .spin
      { s₂ with exited := some 3 } := by
    -- nothing came back, and the plaintext is one byte
    refine leads_ask (a := s₂.workers 0) ⟨rfl, ⟨0, rfl, rfl⟩, rfl⟩ ?_
    exact leads_ask (A := Req.Answer) (q := .exit 3) (a := ()) ⟨rfl, rfl⟩ .here
  have hscope : ∀ (g : Option Bytes → Task Bool) (d : Task Unit) (f : Bool → Task Unit),
      g (some []) = settle [] → Leads ((machine hollow fun _ _ => none).serve (some 0))
        ((roundTrip (fun _ _ => 0) 0 0 1 .message >>= g).ensuring d >>= f) s₁ .spin
        { s₂ with exited := some 3 } := by
    intro g d f hg
    rw [← hg] at hsettle
    exact (((htrip.leads.bind g).trans hsettle).ensuring d).bind f
  have hlead : Leads ((machine hollow fun _ _ => none).serve (some 0)) (Run.hollow.threads (some 0))
      s₀ .spin { s₂ with exited := some 3 } := by
    have hlock : (machine hollow fun _ _ => none).serve (some 0) s₀ .lockShared () s₁ :=
      ⟨rfl, rfl, rfl⟩
    exact leads_ask hlock (hscope _ _ _ rfl)
  obtain ⟨evs, hrun⟩ := (reach_of_leads (c := Run.hollow) (i := some 0) hlead).traced
  exact ⟨hollow_builds, evs, _, hrun, rfl, fun _ => rfl, fun hiff => nomatch hiff.mpr fun _ => rfl⟩

end Results

end ItbCpp.Loop
