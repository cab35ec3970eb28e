/-
  ItbCpp.Loop.Stopping
  ────────────────────
  **THE STOP REQUEST.**

  What a worker still does once somebody has asked the run to stop, over
  every interleaving.  Its calls of `iterate` are told by the answers it
  got: the warmup is the first thing it does, and every other call comes
  right behind a stop check that it passed.

    • `AtIterate`, `afterIterate` — the calls, and what follows each in the code,
    • `along_workerMain` — the one agrees with the other,
    • `RunsOn` — a call and its maintenance, on their way or at their end,
    • `stop_bounded` — the bound.
-/
import ItbCpp.Lib.Trail
import ItbCpp.Loop.Accounting
import ItbCpp.Loop.Walk

namespace ItbCpp.Loop

open Thread Interleave

/-! ## §1. The calls of a worker. -/

/-- What a worker was answered, in order. -/
abbrev Trail := List (Σ q : Req, q.Answer)

/-- A stop check that is passed. -/
def passed : Σ q : Req, q.Answer := ⟨.loadStop, false⟩

/-- A stop check. -/
def Req.isCheck : Req → Bool
  | .loadStop => true
  | _ => false

/-- How many there are. -/
def checks (w : Trail) : Nat := w.countP fun e => e.1.isCheck

/-- The trail has taken a worker to its call of `iterate` for iteration `n`. -/
inductive AtIterate : Nat → Trail → Prop where
  | warmup : AtIterate 0 []
  | looped (w : Trail) : AtIterate (checks w + 1) (w ++ [passed])

/-- The call is on its way, or over. -/
def Started (n : Nat) (w : Trail) : Prop := ∃ s e v, AtIterate n s ∧ w = s ++ e :: v

section Calls

variable (junk : Nat → Nat → UInt8) (cfg : Config) (id fuel : Nat)

/-- The end of `worker_main`. -/
def finish : Task Unit := do
  workerDone
  ask .return_

/-- What follows the call for iteration `n` in `worker_main`. -/
def afterIterate (fuel₁ : Nat) : Nat → Bool → Task Unit
  | 0, ok => do
      arriveAndWait .warmupDone
      arriveAndWait .release
      if ok then workerLoop junk cfg id fuel fuel 1 else pure ()
      finish
  | n + 1, ok =>
      (if ok then do
        if ← workerMaintenance cfg id (n + 1) then workerLoop junk cfg id fuel fuel₁ (n + 2)
        else pure ()
      else pure ()) >>= fun _ => finish

/-- The call for iteration `n`, and the maintenance behind it, `v` further on
and with `x` left of the thread: still on its way, or at its end. -/
inductive RunsOn (n : Nat) (v : Trail) (x : Task Unit) : Prop where
  | iterating {y : Task Bool} {f : Bool → Task Unit}
      (way : Along (iterate junk cfg id n fuel) v y) (left : x = y >>= f) : RunsOn n v x
  | failed {v₁ v₂ : Trail} (split : v = v₁ ++ v₂)
      (ended : Along (iterate junk cfg id n fuel) v₁ (.ret false)) : RunsOn n v x
  | warmedUp {v₁ v₂ : Trail} (first : n = 0) (split : v = v₁ ++ v₂)
      (ended : Along (iterate junk cfg id n fuel) v₁ (.ret true)) : RunsOn n v x
  | maintaining {v₁ v₂ : Trail} {y : Task Bool} {f : Bool → Task Unit} (pos : 0 < n)
      (split : v = v₁ ++ v₂) (ended : Along (iterate junk cfg id n fuel) v₁ (.ret true))
      (way : Along (workerMaintenance cfg id n) v₂ y) (left : x = y >>= f) : RunsOn n v x
  | maintained {v₁ v₂ v₃ : Trail} {b : Bool} (pos : 0 < n) (split : v = v₁ ++ (v₂ ++ v₃))
      (ended : Along (iterate junk cfg id n fuel) v₁ (.ret true))
      (kept : Along (workerMaintenance cfg id n) v₂ (.ret b)) : RunsOn n v x

end Calls

/-! ## §2. What a call asks. -/

/-- The requests of iterations and of maintenance. -/
def Req.inner : Req → Bool
  | .loadStop | .arrive _ | .await _ | .lockDone | .unlockDone | .getActive | .setActive _
  | .now | .setFinish _ | .signalSeen | .return_ | .join _ => false
  | _ => true

theorem isCheck_of_inner {q : Req} (h : q.inner = true) : q.isCheck = false := by
  cases q <;> first | rfl | cases h

/-- The protocol of an iteration. -/
abbrev innerOnly : Protocol Req Req.Answer Unit := only fun q => q.inner = true

theorem remains_only {p : Req → Prop} {F : Exn → Unit → Prop} {q : Req} (hq : p q) :
    Remains (only p) (fun _ => True) F (ask q) :=
  fun _ _ => ⟨hq, fun _ _ _ => trivial⟩

/-- One of these requests leaves the thread where it is. -/
theorem remains_inner {F : Exn → Unit → Prop} {q : Req} (hq : q.inner = true) :
    Remains innerOnly (fun _ => True) F (ask q) := remains_only hq

theorem undisturbed_inner : Undisturbed innerOnly () where
  call _ := stays_bind ⟨rfl, fun _ _ _ => rfl⟩ fun _ =>
    stays_bind ⟨rfl, fun _ _ _ => rfl⟩ fun _ => ⟨rfl, fun _ _ _ => rfl⟩
  self := ⟨rfl, fun _ _ _ => rfl⟩
  buffers _ _ := ⟨rfl, fun _ _ _ => rfl⟩
  spins := trivial

theorem remains_lib_inner {α : Type} {m : Call α} (hm : m.Throws Exn.IsError) :
    Remains innerOnly (fun _ => True) (Thrown fun _ _ => True) (lib m) := by
  intro t _
  refine (undisturbed_inner.lib hm).wp (fun _ => trivial) fun x hx => ?_
  obtain ⟨e, rfl⟩ := hx
  exact ⟨e, rfl, trivial⟩

theorem remains_workerFail_inner (text : Bytes) :
    Remains innerOnly (fun _ => True) Nowhere (workerFail text) :=
  remains_bind (remains_inner rfl) fun _ => remains_inner rfl

theorem shift_inner :
    Shift innerOnly (fun _ => true) (fun _ => True) (fun _ _ => True) (fun _ => True) where
  looks q hq := by
    refine remains_inner ?_
    cases q <;> first | rfl | cases hq
  pipe _ _ := remains_inner rfl
  hasPipe _ _ _ := ⟨rfl, fun _ _ _ => ⟨fun _ => rfl, trivial⟩⟩
  setPipe _ _ _ := remains_inner rfl
  buffers _ _ := remains_inner rfl
  spins _ _ := trivial
  entry hm := remains_lib_inner hm.throws
  unwinds session _ := remains_lib_inner (Call.throws_destroyStream session)
  rereads _ := remains_inner rfl
  report pre e t _ := by
    rw [wp_bind]
    refine (stays_detail undisturbed_inner e).wp (fun d => ?_) fun _ he => he.elim
    exact remains_workerFail_inner (pre ++ d) () trivial
  giveUp _ t _ := remains_workerFail_inner _ t trivial
  around q hq := by
    refine remains_inner ?_
    cases q <;> first | rfl | cases hq
  unlocks q hq := by
    have hinner : q.inner = true := by
      rcases hq with rfl | rfl <;> rfl
    exact ⟨remains_inner hinner, remains_inner hinner⟩
  counts _ _ _ := remains_inner rfl

section Asked

variable {junk : Nat → Nat → UInt8} {cfg : Config} {id fuel n : Nat} {w : Trail} {x : Task Bool}

/-- An iteration does not look at the stop request. -/
theorem asked_iterate (h : Along (iterate junk cfg id n fuel) w x) :
    ∀ e ∈ w, e.1.inner = true :=
  h.asked (shift_inner.iterate junk cfg (fun _ => rfl) id n fuel () trivial)

/-- Nor does maintenance. -/
theorem asked_maintenance (h : Along (workerMaintenance cfg id n) w x) :
    ∀ e ∈ w, e.1.inner = true :=
  h.asked (shift_inner.workerMaintenance cfg id n () trivial)

end Asked

/-- The requests that are no stop checks. -/
abbrev noCheck : Protocol Req Req.Answer Unit := only fun q => q.isCheck = false

/-- A barrier is no check. -/
theorem asked_barrier {b : Barrier} {w : Trail} {x : Task Unit}
    (h : Along (arriveAndWait b) w x) : ∀ e ∈ w, e.1.isCheck = false := by
  have hwp : Remains noCheck (fun _ => True) Nowhere (arriveAndWait b) :=
    remains_bind (remains_only rfl) fun _ => remains_only rfl
  exact h.asked (hwp () trivial)

/-- Through with the loop, a worker checks no more. -/
theorem asked_finish {w : Trail} {x : Task Unit} (h : Along finish w x) :
    ∀ e ∈ w, e.1.isCheck = false := by
  have hdone : Remains noCheck (fun _ => True) Nowhere workerDone := by
    refine remains_bind (remains_only rfl) fun _ => remains_ensuring ?_ (remains_only rfl)
      fun _ _ h => h.elim
    refine remains_bind (remains_only rfl) fun n => remains_bind (remains_only rfl) fun _ => ?_
    refine remains_ite (fun _ => ?_) fun _ => remains_ret _
    exact remains_bind (remains_only rfl) fun _ => remains_only rfl
  have hwp : Remains noCheck (fun _ => True) Nowhere finish :=
    remains_bind hdone fun _ => remains_only rfl
  exact h.asked (hwp () trivial)

/-! ## §3. Where a trail takes a worker. -/

section Trails

variable {junk : Nat → Nat → UInt8} {cfg : Config} {id fuel : Nat} {s v w w₁ w₂ : Trail}
  {x : Task Unit}

theorem isCheck_passed : passed.1.isCheck = true := rfl

theorem checks_of_none (h : ∀ e ∈ w, e.1.isCheck = false) : checks w = 0 := by
  unfold checks
  rw [List.countP_eq_zero]
  intro e he
  rw [h e he]
  exact Bool.false_ne_true

theorem checks_append : checks (w₁ ++ w₂) = checks w₁ + checks w₂ := List.countP_append

/-- A check is not in what was answered without one. -/
theorem cut_at_check (hw : w₁ ++ w₂ = s ++ passed :: v)
    (hnone : ∀ e ∈ w₁, e.1.isCheck = false) :
    ∃ s', s = w₁ ++ s' ∧ w₂ = s' ++ passed :: v ∧ checks s = checks s' := by
  have hmove : ∀ s', s = w₁ ++ s' → checks s = checks s' := by
    intro s' hs
    rw [hs, checks_append, checks_of_none hnone, Nat.zero_add]
  rcases List.append_eq_append_iff.mp hw with ⟨s', hs, hv⟩ | ⟨u, hw₁, hv⟩
  · exact ⟨s', hs, hv, hmove s' hs⟩
  · cases u with
    | nil =>
        rw [List.append_nil] at hw₁
        exact ⟨[], by rw [hw₁, List.append_nil], hv.symm, hmove [] (by rw [hw₁, List.append_nil])⟩
    | cons c u =>
        obtain ⟨rfl, -⟩ := List.cons.inj hv
        have hno := hnone passed (hw₁ ▸ List.mem_append_right s List.mem_cons_self)
        rw [isCheck_passed] at hno
        cases hno

theorem no_check {p : Prop} (hnone : ∀ e ∈ s ++ passed :: v, e.1.isCheck = false) : p := by
  have hno := hnone passed (List.mem_append_right s List.mem_cons_self)
  rw [isCheck_passed] at hno
  cases hno

/-- **From the top of the loop**, iteration by iteration. -/
theorem along_workerLoop {fuel₁ n : Nat}
    (h : Along (workerLoop junk cfg id fuel fuel₁ (n + 1) >>= fun _ => finish)
      (s ++ passed :: v) x) :
    ∃ fuel₂, Along (iterate junk cfg id (n + (checks s + 1)) fuel >>=
      afterIterate junk cfg id fuel fuel₂ (n + (checks s + 1))) v x := by
  induction fuel₁ generalizing n s with
  | zero =>
      obtain ⟨hnil, -⟩ := along_spin h
      cases s <;> cases hnil
  | succ fuel₁ ih =>
      unfold workerLoop at h
      split at h
      · -- the budget is spent
        exact no_check (asked_finish h)
      · have hcheck : Along (Thread.call Req.loadStop >>= fun stop =>
            (if stop then pure () else do
              if ← iterate junk cfg id (n + 1) fuel then
                if ← workerMaintenance cfg id (n + 1) then workerLoop junk cfg id fuel fuel₁ (n + 2)
                else pure ()
              else pure ()) >>= fun _ => finish) (s ++ passed :: v) x := h
        rcases along_call hcheck with hnil | ⟨stop, w, hw, hrest⟩
        · cases s <;> cases hnil
        · cases s with
          | nil =>
              -- this is the check that was passed
              obtain ⟨hstop, rfl⟩ := List.cons.inj hw
              obtain rfl : stop = false := by
                cases hstop
                rfl
              refine ⟨fuel₁, ?_⟩
              rw [if_neg Bool.false_ne_true, bind_bind] at hrest
              exact hrest
          | cons c s =>
              -- it is a later one
              obtain ⟨rfl, rfl⟩ := List.cons.inj hw
              cases stop with
              | true => exact no_check (asked_finish hrest)
              | false =>
                  rw [if_neg Bool.false_ne_true, bind_bind] at hrest
                  rcases along_bind hrest with ⟨_, hin, -⟩ | ⟨b, u, u', hu, hiter, hrest⟩
                  · exact no_check fun e he => isCheck_of_inner (asked_iterate hin e he)
                  obtain ⟨s', rfl, rfl, hs'⟩ := cut_at_check hu.symm fun e he =>
                    isCheck_of_inner (asked_iterate hiter e he)
                  cases b with
                  | false => exact no_check (asked_finish hrest)
                  | true =>
                      rw [if_pos rfl, bind_bind] at hrest
                      rcases along_bind hrest with ⟨_, hin, -⟩ | ⟨b, t, t', ht, hkept, hrest⟩
                      · exact no_check fun e he => isCheck_of_inner (asked_maintenance hin e he)
                      obtain ⟨s'', rfl, rfl, hs''⟩ := cut_at_check ht.symm fun e he =>
                        isCheck_of_inner (asked_maintenance hkept e he)
                      cases b with
                      | false => exact no_check (asked_finish hrest)
                      | true =>
                          obtain ⟨fuel₂, hcall⟩ := ih hrest
                          refine ⟨fuel₂, ?_⟩
                          have hcount : checks (⟨.loadStop, false⟩ :: (u ++ (t ++ s''))) =
                              checks s'' + 1 := by
                            rw [← hs'', ← hs']
                            exact List.countP_cons_of_pos rfl
                          have hnext : n + (checks s'' + 1 + 1) = n + 1 + (checks s'' + 1) := by
                            omega
                          rw [hcount, hnext]
                          exact hcall

/-- **Through the barriers**, a worker comes to the top of the loop before
its first check. -/
theorem along_gates (h : Along (workerMain junk cfg id fuel) (s ++ passed :: v) x) :
    ∃ s₁ s₂, s = s₁ ++ s₂ ∧ ⟨.await .warmupDone, ()⟩ ∈ s₁ ∧ checks s = checks s₂ ∧
      Along (workerLoop junk cfg id fuel fuel 1 >>= fun _ => finish) (s₂ ++ passed :: v) x := by
  rcases along_bind h with ⟨_, hin, -⟩ | ⟨ok, u, u', hu, hiter, hrest⟩
  · exact no_check fun e he => isCheck_of_inner (asked_iterate hin e he)
  obtain ⟨s₁, rfl, rfl, hs₁⟩ := cut_at_check hu.symm fun e he =>
    isCheck_of_inner (asked_iterate hiter e he)
  rcases along_bind hrest with ⟨_, hin, -⟩ | ⟨_, t, t', ht, hgate, hrest⟩
  · exact no_check (asked_barrier hin)
  obtain ⟨s₂, rfl, rfl, hs₂⟩ := cut_at_check ht.symm (asked_barrier hgate)
  rcases along_bind hrest with ⟨_, hin, -⟩ | ⟨_, p, p', hp, hrelease, hrest⟩
  · exact no_check (asked_barrier hin)
  obtain ⟨s₃, rfl, rfl, hs₃⟩ := cut_at_check hp.symm (asked_barrier hrelease)
  have hawait : ⟨.await .warmupDone, ()⟩ ∈ t := by
    cases hgate with
    | on hrest =>
        cases hrest with
        | on hrest => exact List.mem_cons_of_mem _ List.mem_cons_self
  cases ok with
  | false => exact no_check (asked_finish hrest)
  | true =>
      refine ⟨u ++ (t ++ p), s₃, by simp, ?_, hs₁.trans (hs₂.trans hs₃), hrest⟩
      exact List.mem_append_right u (List.mem_append_left p hawait)

/-- **The calls of a worker are the calls in its code**: where the trail has
taken it to one, that call is what it runs next. -/
theorem along_workerMain {n : Nat} (hs : AtIterate n s)
    (h : Along (workerMain junk cfg id fuel) (s ++ v) x) :
    ∃ fuel₁, Along (iterate junk cfg id n fuel >>= afterIterate junk cfg id fuel fuel₁ n) v x := by
  cases hs with
  | warmup => exact ⟨fuel, h⟩
  | looped w =>
      rw [List.append_assoc] at h
      obtain ⟨s₁, s₂, rfl, -, hcount, hloop⟩ := along_gates h
      obtain ⟨fuel₂, hcall⟩ := along_workerLoop (n := 0) hloop
      rw [Nat.zero_add, ← hcount] at hcall
      exact ⟨fuel₂, hcall⟩

/-- **A call and its maintenance are not left half-way.** -/
theorem runsOn_of_along {n fuel₁ : Nat}
    (h : Along (iterate junk cfg id n fuel >>= afterIterate junk cfg id fuel fuel₁ n) v x) :
    RunsOn junk cfg id fuel n v x := by
  rcases along_bind h with ⟨y, hin, hleft⟩ | ⟨ok, v₁, v₂, hv, hiter, hrest⟩
  · exact .iterating hin hleft
  cases ok with
  | false => exact .failed hv hiter
  | true =>
      cases n with
      | zero => exact .warmedUp rfl hv hiter
      | succ n =>
          have hmaintain : Along (workerMaintenance cfg id (n + 1) >>= fun b =>
              (if b then workerLoop junk cfg id fuel fuel₁ (n + 2) else pure ()) >>=
                fun _ => finish) v₂ x := by
            rw [← bind_bind]
            exact hrest
          rcases along_bind hmaintain with ⟨y, hin, hleft⟩ | ⟨b, u, u', hu, hkept, -⟩
          · exact .maintaining (Nat.succ_pos n) hv hiter hin hleft
          · exact .maintained (Nat.succ_pos n) (hu ▸ hv) hiter hkept

end Trails

/-! ## §4. The request. -/

section Runs

variable {σ K : Type} {N : Nat} {L : Lib σ} {key : σ → Handle → Option K} {i j : Tid N}
  {q : Req} {a : q.Answer} {b : Barrier} {s s' : Shared σ K N} {evs evs' : List (Ev N)}
  {r r' : Run σ K N}

theorem AtIterate.unique {n m : Nat} {w : Trail} (h : AtIterate n w) (h' : AtIterate m w) :
    n = m := by
  generalize hw : w = u at h'
  cases h with
  | warmup =>
      cases h' with
      | warmup => rfl
      | looped w' => exact (List.append_ne_nil_of_right_ne_nil w' (by simp) hw.symm).elim
  | looped w =>
      cases h' with
      | warmup => exact (List.append_ne_nil_of_right_ne_nil w (by simp) hw).elim
      | looped w' =>
          obtain ⟨rfl, -⟩ := List.append_inj' hw rfl
          rfl

theorem stop_of_answers (hs : answers L key i s q a s') (h : s.stop = true ∨ q = .storeStop) :
    s'.stop = true := by
  by_cases hq : q = .storeStop
  · subst hq
    obtain rfl := hs
    rfl
  · rw [(framed_of_answers hs).stop hq]
    exact h.resolve_right hq

/-- **Once set, it is never cleared.** -/
theorem stop_kept (h : Traced (machine L key) r evs r') (hstop : r.state.stop = true) :
    r'.state.stop = true := by
  induction h with
  | refl => exact hstop
  | tail _ _ served ih => exact stop_of_answers served.2 (Or.inl ih)

theorem stop_of_stored (h : Traced (machine L key) r evs r') (he : ⟨i, .storeStop, ()⟩ ∈ evs) :
    r'.state.stop = true := by
  induction h with
  | refl => exact (List.not_mem_nil he).elim
  | tail _ _ served ih =>
      rcases List.mem_append.mp he with hbefore | hnow
      · exact stop_of_answers served.2 (Or.inl (ih hbefore))
      · cases List.mem_singleton.mp hnow
        exact stop_of_answers served.2 (Or.inr rfl)

/-- After it nobody passes a check. -/
theorem not_passed (h : Traced (machine L key) r evs r') (hstop : r.state.stop = true) :
    passed ∉ trail i evs := by
  rw [passed, mem_trail]
  induction h with
  | refl => exact List.not_mem_nil
  | tail run _ served ih =>
      intro he
      rcases List.mem_append.mp he with hbefore | hnow
      · exact ih hbefore
      · cases List.mem_singleton.mp hnow
        obtain ⟨-, hanswer, -⟩ := served
        rw [stop_kept run hstop] at hanswer
        cases hanswer

theorem arrived_of_answers (hs : answers L key i s q a s') (h : s'.arrived b j = true) :
    s.arrived b j = true ∨ (q = .arrive b ∧ j = i) := by
  cases hq : q.staged with
  | false =>
      rw [(unstaged_of_answers hq hs).arrived] at h
      exact Or.inl h
  | true =>
      cases q with
      | arrive b' =>
          obtain rfl := hs
          by_cases hb : b = b'
          · subst hb
            by_cases hj : j = i
            · exact Or.inr ⟨rfl, hj⟩
            · left
              simpa [hj] using h
          · left
            simpa [hb] using h
      | await | lockDone | getActive =>
          obtain ⟨-, rfl⟩ := hs
          exact Or.inl h
      | unlockDone | setActive | setFinish | return_ =>
          obtain rfl := hs
          exact Or.inl h
      | _ => cases hq

/-- Who has arrived has said so. -/
theorem arrived_said (h : Traced (machine L key) r evs r')
    (hstart : r.state.arrived = fun _ _ => false) (harr : r'.state.arrived b j = true) :
    ⟨.arrive b, ()⟩ ∈ trail j evs := by
  rw [mem_trail]
  induction h with
  | refl =>
      rw [hstart] at harr
      cases harr
  | tail _ _ served ih =>
      rcases arrived_of_answers served.2 harr with hbefore | ⟨rfl, rfl⟩
      · exact List.mem_append_left _ (ih hbefore)
      · exact List.mem_append_right _ List.mem_cons_self

/-- **Nobody is past a barrier before everybody has arrived.** -/
theorem all_arrived (h : Traced (machine L key) r evs r')
    (hstart : r.state.arrived = fun _ _ => false) (hpast : ⟨.await b, ()⟩ ∈ trail i evs)
    (j : Tid N) : ⟨.arrive b, ()⟩ ∈ trail j evs := by
  rw [mem_trail] at hpast
  induction h with
  | refl => exact (List.not_mem_nil hpast).elim
  | tail run _ served ih =>
      rw [trail_append]
      rcases List.mem_append.mp hpast with hbefore | hnow
      · exact List.mem_append_left _ (ih hbefore)
      · cases List.mem_singleton.mp hnow
        exact List.mem_append_left _ (arrived_said run hstart (served.2.1 j))

/-- An answer to anything but a check does not depend on the request. -/
theorem unhindered (hq : q ≠ .loadStop) (c : Bool) (hs : answers L key i s q a s') :
    ∃ c', answers L key i { s with stop := c } q a { s' with stop := c' } := by
  cases q with
  | loadStop => exact (hq rfl).elim
  | effect | leave | setSelf =>
      obtain ⟨x, hx, rfl⟩ := hs
      exact ⟨c, x, hx, rfl⟩
  | lock =>
      obtain ⟨hwriter, hreaders, rfl⟩ := hs
      exact ⟨c, hwriter, hreaders, rfl⟩
  | enter | lockShared | hasPipe | pipe | blob | fillRandom | fillPayload | self | addRekeys
  | addBlobCycles | await | lockDone | getActive | join =>
      obtain ⟨hgiven, rfl⟩ := hs
      exact ⟨c, hgiven, rfl⟩
  | storeStop =>
      obtain rfl := hs
      exact ⟨true, rfl⟩
  | unlockShared | unlock | setPipe | setBlob | arrive | unlockDone | setActive | now
  | setFinish | signalSeen | exit | return_ =>
      obtain rfl := hs
      exact ⟨c, rfl⟩

/-! ## §5. The bound. -/

/-- The worker has asked the run to stop in its warmup. -/
def FailedWarmup (junk : Nat → Nat → UInt8) (cfg : Config) (id fuel : Nat) (w : Trail) : Prop :=
  ∃ u v y, w = u ++ v ∧ Along (iterate junk cfg id 0 fuel) u y ∧ ⟨.storeStop, ()⟩ ∈ u

/-- An iteration that was started between two states of a run. -/
def Further (k : Fin N) (n : Nat) (evs evs' : List (Ev N)) : Prop :=
  Started n (trail (some k) (evs ++ evs')) ∧ ¬ Started n (trail (some k) evs)

/-- **What a stop request bounds**, seen at one state of a run. -/
structure StopBound (L : Lib σ) (key : σ → Handle → Option K) (junk : Fin N → Nat → Nat → UInt8)
    (cfg : Config) (fuel : Nat) (evs : List (Ev N)) (r : Run σ K N) : Prop where
  /-- it is never cleared -/
  kept : ∀ evs' r', Traced (machine L key) r evs' r' → r.state.stop = true → r'.state.stop = true
  /-- a worker that starts an iteration after it was at the call then: past
  the stop check, or about to begin its warmup -/
  further : ∀ evs' r', Traced (machine L key) r evs' r' → r.state.stop = true → ∀ k n,
    Further k n evs evs' → AtIterate n (trail (some k) evs)
  /-- so it starts one at most -/
  once : ∀ evs' r', Traced (machine L key) r evs' r' → r.state.stop = true → ∀ k n m,
    Further k n evs evs' → Further k m evs evs' → n = m
  /-- after a failing warmup nobody starts iteration 1 -/
  warmup : (∃ k, FailedWarmup (junk k) cfg k fuel (trail (some k) evs)) → ∀ j n,
    Started n (trail (some j) evs) → n = 0
  /-- the calls are those in the code -/
  called : ∀ k n u v, trail (some k) evs = u ++ v → AtIterate n u →
    ∃ fuel₁, Along (iterate (junk k) cfg k n fuel >>= afterIterate (junk k) cfg k fuel fuel₁ n) v
      (r.threads (some k))
  /-- a call and its maintenance run on to their end -/
  runsOn : ∀ k n u v, trail (some k) evs = u ++ v → AtIterate n u →
    RunsOn (junk k) cfg k fuel n v (r.threads (some k))
  /-- neither looks at the request -/
  unwatched : ∀ (k : Fin N) n v y, Along (iterate (junk k) cfg k n fuel) v y ∨
    Along (workerMaintenance cfg k n) v y → ∀ e ∈ v, e.1 ≠ .loadStop
  /-- and no other answer depends on it -/
  unhindered : ∀ i (q : Req) a s' c, q ≠ .loadStop → answers L key i r.state q a s' →
    ∃ c', answers L key i { r.state with stop := c } q a { s' with stop := c' }

variable {cfg : Config} {fuel : Nat}

theorem further_atIterate (h : Traced (machine L key) r evs' r') (hstop : r.state.stop = true)
    {k : Fin N} {n : Nat} (hfurther : Further k n evs evs') : AtIterate n (trail (some k) evs) := by
  obtain ⟨⟨u, e, v, hcall, hsplit⟩, hnot⟩ := hfurther
  rw [trail_append] at hsplit
  rcases List.append_eq_append_iff.mp hsplit with ⟨w, hu, hafter⟩ | ⟨w, hbefore, hev⟩
  · -- the call comes after: the check would have been passed after the stop
    cases hcall with
    | warmup =>
        obtain ⟨hnil, -⟩ := List.append_eq_nil_iff.mp hu.symm
        rw [hnil]
        exact .warmup
    | looped u =>
        rcases List.eq_nil_or_concat w with rfl | ⟨w, c, rfl⟩
        · rw [List.append_nil] at hu
          rw [← hu]
          exact .looped u
        · rw [List.concat_eq_append, ← List.append_assoc] at hu
          obtain ⟨-, hc⟩ := List.append_inj' hu rfl
          obtain rfl := List.singleton_inj.mp hc
          refine (not_passed h hstop (i := some k) ?_).elim
          rw [hafter]
          simp
  · cases w with
    | nil =>
        rw [List.append_nil] at hbefore
        rw [hbefore]
        exact hcall
    | cons c w =>
        -- it was started before
        exact (hnot ⟨u, c, w, hcall, hbefore⟩).elim

/-- **A failing warmup keeps everybody from iteration 1**: all have arrived
at the barrier before the first check. -/
theorem warmup_only {junk : Fin N → Nat → Nat → UInt8} {content : Fin N → Nat → UInt8}
    {built : Pipe → Option (Pipeline × Bytes)} {lib : σ}
    (hrun : Traced (machine L key) (Run.start N key junk cfg content built lib fuel) evs r)
    {k j : Fin N} {n : Nat} (hfail : FailedWarmup (junk k) cfg k fuel (trail (some k) evs))
    (hstarted : Started n (trail (some j) evs)) : n = 0 := by
  obtain ⟨u, e, v, hcall, hsplit⟩ := hstarted
  cases hcall with
  | warmup => rfl
  | looped w =>
      have halong : Along (workerMain (junk j) cfg j fuel) (w ++ passed :: (e :: v))
          (r.threads (some j)) := by
        have h := hrun.along (some j)
        rw [hsplit, List.append_assoc] at h
        exact h
      obtain ⟨w₁, w₂, rfl, hawait, -, -⟩ := along_gates halong
      -- the run up to where `j` is past the barrier
      rw [List.append_assoc, List.append_assoc] at hsplit
      obtain ⟨evs₁, evs₂, rfl, h₁, h₂⟩ := trail_split hsplit
      obtain ⟨d, hrun₁, hrun₂⟩ := hrun.split
      have harrived := all_arrived hrun₁ rfl (h₁ ▸ hawait) (some k)
      obtain ⟨t, t', y, hk, hiter, hstore⟩ := hfail
      rw [trail_append] at hk
      have hstored : ⟨.storeStop, ()⟩ ∈ trail (some k) evs₁ := by
        rcases List.append_eq_append_iff.mp hk with ⟨p, rfl, -⟩ | ⟨p, hp, -⟩
        · -- an iteration does not arrive at barriers
          have hinner := asked_iterate hiter _ (List.mem_append_left p harrived)
          cases hinner
        · rw [hp]
          exact List.mem_append_left p hstore
      have hstop := stop_of_stored hrun₁ (mem_trail.mp hstored)
      refine (not_passed hrun₂ hstop (i := some j) ?_).elim
      rw [h₂]
      simp

/-- **The stop request.**  In every run, for any number of workers and
however the threads take turns: once set it stays set, a worker starts at
most one further iteration, which it was already at, a failing warmup keeps
everybody from iteration 1, and what was started is not cut short. -/
theorem stop_bounded (junk : Fin N → Nat → Nat → UInt8) (content : Fin N → Nat → UInt8)
    {built : Pipe → Option (Pipeline × Bytes)} {lib : σ}
    (hrun : Traced (machine L key) (Run.start N key junk cfg content built lib fuel) evs r) :
    StopBound L key junk cfg fuel evs r := by
  have hcalled : ∀ k n u v, trail (some k) evs = u ++ v → AtIterate n u →
      ∃ fuel₁, Along (iterate (junk k) cfg k n fuel >>=
        afterIterate (junk k) cfg k fuel fuel₁ n) v (r.threads (some k)) := by
    intro k n u v hsplit hcall
    have halong := hrun.along (some k)
    rw [hsplit] at halong
    exact along_workerMain hcall halong
  refine ⟨fun _ _ => stop_kept, fun _ _ h hstop _ _ => further_atIterate h hstop, ?_, ?_, hcalled,
    ?_, ?_, fun _ _ _ _ c hq => unhindered hq c⟩
  · intro evs' r' h hstop k n m hn hm
    exact (further_atIterate h hstop hn).unique (further_atIterate h hstop hm)
  · intro hfail j n hstarted
    obtain ⟨k, hfail⟩ := hfail
    exact warmup_only hrun hfail hstarted
  · intro k n u v hsplit hcall
    obtain ⟨fuel₁, halong⟩ := hcalled k n u v hsplit hcall
    exact runsOn_of_along halong
  · intro k n v y hway e he hload
    have hinner : e.1.inner = true := by
      rcases hway with hway | hway
      · exact asked_iterate hway e he
      · exact asked_maintenance hway e he
    rw [hload] at hinner
    cases hinner

/-- Two workers whose payloads are drawn anew in every iteration. -/
def undrawnConfig : Config := { hollowConfig with payloadMode := .rotating }

theorem undrawn_builds :
    Returns (buildPipelines hollow undrawnConfig) ⟨(), []⟩ (some hollowBuilt) () := by
  have hfits : Fits noBytes := ⟨rfl, rfl, Nat.zero_le kBlobCap⟩
  have hsave : hollow (.save noBytes.handle kBlobCap) () = (noBytes, ()) := rfl
  exact returns_message rfl rfl rfl hsave rfl hfits hfits hfits rfl rfl

def Run.undrawn : Run Unit Unit 2 :=
  Run.start 2 (fun _ _ => none) (fun _ _ _ => 0) undrawnConfig (fun _ _ => 0) hollowBuilt () 1

/-- Worker 0 cannot draw its payload, and asks the run to stop. -/
def undrawnEvents : List (Ev 2) :=
  [⟨some 0, .self, Worker.start undrawnConfig fun _ => 0⟩, ⟨some 0, .fillPayload 1, none⟩,
    ⟨some 0, .setSelf fun w =>
      if w.failed then w
      else { w with error := place 0 0 ++ text ": payload refill: csprng", failed := true }, ()⟩,
    ⟨some 0, .storeStop, ()⟩]

/-- Worker 1 begins its warmup. -/
def belatedEvents : List (Ev 2) := [⟨some 1, .self, Worker.start undrawnConfig fun _ => 0⟩]

theorem undrawn_runs : ∃ r, Traced (machine hollow fun _ _ => none) Run.undrawn undrawnEvents r ∧
    r.state.stop = true ∧ ∃ r', Traced (machine hollow fun _ _ => none) r belatedEvents r' := by
  have h₁ : Traced (machine hollow fun _ _ => none) Run.undrawn [_] _ :=
    .single (i := some 0) (a := Worker.start undrawnConfig fun _ => 0) rfl
      ⟨rfl, ⟨0, rfl, rfl⟩, rfl⟩
  have h₂ := h₁.tail (i := some 0) (a := (none : Option Bytes)) rfl
    ⟨rfl, fun b hb => (by cases hb), rfl⟩
  have h₃ := h₂.tail (i := some 0) (a := ()) rfl ⟨rfl, 0, rfl, rfl⟩
  have h₄ := h₃.tail (i := some 0) (a := ()) rfl ⟨rfl, rfl⟩
  obtain ⟨r, hrun, hstop, hexit, hworker, hthread⟩ :
      ∃ r, Traced (machine hollow fun _ _ => none) Run.undrawn undrawnEvents r ∧
        r.state.stop = true ∧ r.state.exited = none ∧
        r.state.workers 1 = Worker.start undrawnConfig (fun _ => 0) ∧
        r.threads (some 1) = Run.undrawn.threads (some 1) :=
    ⟨_, h₄, rfl, rfl, rfl, rfl⟩
  exact ⟨r, hrun, hstop, _, .single hthread ⟨hexit, ⟨1, rfl, hworker.symm⟩, rfl⟩⟩

/-- As far as a worker starts iterations after the stop, it had passed the
check. -/
def OnlyChecked (evs evs' : List (Ev N)) : Prop :=
  ∀ k n, Further k n evs evs' → ∃ w, trail (some k) evs = w ++ [passed]

/-- A worker begins its warmup without a check: after a warmup that failed,
too. -/
theorem warmup_unchecked :
    Returns (buildPipelines hollow undrawnConfig) ⟨(), []⟩ (some hollowBuilt) () ∧
    ∃ evs evs' r r', Traced (machine hollow fun _ _ => none) Run.undrawn evs r ∧
      r.state.stop = true ∧ Traced (machine hollow fun _ _ => none) r evs' r' ∧
      ¬ OnlyChecked evs evs' := by
  obtain ⟨r, hrun, hstop, r', hlate⟩ := undrawn_runs
  refine ⟨undrawn_builds, undrawnEvents, belatedEvents, r, r', hrun, hstop, hlate, fun honly => ?_⟩
  have hnone : trail (some 1) undrawnEvents = [] := rfl
  have hstarted : Started 0 (trail (some 1) (undrawnEvents ++ belatedEvents)) :=
    ⟨[], _, [], .warmup, rfl⟩
  have hnot : ¬ Started 0 (trail (some 1) undrawnEvents) := by
    intro hbefore
    obtain ⟨u, e, v, -, hsplit⟩ := hbefore
    rw [hnone] at hsplit
    cases u <;> cases hsplit
  obtain ⟨w, hw⟩ := honly 1 0 ⟨hstarted, hnot⟩
  rw [hnone] at hw
  cases w <;> cases hw

theorem stop_bounded_undrawn :
    ∃ r, Traced (machine hollow fun _ _ => none) Run.undrawn undrawnEvents r ∧
      r.state.stop = true ∧
      StopBound hollow (fun _ _ => none) (fun _ _ _ => 0) undrawnConfig 1 undrawnEvents r := by
  obtain ⟨r, hrun, hstop, -⟩ := undrawn_runs
  exact ⟨r, hrun, hstop, stop_bounded _ _ hrun⟩

end Runs

end ItbCpp.Loop
