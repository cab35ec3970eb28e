/-
  ItbCpp.Loop.Shutdown
  ────────────────────
  **WHAT THE STAGES SAY OF THE SHARED STATE.**

  The invariant of the start-up and shutdown of a run, in parts that each
  answer a few of the requests, over every interleaving of threads that
  keep to their protocols (`Loop.Stages`).

    • `Held` — `pipe_lock` and the calls inside the library,
    • `Staged` — how a thread gets from one stage to the next,
    • `Gates` — nobody is past a barrier before all have arrived,
    • `Guarded`, `Back` — `done_mu`, and who has returned,
    • `Tally` — `active` and the finish stamp,
    • `upholds_accounted` — all of it, kept by every answer.
-/
import ItbCpp.Loop.Stages
import Mathlib.Data.Fintype.Card

namespace ItbCpp.Loop

open Interleave

section Invariants

variable {σ K : Type} {N : Nat} {L : Lib σ} {key : σ → Handle → Option K} {ex : Pipe → Bool}
  {i : Tid N} {q : Req} {a : q.Answer} {s s' : Shared σ K N} {t : Standing}
  {ts : Tid N → Standing} {st : Tid N → Stage}

/-! ## §1. Locks and calls. -/

/-- Where a call of the library is. -/
def callAt : Option (FfiCall × Option Reply) → CallAt
  | none => .outside
  | some (_, none) => .entered
  | some (_, some _) => .answered

/-- What thread `i` holds. -/
structure Holds (s : PipeState σ K N) (i : Tid N) (t : Standing) : Prop where
  call : callAt (s.calls i) = t.call
  reader : s.readers i = true ↔ t.side = .read
  writer : s.writer = some i ↔ t.side = .write

/-- What each thread holds, and which Pipelines there are. -/
structure Held (ex : Pipe → Bool) (ts : Tid N → Standing) (s : PipeState σ K N) : Prop where
  holds : ∀ i, Holds s i (ts i)
  pipes : ∀ p, (s.pipes p).isSome = ex p

/-- Only thread `i` has moved. -/
theorem forall_update {α : Type} {f : Tid N → α} {x : α} {P : Tid N → α → Prop}
    (hi : P i x) (h : ∀ j, j ≠ i → P j (f j)) (j : Tid N) : P j (Function.update f i x j) := by
  by_cases hj : j = i
  · subst hj
    rw [Function.update_self]
    exact hi
  · rw [Function.update_of_ne hj]
    exact h j hj

/-- A request that leaves the pipe state alone leaves what is held alone. -/
theorem held_quiet (h : Held ex ts s.toPipeState) (hq : q.quiet = true)
    (hs : answers L key i s q a s') :
    Held ex (Function.update ts i ((ts i).after q a)) s'.toPipeState := by
  have hside : ((ts i).after q a).side = (ts i).side := by
    cases q <;> first | rfl | cases hq
  have hcall : ((ts i).after q a).call = (ts i).call := by
    cases q <;> first | rfl | cases hq
  rw [toPipeState_of_quiet hq hs]
  refine ⟨forall_update ?_ fun j _ => h.holds j, h.pipes⟩
  obtain ⟨hc, hr, hw⟩ := h.holds i
  refine ⟨?_, ?_, ?_⟩
  · rw [hcall]
    exact hc
  · rw [hside]
    exact hr
  · rw [hside]
    exact hw

/-- One thread's step: it holds afterwards what it says, the others hold what
they held, and the Pipelines are the ones there should be. -/
theorem Held.step {s s' : PipeState σ K N} {t : Standing} (h : Held ex ts s) (hi : Holds s' i t)
    (hcalls : ∀ j, j ≠ i → s'.calls j = s.calls j)
    (hreaders : ∀ j, j ≠ i → s'.readers j = s.readers j)
    (hwriter : ∀ j, j ≠ i → (s'.writer = some j ↔ s.writer = some j))
    (hpipes : ∀ p, (s'.pipes p).isSome = ex p) : Held ex (Function.update ts i t) s' := by
  refine ⟨forall_update hi ?_, hpipes⟩
  intro j hj
  obtain ⟨hc, hr, hw⟩ := h.holds j
  refine ⟨?_, ?_, (hwriter j hj).trans hw⟩
  · rw [hcalls j hj]
    exact hc
  · rw [hreaders j hj]
    exact hr

/-- A step of thread `i` into the library, there, or out of it. -/
theorem Held.called {s s' : PipeState σ K N} {t : Standing} {v : Option (FfiCall × Option Reply)}
    (h : Held ex ts s) (hcalls : s'.calls = Function.update s.calls i v)
    (hreaders : s'.readers = s.readers) (hwriter : s'.writer = s.writer)
    (hpipes : s'.pipes = s.pipes) (hv : callAt v = t.call) (hside : t.side = (ts i).side) :
    Held ex (Function.update ts i t) s' := by
  obtain ⟨-, hr, hw⟩ := h.holds i
  refine h.step ⟨?_, ?_, ?_⟩ ?_ (fun j _ => by rw [hreaders]) (fun j _ => by rw [hwriter])
    (fun p => by rw [hpipes]; exact h.pipes p)
  · rw [hcalls, Function.update_self]
    exact hv
  · rw [hreaders, hside]
    exact hr
  · rw [hwriter, hside]
    exact hw
  · intro j hj
    rw [hcalls, Function.update_of_ne hj]

/-- **What is held is what the threads know of it.** -/
theorem held_step (h : Held ex ts s.toPipeState) (hask : (ts i).asks ex i q)
    (hs : answers L key i s q a s') :
    Held ex (Function.update ts i ((ts i).after q a)) s'.toPipeState := by
  obtain ⟨hcall, hreader, hwriter⟩ := h.holds i
  cases q with
  | enter c =>
      obtain ⟨-, rfl⟩ := hs
      exact h.called rfl rfl rfl rfl rfl rfl
  | effect =>
      obtain ⟨c, -, rfl⟩ := hs
      exact h.called rfl rfl rfl rfl rfl rfl
  | leave =>
      obtain ⟨c, -, rfl⟩ := hs
      exact h.called rfl rfl rfl rfl rfl rfl
  | lockShared =>
      obtain ⟨-, rfl⟩ := hs
      have hfree : (ts i).side = .none := hask.2.2.1
      refine h.step ⟨hcall, ?_, ?_⟩ (fun _ _ => rfl) ?_ (fun _ _ => Iff.rfl) h.pipes
      · exact iff_of_true (Function.update_self ..) rfl
      · rw [hfree] at hwriter
        exact hwriter.trans ⟨fun hw => (by cases hw), fun hw => (by cases hw)⟩
      · intro j hj
        exact Function.update_of_ne hj ..
  | unlockShared =>
      obtain rfl := hs
      have hread : (ts i).side = .read := hask.2.1
      refine h.step ⟨hcall, ?_, ?_⟩ (fun _ _ => rfl) ?_ (fun _ _ => Iff.rfl) h.pipes
      · show Function.update s.readers i false i = true ↔ Side.none = .read
        rw [Function.update_self]
        exact ⟨fun hr => (by cases hr), fun hr => (by cases hr)⟩
      · rw [hread] at hwriter
        exact hwriter.trans ⟨fun hw => (by cases hw), fun hw => (by cases hw)⟩
      · intro j hj
        exact Function.update_of_ne hj ..
  | lock =>
      obtain ⟨hnone, -, rfl⟩ := hs
      refine h.step ⟨hcall, ?_, ⟨fun _ => rfl, fun _ => rfl⟩⟩ (fun _ _ => rfl) (fun _ _ => rfl) ?_
        h.pipes
      · rw [hask.2.2.1] at hreader
        exact hreader.trans ⟨fun hr => (by cases hr), fun hr => (by cases hr)⟩
      · intro j hj
        rw [hnone]
        exact ⟨fun hw => (hj (Option.some.inj hw).symm).elim, fun hw => (by cases hw)⟩
  | unlock =>
      obtain rfl := hs
      have hwrite : (ts i).side = .write := hask.2.1
      refine h.step ⟨hcall, ?_, ⟨fun hw => (by cases hw), fun hw => (by cases hw)⟩⟩
        (fun _ _ => rfl) (fun _ _ => rfl) ?_ h.pipes
      · rw [hwrite] at hreader
        exact hreader.trans ⟨fun hr => (by cases hr), fun hr => (by cases hr)⟩
      · intro j hj
        -- the writer was thread `i`
        rw [hwriter.mpr hwrite]
        exact ⟨fun hw => (by cases hw), fun hw => (hj (Option.some.inj hw).symm).elim⟩
  | setPipe p g =>
      obtain rfl := hs
      refine h.step ⟨hcall, hreader, hwriter⟩ (fun _ _ => rfl) (fun _ _ => rfl)
        (fun _ _ => Iff.rfl) fun p' => ?_
      show (Function.update s.pipes p (some g) p').isSome = ex p'
      by_cases hp : p' = p
      · subst hp
        rw [Function.update_self]
        exact hask.2.symm
      · rw [Function.update_of_ne hp]
        exact h.pipes p'
  | setBlob p b =>
      obtain rfl := hs
      exact h.step ⟨hcall, hreader, hwriter⟩ (fun _ _ => rfl) (fun _ _ => rfl)
        (fun _ _ => Iff.rfl) h.pipes
  | _ => exact held_quiet h rfl hs

/-! ## §2. The barriers. -/

/-- The requests that take a thread to another stage. -/
def Req.staged : Req → Bool
  | .arrive _ | .await _ | .lockDone | .unlockDone | .getActive | .setActive _ | .setFinish _
  | .return_ => true
  | _ => false

theorem after_of_unstaged (hq : q.staged = false) (x : Stage) : x.after q a = x := by
  cases q <;> first | rfl | cases hq

/-- What the stages speak of is as it was. -/
structure Unstaged (s s' : Shared σ K N) : Prop where
  arrived : s'.arrived = s.arrived
  doneMu : s'.doneMu = s.doneMu
  active : s'.active = s.active
  returned : s'.returned = s.returned

theorem unstaged_of_answers (hq : q.staged = false) (hs : answers L key i s q a s') :
    Unstaged s s' := by
  cases q with
  | enter | effect | leave | setSelf =>
      obtain ⟨_, -, rfl⟩ := hs
      exact ⟨rfl, rfl, rfl, rfl⟩
  | lock =>
      obtain ⟨-, -, rfl⟩ := hs
      exact ⟨rfl, rfl, rfl, rfl⟩
  | lockShared | hasPipe | pipe | blob | fillRandom | fillPayload | self | loadStop | addRekeys
  | addBlobCycles | join =>
      obtain ⟨-, rfl⟩ := hs
      exact ⟨rfl, rfl, rfl, rfl⟩
  | unlockShared | unlock | setPipe | setBlob | storeStop | now | signalSeen | exit =>
      obtain rfl := hs
      exact ⟨rfl, rfl, rfl, rfl⟩
  | _ => cases hq

/-- **How thread `i` gets to another stage**, and what the shared state becomes
by it. -/
inductive Staged (i : Tid N) (s : Shared σ K N) : Req → Stage → Stage → Shared σ K N → Prop where
  | arriveWarmup : Staged i s (.arrive .warmupDone) .start .arrived { s with
      arrived := Function.update s.arrived .warmupDone
        (Function.update (s.arrived .warmupDone) i true) }
  | passWarmup (hall : ∀ j, s.arrived .warmupDone j = true) :
      Staged i s (.await .warmupDone) .arrived .between s
  | arriveRelease : Staged i s (.arrive .release) .between .ready { s with
      arrived := Function.update s.arrived .release
        (Function.update (s.arrived .release) i true) }
  | passRelease (hall : ∀ j, s.arrived .release j = true) :
      Staged i s (.await .release) .ready .released s
  | lockDone (hfree : s.doneMu = none) :
      Staged i s .lockDone .released .holding { s with doneMu := some i }
  | getActive : Staged i s .getActive .holding (.saw s.active) s
  | countOut (hi : i ≠ none) (n : Int) :
      Staged i s (.setActive n) (.saw (n + 1)) (.wrote n) { s with active := n }
  /-- main's first stamp, between the barriers -/
  | preset (hi : i = none) (u : Int) :
      Staged i s (.setFinish u) .between .between { s with finishNs := u }
  | stamp (hi : i ≠ none) (u : Int) :
      Staged i s (.setFinish u) (.wrote 0) .stamped { s with finishNs := u }
  /-- main's wait loop, while somebody is active -/
  | again (hi : i = none) (n : Int) (hn : 0 < n) :
      Staged i s .unlockDone (.saw n) .released { s with doneMu := none }
  | leave (hi : i = none) (n : Int) (hn : n ≤ 0) :
      Staged i s .unlockDone (.saw n) .done { s with doneMu := none }
  | last (hi : i ≠ none) : Staged i s .unlockDone .stamped .done { s with doneMu := none }
  | notLast (hi : i ≠ none) (n : Int) (hn : n ≠ 0) :
      Staged i s .unlockDone (.wrote n) .done { s with doneMu := none }
  | return_ (hi : i ≠ none) : Staged i s .return_ .done .returned { s with
      returned := Function.update s.returned i true }

theorem staged_of_answers (hst : t.stage = st i) (hask : t.asks ex i q)
    (hs : answers L key i s q a s') (hq : q.staged = true) :
    ∃ x y, st i = x ∧ (st i).after q a = y ∧ Staged i s q x y s' := by
  cases q with
  | arrive b =>
      obtain rfl := hs
      cases b with
      | warmupDone => exact ⟨_, _, hst.symm.trans hask.1, rfl, .arriveWarmup⟩
      | release => exact ⟨_, _, hst.symm.trans hask.1, rfl, .arriveRelease⟩
  | await b =>
      obtain ⟨hall, rfl⟩ := hs
      cases b with
      | warmupDone => exact ⟨_, _, hst.symm.trans hask.1, rfl, .passWarmup hall⟩
      | release => exact ⟨_, _, hst.symm.trans hask.1, rfl, .passRelease hall⟩
  | lockDone =>
      obtain ⟨hfree, rfl⟩ := hs
      exact ⟨_, _, hst.symm.trans hask.1, rfl, .lockDone hfree⟩
  | getActive =>
      obtain ⟨rfl, rfl⟩ := hs
      exact ⟨_, _, hst.symm.trans hask.1, rfl, .getActive⟩
  | setActive n =>
      obtain rfl := hs
      exact ⟨_, _, hst.symm.trans hask.2.1, rfl, .countOut hask.1 n⟩
  | return_ =>
      obtain rfl := hs
      exact ⟨_, _, hst.symm.trans hask.2.1, rfl, .return_ hask.1⟩
  | setFinish u =>
      obtain rfl := hs
      obtain ⟨-, hx⟩ := hask
      rw [hst] at hx
      split at hx
      · rename_i hi
        exact ⟨_, _, hx, by rw [hx]; rfl, .preset hi u⟩
      · rename_i hi
        exact ⟨_, _, hx, by rw [hx]; rfl, .stamp hi u⟩
  | unlockDone =>
      obtain rfl := hs
      obtain ⟨-, hx⟩ := hask
      rw [hst] at hx
      split at hx
      · rename_i hi
        obtain ⟨n, hx⟩ := hx
        have hafter : (st i).after .unlockDone a = if 0 < n then .released else .done := by
          rw [hx]
          rfl
        by_cases hn : 0 < n
        · exact ⟨_, _, hx, hafter.trans (if_pos hn), .again hi n hn⟩
        · exact ⟨_, _, hx, hafter.trans (if_neg hn), .leave hi n (by omega)⟩
      · rename_i hi
        rcases hx with hx | ⟨n, hx, hn⟩
        · exact ⟨_, _, hx, by rw [hx]; rfl, .last hi⟩
        · exact ⟨_, _, hx, by rw [hx]; rfl, .notLast hi n hn⟩
  | _ => cases hq

/-- Only thread `i` has moved: what is to be seen of any thread. -/
theorem update_cases {α : Type} (f : Tid N → α) (i : Tid N) (x : α) (j : Tid N) :
    (j = i ∧ Function.update f i x j = x) ∨ (j ≠ i ∧ Function.update f i x j = f j) := by
  by_cases hj : j = i
  · subst hj
    exact Or.inl ⟨rfl, Function.update_self ..⟩
  · exact Or.inr ⟨hj, Function.update_of_ne hj ..⟩

/-- **Nobody is past a barrier before all have arrived.** -/
structure Gates (st : Tid N → Stage) (s : Shared σ K N) : Prop where
  arrived : ∀ i b, s.arrived b i = (st i).arrivedAt b
  past : ∀ i b, (st i).past b = true → ∀ j, (st j).arrivedAt b = true

/-- Thread `i` moves on to the stage `x`. -/
theorem Gates.move (h : Gates st s) {x : Stage}
    (harr : ∀ j b, s'.arrived b j = if j = i then x.arrivedAt b else s.arrived b j)
    (hmono : ∀ b, (st i).arrivedAt b = true → x.arrivedAt b = true)
    (hpast : ∀ b, x.past b = true → (st i).past b = true ∨ ∀ j, (st j).arrivedAt b = true) :
    Gates (Function.update st i x) s' := by
  -- who has arrived has still arrived
  have hall : ∀ b, (∀ j, (st j).arrivedAt b = true) →
      ∀ j, (Function.update st i x j).arrivedAt b = true := by
    intro b hb j
    rcases update_cases st i x j with ⟨rfl, hj⟩ | ⟨-, hj⟩
    · rw [hj]
      exact hmono b (hb j)
    · rw [hj]
      exact hb j
  constructor
  · intro j b
    rw [harr]
    rcases update_cases st i x j with ⟨rfl, hj⟩ | ⟨hne, hj⟩
    · rw [hj, if_pos rfl]
    · rw [hj, if_neg hne]
      exact h.arrived j b
  · intro j b hb
    apply hall b
    rcases update_cases st i x j with ⟨rfl, hj⟩ | ⟨-, hj⟩
    · rw [hj] at hb
      rcases hpast b hb with hb | hb
      · exact h.past j b hb
      · exact hb
    · rw [hj] at hb
      exact h.past j b hb

/-- To a stage that is as far, as far as barriers go. -/
theorem Gates.stay (h : Gates st s) {x : Stage} (harr : s'.arrived = s.arrived)
    (hx : ∀ b, x.arrivedAt b = (st i).arrivedAt b ∧ x.past b = (st i).past b) :
    Gates (Function.update st i x) s' := by
  refine h.move (fun j b => ?_) (fun b hb => ?_) fun b hb => Or.inl ?_
  · rw [harr]
    split
    · rename_i hj
      rw [hj, (hx b).1]
      exact h.arrived i b
    · rfl
  · rw [(hx b).1]
    exact hb
  · rw [← (hx b).2]
    exact hb

/-- To a stage at which it has arrived at `b`. -/
theorem Gates.arrive (h : Gates st s) {b : Barrier} {x : Stage}
    (hx : ∀ b', x.arrivedAt b' = if b' = b then true else (st i).arrivedAt b')
    (hpast : ∀ b', x.past b' = (st i).past b') :
    Gates (Function.update st i x) { s with
      arrived := Function.update s.arrived b (Function.update (s.arrived b) i true) } := by
  refine h.move (fun j b' => ?_) (fun b' hb => ?_) fun b' hb => Or.inl ?_
  · show Function.update s.arrived b (Function.update (s.arrived b) i true) b' j = _
    by_cases hb : b' = b
    · subst hb
      rw [Function.update_self, hx, if_pos rfl]
      by_cases hj : j = i
      · rw [hj, Function.update_self, if_pos rfl]
      · rw [Function.update_of_ne hj, if_neg hj]
    · rw [Function.update_of_ne hb, hx, if_neg hb]
      split
      · rename_i hj
        rw [hj]
        exact h.arrived i b'
      · rfl
  · rw [hx]
    split
    · rfl
    · exact hb
  · rw [← hpast]
    exact hb

/-- Past the release barrier, a thread is past both. -/
theorem past_of_release {x : Stage} (hx : x.past .release = true) (b : Barrier) :
    x.arrivedAt b = true ∧ x.past b = true := by
  cases x <;> cases b <;> first | exact ⟨rfl, rfl⟩ | cases hx

/-- From one stage past the release barrier to another. -/
theorem Gates.late (h : Gates st s) {x : Stage} (harr : s'.arrived = s.arrived)
    (hi : (st i).past .release = true) (hx : x.past .release = true) :
    Gates (Function.update st i x) s' := by
  refine h.stay harr fun b => ?_
  obtain ⟨ha, hp⟩ := past_of_release hi b
  obtain ⟨ha', hp'⟩ := past_of_release hx b
  exact ⟨ha'.trans ha.symm, hp'.trans hp.symm⟩

/-- Past a barrier at which all have arrived, and past no other. -/
theorem Gates.pass (h : Gates st s) {b : Barrier} {x : Stage} (hall : ∀ j, s.arrived b j = true)
    (hx : ∀ b', x.arrivedAt b' = (st i).arrivedAt b')
    (hpast : ∀ b', x.past b' = true → b' ≠ b → (st i).past b' = true) :
    Gates (Function.update st i x) s := by
  refine h.move (fun j b' => ?_) (fun b' hb => ?_) fun b' hb => ?_
  · split
    · rename_i hj
      rw [hj, hx]
      exact h.arrived i b'
    · rfl
  · rw [hx]
    exact hb
  · by_cases hbb : b' = b
    · exact Or.inr (hbb ▸ fun j => (h.arrived j b).symm.trans (hall j))
    · exact Or.inl (hpast b' hb hbb)

theorem gates_step (h : Gates st s) (hst : t.stage = st i) (hask : t.asks ex i q)
    (hs : answers L key i s q a s') : Gates (Function.update st i ((st i).after q a)) s' := by
  cases hq : q.staged with
  | false =>
      rw [after_of_unstaged hq]
      exact h.stay (unstaged_of_answers hq hs).arrived fun _ => ⟨rfl, rfl⟩
  | true =>
      obtain ⟨x, y, hx, hy, hmove⟩ := staged_of_answers hst hask hs hq
      rw [hy]
      cases hmove with
      | arriveWarmup | arriveRelease =>
          refine h.arrive (fun b' => ?_) fun b' => ?_ <;> rw [hx] <;> cases b' <;> rfl
      | passWarmup hall =>
          refine h.pass hall (fun b' => ?_) fun b' hb hne => ?_ <;> rw [hx] <;> cases b'
          · rfl
          · rfl
          · exact (hne rfl).elim
          · exact hb
      | passRelease hall =>
          refine h.pass hall (fun b' => ?_) fun b' hb hne => ?_ <;> rw [hx] <;> cases b'
          · rfl
          · rfl
          · exact hb
          · exact (hne rfl).elim
      | preset => exact h.stay rfl fun b => by rw [hx]; exact ⟨rfl, rfl⟩
      | _ => exact h.late rfl (hx ▸ rfl) rfl

/-! ## §3. `done_mu`. -/

/-- **`done_mu` is held by the thread that took it.** -/
def Guarded (st : Tid N → Stage) (s : Shared σ K N) : Prop :=
  ∀ i, s.doneMu = some i ↔ (st i).locked = true

/-- One thread has it at most. -/
theorem Guarded.unique (h : Guarded st s) {j : Tid N} (hi : (st i).locked = true)
    (hj : (st j).locked = true) : j = i :=
  Option.some.inj (((h j).mpr hj).symm.trans ((h i).mpr hi))

/-- `done_mu` stays where it is, and so does what the stage says of it. -/
theorem Guarded.stay (h : Guarded st s) {x : Stage} (hmu : s'.doneMu = s.doneMu)
    (hx : x.locked = (st i).locked) : Guarded (Function.update st i x) s' := by
  intro j
  rw [hmu, h j]
  rcases update_cases st i x j with ⟨rfl, hj⟩ | ⟨-, hj⟩
  · rw [hj, hx]
  · rw [hj]

/-- Whoever gives it back had it. -/
theorem Guarded.release (h : Guarded st s) {x : Stage} (hi : (st i).locked = true)
    (hx : x.locked = false) : Guarded (Function.update st i x) { s with doneMu := none } := by
  intro j
  rcases update_cases st i x j with ⟨rfl, hj⟩ | ⟨hne, hj⟩
  · rw [hj, hx]
    exact ⟨fun h => (by cases h), fun h => (by cases h)⟩
  · rw [hj]
    exact ⟨fun h => (by cases h), fun h' => (hne (h.unique hi h')).elim⟩

theorem guarded_step (h : Guarded st s) (hst : t.stage = st i) (hask : t.asks ex i q)
    (hs : answers L key i s q a s') :
    Guarded (Function.update st i ((st i).after q a)) s' := by
  cases hq : q.staged with
  | false =>
      rw [after_of_unstaged hq]
      exact h.stay (unstaged_of_answers hq hs).doneMu rfl
  | true =>
      obtain ⟨x, y, hx, hy, hmove⟩ := staged_of_answers hst hask hs hq
      rw [hy]
      cases hmove with
      | lockDone hfree =>
          intro j
          rcases update_cases st i .holding j with ⟨rfl, hj⟩ | ⟨hne, hj⟩
          · rw [hj]
            exact ⟨fun _ => rfl, fun _ => rfl⟩
          · rw [hj, ← h j, hfree]
            exact ⟨fun h => (hne (Option.some.inj h).symm).elim, fun h => (by cases h)⟩
      | again | leave | last | notLast => exact h.release (hx ▸ rfl) rfl
      | _ => exact h.stay rfl (hx ▸ rfl)

/-- Who has returned has been seen to. -/
def Back (st : Tid N → Stage) (s : Shared σ K N) : Prop :=
  ∀ i, st i = .returned → s.returned i = true

theorem Back.stay (h : Back st s) {x : Stage} (hsame : s'.returned = s.returned)
    (hx : x = .returned → st i = .returned) : Back (Function.update st i x) s' := by
  intro j
  rw [hsame]
  rcases update_cases st i x j with ⟨rfl, hj⟩ | ⟨-, hj⟩
  · rw [hj]
    exact fun heq => h j (hx heq)
  · rw [hj]
    exact h j

theorem back_step (h : Back st s) (hst : t.stage = st i) (hask : t.asks ex i q)
    (hs : answers L key i s q a s') : Back (Function.update st i ((st i).after q a)) s' := by
  cases hq : q.staged with
  | false =>
      rw [after_of_unstaged hq]
      exact h.stay (unstaged_of_answers hq hs).returned fun hx => hx
  | true =>
      obtain ⟨x, y, hx, hy, hmove⟩ := staged_of_answers hst hask hs hq
      rw [hy]
      cases hmove with
      | return_ =>
          intro j
          show _ → Function.update s.returned i true j = true
          rcases update_cases st i .returned j with ⟨rfl, hj⟩ | ⟨hne, hj⟩
          · exact fun _ => Function.update_self ..
          · rw [hj, Function.update_of_ne hne]
            exact h j
      | _ => exact h.stay rfl fun heq => (by cases heq)

/-! ## §4. Counting out. -/

/-- The workers that have counted themselves out. -/
def countedOut (st : Tid N → Stage) : Finset (Fin N) :=
  Finset.univ.filter fun k => (st (some k)).counted = true

theorem countedOut_lt {k : Fin N} (hk : (st (some k)).counted = false) :
    (countedOut st).card < N := by
  have h : (countedOut st).card < (Finset.univ : Finset (Fin N)).card :=
    Finset.card_lt_card (Finset.filter_ssubset.mpr ⟨k, Finset.mem_univ k, by simp [hk]⟩)
  rwa [Finset.card_univ, Fintype.card_fin] at h

theorem countedOut_same {x : Stage} (hx : ∀ k, i = some k → x.counted = (st i).counted) :
    countedOut (Function.update st i x) = countedOut st := by
  unfold countedOut
  congr 1
  funext k
  rcases update_cases st i x (some k) with ⟨hi, hj⟩ | ⟨-, hj⟩
  · rw [hj, hx k hi.symm, hi]
  · rw [hj]

theorem countedOut_one {k : Fin N} {x : Stage} (hk : (st (some k)).counted = false)
    (hx : x.counted = true) :
    (countedOut (Function.update st (some k) x)).card = (countedOut st).card + 1 := by
  have hnot : k ∉ countedOut st := by simp [countedOut, hk]
  have hset : countedOut (Function.update st (some k) x) = insert k (countedOut st) := by
    ext j
    rcases update_cases st (some k) x (some j) with ⟨hi, hj⟩ | ⟨hne, hj⟩
    · simp [countedOut, hx, Option.some.inj hi]
    · have hjk : j ≠ k := fun h => hne (congrArg some h)
      simp [countedOut, hjk]
  rw [hset, Finset.card_insert_of_notMem hnot]

/-- Main has seen nobody active. -/
def Stage.left : Stage → Bool
  | .saw n => decide (n ≤ 0)
  | .done => true
  | _ => false

/-- **The counter and the finish stamp**; `n` is how often a worker has
stamped the finish. -/
structure Tally (st : Tid N → Stage) (n : Nat) (s : Shared σ K N) : Prop where
  active : s.active = N - (countedOut st).card
  saw : ∀ k m, st (some k) = .saw m → s.active = m
  wrote : ∀ k m, st (some k) = .wrote m → s.active = m
  left : (st none).left = true → ∀ k, (st (some k)).over = true
  stamps : n = if s.active = 0 ∧ ∀ k, st (some k) ≠ .wrote 0 then 1 else 0

/-- Main moves on; `active` is as it was. -/
theorem Tally.main {n : Nat} (h : Tally st n s) {x : Stage} (ha : s'.active = s.active)
    (hleft : x.left = true → ∀ k, (st (some k)).over = true) :
    Tally (Function.update st none x) n s' := by
  have hsame : ∀ k, Function.update st none x (some k) = st (some k) :=
    fun k => Function.update_of_ne (Option.some_ne_none k) ..
  constructor
  · rw [ha, countedOut_same fun k hk => (by cases hk)]
    exact h.active
  · intro k m hk
    rw [ha]
    exact h.saw k m ((hsame k).symm.trans hk)
  · intro k m hk
    rw [ha]
    exact h.wrote k m ((hsame k).symm.trans hk)
  · intro hx k
    rw [Function.update_self] at hx
    rw [hsame]
    exact hleft hx k
  · simp only [ha, hsame]
    exact h.stamps

/-- A worker moves on; `active` is as it was. -/
theorem Tally.worker {n : Nat} (h : Tally st n s) {k : Fin N} {x : Stage}
    (ha : s'.active = s.active) (hc : x.counted = (st (some k)).counted)
    (hsaw : ∀ m, x = .saw m → s.active = m) (hwrote : ∀ m, x ≠ .wrote m)
    (hzero : st (some k) ≠ .wrote 0) (hover : (st (some k)).over = true → x.over = true) :
    Tally (Function.update st (some k) x) n s' := by
  constructor
  · rw [ha, countedOut_same fun j hj => hc]
    exact h.active
  · intro j m hj
    rw [ha]
    rcases update_cases st (some k) x (some j) with ⟨-, hx⟩ | ⟨-, hx⟩
    · exact hsaw m (hx.symm.trans hj)
    · exact h.saw j m (hx.symm.trans hj)
  · intro j m hj
    rw [ha]
    rcases update_cases st (some k) x (some j) with ⟨-, hx⟩ | ⟨-, hx⟩
    · exact (hwrote m (hx.symm.trans hj)).elim
    · exact h.wrote j m (hx.symm.trans hj)
  · intro hl j
    rw [Function.update_of_ne (Option.some_ne_none k).symm] at hl
    rcases update_cases st (some k) x (some j) with ⟨hjk, hx⟩ | ⟨-, hx⟩
    · rw [hx]
      exact hover (h.left hl k)
    · rw [hx]
      exact h.left hl j
  · rw [ha, h.stamps]
    congr 2
    refine propext (forall_congr' fun j => ?_)
    rcases update_cases st (some k) x (some j) with ⟨hjk, hx⟩ | ⟨-, hx⟩
    · rw [hx, hjk]
      exact ⟨fun _ => hwrote 0, fun _ => hzero⟩
    · rw [hx]

/-- A worker stamps the finish. -/
def isStamp (e : Ev N) : Bool :=
  match e.who, e.asked with
  | some _, .setFinish _ => true
  | _, _ => false

/-- A worker counts itself out: the middle of `worker_done`. -/
theorem Tally.countOut {n : Nat} (h : Tally st n s) (hg : Guarded st s) {k : Fin N} {m : Int}
    (hk : st (some k) = .saw (m + 1)) :
    Tally (Function.update st (some k) (.wrote m)) n { s with active := m } := by
  have hactive : s.active = m + 1 := h.saw k _ hk
  have hout : (st (some k)).counted = false := by rw [hk]; rfl
  have hlocked : (st (some k)).locked = true := by rw [hk]; rfl
  -- nobody else has `done_mu`
  have hfree : ∀ j, j ≠ k → (st (some j)).locked = false := by
    intro j hj
    rw [Bool.eq_false_iff]
    exact fun hl => hj (Option.some.inj (hg.unique hlocked hl))
  have hcard := countedOut_one (x := .wrote m) hout rfl
  have hlt := countedOut_lt hout
  have htally := h.active
  have hpos : s.active ≠ 0 := by omega
  constructor
  · show m = N - ((countedOut (Function.update st (some k) (.wrote m))).card : Int)
    rw [hcard]
    omega
  · intro j m' hj
    rcases update_cases st (some k) (.wrote m) (some j) with ⟨-, hx⟩ | ⟨hne, hx⟩
    · cases hx.symm.trans hj
    · have hl := hfree j fun h => hne (congrArg some h)
      rw [hx.symm.trans hj] at hl
      cases hl
  · intro j m' hj
    rcases update_cases st (some k) (.wrote m) (some j) with ⟨-, hx⟩ | ⟨hne, hx⟩
    · cases hx.symm.trans hj
      rfl
    · have hl := hfree j fun h => hne (congrArg some h)
      rw [hx.symm.trans hj] at hl
      cases hl
  · intro hl j
    rw [Function.update_of_ne (Option.some_ne_none k).symm] at hl
    have hover := h.left hl k
    rw [hk] at hover
    cases hover
  · have hold : n = 0 := by
      rw [h.stamps, if_neg fun hz => hpos hz.1]
    have hnew : ¬ (m = 0 ∧ ∀ j, Function.update st (some k) (.wrote m) (some j) ≠ .wrote 0) := by
      intro hz
      apply hz.2 k
      rw [Function.update_self, hz.1]
    rw [hold]
    exact (if_neg hnew).symm

/-- The last worker stamps the finish. -/
theorem Tally.stamp {n : Nat} (h : Tally st n s) (hg : Guarded st s) {k : Fin N} {u : Int}
    (hk : st (some k) = .wrote 0) :
    Tally (Function.update st (some k) .stamped) (n + 1) { s with finishNs := u } := by
  have hactive : s.active = 0 := h.wrote k 0 hk
  have hlocked : (st (some k)).locked = true := by rw [hk]; rfl
  have hnone : ∀ j, Function.update st (some k) .stamped (some j) ≠ .wrote 0 := by
    intro j hj
    rcases update_cases st (some k) .stamped (some j) with ⟨-, hx⟩ | ⟨hne, hx⟩
    · cases hx.symm.trans hj
    · have hl : (st (some j)).locked = true := by rw [hx.symm.trans hj]; rfl
      exact hne (hg.unique hlocked hl)
  constructor
  · show s.active = N - ((countedOut (Function.update st (some k) .stamped)).card : Int)
    rw [countedOut_same fun j _ => by rw [hk]; rfl]
    exact h.active
  · intro j m hj
    rcases update_cases st (some k) .stamped (some j) with ⟨-, hx⟩ | ⟨-, hx⟩
    · cases hx.symm.trans hj
    · exact h.saw j m (hx.symm.trans hj)
  · intro j m hj
    rcases update_cases st (some k) .stamped (some j) with ⟨-, hx⟩ | ⟨-, hx⟩
    · cases hx.symm.trans hj
    · exact h.wrote j m (hx.symm.trans hj)
  · intro hl j
    rw [Function.update_of_ne (Option.some_ne_none k).symm] at hl
    have hover := h.left hl k
    rw [hk] at hover
    cases hover
  · have hold : n = 0 := by
      rw [h.stamps, if_neg fun hz => hz.2 k hk]
    rw [hold]
    exact (if_pos ⟨hactive, hnone⟩).symm

/-- Counted out and without `done_mu`, a worker is through. -/
theorem over_of_counted {x : Stage} (hc : x.counted = true) (hl : x.locked = false) :
    x.over = true := by
  cases x with
  | wrote | stamped => cases hl
  | done | returned => rfl
  | _ => cases hc

/-- Main reads that nobody is active: every worker is through. -/
theorem Tally.nobody {n : Nat} (h : Tally st n s) (hg : Guarded st s)
    (hmain : (st none).locked = true) (hz : s.active ≤ 0) (k : Fin N) :
    (st (some k)).over = true := by
  have hcounted : (st (some k)).counted = true := by
    cases hc : (st (some k)).counted with
    | true => rfl
    | false =>
        have hlt := countedOut_lt hc
        have htally := h.active
        omega
  have hfree : (st (some k)).locked = false := by
    rw [Bool.eq_false_iff]
    exact fun hl => Option.some_ne_none k (hg.unique hmain hl)
  exact over_of_counted hcounted hfree

/-- **The tally is kept by every answer.** -/
theorem tally_step {n : Nat} (h : Tally st n s) (hg : Guarded st s) (hst : t.stage = st i)
    (hask : t.asks ex i q) (hs : answers L key i s q a s') :
    Tally (Function.update st i ((st i).after q a)) (n + (isStamp ⟨i, q, a⟩).toNat) s' := by
  cases hq : q.staged with
  | false =>
      have hno : isStamp ⟨i, q, a⟩ = false := by
        cases i <;> cases q <;> first | rfl | cases hq
      have ha : s'.active = s.active := (unstaged_of_answers hq hs).active
      rw [after_of_unstaged hq, hno, Function.update_eq_self]
      refine ⟨ha.trans h.active, fun k m hk => ha.trans (h.saw k m hk),
        fun k m hk => ha.trans (h.wrote k m hk), h.left, ?_⟩
      rw [ha]
      exact h.stamps
  | true =>
      obtain ⟨x, y, hx, hy, hmove⟩ := staged_of_answers hst hask hs hq
      rw [hy]
      cases i with
      | none =>
          -- main reads the counter, and never writes it
          cases hmove with
          | countOut hi | stamp hi | last hi | notLast hi | return_ hi => exact (hi rfl).elim
          | getActive =>
              refine h.main rfl fun hl => ?_
              exact h.nobody hg (by rw [hx]; rfl) (of_decide_eq_true hl)
          | leave hi n hn =>
              refine h.main rfl fun _ => h.left ?_
              rw [hx]
              exact decide_eq_true hn
          | _ => exact h.main rfl fun hl => (by cases hl)
      | some k =>
          have hworker : ∀ {x : Stage}, s'.active = s.active →
              x.counted = (st (some k)).counted → (∀ m, x = .saw m → s.active = m) →
              (∀ m, x ≠ .wrote m) → st (some k) ≠ .wrote 0 →
              ((st (some k)).over = true → x.over = true) →
              Tally (Function.update st (some k) x) n s' := h.worker
          rw [hx] at hworker
          cases hmove with
          | preset hi | again hi | leave hi => cases hi
          | countOut => exact h.countOut hg hx
          | stamp => exact h.stamp hg hx
          | getActive =>
              refine hworker rfl rfl (fun m hm => ?_) nofun nofun nofun
              cases hm
              rfl
          | return_ => exact hworker rfl rfl nofun nofun nofun fun _ => rfl
          | notLast hi m hm =>
              refine hworker rfl rfl nofun nofun (fun hz => hm ?_) nofun
              injection hz
          | _ => exact hworker rfl rfl nofun nofun nofun nofun

/-- A worker writes `active`. -/
def isCountOut (k : Fin N) (e : Ev N) : Bool :=
  match e.asked with
  | .setActive _ => e.who == some k
  | _ => false

/-- Only `worker_done` counts a worker out. -/
theorem counted_after {k : Fin N} (hst : t.stage = st (some k)) (hask : t.asks ex (some k) q)
    (hs : answers L key (some k) s q a s') (hq : ∀ n, q ≠ .setActive n) :
    ((st (some k)).after q a).counted = (st (some k)).counted := by
  cases hstaged : q.staged with
  | false => rw [after_of_unstaged hstaged]
  | true =>
      obtain ⟨x, y, hx, hy, hmove⟩ := staged_of_answers hst hask hs hstaged
      rw [hx] at hy ⊢
      rw [hy]
      cases hmove with
      | countOut hi n => exact (hq n rfl).elim
      | preset hi | again hi | leave hi => cases hi
      | _ => rfl

/-- How often worker `k` has counted itself out. -/
def countsOut (evs : List (Ev N)) (k : Fin N) : Nat := evs.countP (isCountOut k)

theorem countsOut_step {evs : List (Ev N)} {k : Fin N}
    (h : countsOut evs k = (stages evs (some k)).counted.toNat) (hst : t.stage = stages evs i)
    (hask : t.asks ex i q) (hs : answers L key i s q a s') :
    countsOut (evs ++ [⟨i, q, a⟩]) k = (stages (evs ++ [⟨i, q, a⟩]) (some k)).counted.toNat := by
  have hcount : countsOut (evs ++ [⟨i, q, a⟩]) k =
      countsOut evs k + (isCountOut k ⟨i, q, a⟩).toNat := by
    unfold countsOut
    rw [List.countP_append]
    cases hc : isCountOut k ⟨i, q, a⟩ <;> simp [hc]
  rw [hcount, h, stages_snoc]
  rcases update_cases (stages evs) i ((stages evs i).after q a) (some k) with ⟨hik, hj⟩ | ⟨hik, hj⟩
  · subst hik
    rw [hj]
    by_cases hq : ∃ n, q = .setActive n
    · obtain ⟨n, rfl⟩ := hq
      have hsaw : stages evs (some k) = .saw (n + 1) := hst.symm.trans hask.2.1
      rw [hsaw]
      simp [isCountOut, Stage.counted, Stage.after]
    · have hno : isCountOut k ⟨some k, q, a⟩ = false := by
        cases q <;> first | rfl | exact (hq ⟨_, rfl⟩).elim
      have hsame := counted_after hst hask hs fun n hn => hq ⟨n, hn⟩
      rw [hno, hsame]
      rfl
  · have hno : isCountOut k ⟨i, q, a⟩ = false := by
      cases q with
      | setActive n => exact beq_false_of_ne (Ne.symm hik)
      | _ => rfl
    rw [hno, hj]
    rfl

/-- How often a worker has stamped the finish. -/
def stamps (evs : List (Ev N)) : Nat := evs.countP isStamp

/-- **What holds along every run.** -/
structure Accounted (ex : Pipe → Bool) (evs : List (Ev N)) (s : Shared σ K N)
    (ts : Tid N → Standing) : Prop where
  stage : ∀ i, (ts i).stage = stages evs i
  held : Held ex ts s.toPipeState
  gates : Gates (stages evs) s
  guarded : Guarded (stages evs) s
  back : Back (stages evs) s
  tally : Tally (stages evs) (stamps evs) s
  once : ∀ k, countsOut evs k = (stages evs (some k)).counted.toNat

theorem upholds_accounted (L : Lib σ) (key : σ → Handle → Option K) (ex : Pipe → Bool) :
    Upholds (machine L key) (fun i : Tid N => conduct ex i) (Accounted ex) := by
  intro evs s ts i q a s' h hask hserve
  obtain ⟨-, hs⟩ := hserve
  have hst : (ts i).stage = stages evs i := h.stage i
  have hnext := stages_snoc evs ⟨i, q, a⟩
  have hstamps : stamps (evs ++ [⟨i, q, a⟩]) = stamps evs + (isStamp ⟨i, q, a⟩).toNat := by
    unfold stamps
    rw [List.countP_append]
    cases hc : isStamp ⟨i, q, a⟩ <;> simp [hc]
  refine ⟨(ts i).after q a, ⟨?_, rfl⟩, ?_, held_step h.held hask hs, ?_, ?_, ?_, ?_, ?_⟩
  · -- what the shared state says to `has_value()`
    cases q with
    | hasPipe p => exact hs.1.trans (h.held.pipes p)
    | _ => trivial
  · intro j
    rw [hnext]
    show _ = Function.update (stages evs) i ((stages evs i).after q a) j
    by_cases hj : j = i
    · subst hj
      rw [Function.update_self, Function.update_self, ← hst]
      rfl
    · rw [Function.update_of_ne hj, Function.update_of_ne hj]
      exact h.stage j
  · rw [hnext]
    exact gates_step h.gates hst hask hs
  · rw [hnext]
    exact guarded_step h.guarded hst hask hs
  · rw [hnext]
    exact back_step h.back hst hask hs
  · rw [hnext, hstamps]
    exact tally_step h.tally h.guarded hst hask hs
  · exact fun k => countsOut_step (h.once k) hst hask hs

end Invariants

end ItbCpp.Loop
