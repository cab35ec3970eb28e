/-
  ItbCpp.Loop.Progress
  ────────────────────
  **NO WORKER IS WAITED FOR IN VAIN.**

  The start-up and shutdown of a run as it looks from outside, in every
  state the harness reaches, whatever fails and however the threads take
  turns.

    • `canGo_of_plain` — only five kinds of request can block,
    • `somebody_goes` — unless all is over, some thread can go on,
    • `protocol_orderly` — the counter, the barriers, the wait loop, the
      finish stamp and progress, in one statement.
-/
import ItbCpp.Loop.Shutdown

namespace ItbCpp.Loop

open Interleave

section Progress

variable {σ K : Type} {N : Nat} {L : Lib σ} {key : σ → Handle → Option K} {ex : Pipe → Bool}
  {i : Tid N} {q : Req} {s : Shared σ K N} {t : Standing} {ts : Tid N → Standing}
  {st : Tid N → Stage}

/-! ## §1. Requests that are answered at once. -/

/-- The requests that may have to wait for another thread. -/
def Req.blocks : Req → Bool
  | .lockShared | .lock | .await _ | .lockDone | .join _ => true
  | _ => false

/-- The request can be answered as things are. -/
def Answered (L : Lib σ) (key : σ → Handle → Option K) (i : Tid N) (s : Shared σ K N) (q : Req) :
    Prop := ∃ a s', answers L key i s q a s'

/-- Every other request is answered, whoever makes it. -/
theorem answered_of_plain (h : Held ex ts s.toPipeState) (hask : (ts i).asks ex i q)
    (hq : q.blocks = false) : Answered L key i s q := by
  have hcall : callAt (s.calls i) = (ts i).call := (h.holds i).call
  have hself : i ≠ none → ∃ k, i = some k := by
    intro hi
    cases i with
    | none => exact (hi rfl).elim
    | some k => exact ⟨k, rfl⟩
  cases q with
  | enter c =>
      rw [hask.2] at hcall
      cases hc : s.calls i with
      | none => exact ⟨(), _, hc, rfl⟩
      | some x =>
          obtain ⟨c', r⟩ := x
          rw [hc] at hcall
          cases r <;> cases hcall
  | effect =>
      rw [hask.2] at hcall
      cases hc : s.calls i with
      | none =>
          rw [hc] at hcall
          cases hcall
      | some x =>
          obtain ⟨c', r⟩ := x
          rw [hc] at hcall
          cases r with
          | none => exact ⟨(), _, c', hc, rfl⟩
          | some r => cases hcall
  | leave =>
      rw [hask.2] at hcall
      cases hc : s.calls i with
      | none =>
          rw [hc] at hcall
          cases hcall
      | some x =>
          obtain ⟨c', r⟩ := x
          rw [hc] at hcall
          cases r with
          | none => cases hcall
          | some r => exact ⟨r, _, c', hc, rfl⟩
  | pipe p =>
      have hp : (s.pipes p).isSome = true := (h.pipes p).trans hask.2
      obtain ⟨g, hg⟩ := Option.isSome_iff_exists.mp hp
      exact ⟨g, s, hg, rfl⟩
  | self =>
      obtain ⟨k, hk⟩ := hself hask.1
      exact ⟨s.workers k, s, ⟨k, hk, rfl⟩, rfl⟩
  | setSelf f =>
      obtain ⟨k, hk⟩ := hself hask.1
      exact ⟨(), _, k, hk, rfl⟩
  | fillRandom n | fillPayload n => exact ⟨none, s, nofun, rfl⟩
  | hasPipe | blob | loadStop | getActive => exact ⟨_, s, rfl, rfl⟩
  | addRekeys | addBlobCycles => exact ⟨_, _, rfl, rfl⟩
  | now => exact ⟨(0 : Int), s, rfl⟩
  | signalSeen => exact ⟨false, s, rfl⟩
  | unlockShared | unlock | setPipe | setBlob | storeStop | arrive | unlockDone | setActive
  | setFinish | exit | return_ => exact ⟨(), _, rfl⟩
  | _ => cases hq

/-! ## §2. Who waits, and for whom. -/

theorem not_locked_of_works {x : Stage} (h : x.works i = true) : x.locked = false := by
  cases i <;> cases x <;> first | rfl | cases h

/-- Whoever may have to wait holds nothing that another could wait for. -/
theorem idle_of_blocks (hask : t.asks ex i q) (hq : q.blocks = true) :
    t.idle ∧ t.stage.locked = false := by
  cases q with
  | lockShared | lock => exact ⟨hask.2.2, not_locked_of_works hask.2.1⟩
  | await b => cases b <;> exact ⟨hask.2, hask.1 ▸ rfl⟩
  | lockDone => exact ⟨hask.2, hask.1 ▸ rfl⟩
  | join k => exact ⟨hask.2.2.1, hask.2.1 ▸ rfl⟩
  | _ => cases hq

/-- Where thread `i` ends. -/
def lastStage : Tid N → Stage
  | none => .done
  | some _ => .returned

/-- How far a thread is that can go no further on its own: it has ended, or
it makes a request that has to wait. -/
inductive Stopped (ex : Pipe → Bool) (i : Tid N) (t : Standing) : Task Unit → Prop where
  | ended (u : Unit) (stage : t.stage = lastStage i) (idle : t.idle) : Stopped ex i t (.ret u)
  | waits (q : Req) (k : q.Answer → Task Unit) (asks : t.asks ex i q)
      (blocks : q.blocks = true) : Stopped ex i t (.ask q k)

/-- A stopped thread holds nothing. -/
theorem Stopped.free {m : Task Unit} (h : Stopped ex i t m) :
    t.idle ∧ t.stage.locked = false := by
  cases h with
  | ended u hstage hidle =>
      refine ⟨hidle, ?_⟩
      rw [hstage]
      cases i <;> rfl
  | waits q k hask hblocks => exact idle_of_blocks hask hblocks

/-- A stopped thread at a stage where nothing waits but for a barrier. -/
theorem Stopped.barrier {m : Task Unit} (h : Stopped ex i t m)
    (hpast : t.stage.past .release = false) :
    (∃ k, m = .ask .lockShared k) ∨ (∃ k, m = .ask .lock k) ∨
      (∃ k, m = .ask (.await .warmupDone) k ∧ t.stage = .arrived) ∨
      ∃ k, m = .ask (.await .release) k ∧ t.stage = .ready := by
  cases h with
  | ended u hstage hidle =>
      rw [hstage] at hpast
      cases i <;> cases hpast
  | waits q k hask hblocks =>
      cases q with
      | lockShared => exact Or.inl ⟨k, rfl⟩
      | lock => exact Or.inr (Or.inl ⟨k, rfl⟩)
      | await b =>
          cases b with
          | warmupDone => exact Or.inr (Or.inr (Or.inl ⟨k, rfl, hask.1⟩))
          | release => exact Or.inr (Or.inr (Or.inr ⟨k, rfl, hask.1⟩))
      | lockDone =>
          rw [hask.1] at hpast
          cases hpast
      | join n =>
          rw [hask.2.1] at hpast
          cases hpast
      | _ => cases hblocks

/-- Where every thread has ended or waits, nobody holds a lock. -/
theorem locks_free {evs : List (Ev N)} {threads : Tid N → Task Unit}
    (h : Accounted ex evs s ts) (hstop : ∀ i, Stopped ex i (ts i) (threads i)) :
    s.writer = none ∧ (∀ j, s.readers j = false) ∧ s.doneMu = none := by
  refine ⟨?_, ?_, ?_⟩
  · cases hw : s.writer with
    | none => rfl
    | some j =>
        have hside := (h.held.holds j).writer.mp hw
        rw [(hstop j).free.1.1] at hside
        cases hside
  · intro j
    rw [Bool.eq_false_iff]
    intro hr
    have hside := (h.held.holds j).reader.mp hr
    rw [(hstop j).free.1.1] at hside
    cases hside
  · cases hd : s.doneMu with
    | none => rfl
    | some j =>
        have hl := (h.guarded j).mp hd
        rw [← h.stage j, (hstop j).free.2] at hl
        cases hl

/-- **Not every thread waits.**  If all are stopped, all have ended. -/
theorem all_ended {evs : List (Ev N)} {threads : Tid N → Task Unit}
    (h : Accounted ex evs s ts) (hstop : ∀ i, Stopped ex i (ts i) (threads i))
    (hwait : ∀ i q k, threads i = .ask q k → ¬ Answered L key i s q) (i : Tid N) :
    ∃ u, threads i = .ret u := by
  -- nobody holds a lock, so nobody waits for one
  obtain ⟨hwriter, hreaders, hmu⟩ := locks_free h hstop
  have hshared : ∀ j k, threads j ≠ .ask .lockShared k :=
    fun j k hj => hwait j _ k hj ⟨(), _, hwriter, rfl⟩
  have hlock : ∀ j k, threads j ≠ .ask .lock k :=
    fun j k hj => hwait j _ k hj ⟨(), _, hwriter, hreaders, rfl⟩
  have hdone : ∀ j k, threads j ≠ .ask .lockDone k :=
    fun j k hj => hwait j _ k hj ⟨(), _, hmu, rfl⟩
  -- so whoever is not past the release barrier waits at a barrier
  have hbefore : ∀ j, (stages evs j).past .release = false →
      (∃ k, threads j = .ask (.await .warmupDone) k ∧ stages evs j = .arrived) ∨
        ∃ k, threads j = .ask (.await .release) k ∧ stages evs j = .ready := by
    intro j hj
    rw [← h.stage j] at hj ⊢
    rcases (hstop j).barrier hj with ⟨k, hk⟩ | ⟨k, hk⟩ | hk | hk
    · exact (hshared j k hk).elim
    · exact (hlock j k hk).elim
    · exact Or.inl hk
    · exact Or.inr hk
  -- but then everyone has arrived at the first of them, and at the second
  have hwarmup : ∀ j k, threads j ≠ .ask (.await .warmupDone) k := by
    intro j k hj
    refine hwait j _ k hj ⟨(), s, fun l => ?_, rfl⟩
    rw [h.gates.arrived l]
    cases hl : (stages evs l).past .release with
    | true => exact (past_of_release hl .warmupDone).1
    | false =>
        rcases hbefore l hl with ⟨-, -, hstage⟩ | ⟨-, -, hstage⟩ <;> rw [hstage] <;> rfl
  have hrelease : ∀ j k, threads j ≠ .ask (.await .release) k := by
    intro j k hj
    refine hwait j _ k hj ⟨(), s, fun l => ?_, rfl⟩
    rw [h.gates.arrived l]
    cases hl : (stages evs l).past .release with
    | true => exact (past_of_release hl .release).1
    | false =>
        rcases hbefore l hl with ⟨k', hk', -⟩ | ⟨-, -, hstage⟩
        · exact (hwarmup l k' hk').elim
        · rw [hstage]
          rfl
  -- what is left to wait for is a worker's end
  have hrest : ∀ j, (∃ u, threads j = .ret u ∧ (ts j).stage = lastStage j) ∨
      ∃ n k, threads j = .ask (.join n) k ∧ (ts j).asks ex j (.join n) := by
    intro j
    have hj := hstop j
    generalize hm : threads j = m at hj
    cases hj with
    | ended u hstage hidle => exact Or.inl ⟨u, rfl, hstage⟩
    | waits q k hask hblocks =>
        cases q with
        | lockShared => exact (hshared j k hm).elim
        | lock => exact (hlock j k hm).elim
        | await b =>
            cases b with
            | warmupDone => exact (hwarmup j k hm).elim
            | release => exact (hrelease j k hm).elim
        | lockDone => exact (hdone j k hm).elim
        | join n => exact Or.inr ⟨n, k, rfl, hask⟩
        | _ => cases hblocks
  -- only main joins, and the workers have all ended
  have hworker : ∀ w : Fin N, ∃ u, threads (some w) = .ret u ∧
      (ts (some w)).stage = .returned := by
    intro w
    rcases hrest (some w) with hw | ⟨n, k, -, hask⟩
    · exact hw
    · cases hask.1
  rcases hrest i with ⟨u, hu, -⟩ | ⟨n, k, hm, hask⟩
  · exact ⟨u, hu⟩
  · have hn : n < N := hask.2.2.2
    obtain ⟨-, -, hstage⟩ := hworker ⟨n, hn⟩
    rw [h.stage] at hstage
    exact (hwait i _ k hm ⟨(), s, ⟨⟨n, hn⟩, rfl, h.back _ hstage⟩, rfl⟩).elim

/-- How every thread of the harness ends. -/
def harnessEnds (i : Tid N) : Thread.Ends Exn Standing Unit := EndsAt (lastStage i)

/-- A thread that keeps to its protocol goes on, or is stopped. -/
theorem goes_or_stopped (L : Lib σ) (key : σ → Handle → Option K) {evs : List (Ev N)}
    (h : Accounted ex evs s ts) {m : Task Unit}
    (hwp : m.wp (conduct ex i) (harnessEnds i) (ts i)) :
    m = .spin ∨ (∃ q k, m = .ask q k ∧ Answered L key i s q) ∨ Stopped ex i (ts i) m := by
  cases m with
  | ret u =>
      have ht : ts i = ⟨lastStage i, .none, .outside⟩ := hwp
      exact Or.inr (Or.inr (.ended u (by rw [ht]) (by rw [ht]; exact ⟨rfl, rfl⟩)))
  | throw e => exact hwp.elim
  | spin => exact Or.inl rfl
  | ask q k =>
      cases hq : q.blocks with
      | false => exact Or.inr (Or.inl ⟨q, k, rfl, answered_of_plain h.held hwp.1 hq⟩)
      | true => exact Or.inr (Or.inr (.waits q k hwp.1 hq))

end Progress

/-! ## §3. From the start on. -/

section Results

variable {σ K : Type} {N : Nat} {L : Lib σ} {key : σ → Handle → Option K}

/-- The Pipelines that a start-up has built are those the shape exercises. -/
theorem isSome_of_built {cfg : Config} {w w' : World σ}
    {built : Pipe → Option (Pipeline × Bytes)}
    (h : buildPipelines L cfg w = .ok (some built) w') (p : Pipe) :
    (built p).isSome = cfg.shape.exercises p := by
  have hone : ∀ p w, Prog.wp (buildExercised L cfg p)
      (returning fun x _ => ∀ b, x = some b → b.isSome = cfg.shape.exercises p) w := by
    intro p w
    unfold buildExercised
    rw [Prog.wp_ite]
    split
    · rename_i hex
      rw [Prog.wp_bind]
      refine Prog.wp_of_forall (fun x w' => ?_) (fun _ _ => trivial) fun _ => trivial
      cases x with
      | none => exact nofun
      | some b =>
          intro b' hb
          cases hb
          exact hex.symm
    · rename_i hex
      intro b hb
      cases hb
      exact (Bool.eq_false_iff.mpr hex).symm
  have hboth : Prog.wp (buildPipelines L cfg) (returning fun x _ => ∀ b, x = some b →
      ∀ p, (b p).isSome = cfg.shape.exercises p) w := by
    unfold buildPipelines
    rw [Prog.wp_bind]
    refine (hone .stream w).mono_ok ?_
    intro x w₁ hx
    cases x with
    | none => exact nofun
    | some stream =>
        show Prog.wp _ (returning _) w₁
        rw [Prog.wp_bind]
        refine (hone .msg w₁).mono_ok ?_
        intro y w₂ hy
        cases y with
        | none => exact nofun
        | some msg =>
            intro b hb p
            cases hb
            cases p with
            | stream => exact hx stream rfl
            | msg => exact hy msg rfl
  unfold Prog.wp at hboth
  rw [h] at hboth
  exact hboth built rfl p

/-- The harness starts with everything accounted for. -/
theorem accounted_start (hN : 0 < N) (cfg : Config) (content : Fin N → Nat → UInt8)
    {built : Pipe → Option (Pipeline × Bytes)}
    (hb : ∀ p, (built p).isSome = cfg.shape.exercises p) (lib : σ) :
    Accounted cfg.shape.exercises [] (Shared.start N key cfg content built lib)
      fun _ => ({} : Standing) := by
  have hnone : (countedOut (stages ([] : List (Ev N)))).card = 0 := by
    unfold countedOut
    rw [Finset.card_eq_zero, Finset.filter_eq_empty_iff]
    exact fun k _ => Bool.false_ne_true
  have hheld : Held cfg.shape.exercises (fun _ => ({} : Standing))
      (Shared.start N key cfg content built lib).toPipeState := by
    refine ⟨fun i => ⟨rfl, ?_, ?_⟩, fun p => ?_⟩
    · exact ⟨fun h => (by cases h), fun h => (by cases h)⟩
    · exact ⟨fun h => (by cases h), fun h => (by cases h)⟩
    · exact Option.isSome_map.trans (hb p)
  have hgates : Gates (stages ([] : List (Ev N)))
      (Shared.start N key cfg content built lib) := by
    refine ⟨fun i b => ?_, fun i b h => ?_⟩
    · cases b <;> rfl
    · cases b <;> cases h
  have htally : Tally (stages ([] : List (Ev N))) 0
      (Shared.start N key cfg content built lib) := by
    refine ⟨?_, fun k m h => (by cases h), fun k m h => (by cases h), fun h => (by cases h), ?_⟩
    · rw [hnone]
      exact (Int.sub_zero _).symm
    · have hactive : (Shared.start N key cfg content built lib).active ≠ 0 := by
        show (N : Int) ≠ 0
        omega
      exact (if_neg fun h => hactive h.1).symm
  exact ⟨fun _ => rfl, hheld, hgates, fun i => ⟨fun h => (by cases h), fun h => (by cases h)⟩,
    fun i h => (by cases h), htally, fun k => rfl⟩

/-- The thread is at a barrier. -/
def AtBarrier (m : Task Unit) : Prop :=
  ∃ b k, m = .ask (.arrive b) k ∨ m = .ask (.await b) k

/-- Thread `i` can go on: it is in a loop, or its request can be answered. -/
def CanGo (L : Lib σ) (key : σ → Handle → Option K) (r : Run σ K N) (i : Tid N) : Prop :=
  r.threads i = .spin ∨
    ∃ q k a s', r.threads i = .ask q k ∧ (machine L key).serve i r.state q a s'

/-- The run is over: the process has exited, or every thread has returned. -/
def Over (r : Run σ K N) : Prop :=
  r.state.exited ≠ none ∨ ∀ i, ∃ u, r.threads i = .ret u

/-- **The start-up and shutdown of a run**, seen at one of its states. -/
structure Orderly (L : Lib σ) (key : σ → Handle → Option K) (evs : List (Ev N))
    (r : Run σ K N) : Prop where
  /-- `active` counts the workers that have not counted themselves out -/
  active : r.state.active = N - (countedOut (stages evs)).card
  /-- a worker has done so once or not at all, and once when it has returned -/
  once : ∀ k, countsOut evs k = (stages evs (some k)).counted.toNat
  returned : ∀ k u, r.threads (some k) = .ret u → countsOut evs k = 1
  /-- while main takes the baselines, every worker is at a barrier -/
  baselines : stages evs none = .between → ∀ k, AtBarrier (r.threads (some k))
  /-- and until it has, none is past its first iteration but at a barrier -/
  first : (stages evs none).arrivedAt .release = false → ∀ k,
    stages evs (some k) = .start ∨ AtBarrier (r.threads (some k))
  /-- main has left the wait loop: every worker is through `worker_done` -/
  left : (stages evs none).left = true → ∀ k, (stages evs (some k)).over = true
  /-- the finish is stamped once at most, by the last worker, and before all
  are through -/
  stampOnce : stamps evs ≤ 1
  stampLast : ∀ k u f, r.threads (some k) = .ask (.setFinish u) f →
    r.state.active = 0 ∧ ∀ j, j ≠ k → (stages evs (some j)).over = true
  stamped : (∀ k, (stages evs (some k)).over = true) → stamps evs = 1
  /-- main writes it between the barriers only -/
  stampMain : ∀ u f, r.threads none = .ask (.setFinish u) f → stages evs none = .between
  /-- some thread can go on -/
  goes : Over r ∨ ∃ i, CanGo L key r i

/-- From the first barrier up to the second. -/
theorem stage_between {x : Stage} (harr : x.arrivedAt .warmupDone = true)
    (hpast : x.past .release = false) : x = .arrived ∨ x = .between ∨ x = .ready := by
  cases x with
  | start => cases harr
  | arrived => exact Or.inl rfl
  | between => exact Or.inr (Or.inl rfl)
  | ready => exact Or.inr (Or.inr rfl)
  | _ => cases hpast

/-- A worker that is there does nothing but go through the barriers. -/
theorem atBarrier_of_stage {ex : Pipe → Bool} {k : Fin N} {t : Standing} {m : Task Unit}
    (hwp : m.wp (conduct ex (some k)) (harnessEnds (some k)) t)
    (hstage : t.stage = .arrived ∨ t.stage = .between ∨ t.stage = .ready) : AtBarrier m := by
  have hworks : t.stage.works (some k) = false ∧ t.stage.locked = false := by
    rcases hstage with h | h | h <;> rw [h] <;> exact ⟨rfl, rfl⟩
  have hnot : ∀ x, (t.stage = x → x = .arrived ∨ x = .between ∨ x = .ready) := by
    intro x hx
    rw [← hx]
    exact hstage
  cases m with
  | ret u =>
      have ht : t = ⟨.returned, .none, .outside⟩ := hwp
      have h := hnot .returned (by rw [ht])
      simp at h
  | throw e => exact hwp.elim
  | spin =>
      have hspin : t.stage.works (some k) = true ∨ t.stage.locked = true := hwp
      rw [hworks.1, hworks.2] at hspin
      simp at hspin
  | ask q f =>
      have hask : t.asks ex (some k) q := hwp.1
      have hno : t.stage.works (some k) ≠ true := by rw [hworks.1]; exact Bool.false_ne_true
      cases q with
      | arrive b => exact ⟨b, f, Or.inl rfl⟩
      | await b => exact ⟨b, f, Or.inr rfl⟩
      | enter | effect | leave | unlockShared | unlock | pipe | setPipe => exact (hno hask.1).elim
      | lockShared | lock => exact (hno hask.2.1).elim
      | self | setSelf => exact (hno hask.2).elim
      | storeStop | signalSeen =>
          rcases hask with h | ⟨n, h⟩
          · exact (hno h).elim
          · have h := hnot _ h
            simp at h
      | now =>
          rcases hask with h | h
          · exact (hno h).elim
          · rw [hworks.2] at h
            cases h
      | lockDone | getActive =>
          have h := hnot _ hask.1
          simp at h
      | setActive n =>
          have h := hnot _ hask.2.1
          simp at h
      | setFinish u =>
          have h := hnot (.wrote 0) hask.2
          simp at h
      | unlockDone =>
          have h := hask.2
          rw [if_neg (Option.some_ne_none k)] at h
          rcases h with h | ⟨n, h, -⟩
          · have h := hnot _ h
            simp at h
          · have h := hnot _ h
            simp at h
      | return_ =>
          have h := hnot _ hask.2.1
          simp at h
      | join n => exact absurd hask.1 (Option.some_ne_none k)
      | _ => exact (hno hask).elim

theorem start_of_not_arrived {x : Stage} (h : x.arrivedAt .warmupDone = false) : x = .start := by
  cases x with
  | start => rfl
  | _ => cases h

variable {ex : Pipe → Bool} {evs : List (Ev N)} {r : Run σ K N} {s : Shared σ K N}
  {ts : Tid N → Standing}

/-- With nobody active, whoever has not got `done_mu` is through. -/
theorem Accounted.overBut (h : Accounted ex evs s ts) {j k : Fin N} (hjk : j ≠ k)
    (hk : (stages evs (some k)).locked = true) (hz : s.active = 0) :
    (stages evs (some j)).over = true := by
  have hcounted : (stages evs (some j)).counted = true := by
    cases hc : (stages evs (some j)).counted with
    | true => rfl
    | false =>
        have hlt := countedOut_lt hc
        have htally := h.tally.active
        omega
  refine over_of_counted hcounted (Bool.eq_false_iff.mpr fun hl => hjk ?_)
  exact Option.some.inj (h.guarded.unique hk hl)

theorem Accounted.stampOnce (h : Accounted ex evs s ts) : stamps evs ≤ 1 := by
  rw [h.tally.stamps]
  split <;> omega

/-- Once all are through, the finish has been stamped. -/
theorem Accounted.stamped (h : Accounted ex evs s ts)
    (hover : ∀ k, (stages evs (some k)).over = true) : stamps evs = 1 := by
  have hall : countedOut (stages evs) = Finset.univ := by
    refine Finset.filter_true_of_mem fun k _ => ?_
    have hk := hover k
    cases hs : stages evs (some k) <;> rw [hs] at hk <;> first | rfl | cases hk
  have hactive := h.tally.active
  rw [hall, Finset.card_univ, Fintype.card_fin, Int.sub_self] at hactive
  rw [h.tally.stamps]
  refine if_pos ⟨hactive, fun k hk => ?_⟩
  have hk' := hover k
  rw [hk] at hk'
  cases hk'

theorem orderly_goes (hacc : Accounted ex evs r.state ts)
    (hts : ∀ i, (r.threads i).wp (conduct ex i) (harnessEnds i) (ts i)) :
    Over r ∨ ∃ i, CanGo L key r i := by
  by_cases hexit : r.state.exited = none
  · by_cases hgo : ∃ i, CanGo L key r i
    · exact Or.inr hgo
    · have hstop : ∀ i, r.threads i ≠ .spin ∧
          ∀ q k, r.threads i = .ask q k → ¬ Answered L key i r.state q := by
        intro i
        refine ⟨fun h => hgo ⟨i, Or.inl h⟩, ?_⟩
        intro q k hq hans
        obtain ⟨a, s', hs⟩ := hans
        exact hgo ⟨i, Or.inr ⟨q, k, a, s', hq, hexit, hs⟩⟩
      refine Or.inl (Or.inr (all_ended hacc (fun i => ?_) fun i => (hstop i).2))
      rcases goes_or_stopped L key hacc (hts i) with h | ⟨q, k, hq, hans⟩ | h
      · exact ((hstop i).1 h).elim
      · exact ((hstop i).2 q k hq hans).elim
      · exact h
  · exact Or.inl (Or.inl hexit)

/-- **The harness's start-up and shutdown protocol.**  For any number of
workers, whatever the library answers, whichever iterations and maintenance
steps fail and however the threads take turns. -/
theorem protocol_orderly (hN : 0 < N) {cfg : Config} {w w' : World σ}
    {built : Pipe → Option (Pipeline × Bytes)}
    (hbuilt : buildPipelines L cfg w = .ok (some built) w')
    (junk : Fin N → Nat → Nat → UInt8) (content : Fin N → Nat → UInt8) (fuel : Nat)
    {evs : List (Ev N)} {r : Run σ K N}
    (hrun : Traced (machine L key) (Run.start N key junk cfg content built w'.lib fuel) evs r) :
    Orderly L key evs r := by
  have hwp : ∀ i, (harness N junk cfg fuel i).wp (conduct cfg.shape.exercises i)
      (harnessEnds i) {} := by
    intro i
    cases i with
    | none => exact keepsTo_mainThread cfg fuel
    | some k => exact keepsTo_workerMain (junk k) cfg k fuel
  obtain ⟨ts, hacc, hts⟩ := hrun.upheld (upholds_accounted L key cfg.shape.exercises)
    (accounted_start hN cfg content (isSome_of_built hbuilt) w'.lib) hwp
  have hmain := hts none
  have hgate : (stages evs none).arrivedAt .release = false → ∀ k,
      (stages evs (some k)).past .release = false := by
    intro h k
    rw [Bool.eq_false_iff]
    intro hp
    rw [hacc.gates.past (some k) .release hp none] at h
    cases h
  have hworker : ∀ k, (stages evs (some k)).arrivedAt .warmupDone = true →
      (stages evs (some k)).past .release = false → AtBarrier (r.threads (some k)) := by
    intro k harr hpast
    refine atBarrier_of_stage (hts (some k)) ?_
    rw [hacc.stage]
    exact stage_between harr hpast
  constructor
  · exact hacc.tally.active
  · exact hacc.once
  · intro k u hr
    have hk := hts (some k)
    rw [hr] at hk
    have hstage : stages evs (some k) = .returned := by
      rw [← hacc.stage, show ts (some k) = _ from hk]
      rfl
    rw [hacc.once, hstage]
    rfl
  · intro hb k
    refine hworker k ?_ (hgate (by rw [hb]; rfl) k)
    exact hacc.gates.past none .warmupDone (by rw [hb]; rfl) (some k)
  · intro hb k
    cases harr : (stages evs (some k)).arrivedAt .warmupDone with
    | true => exact Or.inr (hworker k harr (hgate hb k))
    | false => exact Or.inl (start_of_not_arrived harr)
  · exact hacc.tally.left
  · exact hacc.stampOnce
  · intro k u f hr
    have hask := hts (some k)
    rw [hr] at hask
    have hstage : stages evs (some k) = .wrote 0 := (hacc.stage _).symm.trans hask.1.2
    have hz : r.state.active = 0 := hacc.tally.wrote k 0 hstage
    exact ⟨hz, fun j hj => hacc.overBut hj (by rw [hstage]; rfl) hz⟩
  · exact hacc.stamped
  · intro u f hr
    rw [hr] at hmain
    exact (hacc.stage none).symm.trans hmain.1.2
  · exact orderly_goes hacc hts

theorem protocol_orderly_drill :
    ∃ evs r, Traced (machine ratchet Ratchet.key) Run.drill evs r ∧
      Drilled r.state ∧ Orderly ratchet Ratchet.key evs r := by
  obtain ⟨r, hreach, hdrilled⟩ := drill_reaches
  obtain ⟨w', hbuilt, hlib⟩ := drill_builds
  obtain ⟨evs, hrun⟩ := hreach.traced
  have hfrom : Traced (machine ratchet Ratchet.key)
      (Run.start 2 Ratchet.key (fun _ _ _ => 0) drill (fun _ _ => 0) drillBuilt w'.lib 1)
      evs r := hlib ▸ hrun
  exact ⟨evs, r, hrun, hdrilled, protocol_orderly Nat.zero_lt_two hbuilt _ _ 1 hfrom⟩

end Results

end ItbCpp.Loop
