/-
  ItbCpp.Loop.Custody
  ───────────────────
  **EVERY PIPELINE HANDLE IS IN SOMEBODY'S CUSTODY** (`loop/worker.cpp`,
  `loop/ops.cpp`).

  The harness owns its Pipelines by `std::optional` and a reader-writer
  lock.  A blob cycle loads a second handle, frees the first and installs
  the second, while other workers wait.  Whatever the threads do, and
  whichever calls fail:

    • no call is made on a handle that has been freed,
    • no handle is lost: those that live are the pipes', and at most one
      that a writer is about to install.

    • `Hand`, `custody` — what a thread has in its hands, and what it may
      ask,
    • `owns_hands` — every thread keeps to it,
    • `InCustody` — the handles of the library, accounted for,
    • `handles_in_custody` — the result, over every run.
-/
import ItbCpp.Loop.Isolation
import ItbCpp.Loop.Steady

namespace ItbCpp

/-! ## §1. Calls and handles. -/

/-- The Pipeline handle a call is made on. -/
def FfiCall.target : FfiCall → Option Handle
  | .free h | .close h | .save h _ | .saveF h _ | .maxWorkers h _ | .rekey h _ _ _
  | .encryptMessage h _ _ | .decryptMessage h _ _ | .encryptStream h _ _
  | .decryptStream h _ _ | .encryptStreamBegin h | .decryptStreamBegin h => some h
  | _ => none

/-- The calls that may end the life of a handle. -/
def FfiCall.ends : FfiCall → Bool
  | .free _ | .close _ => true
  | _ => false

/-- The calls that make no handle and end none. -/
def FfiCall.tame (c : FfiCall) : Prop := c.opens = false ∧ c.ends = false

namespace Loop

open Thread Interleave

/-! ## §2. What a thread has in its hands. -/

/-- The sides of `pipe_lock`. -/
inductive LockSide where
  | shared | exclusive
  deriving DecidableEq

/-- What a thread has in its hands: its side of the lock, the handles of the
pipes it has looked up since it took it, a handle of its own, the pipes whose
handle it has freed, and its call inside the library. -/
structure Hand where
  side : Option LockSide := none
  seen : Pipe → Option Handle := fun _ => none
  fresh : Option Handle := none
  gone : Pipe → Bool := fun _ => false
  call : Option (FfiCall × Option Reply) := none

/-- Nothing of its own, and no pipe without a handle. -/
structure Hand.Clean (d : Hand) : Prop where
  fresh : d.fresh = none
  gone : ∀ p, d.gone p = false

/-- The calls that may be made: on a handle that was looked up, and under the
write side if they make a handle, with nothing in hand, or free one. -/
structure Hand.May (d : Hand) (c : FfiCall) : Prop where
  target : ∀ h, c.target = some h → ∃ p, d.seen p = some h
  opens : c.opens = true → d.side = some .exclusive ∧ d.Clean
  ends : c.ends = true → d.side = some .exclusive ∧ ∃ h, c = .free h

/-- What a call that was answered `r` leaves in the hands. -/
def Hand.after (d : Hand) (c : FfiCall) (r : Reply) : Hand :=
  let d := { d with call := some (c, some r) }
  if c.opens then if r.rc = 0 then { d with fresh := some r.handle } else d
  else if c.ends then
    { d with
      seen := fun p => if d.seen p = c.target then none else d.seen p
      gone := fun p => d.gone p || decide (d.seen p = c.target) }
  else d

/-- A handle that was made is one. -/
def Made (c : FfiCall) (r : Reply) : Prop := c.opens = true → r.rc = 0 → r.handle ≠ 0

/-- Where an answer takes a thread. -/
def Hand.told (d : Hand) : (q : Req) → q.Answer → Hand → Prop
  | .enter c, _, d' => d' = { d with call := some (c, none) }
  | .effect, _, d' => ∃ c r, d.call = some (c, none) ∧ Made c r ∧ d' = d.after c r
  | .leave, r, d' => ∃ c, d.call = some (c, some r) ∧ d' = { d with call := none }
  | .lockShared, _, d' => d' = { d with side := some .shared }
  | .lock, _, d' => d' = { d with side := some .exclusive }
  | .unlockShared, _, d' | .unlock, _, d' => d' = { d with side := none, seen := fun _ => none }
  | .pipe p, h, d' =>
      h ≠ 0 ∧ (∀ q, d.seen q = some h → q = p) ∧
        d' = { d with seen := Function.update d.seen p (some h) }
  | .setPipe p h, _, d' =>
      d' = { d with
        seen := Function.update d.seen p (some h)
        fresh := none
        gone := Function.update d.gone p false }
  | _, _, d' => d' = d

/-- What a thread may ask, by what it has in its hands. -/
def Hand.asks (d : Hand) : Req → Prop
  | .enter c => d.call = none ∧ d.May c
  | .effect => ∃ c, d.call = some (c, none)
  | .leave => ∃ c r, d.call = some (c, some r)
  | .lockShared | .lock => d.call = none ∧ d.side = none
  | .unlockShared => d.call = none ∧ d.side = some .shared
  | .unlock => d.call = none ∧ d.side = some .exclusive ∧ d.Clean
  | .pipe p => d.call = none ∧ d.side ≠ none ∧ d.gone p = false
  | .setPipe p h =>
      d.call = none ∧ d.fresh = some h ∧ d.gone p = true ∧ ∀ q, q ≠ p → d.gone q = false
  | _ => True

/-- **A thread keeps what it owns in its hands.** -/
def custody : Protocol Req Req.Answer Hand where
  asks := Hand.asks
  told := Hand.told
  spins _ := True

/-! ## §3. Every thread does. -/

/-- With a side of the lock, or none, and the handle `h`, if any, looked up;
nothing else. -/
structure Bare (side : Option LockSide) (h : Option Handle) (d : Hand) : Prop extends
    clean : d.Clean where
  side : d.side = side
  call : d.call = none
  seen : ∀ g, h = some g → ∃ p, d.seen p = some g

/-- The calls that such a thread may make. -/
def Mild (h : Option Handle) (c : FfiCall) : Prop :=
  c.tame ∧ ∀ g, c.target = some g → h = some g

section Worker

variable {side : Option LockSide} {h : Option Handle} {d : Hand} {α : Type}

/-- What a call that neither makes nor ends a handle leaves. -/
theorem Hand.after_tame {c : FfiCall} (hc : c.tame) (r : Reply) :
    d.after c r = { d with call := some (c, some r) } := by
  obtain ⟨hopens, hends⟩ := hc
  simp [Hand.after, hopens, hends]

theorem Hand.after_call (c : FfiCall) (r : Reply) : (d.after c r).call = some (c, some r) := by
  unfold Hand.after
  dsimp only
  split
  · split <;> rfl
  · split <;> rfl

/-- The call inside the library is the one that was entered. -/
theorem Hand.after_entered (v : Option (FfiCall × Option Reply)) (c : FfiCall) (r : Reply) :
    Hand.after { d with call := v } c r = d.after c r := rfl

/-- **A library call**: in at `d`, out at what its answer leaves. -/
theorem wp_call_custody {c : FfiCall} (hcall : d.call = none) (hmay : d.May c)
    {R : Ends Exn Hand Reply}
    (hok : ∀ r, Made c r → R.ok r { d.after c r with call := none }) :
    (libraryCall c).wp custody R d := by
  refine ⟨⟨hcall, hmay⟩, fun _ d₁ h₁ => ?_⟩
  obtain rfl : d₁ = { d with call := some (c, none) } := h₁
  refine ⟨⟨c, rfl⟩, fun _ d₂ h₂ => ?_⟩
  obtain ⟨c', r, hc', hmade, rfl⟩ := h₂
  cases hc'
  rw [Hand.after_entered]
  refine ⟨⟨c, r, Hand.after_call c r⟩, fun r' d₃ h₃ => ?_⟩
  obtain ⟨c', hc', rfl⟩ := h₃
  rw [Hand.after_call] at hc'
  cases hc'
  exact hok r hmade

theorem bare_call {c : FfiCall} (hc : Mild h c) :
    Abides custody (Bare side h) (libraryCall c) := by
  intro d hd
  obtain ⟨htame, htarget⟩ := hc
  refine wp_call_custody hd.call ⟨fun g hg => hd.seen g (htarget g hg), ?_, ?_⟩ fun r _ => ?_
  · intro hopens
    rw [htame.1] at hopens
    cases hopens
  · intro hends
    rw [htame.2] at hends
    cases hends
  · rw [Hand.after_tame htame]
    exact ⟨⟨hd.fresh, hd.gone⟩, hd.side, rfl, hd.seen⟩

/-- Mild calls, and requests that stay aloof, keep to it. -/
theorem steady_bare : Steady custody (Mild h) (Bare side h) where
  aloof q hq d hd := by
    refine wp_call.mpr ⟨?_, fun a d' htold => ?_⟩
    · cases q <;> first | exact trivial | cases hq
    · have hsame : d' = d := by cases q <;> first | exact htold | cases hq
      rw [hsame]
      exact hd
  call c hc := bare_call hc
  spins _ _ := trivial
  lastError n := ⟨⟨rfl, rfl⟩, nofun⟩
  poolStats n := ⟨⟨rfl, rfl⟩, nofun⟩

theorem Bare.weaken (hd : Bare side h d) : Bare side none d :=
  ⟨hd.clean, hd.side, hd.call, nofun⟩

/-- A look at a pipe. -/
theorem wp_lookup {x : LockSide} (hd : Bare (some x) h d) {R : Ends Exn Hand Handle} (p : Pipe)
    (hok : ∀ g d', Bare (some x) (some g) d' → R.ok g d') :
    (ask (.pipe p)).wp custody R d := by
  have hside : d.side ≠ none := by
    rw [hd.side]
    exact Option.some_ne_none x
  refine wp_call.mpr ⟨⟨hd.call, hside, hd.gone p⟩, fun g d' htold => ?_⟩
  obtain ⟨-, -, rfl⟩ := htold
  refine hok g _ ⟨⟨hd.fresh, hd.gone⟩, hd.side, hd.call, ?_⟩
  intro g' hg'
  cases hg'
  exact ⟨p, Function.update_self ..⟩

/-- A look at a pipe, and what is done with its handle. -/
theorem abides_lookup {x : LockSide} {p : Pipe} {f : Handle → Task α}
    (hf : ∀ g, Abides custody (Bare (some x) (some g)) (f g)) :
    Abides custody (Bare (some x) none) (ask (.pipe p) >>= f) := by
  intro d hd
  rw [wp_bind]
  refine wp_lookup hd p fun g d' hd' => ?_
  exact (hf g d' hd').mono (fun _ _ h => h.weaken) fun _ _ h => h.weaken

/-- Calls on the Pipeline that was looked up. -/
theorem mild_session {c : FfiCall} {x : Handle} (hc : c.session = some x) : Mild h c := by
  have hnone : c.tame ∧ c.target = none := by
    cases c <;> first | exact ⟨⟨rfl, rfl⟩, rfl⟩ | cases hc
  refine ⟨hnone.1, fun g hg => ?_⟩
  rw [hnone.2] at hg
  cases hg

theorem mild_cipher (fn : CipherFn) (g : Handle) (src : Bytes) (n : Nat) :
    Mild (some g) (fn.call g src n) := by
  cases fn <;> exact ⟨⟨rfl, rfl⟩, fun _ h => h⟩

theorem mild_begin (encrypt : Bool) (g : Handle) : Mild (some g) (beginCall encrypt g) := by
  cases encrypt <;> exact ⟨⟨rfl, rfl⟩, fun _ h => h⟩

/-! ## §4. An iteration. -/

theorem abides_pump (g : Handle) (encrypt : Bool) (src : Bytes) (out : Out) (fuel : Nat) :
    Abides custody (Bare side (some g)) (pump { handle := g } encrypt src out fuel) :=
  steady_bare.pump (fun _ _ hc => mild_session hc) encrypt (mild_begin encrypt g) src out fuel

theorem abides_streamTrip {x : LockSide} (id iter fuel : Nat) :
    Abides custody (Bare (some x) none) (streamTrip id iter fuel) := by
  have W : ∀ g, Steady custody (Mild g) (Bare (some x) g) := fun g => steady_bare
  have hfail : ∀ direction e, Abides custody (Bare (some x) none) (ask .self >>= fun w => do
      cipherFail id iter .stream direction w.stage e
      pure (none : Option Bytes)) := by
    intro direction e
    refine remains_bind ((W none).aloof _ rfl) fun w => ?_
    exact remains_bind ((W none).cipherFail _ _ _ _ _ e) fun _ => remains_ret none
  -- a pump, then whatever keeps to the set
  have hthen : ∀ encrypt out {f : Except Error Unit → Task (Option Bytes)} (src : Worker → Bytes),
      (∀ r, Abides custody (Bare (some x) none) (f r)) →
      Abides custody (Bare (some x) none) (ask (.pipe .stream) >>= fun g => ask .self >>= fun w =>
        pump { handle := g } encrypt (src w) out fuel >>= f) := by
    intro encrypt out f src hf d hd
    rw [wp_bind]
    refine wp_lookup hd .stream fun g d₁ hd₁ => ?_
    have hpump : Abides custody (Bare (some x) (some g)) (ask .self >>= fun w =>
        pump { handle := g } encrypt (src w) out fuel) :=
      remains_bind ((W _).aloof _ rfl) fun w => abides_pump g encrypt (src w) out fuel
    show (ask .self >>= fun w => pump { handle := g } encrypt (src w) out fuel >>= f).wp _ _ d₁
    rw [← bind_bind, wp_bind]
    exact (hpump d₁ hd₁).mono (fun r d₂ hd₂ => hf r d₂ hd₂.weaken) fun _ _ h => h.weaken
  refine hthen true .wire Worker.plaintext fun r => ?_
  cases r with
  | error e => exact hfail "encrypt" e
  | ok u =>
      refine hthen false .plain Worker.wire fun r => ?_
      cases r with
      | error e => exact hfail "decrypt" e
      | ok u => exact remains_bind ((W none).aloof _ rfl) fun w => remains_ret _

theorem abides_wholeTrip {x : LockSide} (id iter : Nat) (shape : Shape) (p : Pipe)
    (junk : Nat → Nat → UInt8) (encrypt decrypt : CipherFn) (what what' : String) :
    Abides custody (Bare (some x) none) (wholeTrip id iter shape p
      (fun self src => Call.cipherCall junk self.handle encrypt src what)
      (fun self src => Call.cipherCall junk self.handle decrypt src what')) := by
  have W : ∀ g, Steady custody (Mild g) (Bare (some x) g) := fun g => steady_bare
  have hfail : ∀ direction e, Abides custody (Bare (some x) none) (do
      cipherFail id iter shape direction "" e
      pure (none : Option Bytes)) :=
    fun direction e => remains_bind ((W none).cipherFail _ _ _ _ _ e) fun _ => remains_ret none
  have hentry : ∀ fn src what g,
      Abides custody (Bare (some x) (some g)) (lib (Call.cipherCall junk g fn src what)) :=
    fun fn src what g => (W (some g)).lib
      (Call.asks_cipherCall (W (some g)).lastError junk g fn src what (mild_cipher fn g src))
  refine remains_bind (abides_attempt (abides_lookup fun g =>
    remains_bind ((W _).aloof _ rfl) fun w => hentry encrypt _ what g)) fun wire => ?_
  cases wire with
  | error e => exact hfail "encrypt" e
  | ok wire =>
      refine remains_bind (abides_attempt (abides_lookup fun g => hentry decrypt wire what' g))
        fun plain => ?_
      cases plain with
      | error e => exact hfail "decrypt" e
      | ok plain => exact remains_ret _

theorem abides_roundTrip {x : LockSide} (junk : Nat → Nat → UInt8) (id iter fuel : Nat)
    (shape : Shape) : Abides custody (Bare (some x) none) (roundTrip junk id iter fuel shape) := by
  cases shape with
  | stream => exact abides_streamTrip id iter fuel
  | streamOneShot => exact abides_wholeTrip id iter _ .stream junk _ _ _ _
  | message => exact abides_wholeTrip id iter _ .msg junk _ _ _ _
  | both => exact remains_ret _

/-- The lock is taken, and given back with nothing in hand. -/
theorem abides_locked {m : Task α} {lock unlock : Task Unit} {x : LockSide}
    (hin : ∀ d, Bare none none d →
      lock.wp custody ⟨fun _ => Bare (some x) none, fun _ _ => False⟩ d)
    (hout : ∀ d, Bare (some x) none d →
      unlock.wp custody ⟨fun _ => Bare none none, fun _ _ => False⟩ d)
    (hm : Abides custody (Bare (some x) none) m) :
    Abides custody (Bare none none) (lock >>= fun _ => m.ensuring unlock) := by
  intro d hd
  rw [wp_bind]
  refine (hin d hd).mono (fun _ d₁ hd₁ => ?_) fun _ _ h => h.elim
  show (Thread.ensuring m unlock).wp custody _ d₁
  rw [wp_ensuring]
  refine (hm d₁ hd₁).mono (fun _ d₂ hd₂ => ?_) fun _ d₂ hd₂ => ?_
  · exact (hout d₂ hd₂).mono (fun _ _ h => h) fun _ _ h => h.elim
  · exact (hout d₂ hd₂).mono (fun _ _ h => h) fun _ _ h => h.elim

theorem abides_shared {m : Task α} (hm : Abides custody (Bare (some .shared) none) m) :
    Abides custody (Bare none none)
      (ask .lockShared >>= fun _ => m.ensuring (ask .unlockShared)) := by
  refine abides_locked (fun d hd => ?_) (fun d hd => ?_) hm
  · refine wp_call.mpr ⟨⟨hd.call, hd.side⟩, fun a d' htold => ?_⟩
    obtain rfl := htold
    exact ⟨⟨hd.fresh, hd.gone⟩, rfl, hd.call, nofun⟩
  · refine wp_call.mpr ⟨⟨hd.call, hd.side⟩, fun a d' htold => ?_⟩
    obtain rfl := htold
    exact ⟨⟨hd.fresh, hd.gone⟩, rfl, hd.call, nofun⟩

theorem abides_exclusive {m : Task α} (hm : Abides custody (Bare (some .exclusive) none) m) :
    Abides custody (Bare none none) (ask .lock >>= fun _ => m.ensuring (ask .unlock)) := by
  refine abides_locked (fun d hd => ?_) (fun d hd => ?_) hm
  · refine wp_call.mpr ⟨⟨hd.call, hd.side⟩, fun a d' htold => ?_⟩
    obtain rfl := htold
    exact ⟨⟨hd.fresh, hd.gone⟩, rfl, hd.call, nofun⟩
  · refine wp_call.mpr ⟨⟨hd.call, hd.side, hd.clean⟩, fun a d' htold => ?_⟩
    obtain rfl := htold
    exact ⟨⟨hd.fresh, hd.gone⟩, rfl, hd.call, nofun⟩

/-- **An iteration.** -/
theorem abides_iterate (junk : Nat → Nat → UInt8) (cfg : Config) (id iter fuel : Nat) :
    Abides custody (Bare none none) (iterate junk cfg id iter fuel) := by
  have W : ∀ x, Steady custody (Mild none) (Bare x none) := fun x => steady_bare
  refine remains_bind ((W none).refill cfg id iter) fun b =>
    remains_ite (fun _ => ?_) fun _ => remains_ret _
  refine abides_shared (remains_bind (abides_roundTrip junk id iter fuel _) fun r => ?_)
  cases r with
  | some got => exact (W _).settle got
  | none => exact remains_ret _

/-! ## §5. Maintenance. -/

/-- Something done with a Pipeline, if there is one, and its error. -/
theorem abides_onPipe (cfg : Config) (id iter : Nat) (op : String) (p : Pipe) {m : Task Unit}
    {f : Except Error Unit → Task Bool} (hok : f (.ok ()) = Thread.ret true)
    (herror : ∀ e, f (.error e) = maintenanceFail cfg id iter op p e)
    (hm : Abides custody (Bare (some .exclusive) none) m) :
    Abides custody (Bare (some .exclusive) none) (ask (.hasPipe p) >>= fun has =>
      if has then attempt m >>= f else Thread.ret true) := by
  have W : Steady custody (Mild none) (Bare (some .exclusive) none) := steady_bare
  refine remains_bind (W.aloof _ rfl) fun has => remains_ite (fun _ => ?_) fun _ => remains_ret _
  refine remains_bind (abides_attempt hm) fun done => ?_
  cases done with
  | ok u =>
      rw [hok]
      exact remains_ret _
  | error e =>
      rw [herror]
      exact W.maintenanceFail cfg id iter op p e

theorem abides_rekeyPipe (cfg : Config) (id iter : Nat) (perm wrap : Bytes) (p : Pipe) :
    Abides custody (Bare (some .exclusive) none) (rekeyPipe cfg id iter perm wrap p) := by
  refine abides_onPipe cfg id iter "Rekey" p rfl (fun _ => rfl) (abides_lookup fun g => ?_)
  have W : Steady custody (Mild (some g)) (Bare (some .exclusive) (some g)) := steady_bare
  refine remains_bind (W.lib (Call.asks_rekey W.lastError fun n => ?_)) fun b => W.aloof _ rfl
  exact ⟨⟨rfl, rfl⟩, fun _ h => h⟩

/-- A fresh Pipeline in hand, besides what a writer has. -/
structure Carrying (g : Handle) (d : Hand) : Prop where
  side : d.side = some .exclusive
  fresh : d.fresh = some g
  gone : ∀ p, d.gone p = false
  call : d.call = none

/-- `Pipeline::load`: a handle in hand, or none. -/
theorem wp_load_custody {b : Bytes} (hd : Bare (some .exclusive) none d)
    {R : Ends Exn Hand Pipeline} (hok : ∀ g d', Carrying g d' → R.ok { handle := g } d')
    (herr : ∀ e d', Bare (some .exclusive) none d' → R.threw e d') :
    (lib (Call.load b [] [])).wp custody R d := by
  have W : Steady custody (Mild none) (Bare (some .exclusive) none) := steady_bare
  unfold Call.load
  simp only [lib_bind, lib_ffi]
  rw [wp_bind]
  have hmay : d.May (.load b [] [] (mastersCount [] [])) :=
    ⟨fun g hg => (by cases hg), fun _ => ⟨hd.side, hd.clean⟩, fun hends => (by cases hends)⟩
  refine wp_call_custody hd.call hmay fun r _ => ?_
  show (lib (Call.check r.rc _) >>= fun _ => _).wp custody R _
  unfold Call.check
  by_cases hrc : r.rc = 0
  · rw [if_neg (not_not.mpr hrc)]
    refine hok r.handle _ ⟨?_, ?_, ?_, rfl⟩
    all_goals simp [Hand.after, FfiCall.opens, hrc, hd.side, hd.gone]
  -- nothing was made
  · have hbare : Bare (some .exclusive) none
        { d.after (.load b [] [] (mastersCount [] [])) r with call := none } := by
      have hafter : d.after (.load b [] [] (mastersCount [] [])) r =
          { d with call := some (.load b [] [] (mastersCount [] []), some r) } := by
        simp [Hand.after, FfiCall.opens, hrc]
      rw [hafter]
      exact ⟨⟨hd.fresh, hd.gone⟩, hd.side, rfl, nofun⟩
    rw [if_pos hrc]
    unfold Call.fail
    rw [lib_bind, wp_bind, wp_bind]
    exact (W.lib (Call.asks_lastError W.lastError) _ hbare).mono (fun diag d' hd' => herr _ d' hd')
      fun e d' hd' => herr e d' hd'

/-- The fresh handle takes the place of the one there was. -/
theorem wp_install {g : Handle} {p : Pipe} (hd : Carrying g d) {R : Ends Exn Hand Unit}
    (hok : ∀ d', Bare (some .exclusive) none d' → R.ok () d') :
    (ask (.pipe p) >>= fun h => lib (Call.moveAssign { handle := h } { handle := g }) >>= fun x =>
      ask (.setPipe p x.1.handle) >>= fun _ => lib (Call.destroyPipeline x.2)).wp custody R d := by
  have hside : d.side ≠ none := by
    rw [hd.side]
    exact Option.some_ne_none _
  rw [wp_bind]
  refine wp_call.mpr ⟨⟨hd.call, hside, hd.gone p⟩, fun h d₁ htold => ?_⟩
  obtain ⟨hz, honly, rfl⟩ := htold
  show (lib (Call.moveAssign { handle := h } { handle := g }) >>= fun x => _).wp _ R _
  unfold Call.moveAssign
  rw [if_pos hz]
  simp only [lib_bind, lib_ffi]
  rw [bind_bind, wp_bind]
  -- the old handle is freed
  have hmay : Hand.May { d with seen := Function.update d.seen p (some h) } (.free h) := by
    refine ⟨fun g' hg' => ?_, fun hopens => (by cases hopens), fun _ => ⟨hd.side, h, rfl⟩⟩
    cases hg'
    exact ⟨p, Function.update_self ..⟩
  refine wp_call_custody (d := { d with seen := Function.update d.seen p (some h) }) hd.call
    hmay fun r _ => ?_
  have hgone : ∀ q, (d.gone q || decide (Function.update d.seen p (some h) q = some h)) =
      decide (q = p) := by
    intro q
    rw [hd.gone, Bool.false_or]
    by_cases hq : q = p
    · subst hq
      simp
    · rw [Function.update_of_ne hq]
      have hne : d.seen q ≠ some h := fun hs => hq (honly q hs)
      simp [hne, hq]
  show (ask (.setPipe p g) >>= fun _ => lib (Call.destroyPipeline { handle := 0 })).wp _ R _
  rw [wp_bind]
  refine wp_call.mpr ⟨⟨rfl, hd.fresh, ?_, fun q hq => ?_⟩, fun _ d₂ htold => ?_⟩
  · exact (hgone p).trans (decide_eq_true rfl)
  · exact (hgone q).trans (decide_eq_false hq)
  · obtain rfl := htold
    refine hok _ ⟨⟨rfl, fun q => ?_⟩, hd.side, rfl, nofun⟩
    show Function.update (fun q => d.gone q || decide (Function.update d.seen p (some h) q =
      some h)) p false q = false
    by_cases hq : q = p
    · subst hq
      exact Function.update_self ..
    · rw [Function.update_of_ne hq]
      exact (hgone q).trans (decide_eq_false hq)

theorem abides_blobCyclePipe (cfg : Config) (id iter : Nat) (p : Pipe) :
    Abides custody (Bare (some .exclusive) none) (blobCyclePipe cfg id iter p) := by
  have W : Steady custody (Mild none) (Bare (some .exclusive) none) := steady_bare
  refine abides_onPipe cfg id iter "Load" p rfl (fun _ => rfl) ?_
  refine remains_bind (W.aloof _ rfl) fun b => ?_
  intro d hd
  rw [wp_bind]
  refine wp_load_custody hd (fun g d' hd' => ?_) fun _ _ h => h
  exact wp_install hd' fun _ h => h

/-- Both Pipelines under the write lock, and the counter. -/
theorem abides_bothPipes {stream msg counter : Task Bool}
    (hs : Abides custody (Bare (some .exclusive) none) stream)
    (hm : Abides custody (Bare (some .exclusive) none) msg)
    (hc : Abides custody (Bare (some .exclusive) none) counter) :
    Abides custody (Bare none none) (ask .lock >>= fun _ =>
      Thread.ensuring (stream >>= fun a =>
        if a then msg >>= fun b => if b then counter else .ret false else .ret false)
        (ask .unlock)) := by
  refine abides_exclusive (remains_bind hs fun a => ?_)
  refine remains_ite (fun _ => remains_bind hm fun b => ?_) fun _ => remains_ret _
  exact remains_ite (fun _ => hc) fun _ => remains_ret _

theorem abides_rekeyPipes (cfg : Config) (id iter : Nat) :
    Abides custody (Bare none none) (rekeyPipes cfg id iter) := by
  have W : ∀ x, Steady custody (Mild none) (Bare x none) := fun x => steady_bare
  refine remains_bind ((W none).drawMaster _ _ id iter) fun perm => ?_
  cases perm with
  | none => exact remains_ret _
  | some perm =>
      refine remains_bind ((W none).drawMaster _ _ id iter) fun wrap => ?_
      cases wrap with
      | none => exact remains_ret _
      | some wrap =>
          exact abides_bothPipes (abides_rekeyPipe cfg id iter perm wrap .stream)
            (abides_rekeyPipe cfg id iter perm wrap .msg)
            (remains_bind ((W _).aloof _ rfl) fun _ => remains_ret _)

theorem abides_blobCyclePipes (cfg : Config) (id iter : Nat) :
    Abides custody (Bare none none) (blobCyclePipes cfg id iter) := by
  have W : ∀ x, Steady custody (Mild none) (Bare x none) := fun x => steady_bare
  exact abides_bothPipes (abides_blobCyclePipe cfg id iter .stream)
    (abides_blobCyclePipe cfg id iter .msg)
    (remains_bind ((W _).aloof _ rfl) fun _ => remains_ret _)

theorem abides_workerMaintenance (cfg : Config) (id iter : Nat) :
    Abides custody (Bare none none) (workerMaintenance cfg id iter) := by
  have hreopen : ∀ b : Bool, Abides custody (Bare none none)
      (if b then if due cfg.blobCycleEvery iter then blobCyclePipes cfg id iter else .ret true
      else .ret false) := by
    intro b
    refine remains_ite (fun _ => ?_) fun _ => remains_ret _
    exact remains_ite (fun _ => abides_blobCyclePipes cfg id iter) fun _ => remains_ret _
  refine remains_ite (fun _ => ?_) fun _ => hreopen true
  exact remains_bind (abides_rekeyPipes cfg id iter) hreopen

theorem abides_workerLoop (junk : Nat → Nat → UInt8) (cfg : Config) (id fuel₀ fuel iter : Nat) :
    Abides custody (Bare none none) (workerLoop junk cfg id fuel₀ fuel iter) := by
  have W : Steady custody (Mild none) (Bare none none) := steady_bare
  induction fuel generalizing iter with
  | zero => exact remains_spin fun _ _ => trivial
  | succ fuel ih =>
      unfold workerLoop
      refine remains_ite (fun _ => remains_ret _) fun _ => ?_
      refine remains_bind (W.aloof _ rfl) fun stop => ?_
      refine remains_ite (fun _ => remains_ret _) fun _ => ?_
      refine remains_bind (abides_iterate junk cfg id iter fuel₀) fun ok => ?_
      refine remains_ite (fun _ => ?_) fun _ => remains_ret _
      refine remains_bind (abides_workerMaintenance cfg id iter) fun kept => ?_
      exact remains_ite (fun _ => ih (iter + 1)) fun _ => remains_ret _

/-- **A worker.** -/
theorem abides_workerMain (junk : Nat → Nat → UInt8) (cfg : Config) (id fuel : Nat) :
    Abides custody (Bare none none) (workerMain junk cfg id fuel) := by
  have W : Steady custody (Mild none) (Bare none none) := steady_bare
  refine remains_bind (abides_iterate junk cfg id 0 fuel) fun ok => ?_
  refine remains_bind (W.arriveAndWait _) fun _ => remains_bind (W.arriveAndWait _) fun _ => ?_
  have hfinish : Abides custody (Bare none none) (workerDone >>= fun _ => ask .return_) :=
    remains_bind W.workerDone fun _ => W.aloof _ rfl
  refine remains_ite (fun _ => ?_) fun _ => hfinish
  exact remains_bind (abides_workerLoop junk cfg id fuel fuel 1) fun _ => hfinish

/-- **Every thread of the harness keeps what it owns in its hands.** -/
theorem owns_hands {N : Nat} (junk : Fin N → Nat → Nat → UInt8) (cfg : Config) (fuel : Nat)
    (i : Tid N) : Abides custody (Bare none none) (harness N junk cfg fuel i) := by
  cases i with
  | none =>
      have W : Steady custody (Mild none) (Bare none none) := steady_bare
      exact W.mainThread cfg N fuel
  | some k => exact abides_workerMain (junk k) cfg k fuel

end Worker

/-! ## §6. The handles, accounted for. -/

/-- A library that counts its handles: none comes to life but by a call that
makes one, and a handle that was freed is dead. -/
structure AccountedLib {σ K : Type} (L : Lib σ) (key : σ → Handle → Option K)
    (decode : Bytes → Option K) : Prop extends KeyedLib L key decode where
  dead : ∀ c s h, key s h = none →
    (c.opens = true → (L c s).1.rc = 0 → (L c s).1.handle ≠ h) → key (L c s).2 h = none
  freed : ∀ h s, key (L (.free h) s).2 h = none

section Accounts

variable {σ K : Type} {N : Nat} {L : Lib σ} {key : σ → Handle → Option K}
  {decode : Bytes → Option K} {base : Handle → Prop}

/-- The handle is live. -/
def Live (key : σ → Handle → Option K) (s : σ) (h : Handle) : Prop := (key s h).isSome = true

/-- What a thread has in its hands is what the shared state says. -/
structure HandOf (base : Handle → Prop) (s : PipeState σ K N) (i : Tid N) (d : Hand) : Prop where
  call : s.calls i = d.call
  shared : d.side = some .shared ↔ s.readers i = true
  exclusive : d.side = some .exclusive ↔ s.writer = some i
  seen : ∀ p h, d.seen p = some h → s.pipes p = some h ∧ d.side ≠ none ∧ d.gone p = false
  clean : d.side ≠ some .exclusive → d.Clean
  /-- the Pipeline of a session is one that was looked up -/
  sessions : ∀ e ∈ s.sessions i, ∃ p, d.seen p = some e.2
  pending : ∀ c, d.call = some (c, none) → d.May c
  fresh : ∀ g, d.fresh = some g → g ≠ 0 ∧ ¬ base g ∧ ∀ p, s.pipes p ≠ some g

/-- **The account**: besides those that live anyway, the live handles are the
pipes', but for the ones that were freed, and the ones in hand. -/
structure Account (key : σ → Handle → Option K) (base : Handle → Prop) (s : PipeState σ K N)
    (ts : Tid N → Hand) : Prop where
  pipes : ∀ p h, s.pipes p = some h → h ≠ 0 ∧ ¬ base h
  live : ∀ h, Live key s.lib h ↔ base h ∨
    (∃ p, s.pipes p = some h ∧ ∀ i, (ts i).gone p = false) ∨ ∃ i, (ts i).fresh = some h

/-- Hands and handles. -/
structure InCustody (key : σ → Handle → Option K) (base : Handle → Prop) (s : PipeState σ K N)
    (ts : Tid N → Hand) : Prop where
  hands : ∀ i, HandOf base s i (ts i)
  account : Account key base s ts

variable {s s' : PipeState σ K N} {i j : Tid N} {d d' : Hand} {ts : Tid N → Hand}

/-- A thread that another one's step passes by. -/
theorem HandOf.rely (h : HandOf base s i d) (hrely : Rely key i s s') : HandOf base s' i d := by
  -- whoever has a side sees the pipes stand still
  have hside : d.side ≠ none → s'.pipes = s.pipes := by
    intro hd
    refine (hrely.frozen ?_).pipes
    cases hx : d.side with
    | none => exact (hd hx).elim
    | some x =>
        cases x with
        | shared => exact Or.inl (h.shared.mp hx)
        | exclusive => exact Or.inr (h.exclusive.mp hx)
  constructor
  · exact hrely.own.calls.trans h.call
  · rw [hrely.own.readers]
    exact h.shared
  · rw [hrely.own.writer]
    exact h.exclusive
  · intro p g hg
    obtain ⟨hpipe, hd, hgone⟩ := h.seen p g hg
    rw [hside hd]
    exact ⟨hpipe, hd, hgone⟩
  · exact h.clean
  · intro e he
    rw [hrely.own.sessions] at he
    exact h.sessions e he
  · exact h.pending
  · intro g hg
    have hd : d.side ≠ none := by
      intro hnone
      have hclean := h.clean (by rw [hnone]; exact nofun)
      rw [hclean.fresh] at hg
      cases hg
    rw [hside hd]
    exact h.fresh g hg

/-- No side of the lock, or the read side: nothing in hand. -/
theorem HandOf.clean_of_writer (h : HandOf base s j d) (hw : s.writer = some i) (hne : j ≠ i) :
    d.Clean := by
  refine h.clean fun hside => hne ?_
  have hj := h.exclusive.mp hside
  rw [hw] at hj
  exact (Option.some.inj hj).symm

/-- A writer has no session open. -/
theorem HandOf.no_sessions (hinv : PipeInv key decode s) (h : HandOf base s i d)
    (hside : d.side = some .exclusive) : s.sessions i = [] := by
  by_contra hne
  have hr := hinv.sessions i hne
  rw [hinv.lock i (h.exclusive.mp hside) i] at hr
  cases hr

/-- As many live handles as before, and none has changed hands. -/
theorem Account.same (h : Account key base s ts) (hpipes : s'.pipes = s.pipes)
    (hlive : ∀ g, Live key s'.lib g ↔ Live key s.lib g) (hfresh : d'.fresh = (ts i).fresh)
    (hgone : d'.gone = (ts i).gone) : Account key base s' (Function.update ts i d') := by
  have hf : ∀ j, (Function.update ts i d' j).fresh = (ts j).fresh := by
    intro j
    by_cases hj : j = i
    · subst hj
      rw [Function.update_self, hfresh]
    · rw [Function.update_of_ne hj]
  have hg : ∀ j, (Function.update ts i d' j).gone = (ts j).gone := by
    intro j
    by_cases hj : j = i
    · subst hj
      rw [Function.update_self, hgone]
    · rw [Function.update_of_ne hj]
  constructor
  · rw [hpipes]
    exact h.pipes
  · intro g
    rw [hlive, h.live]
    simp only [hf, hg, hpipes]

/-- A call that neither makes nor ends a handle leaves the live ones. -/
theorem live_tame (hL : AccountedLib L key decode) {c : FfiCall} (hc : c.tame) (s : σ)
    (g : Handle) : Live key (L c s).2 g ↔ Live key s g := by
  obtain ⟨hopens, hends⟩ := hc
  unfold Live
  constructor
  · intro h
    by_contra hdead
    rw [Bool.not_eq_true, Option.isSome_eq_false_iff, Option.isNone_iff_eq_none] at hdead
    rw [hL.dead c s g hdead fun hyes => (by rw [hopens] at hyes; cases hyes)] at h
    cases h
  · intro h
    obtain ⟨k, hk⟩ := Option.isSome_iff_exists.mp h
    by_cases hchanged : c.changed (L c s).1 = some g
    · -- a rekey that was granted
      cases c with
      | rekey g' perm wrap cap =>
          have hrc : (L (.rekey g' perm wrap cap) s).1.rc = 0 := by
            by_contra hrc
            rw [FfiCall.changed, if_neg hrc] at hchanged
            cases hchanged
          rw [FfiCall.changed, if_pos hrc] at hchanged
          cases hchanged
          obtain ⟨k', -, -, hk', -⟩ := hL.rekey g perm wrap cap s hrc
          rw [hk']
          rfl
      | free | close => cases hends
      | _ => cases hchanged
    · rw [hL.frame c s g k hk hchanged]
      rfl

/-- A handle that is freed is dead, and the others live as before. -/
theorem live_freed (hL : AccountedLib L key decode) (s : σ) (g x : Handle) :
    Live key (L (.free g) s).2 x ↔ Live key s x ∧ x ≠ g := by
  unfold Live
  constructor
  · intro hx
    constructor
    · by_contra hdead
      rw [Bool.not_eq_true, Option.isSome_eq_false_iff, Option.isNone_iff_eq_none] at hdead
      rw [hL.dead _ s x hdead fun hopens => (by cases hopens)] at hx
      cases hx
    · rintro rfl
      rw [hL.freed] at hx
      cases hx
  · rintro ⟨hx, hne⟩
    obtain ⟨k, hk⟩ := Option.isSome_iff_exists.mp hx
    rw [hL.frame (.free g) s x k hk fun hc => hne (Option.some.inj hc).symm]
    rfl

/-- One handle more, which was not live before. -/
structure Gained (key : σ → Handle → Option K) (s s' : σ) (g : Handle) : Prop where
  nonzero : g ≠ 0
  fresh : ¬ Live key s g
  live : ∀ h, Live key s' h ↔ Live key s h ∨ h = g

/-- A call that makes a handle adds the one it answers with, or none. -/
theorem live_opens (hL : AccountedLib L key decode) {c : FfiCall} (hc : c.opens = true) (s : σ) :
    ((L c s).1.rc = 0 → Gained key s (L c s).2 (L c s).1.handle) ∧
      ((L c s).1.rc ≠ 0 → ∀ g, Live key (L c s).2 g ↔ Live key s g) := by
  have hmutates : c.mutates = none := by
    cases c <;> first | exact rfl | cases hc
  -- the live handles stay, and none but the new one comes to life
  have hstays : ∀ g, Live key s g → Live key (L c s).2 g := by
    intro g hg
    obtain ⟨k, hk⟩ := Option.isSome_iff_exists.mp hg
    have hkept := hL.frame c s g k hk (by
      rw [FfiCall.changed_of_not_mutates hmutates]
      exact nofun)
    unfold Live
    rw [hkept]
    rfl
  have hborn : ∀ g, Live key (L c s).2 g →
      Live key s g ∨ (L c s).1.rc = 0 ∧ (L c s).1.handle = g := by
    intro g hg
    by_contra hno
    rw [not_or, not_and] at hno
    have hdead : key s g = none := by
      have hfalse := hno.1
      unfold Live at hfalse
      rwa [Bool.not_eq_true, Option.isSome_eq_false_iff, Option.isNone_iff_eq_none] at hfalse
    unfold Live at hg
    rw [hL.dead c s g hdead fun _ => hno.2] at hg
    cases hg
  constructor
  · intro hrc
    obtain ⟨hz, hnone, k, hk⟩ := hL.opened c s hc hrc
    refine ⟨hz, ?_, fun g => ⟨fun hg => ?_, ?_⟩⟩
    · unfold Live
      rw [hnone]
      exact nofun
    · rcases hborn g hg with hold | ⟨-, hnew⟩
      · exact Or.inl hold
      · exact Or.inr hnew.symm
    · rintro (hg | rfl)
      · exact hstays g hg
      · unfold Live
        rw [hk]
        rfl
  · intro hrc g
    refine ⟨fun hg => ?_, hstays g⟩
    rcases hborn g hg with hold | ⟨hzero, -⟩
    · exact hold
    · exact (hrc hzero).elim

/-- The hands of the others, after a step of `i`. -/
theorem InCustody.step (hinv : PipeInv key decode s) (hguar : Guar key i s s')
    (h : InCustody key base s ts) (hand : HandOf base s' i d')
    (account : Account key base s' (Function.update ts i d')) :
    InCustody key base s' (Function.update ts i d') := by
  refine ⟨fun j => ?_, account⟩
  by_cases hj : j = i
  · subst hj
    rw [Function.update_self]
    exact hand
  · rw [Function.update_of_ne hj]
    exact (h.hands j).rely (hguar.rely hinv (Ne.symm hj))

/-- A session that is open after a call was open before it, or begun on the
call's Pipeline. -/
theorem session_after {ss : List (Handle × Handle)} {c : FfiCall} {r : Reply}
    {e : Handle × Handle} (he : e ∈ sessionsAfter ss c r) : e ∈ ss ∨ c.target = some e.2 := by
  have hbegin : ∀ g, e ∈ (if r.rc = 0 ∧ r.handle ≠ 0 then (r.handle, g) :: ss else ss) →
      e ∈ ss ∨ some g = some e.2 := by
    intro g he
    by_cases hok : r.rc = 0 ∧ r.handle ≠ 0
    · rw [if_pos hok, List.mem_cons] at he
      rcases he with rfl | he
      · exact Or.inr rfl
      · exact Or.inl he
    · rw [if_neg hok] at he
      exact Or.inl he
  cases c with
  | encryptStreamBegin g | decryptStreamBegin g => exact hbegin g he
  | streamFree x => exact Or.inl (List.mem_of_mem_filter he)
  | _ => exact Or.inl he

section Effect

variable {c : FfiCall}

/-- A call that neither makes nor ends a handle takes effect. -/
theorem InCustody.effect_tame (hL : AccountedLib L key decode) (hinv : PipeInv key decode s)
    (h : InCustody key base s ts) (hcall : s.calls i = some (c, none)) (hc : c.tame) :
    InCustody key base (s.effect L key i c)
      (Function.update ts i ((ts i).after c (L c s.lib).1)) := by
  have hhand := h.hands i
  have hmay := hhand.pending c (hhand.call ▸ hcall)
  refine h.step hinv (guar_effect hL.toKeyedLib hinv hcall) ?_ ?_
  · rw [Hand.after_tame hc]
    refine ⟨Function.update_self .., hhand.shared, hhand.exclusive, hhand.seen, fun hs => ?_,
      fun e he => ?_, fun c' hc' => (by cases hc'), hhand.fresh⟩
    · exact ⟨(hhand.clean hs).fresh, (hhand.clean hs).gone⟩
    · have hafter : (s.effect L key i c).sessions i =
          sessionsAfter (s.sessions i) c (L c s.lib).1 := Function.update_self ..
      rw [hafter] at he
      rcases session_after he with hold | hnew
      · exact hhand.sessions e hold
      · exact hmay.target e.2 hnew
  · rw [Hand.after_tame hc]
    exact h.account.same rfl (live_tame hL hc s.lib) rfl rfl

/-- With the write side, and nothing in hand, no pipe is without a handle. -/
theorem InCustody.whole (h : InCustody key base s ts) (hside : (ts i).side = some .exclusive)
    (hclean : (ts i).Clean) (j : Tid N) : (ts j).Clean := by
  by_cases hj : j = i
  · subst hj
    exact hclean
  · exact (h.hands j).clean_of_writer ((h.hands i).exclusive.mp hside) hj

/-- A call that makes a handle takes effect. -/
theorem InCustody.effect_opens (hL : AccountedLib L key decode) (hinv : PipeInv key decode s)
    (h : InCustody key base s ts) (hcall : s.calls i = some (c, none)) (hc : c.opens = true) :
    InCustody key base (s.effect L key i c)
      (Function.update ts i ((ts i).after c (L c s.lib).1)) := by
  have hhand := h.hands i
  have hmay := hhand.pending c (hhand.call ▸ hcall)
  obtain ⟨hside, hclean⟩ := hmay.opens hc
  have hall := h.whole hside hclean
  obtain ⟨hgains, hsame⟩ := live_opens hL hc s.lib
  have hsessions : (s.effect L key i c).sessions i = s.sessions i := by
    show Function.update s.sessions i (sessionsAfter (s.sessions i) c _) i = s.sessions i
    rw [Function.update_self]
    cases c <;> first | rfl | cases hc
  by_cases hrc : (L c s.lib).1.rc = 0
  · obtain ⟨hz, hnew, hlive⟩ := hgains hrc
    have hafter : (ts i).after c (L c s.lib).1 =
        { ts i with
          call := some (c, some (L c s.lib).1)
          fresh := some (L c s.lib).1.handle } := by
      simp [Hand.after, hc, hrc]
    rw [hafter]
    generalize (L c s.lib).1.handle = g at hz hnew hlive
    refine h.step hinv (guar_effect hL.toKeyedLib hinv hcall) ?_ ?_
    · refine ⟨Function.update_self .., hhand.shared, hhand.exclusive, hhand.seen,
        fun hs => (hs hside).elim, fun e he => ?_, fun c' hc' => (by cases hc'), ?_⟩
      · rw [hsessions] at he
        exact hhand.sessions e he
      · intro g' hg'
        cases hg'
        refine ⟨hz, fun hb => hnew ((h.account.live g).mpr (Or.inl hb)), fun p hp => ?_⟩
        exact hnew ((h.account.live g).mpr (Or.inr (Or.inl ⟨p, hp, fun j => (hall j).gone p⟩)))
    · refine ⟨h.account.pipes, fun g' => ?_⟩
      refine (hlive g').trans ?_
      rw [h.account.live]
      constructor
      · rintro ((hb | ⟨p, hp, hgone⟩ | ⟨j, hj⟩) | rfl)
        · exact Or.inl hb
        · refine Or.inr (Or.inl ⟨p, hp, fun j => ?_⟩)
          by_cases hj : j = i
          · subst hj
            rw [Function.update_self]
            exact hgone j
          · rw [Function.update_of_ne hj]
            exact hgone j
        · rw [(hall j).fresh] at hj
          cases hj
        · exact Or.inr (Or.inr ⟨i, by rw [Function.update_self]⟩)
      · rintro (hb | ⟨p, hp, -⟩ | ⟨j, hj⟩)
        · exact Or.inl (Or.inl hb)
        · exact Or.inl (Or.inr (Or.inl ⟨p, hp, fun j => (hall j).gone p⟩))
        · by_cases hji : j = i
          · subst hji
            rw [Function.update_self] at hj
            cases hj
            exact Or.inr rfl
          · rw [Function.update_of_ne hji, (hall j).fresh] at hj
            cases hj
  -- it failed, and made none
  · have hafter : (ts i).after c (L c s.lib).1 =
        { ts i with call := some (c, some (L c s.lib).1) } := by
      simp [Hand.after, hc, hrc]
    rw [hafter]
    refine h.step hinv (guar_effect hL.toKeyedLib hinv hcall) ?_ ?_
    · refine ⟨Function.update_self .., hhand.shared, hhand.exclusive, hhand.seen,
        fun hs => (hs hside).elim, fun e he => ?_, fun c' hc' => (by cases hc'), hhand.fresh⟩
      rw [hsessions] at he
      exact hhand.sessions e he
    · exact h.account.same rfl (hsame hrc) rfl rfl

/-- A handle is freed. -/
theorem InCustody.effect_free (hL : AccountedLib L key decode) (hinv : PipeInv key decode s)
    (h : InCustody key base s ts) {g : Handle} (hcall : s.calls i = some (.free g, none)) :
    InCustody key base (s.effect L key i (.free g))
      (Function.update ts i ((ts i).after (.free g) (L (.free g) s.lib).1)) := by
  have hhand := h.hands i
  have hmay := hhand.pending _ (hhand.call ▸ hcall)
  obtain ⟨hside, -⟩ := hmay.ends rfl
  -- it is the handle of one pipe, and in nobody's hand
  obtain ⟨p₀, hp₀⟩ := hmay.target g rfl
  obtain ⟨hpipe, -, hgone₀⟩ := hhand.seen p₀ g hp₀
  have hbase : ¬ base g := (h.account.pipes p₀ g hpipe).2
  have hfresh : ∀ j, (ts j).fresh ≠ some g := fun j hj => ((h.hands j).fresh g hj).2.2 p₀ hpipe
  have hafter : (ts i).after (.free g) (L (.free g) s.lib).1 =
      { ts i with
        call := some (.free g, some (L (.free g) s.lib).1)
        seen := fun p => if (ts i).seen p = some g then none else (ts i).seen p
        gone := fun p => (ts i).gone p || decide ((ts i).seen p = some g) } := rfl
  rw [hafter]
  refine h.step hinv (guar_effect hL.toKeyedLib hinv hcall) ?_ ?_
  · refine ⟨Function.update_self .., hhand.shared, hhand.exclusive, fun p x hx => ?_,
      fun hs => (hs hside).elim, fun e he => ?_, fun c' hc' => (by cases hc'), hhand.fresh⟩
    · have hx : (if (ts i).seen p = some g then none else (ts i).seen p) = some x := hx
      have hseen : (ts i).seen p = some x ∧ (ts i).seen p ≠ some g := by
        by_cases hg : (ts i).seen p = some g
        · rw [if_pos hg] at hx
          cases hx
        · rw [if_neg hg] at hx
          exact ⟨hx, hg⟩
      obtain ⟨hpx, hs, hgone⟩ := hhand.seen p x hseen.1
      refine ⟨hpx, hs, ?_⟩
      show ((ts i).gone p || decide ((ts i).seen p = some g)) = false
      rw [hgone, decide_eq_false hseen.2]
      rfl
    · have hnone : (s.effect L key i (.free g)).sessions i = [] :=
        (Function.update_self ..).trans (hhand.no_sessions hinv hside)
      rw [hnone] at he
      cases he
  · refine ⟨h.account.pipes, fun x => ?_⟩
    show Live key (L (.free g) s.lib).2 x ↔ _
    rw [live_freed hL, h.account.live]
    constructor
    · rintro ⟨hb | ⟨p, hp, hgone⟩ | ⟨j, hj⟩, hne⟩
      · exact Or.inl hb
      · refine Or.inr (Or.inl ⟨p, hp, fun j => ?_⟩)
        by_cases hji : j = i
        · subst hji
          rw [Function.update_self]
          show ((ts j).gone p || decide ((ts j).seen p = some g)) = false
          have hseen : (ts j).seen p ≠ some g := fun hs =>
            hne (Option.some.inj (hp.symm.trans (hhand.seen p g hs).1))
          rw [hgone j, decide_eq_false hseen]
          rfl
        · rw [Function.update_of_ne hji]
          exact hgone j
      · refine Or.inr (Or.inr ⟨j, ?_⟩)
        by_cases hji : j = i
        · subst hji
          rw [Function.update_self]
          exact hj
        · rw [Function.update_of_ne hji]
          exact hj
    · rintro (hb | ⟨p, hp, hgone⟩ | ⟨j, hj⟩)
      · exact ⟨Or.inl hb, fun hx => hbase (hx ▸ hb)⟩
      · have hgi := hgone i
        rw [Function.update_self] at hgi
        obtain ⟨hgi, hseen⟩ := Bool.or_eq_false_iff.mp hgi
        refine ⟨Or.inr (Or.inl ⟨p, hp, fun j => ?_⟩), ?_⟩
        · by_cases hji : j = i
          · subst hji
            exact hgi
          · have hgj := hgone j
            rw [Function.update_of_ne hji] at hgj
            exact hgj
        · rintro rfl
          -- that pipe is the one whose handle was freed
          obtain rfl := hinv.distinct p p₀ x hp hpipe
          exact of_decide_eq_false hseen hp₀
      · have hold : (ts j).fresh = some x := by
          by_cases hji : j = i
          · subst hji
            rw [Function.update_self] at hj
            exact hj
          · rw [Function.update_of_ne hji] at hj
            exact hj
        exact ⟨Or.inr (Or.inr ⟨j, hold⟩), fun hx => hfresh j (hx ▸ hold)⟩

end Effect

/-! ## §7. Every answer keeps the account. -/

/-- What a request that stays aloof leaves alone. -/
structure Unmoved (s s' : PipeState σ K N) : Prop where
  lib : s'.lib = s.lib
  pipes : s'.pipes = s.pipes
  calls : s'.calls = s.calls
  readers : s'.readers = s.readers
  writer : s'.writer = s.writer
  sessions : s'.sessions = s.sessions

theorem aloof_answers {s s' : Shared σ K N} {q : Req} (hq : q.aloof = true) {a : q.Answer}
    (ha : answers L key i s q a s') : Unmoved s.toPipeState s'.toPipeState := by
  cases q with
  | enter | effect | leave | lockShared | unlockShared | lock | unlock | pipe | setPipe => cases hq
  | setSelf =>
      obtain ⟨k, -, rfl⟩ := ha
      exact ⟨rfl, rfl, rfl, rfl, rfl, rfl⟩
  | setBlob | storeStop | arrive | unlockDone | setActive | setFinish | return_ | now
  | signalSeen | exit =>
      obtain rfl := ha
      exact ⟨rfl, rfl, rfl, rfl, rfl, rfl⟩
  | hasPipe | blob | fillRandom | fillPayload | self | loadStop | addRekeys | addBlobCycles
  | await | lockDone | getActive | join =>
      obtain ⟨-, rfl⟩ := ha
      exact ⟨rfl, rfl, rfl, rfl, rfl, rfl⟩

/-- Nothing has happened to the thread's own. -/
theorem HandOf.unmoved (h : HandOf base s i d) (hs : Unmoved s s') : HandOf base s' i d := by
  constructor
  · rw [hs.calls]
    exact h.call
  · rw [hs.readers]
    exact h.shared
  · rw [hs.writer]
    exact h.exclusive
  · rw [hs.pipes]
    exact h.seen
  · exact h.clean
  · rw [hs.sessions]
    exact h.sessions
  · exact h.pending
  · rw [hs.pipes]
    exact h.fresh

/-- An answer that makes, ends and installs no handle. -/
theorem InCustody.moved (hinv : PipeInv key decode s) (hguar : Guar key i s s')
    (h : InCustody key base s ts) (hlib : s'.lib = s.lib) (hpipes : s'.pipes = s.pipes)
    (hfresh : d'.fresh = (ts i).fresh) (hgone : d'.gone = (ts i).gone)
    (hand : HandOf base s' i d') : InCustody key base s' (Function.update ts i d') :=
  h.step hinv hguar hand (h.account.same hpipes (fun g => by rw [hlib]) hfresh hgone)

/-- A side of the lock is taken, with nothing looked up. -/
theorem HandOf.locked {x : LockSide} (h : HandOf base s i d) (hcall : d.call = none)
    (hside : d.side = none) (hsessions : s'.sessions i = s.sessions i)
    (hcalls : s'.calls i = s.calls i) (hshared : x = .shared ↔ s'.readers i = true)
    (hexclusive : x = .exclusive ↔ s'.writer = some i) :
    HandOf base s' i { d with side := some x } := by
  have hclean := h.clean (by rw [hside]; exact nofun)
  refine ⟨hcalls.trans h.call, ?_, ?_, fun p g hg => ?_, fun _ => ⟨hclean.fresh, hclean.gone⟩,
    fun e he => ?_, fun c hc => ?_, fun g hg => ?_⟩
  · rw [← hshared]
    exact ⟨fun hx => Option.some.inj hx, fun hx => congrArg some hx⟩
  · rw [← hexclusive]
    exact ⟨fun hx => Option.some.inj hx, fun hx => congrArg some hx⟩
  · exact ((h.seen p g hg).2.1 hside).elim
  · rw [hsessions] at he
    exact h.sessions e he
  · rw [show ({ d with side := some x } : Hand).call = none from hcall] at hc
    cases hc
  · rw [show ({ d with side := some x } : Hand).fresh = none from hclean.fresh] at hg
    cases hg

/-- It is given back. -/
theorem HandOf.unlocked (h : HandOf base s i d) (hcall : d.call = none) (hclean : d.Clean)
    (hsessions : s'.sessions i = []) (hcalls : s'.calls i = s.calls i)
    (hreaders : s'.readers i = false) (hwriter : s'.writer ≠ some i) :
    HandOf base s' i { d with side := none, seen := fun _ => none } := by
  refine ⟨hcalls.trans h.call, ?_, ?_, fun p g hg => (by cases hg),
    fun _ => ⟨hclean.fresh, hclean.gone⟩, fun e he => ?_, fun c hc => ?_, fun g hg => ?_⟩
  · rw [hreaders]
    exact ⟨fun hx => (by cases hx), fun hx => (by cases hx)⟩
  · exact ⟨fun hx => (by cases hx), fun hx => (hwriter hx).elim⟩
  · rw [hsessions] at he
    cases he
  · rw [show ({ d with side := none, seen := fun _ => none } : Hand).call = none from hcall] at hc
    cases hc
  · rw [show ({ d with side := none, seen := fun _ => none } : Hand).fresh = none
      from hclean.fresh] at hg
    cases hg

/-- A fresh handle is installed. -/
theorem InCustody.install {s s' : PipeState σ K N} {p : Pipe} {g : Handle}
    (hinv : PipeInv key decode s) (hguar : Guar key i s s') (h : InCustody key base s ts)
    (hasks : (ts i).asks (.setPipe p g))
    (hs' : s' = { s with pipes := Function.update s.pipes p (some g) }) :
    InCustody key base s' (Function.update ts i
      { ts i with
        seen := Function.update (ts i).seen p (some g)
        fresh := none
        gone := Function.update (ts i).gone p false }) := by
  obtain ⟨hcall, hfresh, hgone, hothers⟩ := hasks
  subst hs'
  have hhand := h.hands i
  obtain ⟨hz, hbase, hnew⟩ := hhand.fresh g hfresh
  have hside : (ts i).side = some .exclusive := by
    by_contra hside
    rw [(hhand.clean hside).fresh] at hfresh
    cases hfresh
  have hw := hhand.exclusive.mp hside
  have hclean : ∀ j, j ≠ i → (ts j).Clean := fun j hj => (h.hands j).clean_of_writer hw hj
  refine h.step hinv hguar ?_ ?_
  · refine ⟨hhand.call, hhand.shared, hhand.exclusive, fun q x hx => ?_,
      fun hs => (hs hside).elim, fun e he => ?_, fun c hc => ?_, fun x hx => (by cases hx)⟩
    · by_cases hq : q = p
      · subst hq
        have hx : Function.update (ts i).seen q (some g) q = some x := hx
        rw [Function.update_self] at hx
        cases hx
        refine ⟨Function.update_self .., ?_, Function.update_self ..⟩
        rw [hside]
        exact nofun
      · have hx : Function.update (ts i).seen p (some g) q = some x := hx
        rw [Function.update_of_ne hq] at hx
        obtain ⟨hpipe, hs, hgq⟩ := hhand.seen q x hx
        exact ⟨(Function.update_of_ne hq _ _).trans hpipe, hs,
          (Function.update_of_ne hq _ _).trans hgq⟩
    · rw [show s.sessions i = [] from hhand.no_sessions hinv hside] at he
      cases he
    · rw [show (ts i).call = none from hcall] at hc
      cases hc
  · constructor
    · intro q x hx
      by_cases hq : q = p
      · subst hq
        have hx : Function.update s.pipes q (some g) q = some x := hx
        rw [Function.update_self] at hx
        cases hx
        exact ⟨hz, hbase⟩
      · have hx : Function.update s.pipes p (some g) q = some x := hx
        rw [Function.update_of_ne hq] at hx
        exact h.account.pipes q x hx
    · intro x
      refine (h.account.live x).trans ?_
      constructor
      · rintro (hb | ⟨q, hq, hgq⟩ | ⟨j, hj⟩)
        · exact Or.inl hb
        · -- the pipe whose handle was freed is not one of these
          have hne : q ≠ p := by
            rintro rfl
            rw [hgq i] at hgone
            cases hgone
          refine Or.inr (Or.inl ⟨q, (Function.update_of_ne hne _ _).trans hq, fun j => ?_⟩)
          by_cases hj : j = i
          · subst hj
            rw [Function.update_self]
            exact (Function.update_of_ne hne _ _).trans (hgq j)
          · rw [Function.update_of_ne hj]
            exact hgq j
        · by_cases hji : j = i
          · subst hji
            obtain rfl := Option.some.inj (hfresh.symm.trans hj)
            refine Or.inr (Or.inl ⟨p, Function.update_self .., fun j' => ?_⟩)
            by_cases hj' : j' = j
            · subst hj'
              rw [Function.update_self]
              exact Function.update_self ..
            · rw [Function.update_of_ne hj']
              exact (hclean j' hj').gone p
          · rw [(hclean j hji).fresh] at hj
            cases hj
      · rintro (hb | ⟨q, hq, hgq⟩ | ⟨j, hj⟩)
        · exact Or.inl hb
        · by_cases hqp : q = p
          · subst hqp
            have hq : Function.update s.pipes q (some g) q = some x := hq
            rw [Function.update_self] at hq
            cases hq
            exact Or.inr (Or.inr ⟨i, hfresh⟩)
          · refine Or.inr (Or.inl ⟨q, (Function.update_of_ne hqp _ _).symm.trans hq, fun j => ?_⟩)
            by_cases hji : j = i
            · subst hji
              exact hothers q hqp
            · exact (hclean j hji).gone q
        · by_cases hji : j = i
          · subst hji
            rw [Function.update_self] at hj
            cases hj
          · rw [Function.update_of_ne hji, (hclean j hji).fresh] at hj
            cases hj

/-- **Every answer** keeps the handles in custody. -/
theorem InCustody.served (hL : AccountedLib L key decode) {s s' : Shared σ K N}
    (hinv : PipeInv key decode s.toPipeState) (hinv' : PipeInv key decode s'.toPipeState)
    (hguar : Guar key i s.toPipeState s'.toPipeState)
    (h : InCustody key base s.toPipeState ts) {q : Req} {a : q.Answer} (hasks : (ts i).asks q)
    (ha : answers L key i s q a s') :
    ∃ d', (ts i).told q a d' ∧ InCustody key base s'.toPipeState (Function.update ts i d') := by
  have hhand := h.hands i
  by_cases haloof : q.aloof = true
  · have hs := aloof_answers haloof ha
    refine ⟨ts i, ?_, h.moved hinv hguar hs.lib hs.pipes rfl rfl (hhand.unmoved hs)⟩
    cases q <;> first | exact rfl | cases haloof
  cases q with
  | enter c =>
      obtain ⟨-, rfl⟩ := ha
      obtain ⟨-, hmay⟩ := hasks
      refine ⟨_, rfl, h.moved hinv hguar rfl rfl rfl rfl ?_⟩
      refine ⟨Function.update_self .., hhand.shared, hhand.exclusive, hhand.seen, fun hs => ?_,
        hhand.sessions, fun c' hc' => ?_, hhand.fresh⟩
      · exact ⟨(hhand.clean hs).fresh, (hhand.clean hs).gone⟩
      · cases hc'
        exact ⟨hmay.target, fun ho => ⟨(hmay.opens ho).1, (hmay.opens ho).2.1,
          (hmay.opens ho).2.2⟩, hmay.ends⟩
  | effect =>
      obtain ⟨c, hin, rfl⟩ := ha
      have hmay := hhand.pending c (hhand.call ▸ hin)
      have hmade : Made c (L c s.lib).1 := fun ho hrc => (hL.opened c s.lib ho hrc).1
      refine ⟨_, ⟨c, (L c s.lib).1, hhand.call ▸ hin, hmade, rfl⟩, ?_⟩
      by_cases hopens : c.opens = true
      · exact h.effect_opens hL hinv hin hopens
      · by_cases hends : c.ends = true
        · obtain ⟨-, g, rfl⟩ := hmay.ends hends
          exact h.effect_free hL hinv hin
        · exact h.effect_tame hL hinv hin
            ⟨Bool.eq_false_iff.mpr hopens, Bool.eq_false_iff.mpr hends⟩
  | leave =>
      obtain ⟨c, hin, rfl⟩ := ha
      refine ⟨_, ⟨c, hhand.call ▸ hin, rfl⟩, h.moved hinv hguar rfl rfl rfl rfl ?_⟩
      refine ⟨Function.update_self .., hhand.shared, hhand.exclusive, hhand.seen, fun hs => ?_,
        hhand.sessions, fun c' hc' => (by cases hc'), hhand.fresh⟩
      exact ⟨(hhand.clean hs).fresh, (hhand.clean hs).gone⟩
  | lockShared =>
      obtain ⟨hfree, rfl⟩ := ha
      refine ⟨_, rfl, h.moved hinv hguar rfl rfl rfl rfl
        (hhand.locked hasks.1 hasks.2 rfl rfl ?_ ?_)⟩
      · exact ⟨fun _ => Function.update_self .., fun _ => rfl⟩
      · rw [show s.writer = none from hfree]
        exact ⟨fun hx => (by cases hx), fun hx => (by cases hx)⟩
  | lock =>
      obtain ⟨-, hnone, rfl⟩ := ha
      refine ⟨_, rfl, h.moved hinv hguar rfl rfl rfl rfl
        (hhand.locked hasks.1 hasks.2 rfl rfl ?_ ?_)⟩
      · rw [show s.readers i = false from hnone i]
        exact ⟨fun hx => (by cases hx), fun hx => (by cases hx)⟩
      · exact ⟨fun _ => rfl, fun _ => rfl⟩
  | unlockShared =>
      obtain rfl := ha
      have hclean := hhand.clean (by rw [hasks.2]; exact nofun)
      have hreaders : Function.update s.readers i false i = false := Function.update_self ..
      refine ⟨_, rfl, h.moved hinv hguar rfl rfl rfl rfl
        (hhand.unlocked hasks.1 hclean ?_ rfl hreaders ?_)⟩
      -- a session would need the read side
      · by_contra hne
        have hr := hinv'.sessions i hne
        rw [show Function.update s.readers i false i = true from hr] at hreaders
        cases hreaders
      · intro hw
        have hx := hhand.exclusive.mpr hw
        rw [hasks.2] at hx
        cases hx
  | unlock =>
      obtain rfl := ha
      obtain ⟨hcall, hside, hclean⟩ := hasks
      have hw := hhand.exclusive.mp hside
      have hnone := hhand.no_sessions hinv hside
      refine ⟨_, rfl, h.moved hinv hguar rfl rfl rfl rfl
        (hhand.unlocked hcall hclean hnone rfl (hinv.lock i hw i) nofun)⟩
  | pipe p =>
      obtain ⟨hpipe, rfl⟩ := ha
      obtain ⟨hcall, hside, hgone⟩ := hasks
      refine ⟨_, ⟨(h.account.pipes p a hpipe).1, fun q hq => ?_, rfl⟩,
        h.moved hinv hguar rfl rfl rfl rfl ?_⟩
      · exact hinv.distinct q p a (hhand.seen q a hq).1 hpipe
      refine ⟨hhand.call, hhand.shared, hhand.exclusive, fun q x hx => ?_,
        fun hs => ⟨(hhand.clean hs).fresh, (hhand.clean hs).gone⟩, fun e he => ?_,
        fun c hc => ?_, hhand.fresh⟩
      · have hx : Function.update (ts i).seen p (some a) q = some x := hx
        by_cases hq : q = p
        · subst hq
          rw [Function.update_self] at hx
          cases hx
          exact ⟨hpipe, hside, hgone⟩
        · rw [Function.update_of_ne hq] at hx
          exact hhand.seen q x hx
      · obtain ⟨q, hq⟩ := hhand.sessions e he
        refine ⟨q, ?_⟩
        show Function.update (ts i).seen p (some a) q = some e.2
        by_cases hqp : q = p
        · subst hqp
          have hsame := (hhand.seen q e.2 hq).1
          rw [Function.update_self, ← hpipe, hsame]
        · rw [Function.update_of_ne hqp]
          exact hq
      · rw [show (ts i).call = none from hcall] at hc
        cases hc
  | setPipe p g =>
      obtain rfl := ha
      exact ⟨_, rfl, h.install hinv hguar hasks rfl⟩
  | _ => exact (haloof rfl).elim

end Accounts

/-! ## §8. The handles of a start-up. -/

section Startup

variable {σ K : Type} {L : Lib σ} {key : σ → Handle → Option K} {decode : Bytes → Option K}

/-- The same handles are live. -/
def SameLive (key : σ → Handle → Option K) (w w' : World σ) : Prop :=
  ∀ h, Live key w'.lib h ↔ Live key w.lib h

instance (key : σ → Handle → Option K) : IsPreorder (World σ) (SameLive key) where
  refl _ _ := Iff.rfl
  trans _ _ _ h h' g := (h' g).trans (h g)

theorem allows_sameLive (hL : AccountedLib L key decode) {c : FfiCall} (hc : c.tame) :
    Allows L (SameLive key) c :=
  fun w => live_tame hL hc w.lib

theorem lenient_sameLive (hL : AccountedLib L key decode) : Lenient L (SameLive key) :=
  ⟨fun _ => allows_sameLive hL ⟨rfl, rfl⟩, fun _ _ _ => Iff.rfl⟩

/-- A handle gained between two stretches in which the handles stay. -/
theorem Gained.between {w w₁ w₂ w' : World σ} {g : Handle} (h : Gained key w₁.lib w₂.lib g)
    (hbefore : SameLive key w w₁) (hafter : SameLive key w₂ w') : Gained key w.lib w'.lib g := by
  refine ⟨h.nonzero, fun hg => h.fresh ((hbefore g).mpr hg), fun x => ?_⟩
  rw [hafter x, h.live x, hbefore x]

/-- `Pipeline::init` makes the handle it returns, and no other. -/
theorem wp_init_gains (hL : AccountedLib L key decode) (profile : Bytes) (opts : Opts)
    (w : World σ) :
    Prog.wp (Pipeline.init L profile opts)
      (returning fun pipe w' => Gained key w.lib w'.lib pipe.handle) w := by
  unfold Pipeline.init
  rw [Prog.wp_bind]
  have hlast : Prog.wp (bufCall L (.init (ffiStr profile) (ffiStr opts.query)) "Pipeline::init")
      (returning fun x w' => Gained key w.lib w'.lib x.2.handle) w := by
    rw [bufCall_eq_retryOnce]
    refine wp_retryOnce length_zeros rfl (fun hv => ?_) fun _ _ _ _ => trivial
    obtain ⟨hrc, -⟩ := verdict_eq_none.mp hv
    revert hrc
    simp only [lastAttempt]
    split
    · -- the first call asked for more room, and made no handle
      rename_i hmore
      intro hrc
      have hfailed : (L ((BlobFn.init (ffiStr profile) (ffiStr opts.query)).call kBlobCap)
          w.lib).1.rc ≠ 0 := by
        rw [hmore.1]
        decide
      have hfirst := (live_opens hL rfl w.lib).2 hfailed
      obtain ⟨hz, hfresh, hlive⟩ := (live_opens hL rfl _).1 hrc
      exact ⟨hz, fun hg => hfresh ((hfirst _).mpr hg), fun g => (hlive g).trans (by rw [hfirst g])⟩
    · intro hrc
      exact (live_opens hL rfl w.lib).1 hrc
  exact hlast.mono_ok fun _ _ h => h

/-- What was built gained one handle. -/
def GainedIf (key : σ → Handle → Option K) (w : World σ) (x : Option (Pipeline × Bytes))
    (w' : World σ) : Prop :=
  ∀ built, x = some built → Gained key w.lib w'.lib built.1.handle

theorem wp_gained_nothing {α : Type} (m : Prog Exn (World σ) α) (w w₁ : World σ) :
    Prog.wp (m >>= fun _ => pure none) (returning (GainedIf key w)) w₁ := by
  rw [Prog.wp_bind]
  exact Prog.wp_of_forall (fun _ _ _ h => (by cases h)) (fun _ _ => trivial) fun _ => trivial

theorem wp_initAndSave_gains (hL : AccountedLib L key decode) (profile : Bytes) (opts : Opts)
    (w : World σ) :
    Prog.wp (initAndSave L profile opts) (returning (GainedIf key w)) w := by
  have hsave : ∀ pipe : Pipeline, Prog.Within (SameLive key) (pipe.save L) := fun pipe =>
    .bind (within_bufCall (lenient_sameLive hL) (fun n => allows_sameLive hL ⟨rfl, rfl⟩) _)
      fun _ => .pure _
  have hlog : ∀ blob, Prog.Within (SameLive key) (logPipelineInitialised L blob) := by
    intro blob
    have hinspect : Prog.Within (SameLive key) (inspect L blob) :=
      .bind (within_bufCall (lenient_sameLive hL) (fun n => allows_sameLive hL ⟨rfl, rfl⟩) _)
        fun _ => .pure _
    refine .bind (within_caught hinspect) fun x => ?_
    cases x with
    | ok json => exact .pure _
    | error e => exact .bind (within_lastError (lenient_sameLive hL)) fun _ => .pure _
  unfold initAndSave
  rw [Prog.wp_bind]
  refine wp_caught ?_ fun e w' => wp_gained_nothing _ w w'
  refine (wp_init_gains hL profile opts w).mono_ok ?_
  intro pipe w₁ hgained
  show Prog.wp _ (returning (GainedIf key w)) w₁
  rw [Prog.wp_bind]
  refine wp_caught ?_ fun e w' => ?_
  · refine ((hsave pipe).wp w₁).mono (fun blob w₂ hsame => ?_) (fun _ _ _ => trivial)
      fun _ _ => trivial
    show Prog.wp _ (returning (GainedIf key w)) w₂
    rw [Prog.wp_bind]
    refine ((hlog blob).wp w₂).mono (fun _ w₃ hsame' => ?_) (fun _ _ _ => trivial)
      fun _ _ => trivial
    intro built hb
    cases hb
    exact hgained.between (refl_of (SameLive key) w) (trans_of (SameLive key) hsame hsame')
  · show Prog.wp (lastError L >>= fun _ => pipe.destroy L >>= fun _ => pure none) _ w'
    rw [← Prog.bind_bind]
    exact wp_gained_nothing _ w w'

/-- **`build_pipeline`** makes the one handle it returns. -/
theorem wp_buildPipeline_gains (hL : AccountedLib L key decode) (cfg : Config) (p : Pipe)
    (w : World σ) :
    Prog.wp (buildPipeline L cfg p) (returning (GainedIf key w)) w := by
  have hlookup : Prog.Within (SameLive key) (lookup L cfg.profile) :=
    .bind (within_bufCall (lenient_sameLive hL) (fun n => allows_sameLive hL ⟨rfl, rfl⟩) _)
      fun _ => .pure _
  have hfill : Prog.Within (SameLive key)
      (fillKeystreamLayers L cfg.profile cfg.overrides cfg.parallax cfg.wrapper) := by
    refine .bind (within_caught hlookup) fun x => ?_
    cases x with
    | ok json => exact .pure _
    | error e => exact .pure _
  unfold buildPipeline
  rw [Prog.wp_ite]
  split
  · rw [Prog.wp_bind]
    refine (hfill.wp w).mono (fun x w₁ hsame => ?_) (fun _ _ _ => trivial) fun _ _ => trivial
    cases x with
    | none =>
        intro built hb
        cases hb
    | some filled =>
        refine (wp_initAndSave_gains hL (cfg.pipeProfile p) filled.2 w₁).mono_ok ?_
        intro x w₂ hx built hb
        exact (hx built hb).between hsame (refl_of (SameLive key) w₂)
  · exact wp_initAndSave_gains hL (cfg.pipeProfile p) cfg.overrides w

/-- What building a Pipeline, or none, did to the handles. -/
structure Opened (key : σ → Handle → Option K) (w w' : World σ)
    (x : Option (Pipeline × Bytes)) : Prop where
  gains : ∀ b, x = some b → Gained key w.lib w'.lib b.1.handle
  same : x = none → SameLive key w w'

theorem wp_buildExercised_gains (hL : AccountedLib L key decode) (cfg : Config) (p : Pipe)
    (w : World σ) :
    Prog.wp (buildExercised L cfg p)
      (returning fun x w' => ∀ built, x = some built → Opened key w w' built) w := by
  unfold buildExercised
  rw [Prog.wp_ite]
  split
  · rw [Prog.wp_bind]
    refine (wp_buildPipeline_gains hL cfg p w).mono_ok ?_
    intro x w' hx
    cases x with
    | none =>
        intro built hb
        cases hb
    | some b =>
        intro built hb
        cases hb
        exact ⟨hx, fun h => (by cases h)⟩
  · intro built hb
    cases hb
    exact ⟨fun b h => (by cases h), fun _ => refl_of (SameLive key) w⟩

/-- The handles of a start-up, accounted for: each Pipeline's is new, and
besides those there were no other is live. -/
structure OpenedAll (key : σ → Handle → Option K) (s s' : σ)
    (built : Pipe → Option (Pipeline × Bytes)) : Prop where
  fresh : ∀ p b, built p = some b → b.1.handle ≠ 0 ∧ ¬ Live key s b.1.handle
  live : ∀ g, Live key s' g ↔ Live key s g ∨ ∃ p b, built p = some b ∧ b.1.handle = g

/-- What was opened for a pipe. -/
theorem Opened.live {w w' : World σ} {x : Option (Pipeline × Bytes)} (h : Opened key w w' x)
    (g : Handle) : Live key w'.lib g ↔ Live key w.lib g ∨ ∃ b, x = some b ∧ b.1.handle = g := by
  cases x with
  | none =>
      rw [h.same rfl g]
      constructor
      · exact Or.inl
      · rintro (hg | ⟨b, hb, -⟩)
        · exact hg
        · cases hb
  | some b =>
      rw [(h.gains b rfl).live g]
      constructor
      · rintro (hg | rfl)
        · exact Or.inl hg
        · exact Or.inr ⟨b, rfl, rfl⟩
      · rintro (hg | ⟨b', hb', rfl⟩)
        · exact Or.inl hg
        · cases hb'
          exact Or.inr rfl

/-- **Building the Pipelines** makes their handles, and no other. -/
theorem wp_buildPipelines_gains (hL : AccountedLib L key decode) (cfg : Config) (w : World σ) :
    Prog.wp (buildPipelines L cfg)
      (returning fun x w' => ∀ built, x = some built → OpenedAll key w.lib w'.lib built) w := by
  unfold buildPipelines
  rw [Prog.wp_bind]
  refine (wp_buildExercised_gains hL cfg .stream w).mono_ok ?_
  intro x w₁ hx
  cases x with
  | none =>
      intro built hb
      cases hb
  | some stream =>
      show Prog.wp _ (returning _) w₁
      rw [Prog.wp_bind]
      refine (wp_buildExercised_gains hL cfg .msg w₁).mono_ok ?_
      intro y w₂ hy
      cases y with
      | none =>
          intro built hb
          cases hb
      | some msg =>
          intro built hb
          cases hb
          have hstream := hx stream rfl
          have hmsg := hy msg rfl
          constructor
          · intro p b hb
            cases p with
            | stream => exact ⟨(hstream.gains b hb).nonzero, (hstream.gains b hb).fresh⟩
            | msg =>
                refine ⟨(hmsg.gains b hb).nonzero, fun hold => (hmsg.gains b hb).fresh ?_⟩
                exact (hstream.live _).mpr (Or.inl hold)
          · intro g
            rw [hmsg.live g, hstream.live g]
            constructor
            · rintro ((hg | ⟨b, hb, rfl⟩) | ⟨b, hb, rfl⟩)
              · exact Or.inl hg
              · exact Or.inr ⟨.stream, b, hb, rfl⟩
              · exact Or.inr ⟨.msg, b, hb, rfl⟩
            · rintro (hg | ⟨p, b, hb, rfl⟩)
              · exact Or.inl (Or.inl hg)
              · cases p with
                | stream => exact Or.inl (Or.inr ⟨b, hb, rfl⟩)
                | msg => exact Or.inr ⟨b, hb, rfl⟩

theorem openedAll_of_run (hL : AccountedLib L key decode) {cfg : Config} {w w' : World σ}
    {built : Pipe → Option (Pipeline × Bytes)}
    (h : buildPipelines L cfg w = .ok (some built) w') : OpenedAll key w.lib w'.lib built := by
  have hrun := wp_buildPipelines_gains hL cfg w
  unfold Prog.wp at hrun
  rw [h] at hrun
  exact hrun built rfl

end Startup

/-! ## §9. The result. -/

section Results

variable {σ K : Type} {N : Nat} {L : Lib σ} {key : σ → Handle → Option K}
  {decode : Bytes → Option K}

/-- The threads start with empty hands, and every handle that lives is a
pipe's or was there before. -/
theorem inCustody_start (cfg : Config) (content : Fin N → Nat → UInt8) {s s' : σ}
    {built : Pipe → Option (Pipeline × Bytes)} (h : OpenedAll key s s' built) :
    InCustody key (Live key s) (Shared.start N key cfg content built s').toPipeState
      fun _ => {} := by
  constructor
  · intro i
    refine ⟨rfl, ⟨fun hx => (by cases hx), fun hx => (by cases hx)⟩,
      ⟨fun hx => (by cases hx), fun hx => (by cases hx)⟩, fun p g hg => (by cases hg),
      fun _ => ⟨rfl, fun _ => rfl⟩, fun e he => (by cases he), fun c hc => (by cases hc),
      fun g hg => (by cases hg)⟩
  · constructor
    · intro p g hg
      obtain ⟨b, hb, rfl⟩ := Option.map_eq_some_iff.mp hg
      exact h.fresh p b hb
    · intro g
      refine (h.live g).trans ⟨?_, ?_⟩
      · rintro (hg | ⟨p, b, hb, rfl⟩)
        · exact Or.inl hg
        · exact Or.inr (Or.inl ⟨p, Option.map_eq_some_iff.mpr ⟨b, hb, rfl⟩, fun _ => rfl⟩)
      · rintro (hg | ⟨p, hp, -⟩ | ⟨j, hj⟩)
        · exact Or.inl hg
        · obtain ⟨b, hb, rfl⟩ := Option.map_eq_some_iff.mp hp
          exact Or.inr ⟨p, b, hb, rfl⟩
        · cases hj

/-- The calls inside the library are on live handles, as are those of their
sessions. -/
def UsesLive (key : σ → Handle → Option K) (s : PipeState σ K N) : Prop :=
  ∀ i c, s.calls i = some (c, none) → ∀ h,
    c.target = some h ∨ c.owner (s.sessions i) = some h → Live key s.lib h

/-- The handles that live are those that lived before the start, those of
the pipes, and at most one more, while somebody writes. -/
structure NoneLost (key : σ → Handle → Option K) (base : Handle → Prop) (s : PipeState σ K N) :
    Prop where
  quiet : s.writer = none → ∀ h, Live key s.lib h ↔ base h ∨ ∃ p, s.pipes p = some h
  always : ∃ x, ∀ h, Live key s.lib h → base h ∨ (∃ p, s.pipes p = some h) ∨ x = some h

variable {base : Handle → Prop} {s : PipeState σ K N} {ts : Tid N → Hand}

/-- Only the writer has anything in hand. -/
theorem InCustody.clean_of_ne (h : InCustody key base s ts) {i : Tid N}
    (hw : s.writer ≠ some i) : (ts i).Clean :=
  (h.hands i).clean fun hside => hw ((h.hands i).exclusive.mp hside)

/-- A handle that a thread has looked up is live. -/
theorem InCustody.live_of_seen (hinv : PipeInv key decode s) (h : InCustody key base s ts)
    {i : Tid N} {p : Pipe} {g : Handle} (hseen : (ts i).seen p = some g) : Live key s.lib g := by
  obtain ⟨hpipe, hside, hgone⟩ := (h.hands i).seen p g hseen
  refine (h.account.live g).mpr (Or.inr (Or.inl ⟨p, hpipe, fun j => ?_⟩))
  by_cases hj : j = i
  · subst hj
    exact hgone
  · refine (h.clean_of_ne fun hw => ?_).gone p
    -- while another one writes, this one has no side
    cases hx : (ts i).side with
    | none => exact hside hx
    | some x =>
        cases x with
        | shared =>
            have hreads := (h.hands i).shared.mp hx
            rw [hinv.lock j hw i] at hreads
            cases hreads
        | exclusive =>
            have hwrites := (h.hands i).exclusive.mp hx
            rw [hw] at hwrites
            exact hj (Option.some.inj hwrites)

/-- The Pipeline a call works on, itself or by way of its session. -/
theorem InCustody.usesLive (hinv : PipeInv key decode s) (h : InCustody key base s ts) :
    UsesLive key s := by
  intro i c hin g hg
  have hhand := h.hands i
  have hmay := hhand.pending c (hhand.call ▸ hin)
  have htarget : c.target = some g → Live key s.lib g := by
    intro ht
    obtain ⟨p, hp⟩ := hmay.target g ht
    exact h.live_of_seen hinv hp
  have hsession : ∀ x, (s.sessions i).lookup x = some g → Live key s.lib g := by
    intro x hx
    obtain ⟨before, after, hsplit, -⟩ := List.lookup_eq_some_iff.mp hx
    obtain ⟨p, hp⟩ := hhand.sessions (x, g) (by rw [hsplit]; simp)
    exact h.live_of_seen hinv hp
  rcases hg with ht | ho
  · exact htarget ht
  · cases c with
    | streamWrite x | streamEnd x | streamRead x | streamFree x => exact hsession x ho
    | encryptMessage | decryptMessage | encryptStream | decryptStream | encryptStreamBegin
    | decryptStreamBegin => exact htarget ho
    | _ => cases ho

theorem InCustody.noneLost (h : InCustody key base s ts) : NoneLost key base s := by
  constructor
  · intro hw g
    have hclean : ∀ j, (ts j).Clean := fun j => h.clean_of_ne (by rw [hw]; exact nofun)
    refine (h.account.live g).trans ⟨?_, ?_⟩
    · rintro (hb | ⟨p, hp, -⟩ | ⟨j, hj⟩)
      · exact Or.inl hb
      · exact Or.inr ⟨p, hp⟩
      · rw [(hclean j).fresh] at hj
        cases hj
    · rintro (hb | ⟨p, hp⟩)
      · exact Or.inl hb
      · exact Or.inr (Or.inl ⟨p, hp, fun j => (hclean j).gone p⟩)
  · -- what is in hand is in the writer's
    refine ⟨s.writer.bind fun i => (ts i).fresh, fun g hg => ?_⟩
    rcases (h.account.live g).mp hg with hb | ⟨p, hp, -⟩ | ⟨j, hj⟩
    · exact Or.inl hb
    · exact Or.inr (Or.inl ⟨p, hp⟩)
    · refine Or.inr (Or.inr ?_)
      have hw : s.writer = some j := by
        by_contra hw
        rw [(h.clean_of_ne hw).fresh] at hj
        cases hj
      rw [hw]
      exact hj

/-- **Every Pipeline handle is in custody**, in every state reached: no call
is inside the library on a handle that is not live, and no live handle is
lost. -/
theorem handles_in_custody (hL : AccountedLib L key decode) {cfg : Config} {w w' : World σ}
    {built : Pipe → Option (Pipeline × Bytes)}
    (hbuilt : buildPipelines L cfg w = .ok (some built) w')
    (junk : Fin N → Nat → Nat → UInt8) (content : Fin N → Nat → UInt8) (fuel : Nat)
    {r : Run σ K N}
    (hreach : Reach (machine L key) (Run.start N key junk cfg content built w'.lib fuel) r) :
    UsesLive key r.state.toPipeState ∧ NoneLost key (Live key w.lib) r.state.toPipeState := by
  have hK := hL.toKeyedLib
  have hb := allBuilt_of_run hK hbuilt
  have hi : PipeInv key decode r.state.toPipeState :=
    pipeInv_reach hK junk cfg content hb fuel hreach
  have hempty : Bare none none ({} : Hand) :=
    ⟨⟨rfl, fun _ => rfl⟩, rfl, rfl, fun g hg => (by cases hg)⟩
  let kept : Shared σ K N → (Tid N → Hand) → Prop := fun s ts =>
    InCustody key (Live key w.lib) s.toPipeState ts
  have hstart : kept (Shared.start N key cfg content built w'.lib) fun _ => {} :=
    inCustody_start cfg content (openedAll_of_run hL hbuilt)
  obtain ⟨ts, hend, -⟩ := Safe.upheld (P := fun _ => custody)
    (fun s ts i q a s' hinv hinv' hguar (h : kept s ts) hasks
      (hserve : (machine L key).serve i s q a s') =>
      h.served hL hinv hinv' hguar hasks hserve.2)
    (pipeInv_start cfg content hb) (safe_start hK junk cfg content hb fuel) hstart
    (fun i => owns_hands junk cfg fuel i {} hempty) hreach
  exact ⟨hend.usesLive hi, hend.noneLost⟩

/-- A ratchet counts its handles. -/
theorem ratchet_accountedLib : AccountedLib ratchet Ratchet.key List.head? where
  toKeyedLib := ratchet_keyedLib
  dead c s h hk hnew := by
    -- one handle more, if it is not the next one
    have hopened : ∀ k, s.next + 1 ≠ h → (s.opened k).key h = none := by
      intro k hne
      unfold Ratchet.key at hk ⊢
      by_cases hle : h ≤ s.next
      · rw [if_pos hle] at hk
        rw [if_pos (show h ≤ (s.opened k).next from Nat.le_succ_of_le hle)]
        exact (Function.update_of_ne (Ne.symm hne) ..).trans hk
      · have hlater : ¬ h ≤ (s.opened k).next := by
          show ¬ h ≤ s.next + 1
          exact Nat.not_le_of_lt (Nat.lt_of_le_of_ne (Nat.lt_of_not_le hle) hne)
        exact if_neg hlater
    cases c with
    | init profile opts cap =>
        by_cases hcap : 1 ≤ cap
        · simp only [ratchet, if_pos hcap] at hnew ⊢
          exact hopened 0 (hnew rfl (rc_deliver.mpr hcap))
        · simp only [ratchet, if_neg hcap]
          exact hk
    | load blob perm wrap n =>
        rcases blob with _ | ⟨k, _ | ⟨k', rest⟩⟩
        · exact hk
        · exact hopened k (hnew rfl rfl)
        · exact hk
    | rekey g perm wrap cap =>
        cases hg : s.key g with
        | none =>
            rw [ratchet_rekey_dead hg]
            exact hk
        | some k =>
            rw [ratchet_rekey hg]
            have hne : h ≠ g := by
              rintro rfl
              rw [hk] at hg
              cases hg
            by_cases hcap : 1 ≤ cap
            · simp only [if_pos hcap, key_set_of_ne s _ hne]
              exact hk
            · simp only [if_neg hcap]
              exact hk
    | free g =>
        by_cases hg : h = g
        · subst hg
          show (if h ≤ s.next then Function.update s.live h none h else none) = none
          rw [Function.update_self, ite_self]
        · exact (key_set_of_ne s none hg).trans hk
    | save g cap =>
        cases hg : s.key g with
        | none =>
            simp only [ratchet, hg]
            exact hk
        | some k =>
            rw [ratchet_save hg]
            exact hk
    | _ => exact hk
  freed h s := by
    show (if h ≤ s.next then Function.update s.live h none h else none) = none
    rw [Function.update_self, ite_self]

/-- In the drill the one handle is live, and a cipher call has been made on
it. -/
theorem handles_in_custody_drill :
    ∃ r, Reach (machine ratchet Ratchet.key) Run.drill r ∧
      Drilled r.state ∧ UsesLive Ratchet.key r.state.toPipeState ∧
      NoneLost Ratchet.key (Live Ratchet.key ({} : Ratchet)) r.state.toPipeState := by
  obtain ⟨r, hreach, hdrilled⟩ := drill_reaches
  obtain ⟨w', hbuilt, hlib⟩ := drill_builds
  have hrun : Reach (machine ratchet Ratchet.key)
      (Run.start 2 Ratchet.key (fun _ _ _ => 0) drill (fun _ _ => 0) drillBuilt w'.lib 1) r :=
    hlib ▸ hreach
  exact ⟨r, hreach, hdrilled, handles_in_custody ratchet_accountedLib hbuilt _ _ 1 hrun⟩

end Results

end Loop

end ItbCpp
