/-
  ItbCpp.Lib.Prog
  ───────────────
  **COMPUTATIONS WITH STATE, EXCEPTIONS AND LOOPS.**

  A `Prog ε σ α` reads and writes a state of type `σ` and ends in one of
  three ways: it returns a value, it throws, or its loops used up their
  fuel and it is STILL RUNNING in the state it has reached.  The third way
  keeps the state, so that a safety property proved for every fuel holds
  at every point of a run that never ends.

  The reasoning rules are weakest preconditions `wp m Q s`, one rewriting
  rule per construct, and one rule for loops:

    • `wp_bind`, `wp_throw`, `wp_zoom`, `wp_ensuring`, … — the simp set,
    • `wp_loop` — the loop rule; `wp_loop_inv` (an invariant, any fuel)
      and `wp_loop_variant` (a variant, enough fuel) are its two uses.

  Nothing here is about a particular program.
-/
import Mathlib.Logic.Basic

namespace Prog

/-! ## §1. Results and computations. -/

/-- How a computation stands: it returned, it threw, or it is still running. -/
inductive Result (ε σ α : Type) where
  | ok (a : α) (s : σ)
  | threw (e : ε) (s : σ)
  | running (s : σ)
  deriving Repr, DecidableEq

/-- The state a result carries, however the computation stands. -/
@[simp] def Result.state {ε σ α : Type} : Result ε σ α → σ
  | .ok _ s => s
  | .threw _ s => s
  | .running s => s

/-- The value, when there is one. -/
def Result.value? {ε σ α : Type} : Result ε σ α → Option α
  | .ok a _ => some a
  | _ => none

theorem Result.eq_ok_of_value? {ε σ α : Type} {r : Result ε σ α} {a : α}
    (h : r.value? = some a) : ∃ s, r = .ok a s := by
  cases r with
  | ok b s =>
      obtain rfl : b = a := Option.some.inj h
      exact ⟨s, rfl⟩
  | threw e s => cases h
  | running s => cases h

/-- The computation has ended, one way or the other. -/
def Result.done {ε σ α : Type} : Result ε σ α → Bool
  | .running _ => false
  | _ => true

end Prog

/-- A computation over state `σ` that may throw `ε`. -/
def Prog (ε σ α : Type) := σ → Prog.Result ε σ α

namespace Prog

variable {ε σ τ α β : Type}

/-- Sequencing: an exception or exhausted fuel skips the rest. -/
protected def bind (m : Prog ε σ α) (f : α → Prog ε σ β) : Prog ε σ β := fun s =>
  match m s with
  | .ok a s' => f a s'
  | .threw e s' => .threw e s'
  | .running s' => .running s'

instance : Monad (Prog ε σ) where
  pure a := fun s => .ok a s
  bind := Prog.bind

/-- Read the whole state. -/
def get : Prog ε σ σ := fun s => .ok s s

/-- Update the state. -/
def modify (f : σ → σ) : Prog ε σ Unit := fun s => .ok () (f s)

/-- Leave by an exception. -/
def throw (e : ε) : Prog ε σ α := fun s => .threw e s

/-- Run a computation on the part of a larger state that `view` selects
and `put` replaces. -/
def zoom (view : τ → σ) (put : σ → τ → τ) (m : Prog ε σ α) : Prog ε τ α := fun t =>
  match m (view t) with
  | .ok a s => .ok a (put s t)
  | .threw e s => .threw e (put s t)
  | .running s => .running (put s t)

/-- `m`, then `d` on both ways out of it: the scope of a local object
whose destructor is `d`.  A run still inside `m` has not reached `d`. -/
def ensuring (m : Prog ε σ α) (d : Prog ε σ Unit) : Prog ε σ α := fun s =>
  match m s with
  | .ok a s' => (Prog.bind d fun _ => pure a) s'
  | .threw e s' => (Prog.bind d fun _ => throw e) s'
  | .running s' => .running s'

/-- `try { m } catch (...)`: an exception goes to the handler. -/
def handle (m : Prog ε σ α) (f : ε → Prog ε σ α) : Prog ε σ α := fun s =>
  match m s with
  | .ok a s' => .ok a s'
  | .threw e s' => f e s'
  | .running s' => .running s'

/-- `while (body) {}`: run `body` until it answers `false`, at most `fuel`
times. -/
def loop : Nat → Prog ε σ Bool → Prog ε σ Unit
  | 0, _ => fun s => .running s
  | fuel + 1, body => do
      if ← body then loop fuel body else pure ()

/-- `while (cond) { body }`. -/
def while_ (fuel : Nat) (cond : σ → Bool) (body : Prog ε σ Unit) : Prog ε σ Unit :=
  loop fuel do
    if cond (← get) then
      body
      pure true
    else pure false

@[simp] theorem pure_apply (a : α) (s : σ) : (pure a : Prog ε σ α) s = .ok a s := rfl

@[simp] theorem pure_bind (a : α) (f : α → Prog ε σ β) : (pure a >>= f) = f a := rfl

@[simp] theorem bind_pure (m : Prog ε σ α) : (m >>= fun a => pure a) = m := by
  funext s
  show Prog.bind m (fun a => pure a) s = m s
  unfold Prog.bind
  cases m s <;> rfl

theorem bind_bind {γ : Type} (m : Prog ε σ α) (f : α → Prog ε σ β) (g : β → Prog ε σ γ) :
    (m >>= f) >>= g = m >>= fun a => f a >>= g := by
  funext s
  show Prog.bind (Prog.bind m f) g s = Prog.bind m (fun a => Prog.bind (f a) g) s
  unfold Prog.bind
  cases m s <;> rfl

/-- A value computed from the result of a scope can be computed inside it. -/
theorem ensuring_bind_pure (m : Prog ε σ α) (d : Prog ε σ Unit) (f : α → β) :
    (ensuring m d >>= fun a => pure (f a)) = ensuring (m >>= fun a => pure (f a)) d := by
  funext s
  show Prog.bind (ensuring m d) (fun a => pure (f a)) s =
    ensuring (Prog.bind m fun a => pure (f a)) d s
  simp only [ensuring, Prog.bind]
  cases m s with
  | ok a s' =>
      simp only [pure_apply]
      cases d s' <;> rfl
  | threw e s' =>
      simp only [throw]
      cases d s' <;> rfl
  | running s' => rfl

section Run

variable {m : Prog ε σ α} {f : α → Prog ε σ β} {g : ε → Prog ε σ α} {a : α} {e : ε} {s s' : σ}

theorem bind_ok (h : m s = .ok a s') : (m >>= f) s = f a s' := by
  show Prog.bind m f s = _
  rw [Prog.bind, h]

theorem bind_threw (h : m s = .threw e s') : (m >>= f) s = .threw e s' := by
  show Prog.bind m f s = _
  rw [Prog.bind, h]

theorem bind_running (h : m s = .running s') : (m >>= f) s = .running s' := by
  show Prog.bind m f s = _
  rw [Prog.bind, h]

theorem handle_ok (h : m s = .ok a s') : handle m g s = .ok a s' := by
  rw [handle, h]

theorem handle_threw (h : m s = .threw e s') : handle m g s = g e s' := by
  rw [handle, h]

theorem handle_running (h : m s = .running s') : handle m g s = .running s' := by
  rw [handle, h]

end Run

/-- The result with its state updated on both ways out. -/
def Result.leaving (f : σ → σ) : Result ε σ α → Result ε σ α
  | .ok a s => .ok a (f s)
  | .threw e s => .threw e (f s)
  | .running s => .running s

/-- The result as it shows in another state. -/
def Result.into (g : σ → τ) : Result ε σ α → Result ε τ α
  | .ok a s => .ok a (g s)
  | .threw e s => .threw e (g s)
  | .running s => .running (g s)

theorem zoom_apply (view : τ → σ) (put : σ → τ → τ) (m : Prog ε σ α) (t : τ) :
    zoom view put m t = (m (view t)).into fun s => put s t := by
  unfold zoom
  cases m (view t) <;> rfl

/-- A destructor that always returns only updates the state. -/
theorem ensuring_apply {m : Prog ε σ α} {d : Prog ε σ Unit} {f : σ → σ}
    (hd : ∀ s, d s = .ok () (f s)) (s : σ) : ensuring m d s = (m s).leaving f := by
  unfold ensuring
  cases m s with
  | ok a s' =>
      show Prog.bind d (fun _ => pure a) s' = _
      rw [Prog.bind, hd]
      rfl
  | threw e s' =>
      show Prog.bind d (fun _ => throw e) s' = _
      rw [Prog.bind, hd]
      rfl
  | running s' => rfl

/-! ## §2. Weakest preconditions. -/

/-- What is asked of each of the three ways a computation can stand. -/
structure Post (ε σ α : Type) where
  ok : α → σ → Prop
  threw : ε → σ → Prop
  running : σ → Prop

/-- Run from `s`, the computation meets `Q`. -/
def wp (m : Prog ε σ α) (Q : Post ε σ α) (s : σ) : Prop :=
  match m s with
  | .ok a s' => Q.ok a s'
  | .threw e s' => Q.threw e s'
  | .running s' => Q.running s'

section Rules

variable {Q : Post ε σ α} {R : Post ε σ β} {s : σ}

@[simp] theorem wp_pure (a : α) : wp (pure a : Prog ε σ α) Q s ↔ Q.ok a s := Iff.rfl

@[simp] theorem wp_bind (m : Prog ε σ α) (f : α → Prog ε σ β) :
    wp (m >>= f) R s ↔ wp m ⟨fun a s' => wp (f a) R s', R.threw, R.running⟩ s := by
  show wp (Prog.bind m f) R s ↔ _
  unfold wp Prog.bind
  cases m s <;> rfl

@[simp] theorem wp_get {Q : Post ε σ σ} : wp (get : Prog ε σ σ) Q s ↔ Q.ok s s := Iff.rfl

@[simp] theorem wp_modify (f : σ → σ) {Q : Post ε σ Unit} :
    wp (modify f : Prog ε σ Unit) Q s ↔ Q.ok () (f s) := Iff.rfl

@[simp] theorem wp_throw (e : ε) : wp (throw e : Prog ε σ α) Q s ↔ Q.threw e s := Iff.rfl

@[simp] theorem wp_ite (c : Prop) [Decidable c] (m m' : Prog ε σ α) :
    wp (if c then m else m') Q s ↔ if c then wp m Q s else wp m' Q s := by
  split <;> rfl

@[simp] theorem wp_zoom (view : τ → σ) (put : σ → τ → τ) (m : Prog ε σ α)
    {Q : Post ε τ α} {t : τ} :
    wp (zoom view put m) Q t ↔
      wp m ⟨fun a s => Q.ok a (put s t), fun e s => Q.threw e (put s t),
        fun s => Q.running (put s t)⟩ (view t) := by
  unfold wp zoom
  cases m (view t) <;> rfl

@[simp] theorem wp_ensuring (m : Prog ε σ α) (d : Prog ε σ Unit) :
    wp (ensuring m d) Q s ↔
      wp m ⟨fun a s' => wp d ⟨fun _ s'' => Q.ok a s'', Q.threw, Q.running⟩ s',
        fun e s' => wp d ⟨fun _ s'' => Q.threw e s'', Q.threw, Q.running⟩ s',
        Q.running⟩ s := by
  unfold wp ensuring
  cases m s with
  | ok a s' =>
      show wp (d >>= fun _ => pure a) Q s' ↔ _
      rw [wp_bind]
      rfl
  | threw e s' =>
      show wp (d >>= fun _ => throw e) Q s' ↔ _
      rw [wp_bind]
      rfl
  | running s' => rfl

@[simp] theorem wp_handle (m : Prog ε σ α) (f : ε → Prog ε σ α) :
    wp (handle m f) Q s ↔ wp m ⟨Q.ok, fun e s' => wp (f e) Q s', Q.running⟩ s := by
  unfold wp handle
  cases m s <;> rfl

/-- A postcondition that holds whatever the run does. -/
theorem wp_of_forall {m : Prog ε σ α} (hok : ∀ a s', Q.ok a s') (hthrew : ∀ e s', Q.threw e s')
    (hrun : ∀ s', Q.running s') : wp m Q s := by
  unfold wp
  cases m s with
  | ok a s' => exact hok a s'
  | threw e s' => exact hthrew e s'
  | running s' => exact hrun s'

/-- The rule of consequence. -/
theorem wp.mono {m : Prog ε σ α} {Q Q' : Post ε σ α} (h : wp m Q s)
    (hok : ∀ a s', Q.ok a s' → Q'.ok a s') (hthrew : ∀ e s', Q.threw e s' → Q'.threw e s')
    (hrun : ∀ s', Q.running s' → Q'.running s') : wp m Q' s := by
  unfold wp at h ⊢
  cases hm : m s with
  | ok a s' => rw [hm] at h; exact hok a s' h
  | threw e s' => rw [hm] at h; exact hthrew e s' h
  | running s' => rw [hm] at h; exact hrun s' h

/-- The same where only the returned value's postcondition changes. -/
theorem wp.mono_ok {m : Prog ε σ α} {Q : Post ε σ α} {P : α → σ → Prop} (h : wp m Q s)
    (hok : ∀ a t, Q.ok a t → P a t) : wp m ⟨P, Q.threw, Q.running⟩ s :=
  h.mono hok (fun _ _ h => h) fun _ h => h

/-- Two facts about one run hold of it together. -/
theorem wp.and {m : Prog ε σ α} {Q Q' : Post ε σ α} (h : wp m Q s) (h' : wp m Q' s) :
    wp m ⟨fun a t => Q.ok a t ∧ Q'.ok a t, fun e t => Q.threw e t ∧ Q'.threw e t,
      fun t => Q.running t ∧ Q'.running t⟩ s := by
  unfold wp at *
  cases hm : m s <;> rw [hm] at h h' <;> exact ⟨h, h'⟩

/-- What returned is what the computation returns. -/
theorem wp.recall {m : Prog ε σ α} {Q : Post ε σ α} (h : wp m Q s) :
    wp m ⟨fun a t => Q.ok a t ∧ m s = .ok a t, Q.threw, Q.running⟩ s := by
  unfold wp at h ⊢
  cases hm : m s with
  | ok a t =>
      rw [hm] at h
      exact ⟨h, rfl⟩
  | threw e t =>
      rw [hm] at h
      exact h
  | running t =>
      rw [hm] at h
      exact h

/-- What a postcondition says of a run that returned. -/
theorem wp.of_ok {m : Prog ε σ α} {Q : Post ε σ α} {a : α} {s' : σ} (h : wp m Q s)
    (hm : m s = .ok a s') : Q.ok a s' := by
  unfold wp at h
  rw [hm] at h
  exact h

/-- What a postcondition says of the returned value. -/
theorem wp.value {m : Prog ε σ α} {P : α → σ → Prop}
    (h : wp m ⟨P, fun _ _ => True, fun _ => True⟩ s) {a : α}
    (ha : (m s).value? = some a) : ∃ s', P a s' := by
  obtain ⟨s', hm⟩ := Result.eq_ok_of_value? ha
  unfold wp at h
  rw [hm] at h
  exact ⟨s', h⟩

/-- A run whose postcondition excludes exceptions and exhausted fuel returns. -/
theorem wp.returns {m : Prog ε σ α} {P : α → σ → Prop}
    (h : wp m ⟨P, fun _ _ => False, fun _ => False⟩ s) : ∃ a s', m s = .ok a s' ∧ P a s' := by
  unfold wp at h
  cases hm : m s with
  | ok a s' => rw [hm] at h; exact ⟨a, s', rfl, h⟩
  | threw e s' => rw [hm] at h; exact h.elim
  | running s' => rw [hm] at h; exact h.elim

end Rules

/-! ## §3. Loops. -/

/-- **The loop rule.**  The assertion is indexed by the fuel left: one pass
of the body takes it from `n + 1` to `n`, or leaves the loop. -/
theorem wp_loop {body : Prog ε σ Bool} {Q : Post ε σ Unit} (I : Nat → σ → Prop)
    (hstep : ∀ n s, I (n + 1) s →
      wp body ⟨fun b s' => if b then I n s' else Q.ok () s', Q.threw, Q.running⟩ s)
    (hout : ∀ s, I 0 s → Q.running s) :
    ∀ (n : Nat) (s : σ), I n s → wp (loop n body) Q s := by
  intro n
  induction n with
  | zero => intro s hI; exact hout s hI
  | succ n ih =>
      intro s hI
      show wp (body >>= fun b => if b then loop n body else pure ()) Q s
      rw [wp_bind]
      refine (hstep n s hI).mono_ok ?_
      intro b s' hb
      cases b with
      | true => simpa using ih s' hb
      | false => simpa using hb

/-- An invariant kept by every pass holds at every fuel, and the loop is
left, thrown out of or still running with what the body leaves there. -/
theorem wp_loop_inv {body : Prog ε σ Bool} {Q : Post ε σ Unit} (I : σ → Prop)
    (hstep : ∀ s, I s →
      wp body ⟨fun b s' => if b then I s' else Q.ok () s', Q.threw, Q.running⟩ s)
    (hout : ∀ s, I s → Q.running s) (n : Nat) {s : σ} (hI : I s) : wp (loop n body) Q s :=
  wp_loop (fun _ => I) (fun _ => hstep) hout n s hI

/-- A variant that every pass lowers bounds the number of passes: with more
fuel than the variant the loop does not run dry. -/
theorem wp_loop_variant {body : Prog ε σ Bool} {Q : Post ε σ Unit} (I : σ → Prop)
    (v : σ → Nat)
    (hstep : ∀ s, I s →
      wp body ⟨fun b s' => if b then I s' ∧ v s' < v s else Q.ok () s', Q.threw, Q.running⟩ s)
    (n : Nat) {s : σ} (hI : I s) (hn : v s < n) : wp (loop n body) Q s := by
  refine wp_loop (fun k s => I s ∧ v s < k) ?_ (fun s h => absurd h.2 (Nat.not_lt_zero _))
    n s ⟨hI, hn⟩
  intro k s hs
  obtain ⟨hI, hk⟩ := hs
  refine (hstep s hI).mono_ok ?_
  intro b s' hb
  cases b with
  | true => exact ⟨hb.1, Nat.lt_of_lt_of_le hb.2 (Nat.le_of_lt_succ hk)⟩
  | false => exact hb

/-- **The rule of `while`**: the body runs under the assertion with the
condition, the loop is left under the assertion without it. -/
theorem wp_while {cond : σ → Bool} {body : Prog ε σ Unit} {Q : Post ε σ Unit}
    (I : Nat → σ → Prop)
    (hstep : ∀ n s, I (n + 1) s → cond s = true →
      wp body ⟨fun _ s' => I n s', Q.threw, Q.running⟩ s)
    (hdone : ∀ n s, I n s → cond s = false → Q.ok () s) (hout : ∀ s, I 0 s → Q.running s)
    (n : Nat) {s : σ} (hI : I n s) : wp (while_ n cond body) Q s := by
  refine wp_loop I ?_ hout n s hI
  intro n s hI
  cases hc : cond s with
  | true => simpa [hc] using hstep n s hI hc
  | false => simpa [hc] using hdone (n + 1) s hI hc

/-- With an invariant, at any fuel. -/
theorem wp_while_inv {cond : σ → Bool} {body : Prog ε σ Unit} {Q : Post ε σ Unit}
    (I : σ → Prop)
    (hstep : ∀ s, I s → cond s = true → wp body ⟨fun _ s' => I s', Q.threw, Q.running⟩ s)
    (hdone : ∀ s, I s → cond s = false → Q.ok () s) (hout : ∀ s, I s → Q.running s)
    (n : Nat) {s : σ} (hI : I s) : wp (while_ n cond body) Q s :=
  wp_while (fun _ => I) (fun _ => hstep) (fun _ => hdone) hout n hI

/-- With a variant that the body lowers, and more fuel than the variant. -/
theorem wp_while_variant {cond : σ → Bool} {body : Prog ε σ Unit} {Q : Post ε σ Unit}
    (I : σ → Prop) (v : σ → Nat)
    (hstep : ∀ s, I s → cond s = true →
      wp body ⟨fun _ s' => I s' ∧ v s' < v s, Q.threw, Q.running⟩ s)
    (hdone : ∀ s, I s → cond s = false → Q.ok () s)
    (n : Nat) {s : σ} (hI : I s) (hn : v s < n) : wp (while_ n cond body) Q s := by
  refine wp_while (fun k s => I s ∧ v s < k) ?_ (fun _ s h hc => hdone s h.1 hc)
    (fun s h => absurd h.2 (Nat.not_lt_zero _)) n ⟨hI, hn⟩
  intro k s hs hc
  obtain ⟨hI, hk⟩ := hs
  refine (hstep s hI hc).mono_ok ?_
  intro _ s' hs'
  exact ⟨hs'.1, Nat.lt_of_lt_of_le hs'.2 (Nat.le_of_lt_succ hk)⟩

end Prog
