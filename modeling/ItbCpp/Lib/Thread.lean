/-
  ItbCpp.Lib.Thread
  ─────────────────
  **THREADS AS RESUMPTIONS.**

  A `Thread Q A ε α` is a computation that stops at every question `q : Q`
  it asks of its environment and goes on with the answer, of type `A q`.
  It returns a value, throws, or its loops have used up their fuel and it
  spins.  Whatever happens between a question and its answer is up to the
  environment, so other threads may run in between.

    • `bind`, `handle`, `ensuring` — the constructs of `Prog`,
    • `translate` — each question worked out in questions of another kind,
    • `run` — a thread that runs alone, as a `Prog`.

  Nothing here is about a particular program.
-/
import ItbCpp.Lib.Prog

/-- A computation that asks questions in `Q`, answered in `A`. -/
inductive Thread (Q : Type) (A : Q → Type) (ε α : Type) where
  | ret (a : α)
  | throw (e : ε)
  | spin
  | ask (q : Q) (k : A q → Thread Q A ε α)

namespace Thread

variable {Q Q' : Type} {A : Q → Type} {A' : Q' → Type} {ε σ α β γ : Type}

/-! ## §1. Constructs. -/

/-- Sequencing: an exception or exhausted fuel skips the rest. -/
protected def bind : Thread Q A ε α → (α → Thread Q A ε β) → Thread Q A ε β
  | .ret a, f => f a
  | .throw e, _ => .throw e
  | .spin, _ => .spin
  | .ask q k, f => .ask q fun a => (k a).bind f

instance : Monad (Thread Q A ε) where
  pure := .ret
  bind := Thread.bind

/-- Ask and return the answer. -/
def call (q : Q) : Thread Q A ε (A q) := .ask q .ret

/-- `try { m } catch (...)`. -/
def handle : Thread Q A ε α → (ε → Thread Q A ε α) → Thread Q A ε α
  | .ret a, _ => .ret a
  | .throw e, f => f e
  | .spin, _ => .spin
  | .ask q k, f => .ask q fun a => (k a).handle f

/-- `m`, then `d` on both ways out of it: the scope of a local object
whose destructor is `d`. -/
def ensuring : Thread Q A ε α → Thread Q A ε Unit → Thread Q A ε α
  | .ret a, d => d.bind fun _ => .ret a
  | .throw e, d => d.bind fun _ => .throw e
  | .spin, _ => .spin
  | .ask q k, d => .ask q fun a => (k a).ensuring d

/-- Answer each question by a thread that asks questions of another kind. -/
def translate (f : ∀ q, Thread Q' A' ε (A q)) : Thread Q A ε α → Thread Q' A' ε α
  | .ret a => .ret a
  | .throw e => .throw e
  | .spin => .spin
  | .ask q k => (f q).bind fun a => (k a).translate f

/-- The thread alone, its questions answered by computations on a state. -/
def run (serve : ∀ q, Prog ε σ (A q)) : Thread Q A ε α → Prog ε σ α
  | .ret a => pure a
  | .throw e => Prog.throw e
  | .spin => fun s => .running s
  | .ask q k => serve q >>= fun a => (k a).run serve

/-- A thread that never throws. -/
def NoThrow : Thread Q A ε α → Prop
  | .ret _ | .spin => True
  | .throw _ => False
  | .ask _ k => ∀ a, (k a).NoThrow

/-! ## §2. Laws. -/

/-- `pure` is written `ret`, so that one set of equations is enough. -/
@[simp] theorem pure_eq_ret (a : α) : (pure a : Thread Q A ε α) = .ret a := rfl

/-- The equations of sequencing, one a constructor. -/
@[simp] theorem ret_bind (a : α) (f : α → Thread Q A ε β) : (.ret a >>= f) = f a := rfl

@[simp] theorem throw_bind (e : ε) (f : α → Thread Q A ε β) :
    ((.throw e : Thread Q A ε α) >>= f) = .throw e := rfl

@[simp] theorem spin_bind (f : α → Thread Q A ε β) :
    ((.spin : Thread Q A ε α) >>= f) = .spin := rfl

@[simp] theorem ask_bind (q : Q) (k : A q → Thread Q A ε α) (f : α → Thread Q A ε β) :
    (.ask q k >>= f) = .ask q fun a => k a >>= f := rfl

/-- Returning what was returned changes nothing. -/
@[simp] theorem bind_ret (m : Thread Q A ε α) : (m >>= .ret) = m := by
  induction m with
  | ret a => rfl
  | throw e => rfl
  | spin => rfl
  | ask q k ih =>
      rw [ask_bind]
      exact congrArg (Thread.ask q) (funext ih)

/-- Sequencing is associative. -/
theorem bind_bind (m : Thread Q A ε α) (f : α → Thread Q A ε β) (g : β → Thread Q A ε γ) :
    (m >>= f) >>= g = m >>= fun a => f a >>= g := by
  induction m with
  | ret a => rfl
  | throw e => rfl
  | spin => rfl
  | ask q k ih =>
      rw [ask_bind, ask_bind, ask_bind]
      exact congrArg (Thread.ask q) (funext ih)

section Translate

variable (f : ∀ q, Thread Q' A' ε (A q))

/-- The equations of a translation. -/
@[simp] theorem translate_ret (a : α) : (.ret a : Thread Q A ε α).translate f = .ret a := rfl

@[simp] theorem translate_throw (e : ε) :
    (.throw e : Thread Q A ε α).translate f = .throw e := rfl

/-- One question is one computation. -/
@[simp] theorem translate_call (q : Q) : (call q : Thread Q A ε (A q)).translate f = f q :=
  bind_ret (f q)

/-- A translation goes through sequencing, and through a choice. -/
@[simp] theorem translate_bind (m : Thread Q A ε α) (g : α → Thread Q A ε β) :
    (m >>= g).translate f = m.translate f >>= fun a => (g a).translate f := by
  induction m with
  | ret a => rfl
  | throw e => rfl
  | spin => rfl
  | ask q k ih =>
      show (f q >>= fun a => (k a >>= g).translate f) = (f q >>= fun a => (k a).translate f) >>= _
      rw [bind_bind]
      exact congrArg (f q >>= ·) (funext ih)

@[simp] theorem translate_ite (c : Prop) [Decidable c] (m m' : Thread Q A ε α) :
    (if c then m else m').translate f = if c then m.translate f else m'.translate f := by
  split <;> rfl

/-- A thread that cannot throw goes before the scope as well as inside it. -/
theorem ensuring_bind {m : Thread Q A ε β} (hm : m.NoThrow) (k : β → Thread Q A ε α)
    (d : Thread Q A ε Unit) : (m >>= k).ensuring d = m >>= fun b => (k b).ensuring d := by
  induction m with
  | ret b => rfl
  | throw e => exact hm.elim
  | spin => rfl
  | ask q k' ih =>
      rw [ask_bind, ask_bind]
      exact congrArg (Thread.ask q) (funext fun a => ih a (hm a))

/-- And through a scope, where the answers are computed without an exception:
one on the way would run the destructor too early. -/
theorem translate_ensuring (hf : ∀ q, (f q).NoThrow) (m : Thread Q A ε α)
    (d : Thread Q A ε Unit) :
    (m.ensuring d).translate f = (m.translate f).ensuring (d.translate f) := by
  induction m with
  | ret a => exact translate_bind f d fun _ => .ret a
  | throw e => exact translate_bind f d fun _ => .throw e
  | spin => rfl
  | ask q k ih =>
      show (f q >>= fun a => ((k a).ensuring d).translate f) =
        (f q >>= fun a => (k a).translate f).ensuring (d.translate f)
      rw [ensuring_bind (hf q)]
      exact congrArg (f q >>= ·) (funext ih)

end Translate

section Run

variable (serve : ∀ q, Prog ε σ (A q))

/-- The equations of a thread alone. -/
@[simp] theorem run_ret (a : α) : (.ret a : Thread Q A ε α).run serve = pure a := rfl

@[simp] theorem run_throw (e : ε) : (.throw e : Thread Q A ε α).run serve = Prog.throw e := rfl

/-- Alone, a question is what serves it. -/
@[simp] theorem run_call (q : Q) : (call q : Thread Q A ε (A q)).run serve = serve q :=
  Prog.bind_pure (serve q)

/-- Running goes through sequencing, and through a choice. -/
@[simp] theorem run_bind (m : Thread Q A ε α) (f : α → Thread Q A ε β) :
    (m >>= f).run serve = m.run serve >>= fun a => (f a).run serve := by
  induction m with
  | ret a => rfl
  | throw e => rfl
  | spin => rfl
  | ask q k ih =>
      show (serve q >>= fun a => (k a >>= f).run serve)
        = (serve q >>= fun a => (k a).run serve) >>= _
      rw [Prog.bind_bind]
      exact congrArg (serve q >>= ·) (funext ih)

/-- Alone, a scope is the scope of `Prog`, if questions are always
answered. -/
theorem run_ensuring (hserve : ∀ q s, ∃ a s', serve q s = .ok a s') (m : Thread Q A ε α)
    (d : Thread Q A ε Unit) :
    (m.ensuring d).run serve = Prog.ensuring (m.run serve) (d.run serve) := by
  induction m with
  | ret a => exact run_bind serve d fun _ => .ret a
  | throw e => exact run_bind serve d fun _ => .throw e
  | spin => rfl
  | ask q k ih =>
      funext s
      obtain ⟨a, s', hs⟩ := hserve q s
      have hbind : ∀ {β : Type} (g : A q → Prog ε σ β), (serve q >>= g) s = g a s' := by
        intro β g
        show Prog.bind (serve q) g s = _
        rw [Prog.bind, hs]
      have hscope : ∀ g : A q → Prog ε σ α, Prog.ensuring (serve q >>= g) (d.run serve) s =
          Prog.ensuring (g a) (d.run serve) s' := by
        intro g
        unfold Prog.ensuring
        rw [hbind g]
      show (serve q >>= fun a => ((k a).ensuring d).run serve) s =
        Prog.ensuring (serve q >>= fun a => (k a).run serve) (d.run serve) s
      rw [hbind, hscope, ih a]

@[simp] theorem run_ite (c : Prop) [Decidable c] (m m' : Thread Q A ε α) :
    (if c then m else m').run serve = if c then m.run serve else m'.run serve := by
  split <;> rfl

end Run

end Thread
