/-
  ItbCpp.Lib.Interleave
  ─────────────────────
  **INTERLEAVED THREADS, AND RELY–GUARANTEE.**

  Threads over one shared state take turns: a step answers the question
  one thread is asking, as `System.serve` allows, and moves the state.  A
  question with no answer blocks its thread.

  A `Discipline` gives an invariant of the shared state and, for each
  thread, what it may rely on the others to do and what it guarantees
  itself.  A thread is verified alone, by triples, against interference
  between any two of its questions; `Safe.reach` puts the threads
  together.

    • `triple_call`, `triple_bind`, `triple_ensuring`, … — one rule a construct,
    • `Safe.step`, `Safe.reach` — soundness, over every interleaving.

  Nothing here is about a particular program.
-/
import ItbCpp.Lib.Thread
import Mathlib.Logic.Function.Basic
import Mathlib.Logic.Relation

namespace Interleave

/-! ## §1. The machine. -/

/-- How questions are answered: `serve i s q a s'` when the answer `a` to the
question `q` of thread `i` takes the state from `s` to `s'`. -/
structure System (I Q : Type) (A : Q → Type) (σ : Type) where
  serve : I → σ → (q : Q) → A q → σ → Prop

/-- The shared state and what is left of each thread. -/
structure Config (I Q : Type) (A : Q → Type) (ε α σ : Type) where
  state : σ
  threads : I → Thread Q A ε α

section Machine

variable {I Q : Type} [DecidableEq I] {A : Q → Type} {ε α σ : Type}

/-- One thread gets one answer. -/
inductive Step (sys : System I Q A σ) : Config I Q A ε α σ → Config I Q A ε α σ → Prop where
  | answer {c : Config I Q A ε α σ} {i : I} {q : Q} {k : A q → Thread Q A ε α} {a : A q}
      {s' : σ} (asks : c.threads i = .ask q k) (served : sys.serve i c.state q a s') :
      Step sys c ⟨s', Function.update c.threads i (k a)⟩

/-- Any number of steps, in any order of the threads. -/
abbrev Reach (sys : System I Q A σ) :
    Config I Q A ε α σ → Config I Q A ε α σ → Prop :=
  Relation.ReflTransGen (Step sys)

end Machine

/-! ## §2. Disciplines. -/

/-- An invariant, and what each thread relies on and guarantees. -/
structure Discipline (I σ : Type) where
  inv : σ → Prop
  rely : I → σ → σ → Prop
  guar : I → σ → σ → Prop
  rely_refl : ∀ i s, rely i s s
  rely_trans : ∀ i s s' s'', rely i s s' → rely i s' s'' → rely i s s''
  /-- what one thread guarantees, every other may rely on -/
  compat : ∀ i j s s', i ≠ j → inv s → inv s' → guar i s s' → rely j s s'

section Logic

variable {I Q : Type} {A : Q → Type} {ε α β σ : Type}

/-- Thread `i`, from state `s` on: whatever the others do between its
questions, each answer keeps the invariant and the guarantee, and the
thread ends as `ok` and `threw` say. -/
def Safe (sys : System I Q A σ) (D : Discipline I σ) (i : I) (ok : α → σ → Prop)
    (threw : ε → σ → Prop) : Thread Q A ε α → σ → Prop
  | .ret a, s => ∀ s', D.rely i s s' → D.inv s' → ok a s'
  | .throw e, s => ∀ s', D.rely i s s' → D.inv s' → threw e s'
  | .spin, _ => True
  | .ask q k, s => ∀ s', D.rely i s s' → D.inv s' → ∀ a s'', sys.serve i s' q a s'' →
      D.inv s'' ∧ D.guar i s' s'' ∧ Safe sys D i ok threw (k a) s''

variable {sys : System I Q A σ} {D : Discipline I σ} {i : I}

/-- What the others do is already accounted for. -/
theorem Safe.stable {ok : α → σ → Prop} {threw : ε → σ → Prop} {m : Thread Q A ε α} {s s' : σ}
    (h : Safe sys D i ok threw m s) (hr : D.rely i s s') : Safe sys D i ok threw m s' := by
  cases m with
  | ret a => exact fun s'' hr' hi => h s'' (D.rely_trans i _ _ _ hr hr') hi
  | throw e => exact fun s'' hr' hi => h s'' (D.rely_trans i _ _ _ hr hr') hi
  | spin => trivial
  | ask q k => exact fun s'' hr' hi => h s'' (D.rely_trans i _ _ _ hr hr') hi

variable [DecidableEq I]

/-- One step of any thread keeps the invariant, within that thread's
guarantee, and leaves every thread safe. -/
theorem Safe.step {ok : I → α → σ → Prop} {threw : I → ε → σ → Prop}
    {c c' : Config I Q A ε α σ} (hi : D.inv c.state)
    (hsafe : ∀ j, Safe sys D j (ok j) (threw j) (c.threads j) c.state) (h : Step sys c c') :
    D.inv c'.state ∧ (∀ j, Safe sys D j (ok j) (threw j) (c'.threads j) c'.state) ∧
      ∃ j, D.guar j c.state c'.state := by
  cases h with
  | @answer j q k a s' asks served =>
      have hj := hsafe j
      rw [asks] at hj
      obtain ⟨hi', hg, hk⟩ := hj c.state (D.rely_refl j _) hi a s' served
      refine ⟨hi', ?_, j, hg⟩
      intro l
      by_cases hl : l = j
      · subst hl
        show Safe sys D l _ _ (Function.update c.threads l (k a) l) s'
        rw [Function.update_self]
        exact hk
      · show Safe sys D l _ _ (Function.update c.threads j (k a) l) s'
        rw [Function.update_of_ne hl]
        exact (hsafe l).stable (D.compat j l _ _ (Ne.symm hl) hi hi' hg)

/-- **Soundness**: threads that are safe alone are safe together, in every
state any interleaving reaches. -/
theorem Safe.reach {ok : I → α → σ → Prop} {threw : I → ε → σ → Prop}
    {c c' : Config I Q A ε α σ} (hi : D.inv c.state)
    (hsafe : ∀ j, Safe sys D j (ok j) (threw j) (c.threads j) c.state) (h : Reach sys c c') :
    D.inv c'.state ∧ ∀ j, Safe sys D j (ok j) (threw j) (c'.threads j) c'.state := by
  induction h with
  | refl => exact ⟨hi, hsafe⟩
  | tail _ hstep ih =>
      obtain ⟨hi', hsafe', -⟩ := Safe.step ih.1 ih.2 hstep
      exact ⟨hi', hsafe'⟩

end Logic

/-! ## §3. Triples. -/

section Triples

variable {I Q : Type} {A : Q → Type} {ε α β σ : Type} {sys : System I Q A σ}
  {D : Discipline I σ} {i : I}

/-- An assertion that what the others do cannot break. -/
def Stable (D : Discipline I σ) (i : I) (P : σ → Prop) : Prop :=
  ∀ s s', D.inv s → D.inv s' → D.rely i s s' → P s → P s'

/-- `{P} m {ok | threw}`, for thread `i`. -/
def Triple (sys : System I Q A σ) (D : Discipline I σ) (i : I) (P : σ → Prop)
    (m : Thread Q A ε α) (ok : α → σ → Prop) (threw : ε → σ → Prop) : Prop :=
  ∀ s, D.inv s → P s → Safe sys D i ok threw m s

variable {P P' : σ → Prop} {ok ok' : α → σ → Prop} {threw threw' : ε → σ → Prop}

theorem Safe.mono {m : Thread Q A ε α} {s : σ} (h : Safe sys D i ok threw m s)
    (hok : ∀ a s, D.inv s → ok a s → ok' a s)
    (hthrew : ∀ e s, D.inv s → threw e s → threw' e s) : Safe sys D i ok' threw' m s := by
  induction m generalizing s with
  | ret a => exact fun s' hr hi => hok a s' hi (h s' hr hi)
  | throw e => exact fun s' hr hi => hthrew e s' hi (h s' hr hi)
  | spin => trivial
  | ask q k ih =>
      intro s' hr hi a s'' hs
      obtain ⟨hi', hg, hk⟩ := h s' hr hi a s'' hs
      exact ⟨hi', hg, ih a hk⟩

/-- The rule of consequence. -/
theorem Triple.conseq {m : Thread Q A ε α} (h : Triple sys D i P m ok threw)
    (hpre : ∀ s, D.inv s → P' s → P s) (hok : ∀ a s, D.inv s → ok a s → ok' a s)
    (hthrew : ∀ e s, D.inv s → threw e s → threw' e s) :
    Triple sys D i P' m ok' threw' :=
  fun s hi hp => (h s hi (hpre s hi hp)).mono hok hthrew

/-- A precondition may be taken apart state by state. -/
theorem triple_of_forall {m : Thread Q A ε α} {γ : Type} {R : γ → σ → Prop}
    (h : ∀ x, Triple sys D i (R x) m ok threw) :
    Triple sys D i (fun s => ∃ x, R x s) m ok threw := by
  intro s hi hp
  obtain ⟨x, hx⟩ := hp
  exact h x s hi hx

/-- What a precondition says of no state can be assumed outright. -/
theorem triple_of_fact {m : Thread Q A ε α} {φ : Prop} (hφ : ∀ s, D.inv s → P s → φ)
    (h : φ → Triple sys D i P m ok threw) : Triple sys D i P m ok threw :=
  fun s hi hp => h (hφ s hi hp) s hi hp

theorem triple_ret (a : α) (hstable : Stable D i P) (h : ∀ s, D.inv s → P s → ok a s) :
    Triple sys D i P (.ret a) ok threw :=
  fun s hi hp s' hr hi' => h s' hi' (hstable s s' hi hi' hr hp)

theorem triple_throw (e : ε) (hstable : Stable D i P) (h : ∀ s, D.inv s → P s → threw e s) :
    Triple sys D i P (.throw e) ok threw :=
  fun s hi hp s' hr hi' => h s' hi' (hstable s s' hi hi' hr hp)

theorem triple_spin : Triple sys D i P (.spin : Thread Q A ε α) ok threw :=
  fun _ _ _ => trivial

theorem triple_ite {c : Prop} [Decidable c] {m m' : Thread Q A ε α}
    (h : c → Triple sys D i P m ok threw) (h' : ¬ c → Triple sys D i P m' ok threw) :
    Triple sys D i P (if c then m else m') ok threw := by
  by_cases hc : c
  · rw [if_pos hc]
    exact h hc
  · rw [if_neg hc]
    exact h' hc

/-- A question: what has to be shown of each answer. -/
theorem triple_call {q : Q} {ok : A q → σ → Prop} (hstable : Stable D i P)
    (hok : ∀ a, Stable D i (ok a))
    (h : ∀ s a s', D.inv s → P s → sys.serve i s q a s' →
      D.inv s' ∧ D.guar i s s' ∧ ok a s') :
    Triple sys D i P (Thread.call q : Thread Q A ε (A q)) ok threw := by
  intro s hi hp s' hr hi' a s'' hs
  obtain ⟨hi'', hg, hq⟩ := h s' a s'' hi' (hstable s s' hi hi' hr hp) hs
  exact ⟨hi'', hg, fun s₃ hr₃ hi₃ => hok a s'' s₃ hi'' hi₃ hr₃ hq⟩

theorem triple_bind {m : Thread Q A ε α} {f : α → Thread Q A ε β} {ok : β → σ → Prop}
    {mid : α → σ → Prop} (hm : Triple sys D i P m mid threw)
    (hf : ∀ a, Triple sys D i (mid a) (f a) ok threw) :
    Triple sys D i P (m >>= f) ok threw := by
  have hsafe : ∀ (m : Thread Q A ε α) s, D.inv s → Safe sys D i mid threw m s →
      Safe sys D i ok threw (m >>= f) s := by
    intro m
    induction m with
    | ret a => exact fun s hi h => hf a s hi (h s (D.rely_refl i s) hi)
    | throw e => exact fun s hi h => h
    | spin => exact fun s hi h => trivial
    | ask q k ih =>
        intro s hi h s' hr hi' a s'' hs
        obtain ⟨hi'', hg, hk⟩ := h s' hr hi' a s'' hs
        exact ⟨hi'', hg, ih a s'' hi'' hk⟩
  exact fun s hi hp => hsafe m s hi (hm s hi hp)

theorem triple_handle {m : Thread Q A ε α} {f : ε → Thread Q A ε α} {mid : ε → σ → Prop}
    (hm : Triple sys D i P m ok mid) (hf : ∀ e, Triple sys D i (mid e) (f e) ok threw) :
    Triple sys D i P (m.handle f) ok threw := by
  have hsafe : ∀ (m : Thread Q A ε α) s, D.inv s → Safe sys D i ok mid m s →
      Safe sys D i ok threw (m.handle f) s := by
    intro m
    induction m with
    | ret a => exact fun s hi h => h
    | throw e => exact fun s hi h => hf e s hi (h s (D.rely_refl i s) hi)
    | spin => exact fun s hi h => trivial
    | ask q k ih =>
        intro s hi h s' hr hi' a s'' hs
        obtain ⟨hi'', hg, hk⟩ := h s' hr hi' a s'' hs
        exact ⟨hi'', hg, ih a s'' hi'' hk⟩
  exact fun s hi hp => hsafe m s hi (hm s hi hp)

/-- After the last question of `d`, whatever it leaves may be passed on. -/
theorem Safe.bind_last {d : Thread Q A ε Unit} {last : Thread Q A ε α} {R : σ → Prop}
    (hlast : ∀ s, (∀ s', D.rely i s s' → D.inv s' → R s') → Safe sys D i ok threw last s)
    {s : σ} (h : Safe sys D i (fun _ => R) threw d s) :
    Safe sys D i ok threw (d >>= fun _ => last) s := by
  induction d generalizing s with
  | ret u => exact hlast s h
  | throw e => exact h
  | spin => trivial
  | ask q k ih =>
      intro s' hr hi a s'' hs
      obtain ⟨hi', hg, hk⟩ := h s' hr hi a s'' hs
      exact ⟨hi', hg, ih a hk⟩

/-- A scope: the destructor runs on both ways out. -/
theorem triple_ensuring {m : Thread Q A ε α} {d : Thread Q A ε Unit} {mid : α → σ → Prop}
    {mid' : ε → σ → Prop} (hm : Triple sys D i P m mid mid')
    (hok : ∀ a, Triple sys D i (mid a) d (fun _ => ok a) threw)
    (hthrew : ∀ e, Triple sys D i (mid' e) d (fun _ => threw e) threw) :
    Triple sys D i P (m.ensuring d) ok threw := by
  have hsafe : ∀ (m : Thread Q A ε α) s, D.inv s → Safe sys D i mid mid' m s →
      Safe sys D i ok threw (m.ensuring d) s := by
    intro m
    induction m with
    | ret a =>
        intro s hi h
        have hret : ∀ s, (∀ s', D.rely i s s' → D.inv s' → ok a s') →
            Safe sys D i ok threw (.ret a) s := fun _ h => h
        exact Safe.bind_last hret (hok a s hi (h s (D.rely_refl i s) hi))
    | throw e =>
        intro s hi h
        have hthrow : ∀ s, (∀ s', D.rely i s s' → D.inv s' → threw e s') →
            Safe sys D i ok threw (.throw e) s := fun _ h => h
        exact Safe.bind_last hthrow (hthrew e s hi (h s (D.rely_refl i s) hi))
    | spin => exact fun s hi h => trivial
    | ask q k ih =>
        intro s hi h s' hr hi' a s'' hs
        obtain ⟨hi'', hg, hk⟩ := h s' hr hi' a s'' hs
        exact ⟨hi'', hg, ih a s'' hi'' hk⟩
  exact fun s hi hp => hsafe m s hi (hm s hi hp)

end Triples

end Interleave
