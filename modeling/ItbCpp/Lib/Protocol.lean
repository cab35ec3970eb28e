/-
  ItbCpp.Lib.Protocol
  ───────────────────
  **PROTOCOLS OF INTERLEAVED THREADS.**

  A `Protocol` says of a thread that stands at `t` which questions it may
  ask, where each answer may take it, and whether its loops may run on
  there.  `Thread.wp` holds a thread to its protocol, one rule per
  construct, and looks at that thread alone.
  An invariant of the shared state and of where all threads stand, kept by
  every single answer, then holds along every run (`Traced.upheld`,
  `TracedIn.upheld`).

    • `wp_bind`, `wp_handle`, `wp_ensuring`, … — the simp set,
    • `Stays` — a computation that ends where it began,
    • `Remains` — a computation that ends in the set where it began,
    • `Throws` — the exceptions a computation may leave by,
    • `Runs` — a call that came to its end,
    • `Leads` — a call on its way, and where it stands (`leads_bind`),
    • `Traced`, `TracedIn` — a run, with what was asked and answered on the
      way, and one whose steps all meet a condition.

  Nothing here is about a particular program.
-/
import ItbCpp.Lib.Interleave

/-- What a thread may ask from where it stands, where an answer may take it,
and where its loops may use up their fuel. -/
structure Protocol (Q : Type) (A : Q → Type) (τ : Type) where
  asks : τ → Q → Prop
  told : τ → (q : Q) → A q → τ → Prop
  spins : τ → Prop

namespace Thread

variable {Q Q' : Type} {A : Q → Type} {A' : Q' → Type} {ε τ α β : Type}

/-! ## §1. Keeping to a protocol. -/

/-- What is asked of the two ways in which a thread can end. -/
structure Ends (ε τ α : Type) where
  ok : α → τ → Prop
  threw : ε → τ → Prop

/-- From `t` on, the thread does what the protocol allows, and meets `R`
however it ends. -/
def wp (P : Protocol Q A τ) : Thread Q A ε α → Ends ε τ α → τ → Prop
  | .ret a, R, t => R.ok a t
  | .throw e, R, t => R.threw e t
  | .spin, _, t => P.spins t
  | .ask q k, R, t => P.asks t q ∧ ∀ a t', P.told t q a t' → (k a).wp P R t'

section Rules

variable {P : Protocol Q A τ} {R R' : Ends ε τ α} {t : τ}

@[simp] theorem wp_ret (a : α) : (.ret a : Thread Q A ε α).wp P R t ↔ R.ok a t := Iff.rfl

@[simp] theorem wp_throw (e : ε) : (.throw e : Thread Q A ε α).wp P R t ↔ R.threw e t := Iff.rfl

@[simp] theorem wp_spin : (.spin : Thread Q A ε α).wp P R t ↔ P.spins t := Iff.rfl

/-- One question: it may be asked, and every answer leads to the
postcondition. -/
@[simp] theorem wp_call {q : Q} {R : Ends ε τ (A q)} :
    (call q : Thread Q A ε (A q)).wp P R t ↔
      P.asks t q ∧ ∀ a t', P.told t q a t' → R.ok a t' := Iff.rfl

/-- The rule of consequence. -/
theorem wp.mono {m : Thread Q A ε α} (h : m.wp P R t) (hok : ∀ a t', R.ok a t' → R'.ok a t')
    (hthrew : ∀ e t', R.threw e t' → R'.threw e t') : m.wp P R' t := by
  induction m generalizing t with
  | ret a => exact hok a t h
  | throw e => exact hthrew e t h
  | spin => exact h
  | ask q k ih => exact ⟨h.1, fun a t' ht => ih a (h.2 a t' ht)⟩

/-- Sequencing: the second part from wherever the first one ends. -/
@[simp] theorem wp_bind (m : Thread Q A ε β) (f : β → Thread Q A ε α) :
    (m >>= f).wp P R t ↔ m.wp P ⟨fun b t' => (f b).wp P R t', R.threw⟩ t := by
  induction m generalizing t with
  | ret b => rfl
  | throw e => rfl
  | spin => rfl
  | ask q k ih =>
      show (P.asks t q ∧ ∀ a t', P.told t q a t' → (k a >>= f).wp P R t') ↔ _
      simp only [ih]
      rfl

/-- A handler, from wherever the exception was thrown. -/
@[simp] theorem wp_handle (m : Thread Q A ε α) (f : ε → Thread Q A ε α) :
    (m.handle f).wp P R t ↔ m.wp P ⟨R.ok, fun e t' => (f e).wp P R t'⟩ t := by
  induction m generalizing t with
  | ret a => rfl
  | throw e => rfl
  | spin => rfl
  | ask q k ih =>
      show (P.asks t q ∧ ∀ a t', P.told t q a t' → ((k a).handle f).wp P R t') ↔ _
      simp only [ih]
      rfl

/-- A scope: the destructor, then the end that the body had. -/
@[simp] theorem wp_ensuring (m : Thread Q A ε α) (d : Thread Q A ε Unit) :
    (m.ensuring d).wp P R t ↔
      m.wp P ⟨fun a t' => d.wp P ⟨fun _ t'' => R.ok a t'', R.threw⟩ t',
        fun e t' => d.wp P ⟨fun _ t'' => R.threw e t'', R.threw⟩ t'⟩ t := by
  induction m generalizing t with
  | ret a => exact wp_bind d fun _ => .ret a
  | throw e => exact wp_bind d fun _ => .throw e
  | spin => rfl
  | ask q k ih =>
      show (P.asks t q ∧ ∀ a t', P.told t q a t' → ((k a).ensuring d).wp P R t') ↔ _
      simp only [ih]
      rfl

@[simp] theorem wp_ite (c : Prop) [Decidable c] (m m' : Thread Q A ε α) :
    (if c then m else m').wp P R t ↔ if c then m.wp P R t else m'.wp P R t := by
  split <;> rfl

/-- Alone, with its questions worked out on a state that `S` relates to where
the thread stands, a thread that keeps to its protocol ends as it says. -/
theorem wp.run {σ : Type} {serve : ∀ q, Prog ε σ (A q)} {S : σ → τ → Prop}
    (hserve : ∀ q s t, S s t → P.asks t q →
      ∃ a s' t', serve q s = .ok a s' ∧ P.told t q a t' ∧ S s' t')
    (hspins : ∀ t, ¬ P.spins t) {m : Thread Q A ε α} {s : σ} (h : m.wp P R t) (hs : S s t) :
    (∃ a s' t', m.run serve s = .ok a s' ∧ R.ok a t' ∧ S s' t') ∨
      ∃ e s' t', m.run serve s = .threw e s' ∧ R.threw e t' ∧ S s' t' := by
  induction m generalizing s t with
  | ret a => exact Or.inl ⟨a, s, t, rfl, h, hs⟩
  | throw e => exact Or.inr ⟨e, s, t, rfl, h, hs⟩
  | spin => exact (hspins t h).elim
  | ask q k ih =>
      obtain ⟨a, s', t', hanswer, htold, hs'⟩ := hserve q s t hs h.1
      have hrest : (Thread.ask q k).run serve s = (k a).run serve s' := by
        show Prog.bind (serve q) _ s = _
        rw [Prog.bind, hanswer]
      rw [hrest]
      exact ih a (h.2 a t' htold) hs'

/-- A protocol that asks nothing of its thread. -/
def anything : Protocol Q A τ where
  asks _ _ := True
  told _ _ _ _ := True
  spins _ := True

/-- The protocol without rules is kept by every thread. -/
theorem wp_anything (m : Thread Q A ε α) (t : τ) :
    m.wp anything ⟨fun _ _ => True, fun _ _ => True⟩ t := by
  induction m generalizing t with
  | ret a => trivial
  | throw e => trivial
  | spin => trivial
  | ask q k ih => exact ⟨trivial, fun a t' _ => ih a t'⟩

end Rules

/-! ## §2. Ending where it began. -/

/-- Whatever it is told, the computation ends at `t` again if it ends, by an
exception in `E` if by one. -/
def Stays (P : Protocol Q A τ) (E : ε → Prop) (m : Thread Q A ε α) (t : τ) : Prop :=
  m.wp P ⟨fun _ t' => t' = t, fun e t' => E e ∧ t' = t⟩ t

section Stays

variable {P : Protocol Q A τ} {E : ε → Prop} {R : Ends ε τ α} {t : τ}

/-- What is left to show of a computation that stays. -/
theorem Stays.wp {m : Thread Q A ε α} (h : Stays P E m t) (hok : ∀ a, R.ok a t)
    (hthrew : ∀ e, E e → R.threw e t) : m.wp P R t := by
  refine Thread.wp.mono h ?_ ?_
  · intro a t' ht
    exact ht ▸ hok a
  · intro e t' ht
    exact ht.2 ▸ hthrew e ht.1

theorem stays_ret (a : α) : Stays P E (.ret a : Thread Q A ε α) t := rfl

theorem stays_throw {e : ε} (he : E e) : Stays P E (.throw e : Thread Q A ε α) t := ⟨he, rfl⟩

theorem stays_spin (h : P.spins t) : Stays P E (.spin : Thread Q A ε α) t := h

/-- A question whose answers all lead back. -/
theorem stays_call {q : Q} (hask : P.asks t q) (htold : ∀ a t', P.told t q a t' → t' = t) :
    Stays P E (call q : Thread Q A ε (A q)) t := ⟨hask, htold⟩

/-- Two computations, with the second from the same place. -/
theorem stays_bind {m : Thread Q A ε β} {f : β → Thread Q A ε α} (hm : Stays P E m t)
    (hf : ∀ b, Stays P E (f b) t) : Stays P E (m >>= f) t := by
  unfold Stays
  rw [wp_bind]
  exact hm.wp hf fun e he => ⟨he, rfl⟩

/-- A handler is there, too. -/
theorem stays_handle {E' : ε → Prop} {m : Thread Q A ε α} {f : ε → Thread Q A ε α}
    (hm : Stays P E' m t) (hf : ∀ e, E' e → Stays P E (f e) t) :
    Stays P E (m.handle f) t := by
  unfold Stays
  rw [wp_handle]
  exact hm.wp (fun _ => rfl) hf

/-- So is a destructor. -/
theorem stays_ensuring {m : Thread Q A ε α} {d : Thread Q A ε Unit} (hm : Stays P E m t)
    (hd : Stays P E d t) : Stays P E (m.ensuring d) t := by
  unfold Stays
  rw [wp_ensuring]
  refine hm.wp (fun _ => ?_) fun e he => ?_
  · exact hd.wp (fun _ => rfl) fun e he => ⟨he, rfl⟩
  · exact hd.wp (fun _ => ⟨he, rfl⟩) fun e he => ⟨he, rfl⟩

/-- A guard: `q` takes the thread to `t'`, and `d` brings it back on both
ways out. -/
theorem stays_guard {q : Q} {m : Thread Q A ε α} {d : Thread Q A ε Unit} {t' : τ}
    (hask : P.asks t q) (hin : ∀ a u, P.told t q a u → u = t') (hm : Stays P E m t')
    (hout : d.wp P ⟨fun _ u => u = t, fun _ _ => False⟩ t') :
    Stays P E (call q >>= fun _ => m.ensuring d) t := by
  unfold Stays
  rw [wp_bind]
  refine ⟨hask, fun a u hu => ?_⟩
  obtain rfl := hin a u hu
  show (m.ensuring d).wp P _ u
  rw [wp_ensuring]
  refine hm.wp (fun _ => ?_) fun e he => ?_
  · exact hout.mono (fun _ _ h => h) fun _ _ h => h.elim
  · exact hout.mono (fun _ _ h => ⟨he, h⟩) fun _ _ h => h.elim

theorem stays_ite {c : Prop} [Decidable c] {m m' : Thread Q A ε α} (h : c → Stays P E m t)
    (h' : ¬ c → Stays P E m' t) : Stays P E (if c then m else m') t := by
  by_cases hc : c
  · rw [if_pos hc]
    exact h hc
  · rw [if_neg hc]
    exact h' hc

end Stays

/-- Begun anywhere in `S`, the computation ends in `S` if it ends, and
meets `E` if by an exception. -/
def Remains (P : Protocol Q A τ) (S : τ → Prop) (E : ε → τ → Prop) (m : Thread Q A ε α) : Prop :=
  ∀ t, S t → m.wp P ⟨fun _ => S, E⟩ t

section Remains

variable {P : Protocol Q A τ} {S : τ → Prop} {E : ε → τ → Prop}

theorem remains_ret (a : α) : Remains P S E (.ret a : Thread Q A ε α) := fun _ ht => ht

theorem remains_spin (h : ∀ t, S t → P.spins t) : Remains P S E (.spin : Thread Q A ε α) := h

/-- Two computations that end in the set. -/
theorem remains_bind {m : Thread Q A ε β} {f : β → Thread Q A ε α} (hm : Remains P S E m)
    (hf : ∀ b, Remains P S E (f b)) : Remains P S E (m >>= f) := by
  intro t ht
  rw [wp_bind]
  exact (hm t ht).mono (fun b t' ht' => hf b t' ht') fun _ _ h => h

theorem remains_ite {c : Prop} [Decidable c] {m m' : Thread Q A ε α} (h : c → Remains P S E m)
    (h' : ¬ c → Remains P S E m') : Remains P S E (if c then m else m') := by
  by_cases hc : c
  · rw [if_pos hc]
    exact h hc
  · rw [if_neg hc]
    exact h' hc

/-- A scope: its destructor keeps to `S`, and to what is known of each
exception. -/
theorem remains_ensuring {m : Thread Q A ε α} {d : Thread Q A ε Unit} (hm : Remains P S E m)
    (hd : Remains P S E d) (hthrew : ∀ e, Remains P (E e) E d) : Remains P S E (m.ensuring d) := by
  intro t ht
  rw [wp_ensuring]
  refine (hm t ht).mono (fun a t' ht' => ?_) fun e t' ht' => ?_
  · exact hd t' ht'
  · exact hthrew e t' ht'

end Remains

/-! ## §3. The exceptions of a computation. -/

/-- Whatever it is told, the computation throws nothing outside `E`. -/
def Throws (E : ε → Prop) : Thread Q A ε α → Prop
  | .ret _ | .spin => True
  | .throw e => E e
  | .ask _ k => ∀ a, (k a).Throws E

section Throws

variable {E : ε → Prop}

/-- What each part may throw, the whole may. -/
theorem throws_bind {m : Thread Q A ε β} {f : β → Thread Q A ε α} (hm : m.Throws E)
    (hf : ∀ b, (f b).Throws E) : (m >>= f).Throws E := by
  induction m with
  | ret b => exact hf b
  | throw e => exact hm
  | spin => trivial
  | ask q k ih => exact fun a => ih a (hm a)

theorem throws_ite {c : Prop} [Decidable c] {m m' : Thread Q A ε α} (h : m.Throws E)
    (h' : m'.Throws E) : (if c then m else m').Throws E := by
  split
  · exact h
  · exact h'

/-- A destructor on its way out may throw as well. -/
theorem throws_ensuring {m : Thread Q A ε α} {d : Thread Q A ε Unit} (hm : m.Throws E)
    (hd : d.Throws E) : (m.ensuring d).Throws E := by
  induction m with
  | ret a => exact throws_bind hd fun _ => trivial
  | throw e => exact throws_bind hd fun _ => hm
  | spin => trivial
  | ask q k ih => exact fun a => ih a (hm a)

/-- A computation that is worked out in questions of another kind, each of
which leads back to `t`, stays at `t`. -/
theorem stays_translate {P : Protocol Q' A' τ} {t : τ} {f : ∀ q, Thread Q' A' ε (A q)}
    {m : Thread Q A ε α} (hm : m.Throws E) (hspin : P.spins t)
    (hf : ∀ q, Stays P E (f q) t) : Stays P E (m.translate f) t := by
  induction m with
  | ret a => exact stays_ret a
  | throw e => exact stays_throw hm
  | spin => exact stays_spin hspin
  | ask q k ih => exact stays_bind (hf q) fun a => ih a (hm a)

end Throws

/-- The same in a set: each question leads back into it. -/
theorem remains_translate {P : Protocol Q' A' τ} {S : τ → Prop} {f : ∀ q, Thread Q' A' ε (A q)}
    {m : Thread Q A ε α} (hm : m.Throws E) (hspin : ∀ t, S t → P.spins t)
    (hf : ∀ q, Remains P S (fun e t => E e ∧ S t) (f q)) :
    Remains P S (fun e t => E e ∧ S t) (m.translate f) := by
  induction m with
  | ret a => exact remains_ret a
  | throw e => exact fun t ht => ⟨hm, ht⟩
  | spin => exact remains_spin hspin
  | ask q k ih => exact remains_bind (hf q) fun a => ih a (hm a)

/-- **A computation worked out in questions of another kind** does what it
does, if each of its questions is answered so. -/
theorem wp_translate {τ' : Type} {P : Protocol Q A τ} {P' : Protocol Q' A' τ'}
    {S : τ → τ' → Prop} {f : ∀ q, Thread Q' A' ε (A q)}
    (hf : ∀ q t t', S t t' → P.asks t q →
      (f q).wp P' ⟨fun a u' => ∃ u, P.told t q a u ∧ S u u', fun _ _ => False⟩ t')
    (hspin : ∀ t t', S t t' → P.spins t → P'.spins t') {m : Thread Q A ε α} {R : Ends ε τ α}
    {t : τ} {t' : τ'} (ht : S t t') (h : m.wp P R t) :
    (m.translate f).wp P'
      ⟨fun a u' => ∃ u, S u u' ∧ R.ok a u, fun e u' => ∃ u, S u u' ∧ R.threw e u⟩ t' := by
  induction m generalizing t t' with
  | ret a => exact ⟨t, ht, h⟩
  | throw e => exact ⟨t, ht, h⟩
  | spin => exact hspin t t' ht h
  | ask q k ih =>
      show ((f q) >>= fun a => (k a).translate f).wp P' _ t'
      rw [wp_bind]
      refine (hf q t t' ht h.1).mono (fun a u' hu => ?_) fun _ _ he => he.elim
      obtain ⟨u, htold, hS⟩ := hu
      exact ih a hS (h.2 a u htold)

/-! ## §4. Calls that have ended. -/

/-- Begun at `t` and told what `T` allows, the call has returned `a` at `t'`. -/
inductive Runs (T : τ → (q : Q) → A q → τ → Prop) : Thread Q A ε α → τ → α → τ → Prop where
  | ret (a : α) (t : τ) : Runs T (.ret a) t a t
  | ask {q : Q} {k : A q → Thread Q A ε α} {a : A q} {b : α} {t t₁ t₂ : τ}
      (told : T t q a t₁) (rest : Runs T (k a) t₁ b t₂) : Runs T (.ask q k) t b t₂

section Runs

variable {T : τ → (q : Q) → A q → τ → Prop} {t t' : τ}

/-- A value is returned on the spot. -/
theorem runs_ret {a b : α} : Runs T (.ret a : Thread Q A ε α) t b t' ↔ b = a ∧ t' = t := by
  constructor
  · intro h
    cases h
    exact ⟨rfl, rfl⟩
  · intro h
    obtain ⟨rfl, rfl⟩ := h
    exact .ret b t'

/-- One question, one answer. -/
theorem runs_call {q : Q} {a : A q} :
    Runs T (call q : Thread Q A ε (A q)) t a t' ↔ T t q a t' := by
  constructor
  · intro h
    cases h with
    | ask told rest =>
        cases rest
        exact told
  · exact fun h => .ask h (.ret a t')

/-- A call made of two is the one, then the other. -/
theorem runs_bind {m : Thread Q A ε β} {f : β → Thread Q A ε α} {a : α} :
    Runs T (m >>= f) t a t' ↔ ∃ b u, Runs T m t b u ∧ Runs T (f b) u a t' := by
  constructor
  · intro h
    induction m generalizing t with
    | ret b => exact ⟨b, t, .ret b t, h⟩
    | throw e => cases h
    | spin => cases h
    | ask q k ih =>
        cases h with
        | ask told rest =>
            obtain ⟨b, u, hm, hf⟩ := ih _ rest
            exact ⟨b, u, .ask told hm, hf⟩
  · intro h
    obtain ⟨b, u, hm, hf⟩ := h
    induction hm with
    | ret b t => exact hf
    | ask told _ ih => exact .ask told (ih hf)

/-- The branch that is taken. -/
theorem runs_ite {c : Prop} [Decidable c] {m m' : Thread Q A ε α} {a : α} :
    Runs T (if c then m else m') t a t' ↔
      (c ∧ Runs T m t a t') ∨ (¬ c ∧ Runs T m' t a t') := by
  by_cases hc : c
  · simp [hc]
  · simp [hc]

/-- A scope that has returned has run its destructor. -/
theorem runs_ensuring {m : Thread Q A ε α} {d : Thread Q A ε Unit} {a : α} :
    Runs T (m.ensuring d) t a t' ↔ ∃ u, Runs T m t a u ∧ Runs T d u () t' := by
  constructor
  · intro h
    induction m generalizing t with
    | ret b =>
        obtain ⟨_, u, hd, hret⟩ := runs_bind.mp h
        obtain ⟨rfl, rfl⟩ := runs_ret.mp hret
        exact ⟨t, .ret _ t, hd⟩
    | throw e =>
        obtain ⟨_, u, -, hthrow⟩ := runs_bind.mp h
        cases hthrow
    | spin => cases h
    | ask q k ih =>
        cases h with
        | ask told rest =>
            obtain ⟨u, hm, hd⟩ := ih _ rest
            exact ⟨u, .ask told hm, hd⟩
  · intro h
    obtain ⟨u, hm, hd⟩ := h
    induction hm with
    | ret b t => exact runs_bind.mpr ⟨(), t', hd, .ret b t'⟩
    | ask told _ ih => exact .ask told (ih hd)

/-- A computation that returns does not come to its handler. -/
theorem Runs.handle {m : Thread Q A ε α} {a : α} (h : Runs T m t a t')
    (f : ε → Thread Q A ε α) : Runs T (m.handle f) t a t' := by
  induction h with
  | ret a t => exact .ret a t
  | ask told _ ih => exact .ask told ih

/-- What a call keeping to its protocol says of its end. -/
theorem wp.runs {P : Protocol Q A τ} {R : Ends ε τ α} {m : Thread Q A ε α} {a : α}
    (h : m.wp P R t) (hr : Runs P.told m t a t') : R.ok a t' := by
  induction hr with
  | ret a t => exact h
  | ask told _ ih => exact ih (h.2 _ _ told)

/-- The same call, seen by somebody who knows something else of it. -/
theorem Runs.map {τ' : Type} {T' : τ' → (q : Q) → A q → τ' → Prop} {S : τ → τ' → Prop}
    (hS : ∀ t q a t₁ u, S t u → T t q a t₁ → ∃ u₁, T' u q a u₁ ∧ S t₁ u₁)
    {m : Thread Q A ε α} {a : α} (h : Runs T m t a t') {u : τ'} (hu : S t u) :
    ∃ u', Runs T' m u a u' ∧ S t' u' := by
  induction h generalizing u with
  | ret a t => exact ⟨u, .ret a u, hu⟩
  | ask told _ ih =>
      obtain ⟨u₁, htold, hu₁⟩ := hS _ _ _ _ u hu told
      obtain ⟨u', hrest, hu'⟩ := ih hu₁
      exact ⟨u', .ask htold hrest, hu'⟩

end Runs

/-! ## §5. Calls on their way. -/

/-- Begun at `t`, the call has come to where `n` is left of it, at `t'`. -/
inductive Leads (T : τ → (q : Q) → A q → τ → Prop) (m : Thread Q A ε α) (t : τ) :
    Thread Q A ε α → τ → Prop where
  | here : Leads T m t m t
  | on {q : Q} {k : A q → Thread Q A ε α} {a : A q} {t₁ t₂ : τ}
      (far : Leads T m t (.ask q k) t₁) (told : T t₁ q a t₂) : Leads T m t (k a) t₂

section Leads

variable {T : τ → (q : Q) → A q → τ → Prop} {t t' : τ} {m n : Thread Q A ε α}

/-- What is left of it runs on to its end. -/
theorem Leads.runs {a : α} {u : τ} (h : Leads T m t n t') (hr : Runs T n t' a u) :
    Runs T m t a u := by
  induction h with
  | here => exact hr
  | on _ told ih => exact ih (.ask told hr)

/-- A call that has returned has come to its end. -/
theorem Runs.leads {m : Thread Q A ε α} {a : α} (h : Runs T m t a t') :
    Leads T m t (.ret a) t' := by
  have hend : ∀ {m₀ : Thread Q A ε α} {t₀ : τ}, Leads T m₀ t₀ m t → Leads T m₀ t₀ (.ret a) t' := by
    induction h with
    | ret a t => exact fun hl => hl
    | ask told _ ih => exact fun hl => ih (hl.on told)
  exact hend .here

/-- A loop that runs on goes nowhere. -/
theorem leads_spin (h : Leads T (.spin : Thread Q A ε α) t n t') : n = .spin ∧ t' = t := by
  induction h with
  | here => exact ⟨rfl, rfl⟩
  | on _ _ ih => cases ih.1

/-- A call made of two is in the one, or through it and in the other. -/
theorem leads_bind {m : Thread Q A ε β} {f : β → Thread Q A ε α}
    (h : Leads T (m >>= f) t n t') :
    (∃ m', Leads T m t m' t' ∧ n = (m' >>= f)) ∨
      ∃ b u, Runs T m t b u ∧ Leads T (f b) u n t' := by
  induction h with
  | here => exact Or.inl ⟨m, .here, rfl⟩
  | @on q k a t₁ t₂ _ told ih =>
      rcases ih with ⟨m', hm, hn⟩ | ⟨b, u, hm, hf⟩
      · cases m' with
        | ret b =>
            -- the first call is through
            refine Or.inr ⟨b, t₁, hm.runs (.ret b t₁), ?_⟩
            have hhere : Leads T (f b) t₁ (.ask q k) t₁ := hn ▸ .here
            exact hhere.on told
        | throw e => cases hn
        | spin => cases hn
        | ask q' k' =>
            cases hn
            exact Or.inl ⟨k' a, hm.on told, rfl⟩
      · exact Or.inr ⟨b, u, hm, hf.on told⟩

/-- One question more to begin with. -/
theorem leads_ask {q : Q} {k : A q → Thread Q A ε α} {a : A q} {t₁ : τ} (told : T t q a t₁)
    (h : Leads T (k a) t₁ n t') : Leads T (.ask q k) t n t' := by
  induction h with
  | here => exact .on .here told
  | on _ told' ih => exact ih.on told'

/-- On its way, a computation is followed by what it was followed by. -/
theorem Leads.bind {m n : Thread Q A ε β} (h : Leads T m t n t') (f : β → Thread Q A ε α) :
    Leads T (m >>= f) t (n >>= f) t' := by
  induction h with
  | here => exact .here
  | on _ told ih => exact .on ih told

/-- And it is in the scope it was in. -/
theorem Leads.ensuring (h : Leads T m t n t') (d : Thread Q A ε Unit) :
    Leads T (m.ensuring d) t (n.ensuring d) t' := by
  induction h with
  | here => exact .here
  | on _ told ih => exact .on ih told

/-- One stretch after the other. -/
theorem Leads.trans {p : Thread Q A ε α} {t'' : τ} (h : Leads T m t n t')
    (h' : Leads T n t' p t'') : Leads T m t p t'' := by
  induction h' with
  | here => exact h
  | on _ told ih => exact ih.on told

/-- A call that keeps to its protocol still does so on its way. -/
theorem wp.leads {P : Protocol Q A τ} {R : Ends ε τ α} (h : m.wp P R t)
    (hl : Leads P.told m t n t') : n.wp P R t' := by
  induction hl with
  | here => exact h
  | on _ told ih => exact ih.2 _ _ told

/-- The same way, seen by somebody who knows something else of it. -/
theorem Leads.map {τ' : Type} {T' : τ' → (q : Q) → A q → τ' → Prop} {S : τ → τ' → Prop}
    (hS : ∀ t q a t₁ u, S t u → T t q a t₁ → ∃ u₁, T' u q a u₁ ∧ S t₁ u₁)
    (h : Leads T m t n t') {u : τ'} (hu : S t u) : ∃ u', Leads T' m u n u' ∧ S t' u' := by
  induction h with
  | here => exact ⟨u, .here, hu⟩
  | on _ told ih =>
      obtain ⟨u₁, hfar, hu₁⟩ := ih
      obtain ⟨u₂, htold, hu₂⟩ := hS _ _ _ _ u₁ hu₁ told
      exact ⟨u₂, hfar.on htold, hu₂⟩

end Leads

end Thread

/-! ## §6. Runs of threads together. -/

namespace Interleave

section Traced

variable {I Q : Type} [DecidableEq I] {A : Q → Type} {ε α σ τ : Type}

/-- A question of a thread, and its answer. -/
structure Event (I Q : Type) (A : Q → Type) where
  who : I
  asked : Q
  answer : A asked

/-- A run, with what was asked and answered, the latest last. -/
inductive Traced (sys : System I Q A σ) (c : Config I Q A ε α σ) :
    List (Event I Q A) → Config I Q A ε α σ → Prop where
  | refl : Traced sys c [] c
  | tail {evs : List (Event I Q A)} {d : Config I Q A ε α σ} {i : I} {q : Q}
      {k : A q → Thread Q A ε α} {a : A q} {s' : σ} (run : Traced sys c evs d)
      (asks : d.threads i = .ask q k) (served : sys.serve i d.state q a s') :
      Traced sys c (evs ++ [⟨i, q, a⟩]) ⟨s', Function.update d.threads i (k a)⟩

variable {sys : System I Q A σ} {c d : Config I Q A ε α σ}

/-- A run reaches where it ends. -/
theorem Traced.reach {evs : List (Event I Q A)} (h : Traced sys c evs d) : Reach sys c d := by
  induction h with
  | refl => exact .refl
  | tail _ asks served ih => exact .tail ih (.answer asks served)

/-- Every state that is reached is reached by a run. -/
theorem Reach.traced (h : Reach sys c d) : ∃ evs, Traced sys c evs d := by
  induction h with
  | refl => exact ⟨[], .refl⟩
  | tail _ hstep ih =>
      obtain ⟨evs, hrun⟩ := ih
      cases hstep with
      | answer asks served => exact ⟨_, .tail hrun asks served⟩

/-- One thread of a run, as it is seen by somebody who looks only at what
that thread alone can change. -/
theorem Traced.leads {T : τ → (q : Q) → A q → τ → Prop} {view : σ → τ} {i : I}
    (hown : ∀ s q a s', sys.serve i s q a s' → T (view s) q a (view s'))
    (hothers : ∀ j s q a s', j ≠ i → sys.serve j s q a s' → view s' = view s)
    {evs : List (Event I Q A)} (h : Traced sys c evs d) :
    Thread.Leads T (c.threads i) (view c.state) (d.threads i) (view d.state) := by
  induction h with
  | refl => exact .here
  | @tail evs d j q k a s' _ asks served ih =>
      by_cases hj : j = i
      · subst hj
        rw [asks] at ih
        show Thread.Leads T _ _ (Function.update d.threads j (k a) j) (view s')
        rw [Function.update_self]
        exact ih.on (hown _ _ _ _ served)
      · show Thread.Leads T _ _ (Function.update d.threads j (k a) i) (view s')
        rw [Function.update_of_ne (Ne.symm hj), hothers _ _ _ _ _ hj served]
        exact ih

/-- One thread goes on while the others wait. -/
theorem reach_of_leads {i : I} {n : Thread Q A ε α} {s' : σ}
    (h : Thread.Leads (sys.serve i) (c.threads i) c.state n s') :
    Reach sys c ⟨s', Function.update c.threads i n⟩ := by
  induction h with
  | here => rw [Function.update_eq_self]
  | @on q k a s₁ s₂ _ told ih =>
      have hstep : Step sys ⟨s₁, Function.update c.threads i (.ask q k)⟩
          ⟨s₂, Function.update (Function.update c.threads i (.ask q k)) i (k a)⟩ :=
        .answer (Function.update_self ..) told
      rw [Function.update_idem] at hstep
      exact .tail ih hstep

/-- From a state of a run, one thread goes on. -/
theorem Reach.goes (h : Reach sys c d) {i : I} {m n : Thread Q A ε α} {s' : σ}
    (hm : d.threads i = m) (hl : Thread.Leads (sys.serve i) m d.state n s') :
    Reach sys c ⟨s', Function.update d.threads i n⟩ := by
  subst hm
  exact h.trans (reach_of_leads hl)

/-- A run each of whose steps meets a condition on what was asked before it
and on the states around it. -/
inductive TracedIn (sys : System I Q A σ) (C : List (Event I Q A) → σ → σ → Prop)
    (c : Config I Q A ε α σ) : List (Event I Q A) → Config I Q A ε α σ → Prop where
  | refl : TracedIn sys C c [] c
  | tail {evs : List (Event I Q A)} {d : Config I Q A ε α σ} {i : I} {q : Q}
      {k : A q → Thread Q A ε α} {a : A q} {s' : σ} (run : TracedIn sys C c evs d)
      (asks : d.threads i = .ask q k) (served : sys.serve i d.state q a s')
      (meets : C evs d.state s') :
      TracedIn sys C c (evs ++ [⟨i, q, a⟩]) ⟨s', Function.update d.threads i (k a)⟩

/-- A run, with no condition. -/
theorem Traced.tracedIn {evs : List (Event I Q A)} (h : Traced sys c evs d) :
    TracedIn sys (fun _ _ _ => True) c evs d := by
  induction h with
  | refl => exact .refl
  | tail _ asks served ih => exact .tail ih asks served trivial

theorem TracedIn.traced {C : List (Event I Q A) → σ → σ → Prop} {evs : List (Event I Q A)}
    (h : TracedIn sys C c evs d) : Traced sys c evs d := by
  induction h with
  | refl => exact .refl
  | tail _ asks served _ ih => exact .tail ih asks served

/-- A condition may be made weaker. -/
theorem TracedIn.mono {C C' : List (Event I Q A) → σ → σ → Prop} {evs : List (Event I Q A)}
    (h : TracedIn sys C c evs d) (hC : ∀ evs s s', C evs s s' → C' evs s s') :
    TracedIn sys C' c evs d := by
  induction h with
  | refl => exact .refl
  | tail _ asks served meets ih => exact .tail ih asks served (hC _ _ _ meets)

/-- One step more, and what is said of the run after it. -/
theorem TracedIn.step {C : List (Event I Q A) → σ → σ → Prop} {P : Prop}
    {evs : List (Event I Q A)} {i : I} {q : Q} {k : A q → Thread Q A ε α} {a : A q} {s' : σ}
    (h : TracedIn sys C c evs d) (asks : d.threads i = .ask q k)
    (served : sys.serve i d.state q a s') (meets : C evs d.state s')
    (hP : TracedIn sys C c (evs ++ [⟨i, q, a⟩]) ⟨s', Function.update d.threads i (k a)⟩ → P) :
    P := hP (.tail h asks served meets)

/-- **An invariant that every answer keeps** in runs that meet `C`,
wherever the threads stand. -/
def UpholdsIn (sys : System I Q A σ) (C : List (Event I Q A) → σ → σ → Prop)
    (P : I → Protocol Q A τ) (Inv : List (Event I Q A) → σ → (I → τ) → Prop) : Prop :=
  ∀ evs s ts i q a s', Inv evs s ts → (P i).asks (ts i) q → sys.serve i s q a s' → C evs s s' →
    ∃ t', (P i).told (ts i) q a t' ∧ Inv (evs ++ [⟨i, q, a⟩]) s' (Function.update ts i t')

/-- **Soundness**: threads that keep to their protocols do so in every such
run, and the invariant holds all the way. -/
theorem TracedIn.upheld {C : List (Event I Q A) → σ → σ → Prop} {P : I → Protocol Q A τ}
    {Inv : List (Event I Q A) → σ → (I → τ) → Prop} (hup : UpholdsIn sys C P Inv)
    {R : I → Thread.Ends ε τ α} {ts : I → τ} (hi : Inv [] c.state ts)
    (hwp : ∀ i, (c.threads i).wp (P i) (R i) (ts i)) {evs : List (Event I Q A)}
    (h : TracedIn sys C c evs d) :
    ∃ ts', Inv evs d.state ts' ∧ ∀ i, (d.threads i).wp (P i) (R i) (ts' i) := by
  induction h with
  | refl => exact ⟨ts, hi, hwp⟩
  | @tail evs d i q k a s' _ asks served meets ih =>
      obtain ⟨ts, hi, hwp⟩ := ih
      have hi_wp := hwp i
      rw [asks] at hi_wp
      obtain ⟨t', htold, hi'⟩ := hup evs d.state ts i q a s' hi hi_wp.1 served meets
      refine ⟨Function.update ts i t', hi', ?_⟩
      intro j
      by_cases hj : j = i
      · subst hj
        show (Function.update d.threads j (k a) j).wp (P j) (R j) (Function.update ts j t' j)
        rw [Function.update_self, Function.update_self]
        exact hi_wp.2 a t' htold
      · show (Function.update d.threads i (k a) j).wp (P j) (R j) (Function.update ts i t' j)
        rw [Function.update_of_ne hj, Function.update_of_ne hj]
        exact hwp j

/-- An invariant that every answer keeps in every run. -/
def Upholds (sys : System I Q A σ) (P : I → Protocol Q A τ)
    (Inv : List (Event I Q A) → σ → (I → τ) → Prop) : Prop :=
  ∀ evs s ts i q a s', Inv evs s ts → (P i).asks (ts i) q → sys.serve i s q a s' →
    ∃ t', (P i).told (ts i) q a t' ∧ Inv (evs ++ [⟨i, q, a⟩]) s' (Function.update ts i t')

/-- Soundness, for every run. -/
theorem Traced.upheld {P : I → Protocol Q A τ} {Inv : List (Event I Q A) → σ → (I → τ) → Prop}
    (hup : Upholds sys P Inv) {R : I → Thread.Ends ε τ α} {ts : I → τ} (hi : Inv [] c.state ts)
    (hwp : ∀ i, (c.threads i).wp (P i) (R i) (ts i)) {evs : List (Event I Q A)}
    (h : Traced sys c evs d) :
    ∃ ts', Inv evs d.state ts' ∧ ∀ i, (d.threads i).wp (P i) (R i) (ts' i) := by
  refine h.tracedIn.upheld (fun evs s ts i q a s' hinv hasks hserve _ => ?_) hi hwp
  exact hup evs s ts i q a s' hinv hasks hserve

end Traced

end Interleave
