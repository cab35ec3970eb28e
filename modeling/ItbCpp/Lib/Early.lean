/-
  ItbCpp.Lib.Early
  ────────────────
  **EARLY RETURN.**

  An `Early ρ ε σ α` goes on with an `α` or leaves the function it is part
  of with a `ρ`.  A validator is a chain of such checks: it leaves at the
  first one that fails.

  `Judged rules P m` says what a validator decides, from every state: it
  leaves with the answer of the first broken rule, and goes on with a value
  that satisfies `P` if none is broken.

    • `Judged.bind` — the rules of the parts, one after the other,
    • `Judged.goes_iff`, `Judged.leaves_iff` — it does nothing else.

  `wp m P E` is total: `m` comes back, and it goes on with `P` or leaves
  with `E`.  A scope runs its destructor when its body leaves.

    • `wp_bind`, `wp_unwinding`, `Comes.bind` — the rules.

  Nothing here is about a particular program.
-/
import ItbCpp.Lib.Within

/-- A computation that may leave its function early. -/
abbrev Early (ρ ε σ α : Type) := ExceptT ρ (Prog ε σ) α

namespace Early

variable {ρ ε σ α β : Type}

/-- `return r;` -/
def leave (r : ρ) : Early ρ ε σ α := ExceptT.mk (pure (.error r))

/-- `if (!c) return r;` -/
def require (c : Prop) [Decidable c] (r : ρ) : Early ρ ε σ Unit := if c then pure () else leave r

/-- `m` in the scope of an object with the destructor `d`: what leaves the
function runs it on the way, what goes on has moved the object out. -/
def unwinding (d : Prog ε σ Unit) (m : Early ρ ε σ α) : Early ρ ε σ α :=
  ExceptT.mk do
    match ← m.run with
    | .ok a => pure (.ok a)
    | .error r => do
        d
        pure (.error r)

section Runs

variable {m : Early ρ ε σ α} {f : α → Early ρ ε σ β} {s s' : σ} {a : α} {r : ρ}

/-- What goes on goes on from there. -/
theorem run_bind_ok (h : m.run s = .ok (.ok a) s') : (m >>= f).run s = (f a).run s' := by
  show Prog.bind m _ s = _
  unfold Prog.bind
  rw [show m s = .ok (.ok a) s' from h]
  rfl

/-- What has left has left. -/
theorem run_bind_error (h : m.run s = .ok (.error r) s') :
    (m >>= f).run s = .ok (.error r) s' := by
  show Prog.bind m _ s = _
  unfold Prog.bind
  rw [show m s = .ok (.error r) s' from h]
  rfl

/-- What goes on out of a scope takes the object along. -/
theorem run_unwinding_ok {d : Prog ε σ Unit} (h : m.run s = .ok (.ok a) s') :
    (unwinding d m).run s = .ok (.ok a) s' := by
  show Prog.bind m.run _ s = _
  unfold Prog.bind
  rw [h]
  rfl

/-- A computation that cannot leave. -/
theorem run_lift {m : Prog ε σ α} (h : m s = .ok a s') :
    (liftM m : Early ρ ε σ α).run s = .ok (.ok a) s' := by
  show Prog.bind m _ s = _
  unfold Prog.bind
  rw [h]
  rfl

end Runs

/-! ## §1. Rules. -/

/-- What is asked, and the answer when it does not hold. -/
structure Rule (ρ : Type) where
  holds : Prop
  answer : ρ

/-- The first rule that does not hold answers `x`. -/
inductive Breaks : List (Rule ρ) → ρ → Prop where
  | first {rule : Rule ρ} {rules : List (Rule ρ)} (broken : ¬ rule.holds) :
      Breaks (rule :: rules) rule.answer
  | later {rule : Rule ρ} {rules : List (Rule ρ)} {x : ρ} (kept : rule.holds)
      (rest : Breaks rules x) : Breaks (rule :: rules) x

/-- All of them hold. -/
def AllHold (rules : List (Rule ρ)) : Prop := ∀ rule ∈ rules, rule.holds

section Rules

variable {rules rules' : List (Rule ρ)} {rule : Rule ρ} {x y : ρ}

@[simp] theorem allHold_nil : AllHold ([] : List (Rule ρ)) := by
  simp [AllHold]

@[simp] theorem allHold_cons : AllHold (rule :: rules) ↔ rule.holds ∧ AllHold rules := by
  simp [AllHold]

theorem allHold_append : AllHold (rules ++ rules') ↔ AllHold rules ∧ AllHold rules' := by
  simp [AllHold, or_imp, forall_and]

@[simp] theorem not_breaks_nil : ¬ Breaks ([] : List (Rule ρ)) x := by
  intro h
  cases h

theorem breaks_cons : Breaks (rule :: rules) x ↔
    (¬ rule.holds ∧ rule.answer = x) ∨ (rule.holds ∧ Breaks rules x) := by
  constructor
  · intro h
    cases h with
    | first broken => exact Or.inl ⟨broken, rfl⟩
    | later kept rest => exact Or.inr ⟨kept, rest⟩
  · rintro (⟨broken, rfl⟩ | ⟨kept, rest⟩)
    · exact .first broken
    · exact .later kept rest

theorem breaks_append :
    Breaks (rules ++ rules') x ↔ Breaks rules x ∨ (AllHold rules ∧ Breaks rules' x) := by
  induction rules with
  | nil => simp
  | cons rule rules ih =>
      rw [List.cons_append, breaks_cons, breaks_cons, ih, allHold_cons]
      simp only [and_or_left, and_assoc, or_assoc]

/-- One or the other. -/
theorem allHold_or_breaks (rules : List (Rule ρ)) : AllHold rules ∨ ∃ x, Breaks rules x := by
  induction rules with
  | nil => exact Or.inl allHold_nil
  | cons rule rules ih =>
      by_cases hrule : rule.holds
      · rcases ih with hall | ⟨x, hx⟩
        · exact Or.inl (allHold_cons.mpr ⟨hrule, hall⟩)
        · exact Or.inr ⟨x, .later hrule hx⟩
      · exact Or.inr ⟨rule.answer, .first hrule⟩

theorem Breaks.unique (h : Breaks rules x) (h' : Breaks rules y) : x = y := by
  induction h with
  | first broken =>
      cases h' with
      | first => rfl
      | later kept => exact (broken kept).elim
  | later kept rest ih =>
      cases h' with
      | first broken => exact (broken kept).elim
      | later _ rest' => exact ih rest'

end Rules

/-! ## §2. Validators. -/

/-- What a validator decides. -/
structure Judged (rules : List (Rule ρ)) (P : α → Prop) (m : Early ρ ε σ α) : Prop where
  goes : AllHold rules → ∀ s, ∃ a s', m.run s = .ok (.ok a) s' ∧ P a
  leaves : ∀ x, Breaks rules x → ∀ s, ∃ s', m.run s = .ok (.error x) s'

namespace Judged

variable {rules rules' : List (Rule ρ)} {P : α → Prop} {Q : β → Prop} {m : Early ρ ε σ α}
  {f : α → Early ρ ε σ β} {s : σ}

protected theorem pure {a : α} (h : P a) : Judged [] P (pure a : Early ρ ε σ α) := by
  refine ⟨fun _ s => ⟨a, s, rfl, h⟩, ?_⟩
  intro x hx
  exact (not_breaks_nil hx).elim

/-- A computation that returns from every state. -/
protected theorem lift {m : Prog ε σ α} (h : ∀ s, ∃ a s', m s = .ok a s' ∧ P a) :
    Judged [] P (liftM m : Early ρ ε σ α) := by
  constructor
  · intro _ s
    obtain ⟨a, s', hrun, ha⟩ := h s
    exact ⟨a, s', run_lift hrun, ha⟩
  · intro x hx
    exact (not_breaks_nil hx).elim

/-- Nothing after a broken rule counts. -/
protected theorem leave {x : ρ} {c : Prop} (h : ¬ c) :
    Judged (⟨c, x⟩ :: rules) P (leave x : Early ρ ε σ α) := by
  constructor
  · intro hall
    exact (h (allHold_cons.mp hall).1).elim
  · intro y hy s
    obtain ⟨-, rfl⟩ | ⟨hc, -⟩ := breaks_cons.mp hy
    · exact ⟨s, rfl⟩
    · exact (h hc).elim

/-- The rules of the parts, one after the other. -/
protected theorem bind (hm : Judged rules P m) (hf : ∀ a, P a → Judged rules' Q (f a)) :
    Judged (rules ++ rules') Q (m >>= f) := by
  constructor
  · intro hall s
    obtain ⟨hfirst, hsecond⟩ := allHold_append.mp hall
    obtain ⟨a, s', hrun, ha⟩ := hm.goes hfirst s
    rw [run_bind_ok hrun]
    exact (hf a ha).goes hsecond s'
  · intro x hx s
    rcases breaks_append.mp hx with hfirst | ⟨hall, hsecond⟩
    · obtain ⟨s', hrun⟩ := hm.leaves x hfirst s
      exact ⟨s', run_bind_error hrun⟩
    · obtain ⟨a, s', hrun, ha⟩ := hm.goes hall s
      rw [run_bind_ok hrun]
      exact (hf a ha).leaves x hsecond s'

/-- A part with one rule. -/
protected theorem cons {rule : Rule ρ} (hm : Judged [rule] P m)
    (hf : ∀ a, P a → Judged rules' Q (f a)) : Judged (rule :: rules') Q (m >>= f) :=
  hm.bind hf

/-- A rule that is known to hold does not count. -/
protected theorem kept {c : Prop} {x : ρ} (hc : c) (hm : Judged rules P m) :
    Judged (⟨c, x⟩ :: rules) P m := by
  constructor
  · intro hall
    exact hm.goes (allHold_cons.mp hall).2
  · intro y hy
    rcases breaks_cons.mp hy with ⟨hno, -⟩ | ⟨-, hrest⟩
    · exact (hno hc).elim
    · exact hm.leaves y hrest

/-- A check. -/
protected theorem require {c : Prop} [Decidable c] {x : ρ} :
    Judged [⟨c, x⟩] (fun _ => c) (require c x : Early ρ ε σ Unit) := by
  unfold Early.require
  by_cases hc : c
  · rw [if_pos hc]
    exact .kept hc (.pure hc)
  · rw [if_neg hc]
    exact .leave hc

/-- Equivalent rules decide the same. -/
protected theorem congr {c c' : Prop} {x : ρ} (h : c ↔ c')
    (hm : Judged (⟨c, x⟩ :: rules) P m) : Judged (⟨c', x⟩ :: rules) P m := by
  rw [← propext h]
  exact hm

protected theorem mono {P' : α → Prop} (hm : Judged rules P m) (h : ∀ a, P a → P' a) :
    Judged rules P' m := by
  refine ⟨fun hall s => ?_, hm.leaves⟩
  obtain ⟨a, s', hrun, ha⟩ := hm.goes hall s
  exact ⟨a, s', hrun, h a ha⟩

/-- It leaves with `x` exactly when the first broken rule does. -/
theorem leaves_iff (hm : Judged rules P m) (s : σ) {x : ρ} :
    (∃ s', m.run s = .ok (.error x) s') ↔ Breaks rules x := by
  refine ⟨fun h => ?_, fun hx => hm.leaves x hx s⟩
  obtain ⟨s', hrun⟩ := h
  rcases allHold_or_breaks rules with hall | ⟨y, hy⟩
  · obtain ⟨a, s'', hrun', -⟩ := hm.goes hall s
    rw [hrun'] at hrun
    cases hrun
  · obtain ⟨s'', hrun'⟩ := hm.leaves y hy s
    rw [hrun'] at hrun
    cases hrun
    exact hy

/-- It goes on exactly when no rule is broken, with the one value there is. -/
theorem goes_iff (hm : Judged rules P m) (hP : ∀ a b, P a → P b → a = b) (s : σ) {a : α} :
    (∃ s', m.run s = .ok (.ok a) s') ↔ AllHold rules ∧ P a := by
  constructor
  · intro h
    obtain ⟨s', hrun⟩ := h
    rcases allHold_or_breaks rules with hall | ⟨y, hy⟩
    · obtain ⟨b, s'', hrun', hb⟩ := hm.goes hall s
      rw [hrun'] at hrun
      cases hrun
      exact ⟨hall, hb⟩
    · obtain ⟨s'', hrun'⟩ := hm.leaves y hy s
      rw [hrun'] at hrun
      cases hrun
  · intro h
    obtain ⟨hall, ha⟩ := h
    obtain ⟨b, s', hrun, hb⟩ := hm.goes hall s
    rw [hP a b ha hb]
    exact ⟨s', hrun⟩

end Judged

/-! ## §3. Weakest preconditions. -/

/-- Run from `s`, the computation comes back: it goes on with `P` or leaves
with `E`. -/
def wp (m : Early ρ ε σ α) (P : α → σ → Prop) (E : ρ → σ → Prop) (s : σ) : Prop :=
  Prog.wp m.run
    ⟨fun x s' =>
      match x with
      | .ok a => P a s'
      | .error r => E r s', fun _ _ => False, fun _ => False⟩ s

section Weakest

variable {P P' : α → σ → Prop} {Q : β → σ → Prop} {E E' : ρ → σ → Prop} {m : Early ρ ε σ α} {s : σ}

theorem wp_pure {a : α} (h : P a s) : wp (pure a : Early ρ ε σ α) P E s := h

theorem wp_leave {r : ρ} (h : E r s) : wp (leave r : Early ρ ε σ α) P E s := h

theorem wp.mono (h : wp m P E s) (hgo : ∀ a t, P a t → P' a t) (hleave : ∀ r t, E r t → E' r t) :
    wp m P' E' s := by
  refine Prog.wp.mono_ok h ?_
  intro x t hx
  cases x with
  | ok a => exact hgo a t hx
  | error r => exact hleave r t hx

theorem wp_bind {f : α → Early ρ ε σ β} (h : wp m (fun a => wp (f a) Q E) E s) :
    wp (m >>= f) Q E s := by
  show Prog.wp (m.run >>= _) _ s
  rw [Prog.wp_bind]
  refine Prog.wp.mono_ok h ?_
  intro x t hx
  cases x with
  | ok a => exact hx
  | error r => exact hx

/-- What cannot leave goes on. -/
theorem wp_lift {m : Prog ε σ α} (h : Prog.wp m ⟨P, fun _ _ => False, fun _ => False⟩ s) :
    wp (liftM m : Early ρ ε σ α) P E s := by
  show Prog.wp (m >>= fun a => pure (Except.ok a)) _ s
  rw [Prog.wp_bind]
  exact h

theorem wp_require {c : Prop} [Decidable c] {r : ρ} {P : Unit → σ → Prop} (hgo : c → P () s)
    (hleave : ¬ c → E r s) : wp (require c r : Early ρ ε σ Unit) P E s := by
  unfold require
  by_cases hc : c
  · rw [if_pos hc]
    exact wp_pure (hgo hc)
  · rw [if_neg hc]
    exact wp_leave (hleave hc)

/-- The answer of a part, as the whole gives it. -/
theorem wp_adapt {ρ' : Type} {g : ρ → ρ'} {E : ρ' → σ → Prop}
    (h : wp m P (fun r => E (g r)) s) : wp (ExceptT.adapt g m) P E s := by
  show Prog.wp (m.run >>= fun x => pure (x.mapError g)) _ s
  rw [Prog.wp_bind]
  refine Prog.wp.mono_ok h ?_
  intro x t hx
  cases x with
  | ok a => exact hx
  | error r => exact hx

/-- What leaves a scope has run the destructor. -/
theorem wp_unwinding {d : Prog ε σ Unit}
    (h : wp m P (fun r => Prog.wp d ⟨fun _ => E r, fun _ _ => False, fun _ => False⟩) s) :
    wp (unwinding d m) P E s := by
  show Prog.wp (m.run >>= _) _ s
  rw [Prog.wp_bind]
  refine Prog.wp.mono h (fun x t hx => ?_) (fun _ _ h => h) fun _ h => h
  cases x with
  | ok a => exact hx
  | error r =>
      show Prog.wp (d >>= fun _ => pure (Except.error r)) _ t
      rw [Prog.wp_bind]
      exact hx

theorem wp.goes (h : wp m P E s) {a : α} {t : σ} (hrun : m.run s = .ok (.ok a) t) : P a t := by
  unfold wp Prog.wp at h
  rw [hrun] at h
  exact h

theorem wp.leaves (h : wp m P E s) {r : ρ} {t : σ} (hrun : m.run s = .ok (.error r) t) :
    E r t := by
  unfold wp Prog.wp at h
  rw [hrun] at h
  exact h

end Weakest

/-- From every state, `m` comes back in one that `R` relates to it: it goes on
with a value in `P` or leaves with an answer in `E`. -/
def Comes (R : σ → σ → Prop) (P : α → Prop) (E : ρ → Prop) (m : Early ρ ε σ α) : Prop :=
  ∀ s, wp m (fun a t => R s t ∧ P a) (fun r t => R s t ∧ E r) s

namespace Comes

variable {R : σ → σ → Prop} {P : α → Prop} {Q : β → Prop} {E : ρ → Prop} {m : Early ρ ε σ α}
  {f : α → Early ρ ε σ β}

protected theorem lift {m : Prog ε σ α}
    (h : ∀ s, Prog.wp m ⟨fun a t => R s t ∧ P a, fun _ _ => False, fun _ => False⟩ s) :
    Comes R P E (liftM m : Early ρ ε σ α) :=
  fun s => wp_lift (h s)

variable [IsPreorder σ R]

protected theorem unwinding {d : Prog ε σ Unit} (hd : Prog.Settles R (fun _ => False) d)
    (hm : Comes R P E m) : Comes R P E (unwinding d m) := by
  intro s
  refine wp_unwinding ((hm s).mono (fun _ _ h => h) fun r t h => ?_)
  refine (hd t).mono (fun _ u h' => ?_) (fun _ _ h' => h'.1) fun _ h' => h'
  exact ⟨trans_of R h.1 h', h.2⟩

protected theorem pure {a : α} (h : P a) : Comes R P E (pure a : Early ρ ε σ α) :=
  fun s => wp_pure ⟨refl_of R s, h⟩

protected theorem leave {r : ρ} (h : E r) : Comes R P E (leave r : Early ρ ε σ α) :=
  fun s => wp_leave ⟨refl_of R s, h⟩

protected theorem require {c : Prop} [Decidable c] {r : ρ} (h : E r) :
    Comes R (fun _ => c) E (require c r : Early ρ ε σ Unit) :=
  fun s => wp_require (fun hc => ⟨refl_of R s, hc⟩) fun _ => ⟨refl_of R s, h⟩

protected theorem bind (hm : Comes R P E m) (hf : ∀ a, P a → Comes R Q E (f a)) :
    Comes R Q E (m >>= f) := by
  intro s
  refine wp_bind ((hm s).mono (fun a t hgo => ?_) fun _ _ h => h)
  obtain ⟨hfirst, ha⟩ := hgo
  refine (hf a ha t).mono (fun b u h => ?_) fun r u h => ?_
  · exact ⟨trans_of R hfirst h.1, h.2⟩
  · exact ⟨trans_of R hfirst h.1, h.2⟩

end Comes

end Early
