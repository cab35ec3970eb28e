/-
  ItbCpp.Lib.Within
  ─────────────────
  **WHAT A RUN CAN DO TO THE STATE, READ OFF THE PROGRAM'S TEXT.**

  `Within R m`: however a run of `m` stands, the state it has reached is
  related by `R` to the state it began in.  For a preorder `R` there is one
  rule per construct of `Prog`, so what a program can do follows from what
  its primitive steps can do.

  `Settles R X m` says as well that the run ends: it returns, or it throws
  an exception in `X`.

  `Extends log P` is the preorder of a log that only grows, by entries that
  satisfy `P`.

  Nothing here is about a particular program.
-/
import ItbCpp.Lib.Prog
import Mathlib.Order.Defs.Unbundled

namespace Prog

variable {ε σ τ α β κ : Type}

/-- From every state, a run of `m` stays within `R` of where it began. -/
def Within (R : σ → σ → Prop) (m : Prog ε σ α) : Prop := ∀ s, R s (m s).state

namespace Within

variable {R : σ → σ → Prop}

/-- As a postcondition. -/
theorem wp {m : Prog ε σ α} (h : Within R m) (s : σ) :
    Prog.wp m ⟨fun _ s' => R s s', fun _ s' => R s s', fun s' => R s s'⟩ s := by
  have hs := h s
  unfold Prog.wp
  cases hm : m s <;> rw [hm] at hs <;> exact hs

/-- An update is within `R` where `R` says so. -/
theorem modify {f : σ → σ} (h : ∀ s, R s (f s)) : Within R (Prog.modify f : Prog ε σ Unit) := h

/-- Both branches of a choice. -/
theorem ite {c : Prop} [Decidable c] {m m' : Prog ε σ α} (hm : Within R m)
    (hm' : Within R m') : Within R (if c then m else m') := by
  by_cases hc : c
  · rw [if_pos hc]
    exact hm
  · rw [if_neg hc]
    exact hm'

section Preorder

variable [IsPreorder σ R]

/-- What does not touch the state is within every preorder. -/
theorem pure (a : α) : Within R (Pure.pure a : Prog ε σ α) := fun s => refl_of R s

theorem get : Within R (Prog.get : Prog ε σ σ) := fun s => refl_of R s

theorem throw (e : ε) : Within R (Prog.throw e : Prog ε σ α) := fun s => refl_of R s

/-- Two computations: by transitivity. -/
theorem bind {m : Prog ε σ α} {f : α → Prog ε σ β} (hm : Within R m)
    (hf : ∀ a, Within R (f a)) : Within R (m >>= f) := by
  intro s
  have h := hm s
  show R s (Prog.bind m f s).state
  unfold Prog.bind
  cases hms : m s with
  | ok a s' =>
      rw [hms] at h
      exact trans_of R h (hf a s')
  | threw e s' =>
      rw [hms] at h
      exact h
  | running s' =>
      rw [hms] at h
      exact h

/-- A scope and its destructor, on both ways out. -/
theorem ensuring {m : Prog ε σ α} {d : Prog ε σ Unit} (hm : Within R m) (hd : Within R d) :
    Within R (Prog.ensuring m d) := by
  intro s
  have h := hm s
  unfold Prog.ensuring
  cases hms : m s with
  | ok a s' =>
      rw [hms] at h
      exact trans_of R h (bind hd (fun _ => pure a) s')
  | threw e s' =>
      rw [hms] at h
      exact trans_of R h (bind hd (fun _ => throw e) s')
  | running s' =>
      rw [hms] at h
      exact h

/-- A computation and each of its handlers. -/
theorem handle {m : Prog ε σ α} {f : ε → Prog ε σ α} (hm : Within R m)
    (hf : ∀ e, Within R (f e)) : Within R (Prog.handle m f) := by
  intro s
  have h := hm s
  unfold Prog.handle
  cases hms : m s with
  | ok a s' =>
      rw [hms] at h
      exact h
  | threw e s' =>
      rw [hms] at h
      exact trans_of R h (hf e s')
  | running s' =>
      rw [hms] at h
      exact h

/-- A loop, however often it runs: by induction on its fuel. -/
theorem loop {body : Prog ε σ Bool} (hb : Within R body) (fuel : Nat) :
    Within R (Prog.loop fuel body) := by
  induction fuel with
  | zero => exact fun s => refl_of R s
  | succ fuel ih =>
      refine bind hb fun b => ?_
      cases b with
      | true => exact ih
      | false => exact pure ()

/-- A loop with a condition is a loop. -/
theorem while_ {cond : σ → Bool} {body : Prog ε σ Unit} (hb : Within R body) (fuel : Nat) :
    Within R (Prog.while_ fuel cond body) := by
  refine loop ?_ fuel
  refine bind get fun s => ?_
  exact ite (bind hb fun _ => pure true) (pure false)

end Preorder

/-- A computation on a part of the state. -/
theorem zoom {R' : τ → τ → Prop} {view : τ → σ} {put : σ → τ → τ} {m : Prog ε σ α}
    (hm : Within R m) (hput : ∀ t s, R (view t) s → R' t (put s t)) :
    Within R' (Prog.zoom view put m) := by
  intro t
  have h := hput t _ (hm (view t))
  unfold Prog.zoom
  cases hms : m (view t) <;> rw [hms] at h <;> exact h

end Within

/-! ## Runs that end. -/

/-- From every state, a run of `m` ends within `R` of where it began, and throws
nothing but what is in `X`. -/
def Settles (R : σ → σ → Prop) (X : ε → Prop) (m : Prog ε σ α) : Prop :=
  ∀ s, Prog.wp m ⟨fun _ s' => R s s', fun e s' => X e ∧ R s s', fun _ => False⟩ s

namespace Settles

variable {R : σ → σ → Prop} {X X' : ε → Prop}

/-- The rules again, for a computation that may throw only what `X` allows. -/
theorem modify {f : σ → σ} (h : ∀ s, R s (f s)) : Settles R X (Prog.modify f : Prog ε σ Unit) := h

/-- It is one within `R` that ends. -/
theorem of_within {m : Prog ε σ α} (hm : Within R m)
    (hend : ∀ s, Prog.wp m ⟨fun _ _ => True, fun e _ => X e, fun _ => False⟩ s) :
    Settles R X m := by
  intro s
  refine ((hm.wp s).and (hend s)).mono (fun _ _ h => h.1) (fun e t h => ⟨h.2, h.1⟩) fun t h => h.2

theorem ite {c : Prop} [Decidable c] {m m' : Prog ε σ α} (hm : Settles R X m)
    (hm' : Settles R X m') : Settles R X (if c then m else m') := by
  by_cases hc : c
  · rw [if_pos hc]
    exact hm
  · rw [if_neg hc]
    exact hm'

variable [IsPreorder σ R]

theorem pure (a : α) : Settles R X (Pure.pure a : Prog ε σ α) := fun s => refl_of R s

/-- An exception that is allowed. -/
theorem throw {e : ε} (he : X e) : Settles R X (Prog.throw e : Prog ε σ α) :=
  fun s => ⟨he, refl_of R s⟩

/-- Two computations, each of which may throw. -/
theorem bind {m : Prog ε σ α} {f : α → Prog ε σ β} (hm : Settles R X m)
    (hf : ∀ a, Settles R X (f a)) : Settles R X (m >>= f) := by
  intro s
  rw [wp_bind]
  refine (hm s).mono (fun a t h => ?_) (fun e t h => h) fun t h => h
  refine (hf a t).mono (fun b u h' => ?_) (fun e u h' => ?_) fun u h' => h'
  · exact trans_of R h h'
  · exact ⟨h'.1, trans_of R h h'.2⟩

/-- What the handler throws is all that is thrown. -/
theorem handle {m : Prog ε σ α} {f : ε → Prog ε σ α} (hm : Settles R X m)
    (hf : ∀ e, X e → Settles R X' (f e)) : Settles R X' (Prog.handle m f) := by
  intro s
  rw [wp_handle]
  refine (hm s).mono (fun a t h => h) (fun e t h => ?_) fun t h => h
  refine (hf e h.1 t).mono (fun b u h' => ?_) (fun e' u h' => ?_) fun u h' => h'
  · exact trans_of R h.2 h'
  · exact ⟨h'.1, trans_of R h.2 h'.2⟩

end Settles

/-! ## Logs. -/

/-- The log read by `log` has only grown, by entries that satisfy `P`. -/
def Extends (log : σ → List κ) (P : κ → Prop) (s s' : σ) : Prop :=
  ∃ new, log s' = log s ++ new ∧ ∀ e ∈ new, P e

/-- Logs that grow do so transitively. -/
instance (log : σ → List κ) (P : κ → Prop) : IsPreorder σ (Extends log P) where
  refl s := ⟨[], by simp, by simp⟩
  trans s s' s'' h h' := by
    obtain ⟨new, hnew, hall⟩ := h
    obtain ⟨new', hnew', hall'⟩ := h'
    refine ⟨new ++ new', by rw [hnew', hnew, List.append_assoc], ?_⟩
    intro e he
    rcases List.mem_append.mp he with he | he
    · exact hall e he
    · exact hall' e he

/-- An entry that fails `P`, in a log with one entry apart from which all
satisfy it, is that entry. -/
theorem unique_split {P : κ → Prop} {pre pre' post post' : List κ} {e e' : κ}
    (h : pre ++ e :: post = pre' ++ e' :: post') (hpre : ∀ x ∈ pre', P x)
    (hpost : ∀ x ∈ post', P x) (he : ¬P e) : pre = pre' ∧ e = e' ∧ post = post' := by
  rcases List.append_eq_append_iff.mp h with hcase | hcase
  · obtain ⟨as, hpre', has⟩ := hcase
    cases as with
    | nil =>
        simp only [List.append_nil] at hpre'
        injection has with heq hrest
        exact ⟨hpre'.symm, heq, hrest⟩
    | cons a as =>
        injection has with heq _
        exact absurd (hpre e (by rw [hpre', heq]; simp)) he
  · obtain ⟨bs, hpre', hbs⟩ := hcase
    cases bs with
    | nil =>
        simp only [List.append_nil] at hpre'
        injection hbs with heq hrest
        exact ⟨hpre', heq.symm, hrest.symm⟩
    | cons b bs =>
        injection hbs with _ hrest
        exact absurd (hpost e (by rw [hrest]; simp)) he

/-- Every entry of the log satisfies `P`, given what stands before it. -/
def AtEach (P : List κ → κ → Prop) (log : List κ) : Prop :=
  ∀ pre e post, log = pre ++ e :: post → P pre e

/-- Of an empty log there is nothing to say. -/
theorem atEach_nil {P : List κ → κ → Prop} : AtEach P [] := by
  intro pre e post h
  simp at h

/-- One entry more, judged by the entries before it. -/
theorem atEach_snoc {P : List κ → κ → Prop} {log : List κ} {e : κ} (h : AtEach P log)
    (he : P log e) : AtEach P (log ++ [e]) := by
  intro pre e' post heq
  -- the entry is the last one, or it stands in the old log
  rcases List.eq_nil_or_concat post with hpost | hpost
  · subst hpost
    obtain ⟨hlog, hlast⟩ := List.append_inj' heq rfl
    injection hlast with hlast
    rw [← hlog, ← hlast]
    exact he
  · obtain ⟨post', last, hpost⟩ := hpost
    rw [hpost] at heq
    have hsplit : log ++ [e] = (pre ++ e' :: post') ++ [last] := by
      rw [heq]
      simp
    exact h pre e' post' (List.append_inj' hsplit rfl).1

/-- Entries that satisfy `P` wherever they stand can be added. -/
theorem atEach_append {P : List κ → κ → Prop} {log new : List κ} (h : AtEach P log)
    (hnew : ∀ e ∈ new, ∀ pre, P pre e) : AtEach P (log ++ new) := by
  induction new generalizing log with
  | nil =>
      rw [List.append_nil]
      exact h
  | cons e new ih =>
      rw [← List.singleton_append, ← List.append_assoc]
      refine ih (atEach_snoc h (hnew e (by simp) log)) ?_
      intro e' he'
      exact hnew e' (List.mem_cons_of_mem e he')

end Prog
