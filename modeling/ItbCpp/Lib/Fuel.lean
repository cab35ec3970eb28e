/-
  ItbCpp.Lib.Fuel
  ───────────────
  **MORE FUEL CHANGES NOTHING.**

  A loop of a computation runs on fuel.  `Less m m'` says that `m` is `m'` on
  less of it: where `m` ends, `m'` ends alike.  Every way to put computations
  together keeps that, so a result that was reached with some fuel is the
  result with any more.

    • `Less.bind`, `Less.ensuring`, … — one lemma for each way,
    • `Less.loop` — and the loop, where the fuel is spent.

  Nothing here is about a particular program.
-/
import ItbCpp.Lib.Prog

namespace Prog

variable {ε σ τ α β : Type}

/-- Where `m` ends, `m'` ends alike. -/
def Less (m m' : Prog ε σ α) : Prop := ∀ s, (m s).done = true → m' s = m s

namespace Less

variable {m m' : Prog ε σ α}

protected theorem rfl : Less m m := fun _ _ => rfl

protected theorem bind {f f' : α → Prog ε σ β} (hm : Less m m') (hf : ∀ a, Less (f a) (f' a)) :
    Less (m >>= f) (m' >>= f') := by
  intro s h
  have hsame := hm s
  cases hres : m s with
  | ok a t =>
      rw [hres] at hsame
      rw [bind_ok hres] at h ⊢
      rw [bind_ok (hsame rfl)]
      exact hf a t h
  | threw e t =>
      rw [hres] at hsame
      rw [bind_threw hres, bind_threw (hsame rfl)]
  | running t =>
      rw [bind_running hres] at h
      cases h

protected theorem ite {c : Prop} [Decidable c] {m₁ m₁' : Prog ε σ α} (hm : Less m m')
    (hm₁ : Less m₁ m₁') : Less (if c then m else m₁) (if c then m' else m₁') := by
  by_cases hc : c
  · rw [if_pos hc, if_pos hc]
    exact hm
  · rw [if_neg hc, if_neg hc]
    exact hm₁

protected theorem handle {f f' : ε → Prog ε σ α} (hm : Less m m')
    (hf : ∀ e, Less (f e) (f' e)) : Less (Prog.handle m f) (Prog.handle m' f') := by
  intro s h
  have hsame := hm s
  cases hres : m s with
  | ok a t =>
      rw [hres] at hsame
      rw [handle_ok hres, handle_ok (hsame rfl)]
  | threw e t =>
      rw [hres] at hsame
      rw [handle_threw hres] at h ⊢
      rw [handle_threw (hsame rfl)]
      exact hf e t h
  | running t =>
      rw [handle_running hres] at h
      cases h

/-- The destructor has no loop of its own. -/
protected theorem ensuring {d : Prog ε σ Unit} (hm : Less m m') :
    Less (Prog.ensuring m d) (Prog.ensuring m' d) := by
  intro s h
  have hsame := hm s
  unfold Prog.ensuring at h ⊢
  cases hres : m s with
  | ok a t =>
      rw [hres] at hsame
      rw [hsame rfl]
  | threw e t =>
      rw [hres] at hsame
      rw [hsame rfl]
  | running t =>
      rw [hres] at h
      cases h

protected theorem zoom {view : τ → σ} {put : σ → τ → τ} (hm : Less m m') :
    Less (Prog.zoom view put m) (Prog.zoom view put m') := by
  intro t h
  have hsame := hm (view t)
  unfold Prog.zoom at h ⊢
  cases hres : m (view t) with
  | ok a s =>
      rw [hres] at hsame
      rw [hsame rfl]
  | threw e s =>
      rw [hres] at hsame
      rw [hsame rfl]
  | running s =>
      rw [hres] at h
      cases h

variable {fuel fuel' : Nat}

/-- **The loop**: a pass less to go, on either side. -/
protected theorem loop {body body' : Prog ε σ Bool} (hb : Less body body') (h : fuel ≤ fuel') :
    Less (Prog.loop fuel body) (Prog.loop fuel' body') := by
  induction fuel generalizing fuel' with
  | zero =>
      intro s hs
      cases hs
  | succ fuel ih =>
      obtain ⟨k, hk⟩ := Nat.exists_eq_add_of_le h
      obtain rfl : fuel' = (fuel + k) + 1 := by omega
      exact .bind hb fun b => .ite (ih (Nat.le_add_right fuel k)) .rfl

protected theorem while_ {cond : σ → Bool} {body body' : Prog ε σ Unit} (hb : Less body body')
    (h : fuel ≤ fuel') : Less (Prog.while_ fuel cond body) (Prog.while_ fuel' cond body') :=
  .loop (.bind .rfl fun _ => .ite (.bind hb fun _ => .rfl) .rfl) h

end Less

end Prog
