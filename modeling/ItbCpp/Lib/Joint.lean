/-
  ItbCpp.Lib.Joint
  ────────────────
  **PROTOCOLS TOGETHER, AND UNDER A DISCIPLINE.**

  A thread may be verified against one protocol at a time, and the threads
  together against an invariant that speaks of all of them and relies on a
  discipline that they keep besides.

    • `wp_both` — a thread that keeps to two protocols keeps to both at once,
    • `Asks` — what a computation asks, whatever it is told,
    • `Safe.upheld` — the invariant, along every interleaving.

  Nothing here is about a particular program.
-/
import ItbCpp.Lib.Protocol

namespace Thread

variable {Q Q' : Type} {A : Q → Type} {A' : Q' → Type} {ε τ τ' α β : Type}

/-! ## §1. Two protocols at once. -/

/-- A thread that stands somewhere in each of two protocols. -/
def both (P : Protocol Q A τ) (P' : Protocol Q A τ') : Protocol Q A (τ × τ') where
  asks t q := P.asks t.1 q ∧ P'.asks t.2 q
  told t q a t' := P.told t.1 q a t'.1 ∧ P'.told t.2 q a t'.2
  spins t := P.spins t.1 ∧ P'.spins t.2

/-- Two protocols kept apart are kept together. -/
theorem wp_both {P : Protocol Q A τ} {P' : Protocol Q A τ'} {R : Ends ε τ α} {R' : Ends ε τ' α}
    {m : Thread Q A ε α} {t : τ} {t' : τ'} (h : m.wp P R t) (h' : m.wp P' R' t') :
    m.wp (both P P') ⟨fun a u => R.ok a u.1 ∧ R'.ok a u.2,
      fun e u => R.threw e u.1 ∧ R'.threw e u.2⟩ (t, t') := by
  induction m generalizing t t' with
  | ret a => exact ⟨h, h'⟩
  | throw e => exact ⟨h, h'⟩
  | spin => exact ⟨h, h'⟩
  | ask q k ih =>
      refine ⟨⟨h.1, h'.1⟩, fun a u hu => ?_⟩
      exact ih a (h.2 a u.1 hu.1) (h'.2 a u.2 hu.2)

/-! ## §2. What a computation asks. -/

/-- Whatever it is told, the computation asks nothing outside `p`. -/
def Asks (p : Q → Prop) : Thread Q A ε α → Prop
  | .ret _ | .throw _ | .spin => True
  | .ask q k => p q ∧ ∀ a, (k a).Asks p

section Asks

variable {p : Q → Prop}

theorem asks_call {q : Q} (hq : p q) : (call q : Thread Q A ε (A q)).Asks p :=
  ⟨hq, fun _ => trivial⟩

/-- The rules: what each part asks, the whole may ask. -/
theorem asks_bind {m : Thread Q A ε β} {f : β → Thread Q A ε α} (hm : m.Asks p)
    (hf : ∀ b, (f b).Asks p) : (m >>= f).Asks p := by
  induction m with
  | ret b => exact hf b
  | throw e => trivial
  | spin => trivial
  | ask q k ih => exact ⟨hm.1, fun a => ih a (hm.2 a)⟩

theorem asks_ite {c : Prop} [Decidable c] {m m' : Thread Q A ε α} (h : c → m.Asks p)
    (h' : ¬ c → m'.Asks p) : (if c then m else m').Asks p := by
  by_cases hc : c
  · rw [if_pos hc]
    exact h hc
  · rw [if_neg hc]
    exact h' hc

/-- A destructor asks, too. -/
theorem asks_ensuring {m : Thread Q A ε α} {d : Thread Q A ε Unit} (hm : m.Asks p)
    (hd : d.Asks p) : (m.ensuring d).Asks p := by
  induction m with
  | ret a => exact asks_bind hd fun _ => trivial
  | throw e => exact asks_bind hd fun _ => trivial
  | spin => trivial
  | ask q k ih => exact ⟨hm.1, fun a => ih a (hm.2 a)⟩

theorem asks_handle {m : Thread Q A ε α} {f : ε → Thread Q A ε α} (hm : m.Asks p)
    (hf : ∀ e, (f e).Asks p) : (m.handle f).Asks p := by
  induction m with
  | ret a => trivial
  | throw e => exact hf e
  | spin => trivial
  | ask q k ih => exact ⟨hm.1, fun a => ih a (hm.2 a)⟩

/-- A translation asks what the answers to its questions are computed with. -/
theorem asks_translate {f : ∀ q, Thread Q A ε (A' q)} {m : Thread Q' A' ε α}
    (hf : ∀ q, (f q).Asks p) : (m.translate f).Asks p := by
  induction m with
  | ret a => trivial
  | throw e => trivial
  | spin => trivial
  | ask q k ih => exact asks_bind (hf q) fun a => ih a

/-- What is asked everywhere is all that a protocol minds. -/
theorem Asks.wp {P : Protocol Q A τ} {m : Thread Q A ε α} (hm : m.Asks p)
    (hp : ∀ t q, p q → P.asks t q) (hspin : ∀ t, P.spins t) (t : τ) :
    m.wp P ⟨fun _ _ => True, fun _ _ => True⟩ t := by
  induction m generalizing t with
  | ret a => trivial
  | throw e => trivial
  | spin => exact hspin t
  | ask q k ih => exact ⟨hp t q hm.1, fun a t' _ => ih a (hm.2 a) t'⟩

/-- A computation worked out in questions of another kind: those that it does
ask lead back into `S`. -/
theorem Asks.translate {P : Protocol Q' A' τ} {S : τ → Prop} {E : ε → Prop}
    {f : ∀ q, Thread Q' A' ε (A q)} {m : Thread Q A ε α} (hasks : m.Asks p) (hm : m.Throws E)
    (hspin : ∀ t, S t → P.spins t)
    (hf : ∀ q, p q → Remains P S (fun e t => E e ∧ S t) (f q)) :
    Remains P S (fun e t => E e ∧ S t) (m.translate f) := by
  induction m with
  | ret a => exact remains_ret a
  | throw e => exact fun t ht => ⟨hm, ht⟩
  | spin => exact remains_spin hspin
  | ask q k ih => exact remains_bind (hf q hasks.1) fun a => ih a (hasks.2 a) (hm a)

/-- An exception is caught where it leaves the thread. -/
theorem remains_handle {P : Protocol Q A τ} {S : τ → Prop} {E : ε → τ → Prop}
    {m : Thread Q A ε α} {f : ε → Thread Q A ε α} (hm : Remains P S (fun _ => S) m)
    (hf : ∀ e, Remains P S E (f e)) : Remains P S E (m.handle f) := by
  intro t ht
  rw [wp_handle]
  exact (hm t ht).mono (fun _ _ h => h) fun e t' ht' => hf e t' ht'

/-- Without a bound on the exceptions there is nothing to show. -/
theorem throws_any (m : Thread Q A ε α) : m.Throws fun _ => True := by
  induction m with
  | ret a => trivial
  | throw e => trivial
  | spin => trivial
  | ask q k ih => exact ih

/-- The same of a computation that may throw anything. -/
theorem Asks.remains {P : Protocol Q' A' τ} {S : τ → Prop} {f : ∀ q, Thread Q' A' ε (A q)}
    {m : Thread Q A ε α} (hasks : m.Asks p) (hspin : ∀ t, S t → P.spins t)
    (hf : ∀ q, p q → Remains P S (fun _ => S) (f q)) :
    Remains P S (fun _ => S) (m.translate f) := by
  have hall : Remains P S (fun _ t => True ∧ S t) (m.translate f) := by
    refine hasks.translate (throws_any m) hspin fun q hq t ht => ?_
    exact (hf q hq t ht).mono (fun _ _ h => h) fun _ _ h => ⟨trivial, h⟩
  exact fun t ht => (hall t ht).mono (fun _ _ h => h) fun _ _ h => h.2

end Asks

end Thread

/-! ## §3. Under a discipline. -/

namespace Interleave

section Upheld

variable {I Q : Type} [DecidableEq I] {A : Q → Type} {ε α σ τ : Type} {sys : System I Q A σ}
  {D : Discipline I σ}

/-- **Soundness**: threads that are safe under a discipline and keep to their
protocols do so along every interleaving, and with them every invariant that
an answer keeps which the discipline allows. -/
theorem Safe.upheld {P : I → Protocol Q A τ} {Inv : σ → (I → τ) → Prop}
    (hup : ∀ s ts i q a s', D.inv s → D.inv s' → D.guar i s s' → Inv s ts →
      (P i).asks (ts i) q → sys.serve i s q a s' →
      ∃ t', (P i).told (ts i) q a t' ∧ Inv s' (Function.update ts i t'))
    {ok : I → α → σ → Prop} {threw : I → ε → σ → Prop} {R : I → Thread.Ends ε τ α}
    {c d : Config I Q A ε α σ} {ts : I → τ} (hi : D.inv c.state)
    (hsafe : ∀ j, Safe sys D j (ok j) (threw j) (c.threads j) c.state) (hinv : Inv c.state ts)
    (hwp : ∀ j, (c.threads j).wp (P j) (R j) (ts j)) (h : Reach sys c d) :
    ∃ ts', Inv d.state ts' ∧ ∀ j, (d.threads j).wp (P j) (R j) (ts' j) := by
  have hall : D.inv d.state ∧
      (∀ j, Safe sys D j (ok j) (threw j) (d.threads j) d.state) ∧
      ∃ ts', Inv d.state ts' ∧ ∀ j, (d.threads j).wp (P j) (R j) (ts' j) := by
    induction h with
    | refl => exact ⟨hi, hsafe, ts, hinv, hwp⟩
    | @tail d d' _ hstep ih =>
        obtain ⟨hi, hsafe, ts, hinv, hwp⟩ := ih
        obtain ⟨hi', hsafe', -⟩ := Safe.step hi hsafe hstep
        refine ⟨hi', hsafe', ?_⟩
        cases hstep with
        | @answer i q k a s' asks served =>
            have hthread := hwp i
            have hown := hsafe i
            rw [asks] at hthread hown
            obtain ⟨-, hguar, -⟩ := hown d.state (D.rely_refl i _) hi a s' served
            obtain ⟨t', htold, hinv'⟩ :=
              hup d.state ts i q a s' hi hi' hguar hinv hthread.1 served
            refine ⟨Function.update ts i t', hinv', fun j => ?_⟩
            by_cases hj : j = i
            · subst hj
              show (Function.update d.threads j (k a) j).wp (P j) (R j)
                (Function.update ts j t' j)
              rw [Function.update_self, Function.update_self]
              exact hthread.2 a t' htold
            · show (Function.update d.threads i (k a) j).wp (P j) (R j)
                (Function.update ts i t' j)
              rw [Function.update_of_ne hj, Function.update_of_ne hj]
              exact hwp j
  exact hall.2.2

end Upheld

end Interleave
