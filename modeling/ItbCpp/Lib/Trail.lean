/-
  ItbCpp.Lib.Trail
  ────────────────
  **WHAT A THREAD HAS DONE.**

  The questions that one thread of a run has asked, with their answers
  (`trail`), and where they take it (`Along`).

    • `along_bind` — along the trail of two calls,
    • `Along.asked` — what a call asks on its way,
    • `Traced.along` — the threads of a run, along their trails,
    • `Traced.split` — a run, cut in two.

  Nothing here is about a particular program.
-/
import ItbCpp.Lib.Protocol

namespace Thread

variable {Q : Type} {A : Q → Type} {ε α β : Type}

/-! ## §1. Along a trail. -/

/-- Answered so, the thread has come to `n`. -/
inductive Along : Thread Q A ε α → List (Σ q, A q) → Thread Q A ε α → Prop where
  | here (m : Thread Q A ε α) : Along m [] m
  | on {q : Q} {k : A q → Thread Q A ε α} {a : A q} {w : List (Σ q, A q)} {n : Thread Q A ε α}
      (rest : Along (k a) w n) : Along (.ask q k) (⟨q, a⟩ :: w) n

section Along

variable {m n p : Thread Q A ε α} {w w' : List (Σ q, A q)}

theorem Along.trans (h : Along m w n) (h' : Along n w' p) : Along m (w ++ w') p := by
  induction h with
  | here m => exact h'
  | on _ ih => exact .on (ih h')

theorem along_spin (h : Along .spin w n) : w = [] ∧ n = .spin := by
  cases h
  exact ⟨rfl, rfl⟩

/-- A question that is not answered yet, or one that is. -/
theorem along_call {q : Q} {f : A q → Thread Q A ε α} (h : Along (call q >>= f) w n) :
    w = [] ∨ ∃ a v, w = ⟨q, a⟩ :: v ∧ Along (f a) v n := by
  cases h with
  | here => exact Or.inl rfl
  | on rest => exact Or.inr ⟨_, _, rfl, rest⟩

/-- Two calls: in the one, or through it and in the other. -/
theorem along_bind {m : Thread Q A ε β} {f : β → Thread Q A ε α} (h : Along (m >>= f) w n) :
    (∃ m', Along m w m' ∧ n = (m' >>= f)) ∨
      ∃ b v v', w = v ++ v' ∧ Along m v (.ret b) ∧ Along (f b) v' n := by
  induction m generalizing w with
  | ret b => exact Or.inr ⟨b, [], w, rfl, .here _, h⟩
  | throw e =>
      cases h
      exact Or.inl ⟨.throw e, .here _, rfl⟩
  | spin =>
      cases h
      exact Or.inl ⟨.spin, .here _, rfl⟩
  | ask q k ih =>
      cases h with
      | here => exact Or.inl ⟨.ask q k, .here _, rfl⟩
      | on rest =>
          rcases ih _ rest with ⟨m', hm, hn⟩ | ⟨b, v, v', rfl, hm, hf⟩
          · exact Or.inl ⟨m', .on hm, hn⟩
          · exact Or.inr ⟨b, _ :: v, v', rfl, .on hm, hf⟩

/-! ## §2. What is asked on the way. -/

/-- Nothing is asked but what `p` allows. -/
def only (p : Q → Prop) : Protocol Q A Unit where
  asks _ q := p q
  told _ _ _ _ := True
  spins _ := True

theorem Along.asked {p : Q → Prop} {R : Ends ε Unit α} (hm : m.wp (only p) R ())
    (h : Along m w n) : ∀ e ∈ w, p e.1 := by
  induction h with
  | here m => exact fun e he => (List.not_mem_nil he).elim
  | on _ ih =>
      intro e he
      rcases List.mem_cons.mp he with rfl | he
      · exact hm.1
      · exact ih (hm.2 _ () trivial) e he

end Along

end Thread

/-! ## §3. The threads of a run. -/

namespace Interleave

variable {I Q : Type} [DecidableEq I] {A : Q → Type} {ε α σ : Type}

/-- The questions of thread `i`, with their answers. -/
def trail (i : I) (evs : List (Event I Q A)) : List (Σ q, A q) :=
  evs.filterMap fun e => if e.who = i then some ⟨e.asked, e.answer⟩ else none

section Trail

variable {i : I} {evs evs' : List (Event I Q A)}

theorem trail_append : trail i (evs ++ evs') = trail i evs ++ trail i evs' :=
  List.filterMap_append

theorem mem_trail {q : Q} {a : A q} : ⟨q, a⟩ ∈ trail i evs ↔ ⟨i, q, a⟩ ∈ evs := by
  unfold trail
  rw [List.mem_filterMap]
  constructor
  · intro h
    obtain ⟨e, he, heq⟩ := h
    split at heq
    · rename_i hwho
      obtain ⟨who, asked, answer⟩ := e
      obtain rfl : who = i := hwho
      cases heq
      exact he
    · cases heq
  · exact fun h => ⟨_, h, if_pos rfl⟩

/-- Where a trail is cut, the run can be. -/
theorem trail_split {w w' : List (Σ q, A q)} (h : trail i evs = w ++ w') :
    ∃ evs₁ evs₂, evs = evs₁ ++ evs₂ ∧ trail i evs₁ = w ∧ trail i evs₂ = w' := by
  obtain ⟨evs₁, evs₂, rfl, h₁, h₂⟩ := List.filterMap_eq_append_iff.mp h
  exact ⟨evs₁, evs₂, rfl, h₁, h₂⟩

end Trail

variable {sys : System I Q A σ} {c d : Config I Q A ε α σ} {evs evs' : List (Event I Q A)}

/-- **Every thread of a run is where its trail takes it.** -/
theorem Traced.along (h : Traced sys c evs d) (i : I) :
    Thread.Along (c.threads i) (trail i evs) (d.threads i) := by
  induction h with
  | refl => exact .here _
  | @tail evs d j q k a s' _ asks _ ih =>
      rw [trail_append]
      by_cases hj : j = i
      · subst hj
        rw [asks] at ih
        refine ih.trans ?_
        show Thread.Along _ _ (Function.update d.threads j (k a) j)
        rw [Function.update_self]
        simp only [trail, List.filterMap_cons, List.filterMap_nil, if_pos]
        exact .on (.here _)
      · show Thread.Along _ _ (Function.update d.threads j (k a) i)
        rw [Function.update_of_ne (Ne.symm hj)]
        simp only [trail, List.filterMap_cons, List.filterMap_nil, if_neg hj, List.append_nil]
        exact ih

/-- A run of one step. -/
theorem Traced.single {i : I} {q : Q} {k : A q → Thread Q A ε α} {a : A q} {s' : σ}
    (asks : c.threads i = .ask q k) (served : sys.serve i c.state q a s') :
    Traced sys c [⟨i, q, a⟩] ⟨s', Function.update c.threads i (k a)⟩ :=
  Traced.refl.tail asks served

/-- A run, cut in two. -/
theorem Traced.split (h : Traced sys c (evs ++ evs') d) :
    ∃ e, Traced sys c evs e ∧ Traced sys e evs' d := by
  generalize hw : evs ++ evs' = w at h
  induction h generalizing evs' with
  | refl =>
      obtain ⟨rfl, rfl⟩ := List.append_eq_nil_iff.mp hw
      exact ⟨c, .refl, .refl⟩
  | @tail w d i q k a s' run asks served ih =>
      rcases List.eq_nil_or_concat evs' with rfl | ⟨front, last, rfl⟩
      · rw [List.append_nil] at hw
        subst hw
        exact ⟨_, run.tail asks served, .refl⟩
      · rw [List.concat_eq_append] at hw ⊢
        rw [← List.append_assoc] at hw
        obtain ⟨hfront, hlast⟩ := List.append_inj' hw rfl
        obtain ⟨e, hpre, hpost⟩ := ih hfront
        obtain rfl : last = ⟨i, q, a⟩ := List.singleton_inj.mp hlast
        exact ⟨e, hpre, hpost.tail asks served⟩

end Interleave
