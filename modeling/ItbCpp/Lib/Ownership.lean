/-
  ItbCpp.Lib.Ownership
  ────────────────────
  **UNIQUE OWNERS OF TOKENS.**

  A token is acquired by one owner, used by it, handed from owner to owner
  and released once.  The machine below does exactly that and keeps a
  history; its invariant (`Sound`) says what the discipline is for:

    • two owners never hold the same token,
    • a released token is never used or released again,
    • a token that was acquired and is not released has an owner, so none
      is lost.

  Nothing here is about a particular kind of token.
-/
import Mathlib.Data.List.Induction
import Mathlib.Data.List.Nodup
import Mathlib.Logic.Function.Basic
import Mathlib.Logic.Relation

namespace Ownership

/-- What happens to a token. -/
inductive Move (H : Type) where
  | acquire (h : H)
  | use (h : H)
  | release (h : H)
  deriving DecidableEq, Repr

variable {A H : Type}

/-- The token a move is about. -/
def Move.token : Move H → H
  | .acquire h | .use h | .release h => h

/-- The tokens acquired, in order. -/
def acquired (ms : List (Move H)) : List H :=
  ms.filterMap fun | .acquire h => some h | _ => none

/-- The tokens released, in order. -/
def released (ms : List (Move H)) : List H :=
  ms.filterMap fun | .release h => some h | _ => none

/-- Both lists go through concatenation, so that a history can be taken move
by move. -/
@[simp] theorem acquired_append (ms ms' : List (Move H)) :
    acquired (ms ++ ms') = acquired ms ++ acquired ms' := List.filterMap_append

@[simp] theorem released_append (ms ms' : List (Move H)) :
    released (ms ++ ms') = released ms ++ released ms' := List.filterMap_append

@[simp] theorem acquired_acquire (h : H) : acquired [.acquire h] = [h] := rfl
@[simp] theorem acquired_use (h : H) : acquired [.use h] = [] := rfl
@[simp] theorem acquired_release (h : H) : acquired [.release h] = [] := rfl
@[simp] theorem released_acquire (h : H) : released [.acquire h] = [] := rfl
@[simp] theorem released_use (h : H) : released [.use h] = [] := rfl
@[simp] theorem released_release (h : H) : released [.release h] = [h] := rfl

/-- No move is about a token that was released before it. -/
def NoneAfterRelease (ms : List (Move H)) : Prop :=
  ∀ pre m post, ms = pre ++ m :: post → m.token ∉ released pre

/-- The empty history. -/
theorem noneAfterRelease_nil : NoneAfterRelease ([] : List (Move H)) := by
  intro pre m post h
  simp at h

/-- One move more, of a token that was not given back. -/
theorem noneAfterRelease_snoc {ms : List (Move H)} {m : Move H} (h : NoneAfterRelease ms)
    (hm : m.token ∉ released ms) : NoneAfterRelease (ms ++ [m]) := by
  intro pre m' post heq
  -- either the move is the new one, or it stands in the old history
  rcases List.eq_nil_or_concat post with rfl | ⟨post', last, rfl⟩
  · obtain ⟨rfl, hlast⟩ := List.append_inj' heq rfl
    rw [List.singleton_inj] at hlast
    exact hlast ▸ hm
  · refine h pre m' post' ?_
    rw [List.concat_eq_append, ← List.cons_append, ← List.append_assoc] at heq
    exact (List.append_inj' heq rfl).1

/-- Who holds what, and what has happened so far. -/
structure Owners (A H : Type) where
  holds : A → Option H
  moves : List (Move H)

/-- **The invariant.** -/
structure Sound (s : Owners A H) : Prop where
  /-- a token has one owner at most -/
  unique : ∀ a b h, s.holds a = some h → s.holds b = some h → a = b
  /-- what is held was acquired and not released -/
  live : ∀ a h, s.holds a = some h → h ∈ acquired s.moves ∧ h ∉ released s.moves
  /-- what was acquired is released or held -/
  accounted : ∀ h ∈ acquired s.moves, h ∈ released s.moves ∨ ∃ a, s.holds a = some h
  /-- only what was acquired is released -/
  known : ∀ h ∈ released s.moves, h ∈ acquired s.moves
  /-- nothing is released twice -/
  once : (released s.moves).Nodup
  /-- nothing happens to a token after its release -/
  safe : NoneAfterRelease s.moves

/-- With no token acquired the invariant holds. -/
theorem sound_start (holds : A → Option H) (h : ∀ a, holds a = none) :
    Sound (⟨holds, []⟩ : Owners A H) := by
  constructor
  · intro a b t ha _
    exact absurd (ha.symm.trans (h a)) (by simp)
  · intro a t ha
    exact absurd (ha.symm.trans (h a)) (by simp)
  · intro t ht
    cases ht
  · intro t ht
    cases ht
  · exact List.nodup_nil
  · exact noneAfterRelease_nil

/-- Once no owner holds anything, what was acquired has been released, and
the other way round. -/
theorem Sound.settled {s : Owners A H} (hs : Sound s) (h : ∀ a, s.holds a = none) (t : H) :
    t ∈ acquired s.moves ↔ t ∈ released s.moves := by
  constructor
  · intro ht
    rcases hs.accounted t ht with hr | ⟨a, ha⟩
    · exact hr
    · rw [h a] at ha
      cases ha
  · exact hs.known t

/-- **Use**: by the owner, who has not given the token back. -/
theorem Sound.use {s : Owners A H} (hs : Sound s) {a : A} {h : H} (held : s.holds a = some h) :
    Sound ⟨s.holds, s.moves ++ [.use h]⟩ := by
  constructor
  · exact hs.unique
  · intro b t hb
    simpa using hs.live b t hb
  · intro t ht
    simp only [acquired_append, released_append, acquired_use, released_use,
      List.append_nil] at ht ⊢
    exact hs.accounted t ht
  · intro t ht
    simp only [acquired_append, released_append, acquired_use, released_use,
      List.append_nil] at ht ⊢
    exact hs.known t ht
  · simpa using hs.once
  · exact noneAfterRelease_snoc hs.safe (hs.live a h held).2

section Machine

variable [DecidableEq A]

/-- One step of the discipline. -/
inductive Step : Owners A H → Owners A H → Prop where
  /-- an owner without a token gets one that was never seen before -/
  | acquire {s : Owners A H} {a : A} {h : H} (free : s.holds a = none)
      (fresh : h ∉ acquired s.moves) :
      Step s ⟨Function.update s.holds a (some h), s.moves ++ [.acquire h]⟩
  /-- an owner uses its token -/
  | use {s : Owners A H} {a : A} {h : H} (held : s.holds a = some h) :
      Step s ⟨s.holds, s.moves ++ [.use h]⟩
  /-- an owner releases its token -/
  | release {s : Owners A H} {a : A} {h : H} (held : s.holds a = some h) :
      Step s ⟨Function.update s.holds a none, s.moves ++ [.release h]⟩
  /-- an owner hands its token to one that has none -/
  | transfer {s : Owners A H} {a b : A} (ne : a ≠ b) (free : s.holds b = none) :
      Step s ⟨Function.update (Function.update s.holds b (s.holds a)) a none, s.moves⟩

/-- Any number of steps. -/
abbrev Steps : Owners A H → Owners A H → Prop := Relation.ReflTransGen Step

/-- **Acquire**: a token nobody has had, to an object that has none. -/
theorem Sound.acquire {s : Owners A H} (hs : Sound s) {a : A} {h : H}
    (free : s.holds a = none) (fresh : h ∉ acquired s.moves) :
    Sound ⟨Function.update s.holds a (some h), s.moves ++ [.acquire h]⟩ := by
  have hnever : h ∉ released s.moves := fun hr => fresh (hs.known h hr)
  have hother : ∀ b t, Function.update s.holds a (some h) b = some t →
      (b = a ∧ t = h) ∨ (b ≠ a ∧ s.holds b = some t) := by
    intro b t hb
    by_cases hba : b = a
    · subst hba
      rw [Function.update_self] at hb
      exact Or.inl ⟨rfl, (Option.some.inj hb).symm⟩
    · rw [Function.update_of_ne hba] at hb
      exact Or.inr ⟨hba, hb⟩
  constructor
  · intro b c t hb hc
    rcases hother b t hb with ⟨rfl, rfl⟩ | ⟨hba, hb'⟩ <;>
      rcases hother c _ hc with ⟨hca, htc⟩ | ⟨hca, hc'⟩
    · exact hca.symm
    · exact absurd (hs.live c _ hc').1 fresh
    · subst htc
      exact absurd (hs.live b _ hb').1 fresh
    · exact hs.unique b c t hb' hc'
  · intro b t hb
    simp only [acquired_append, released_append, acquired_acquire, released_acquire,
      List.append_nil, List.mem_append, List.mem_singleton]
    rcases hother b t hb with ⟨rfl, rfl⟩ | ⟨-, hb'⟩
    · exact ⟨Or.inr rfl, hnever⟩
    · exact ⟨Or.inl (hs.live b t hb').1, (hs.live b t hb').2⟩
  · intro t ht
    simp only [acquired_append, released_append, acquired_acquire, released_acquire,
      List.append_nil, List.mem_append, List.mem_singleton] at ht ⊢
    rcases ht with ht | rfl
    · rcases hs.accounted t ht with hr | ⟨b, hb⟩
      · exact Or.inl hr
      · refine Or.inr ⟨b, ?_⟩
        rw [Function.update_of_ne ?_]
        · exact hb
        · intro heq
          subst heq
          rw [free] at hb
          cases hb
    · exact Or.inr ⟨a, Function.update_self ..⟩
  · intro t ht
    simp only [acquired_append, released_append, released_acquire, List.append_nil,
      List.mem_append] at ht ⊢
    exact Or.inl (hs.known t ht)
  · simpa using hs.once
  · exact noneAfterRelease_snoc hs.safe hnever

/-- **Release**: by the owner, who has none from then on. -/
theorem Sound.release {s : Owners A H} (hs : Sound s) {a : A} {h : H}
    (held : s.holds a = some h) :
    Sound ⟨Function.update s.holds a none, s.moves ++ [.release h]⟩ := by
  obtain ⟨hacq, hnot⟩ := hs.live a h held
  have hother : ∀ b t, Function.update s.holds a none b = some t → b ≠ a ∧ s.holds b = some t := by
    intro b t hb
    by_cases hba : b = a
    · subst hba
      rw [Function.update_self] at hb
      cases hb
    · rw [Function.update_of_ne hba] at hb
      exact ⟨hba, hb⟩
  constructor
  · intro b c t hb hc
    exact hs.unique b c t (hother b t hb).2 (hother c t hc).2
  · intro b t hb
    obtain ⟨hba, hb'⟩ := hother b t hb
    obtain ⟨hacq', hnot'⟩ := hs.live b t hb'
    simp only [acquired_append, released_append, acquired_release, released_release,
      List.append_nil, List.mem_append, List.mem_singleton]
    refine ⟨hacq', ?_⟩
    intro ht
    rcases ht with ht | rfl
    · exact hnot' ht
    · exact hba (hs.unique b a _ hb' held)
  · intro t ht
    simp only [acquired_append, released_append, acquired_release, released_release,
      List.append_nil, List.mem_append, List.mem_singleton] at ht ⊢
    by_cases hth : t = h
    · exact Or.inl (Or.inr hth)
    · rcases hs.accounted t ht with hr | ⟨b, hb⟩
      · exact Or.inl (Or.inl hr)
      · refine Or.inr ⟨b, ?_⟩
        rw [Function.update_of_ne ?_]
        · exact hb
        · intro heq
          subst heq
          rw [held] at hb
          exact hth (Option.some.inj hb).symm
  · intro t ht
    simp only [acquired_append, released_append, acquired_release, released_release,
      List.append_nil, List.mem_append, List.mem_singleton] at ht ⊢
    rcases ht with ht | rfl
    · exact hs.known t ht
    · exact hacq
  · simp only [released_append, released_release]
    rw [List.nodup_append]
    refine ⟨hs.once, List.nodup_singleton h, ?_⟩
    intro t ht t' ht' heq
    rw [List.mem_singleton] at ht'
    exact hnot (ht' ▸ heq ▸ ht)
  · exact noneAfterRelease_snoc hs.safe hnot

/-- **Transfer**: to an object that has none; nothing is moved in the history.
-/
theorem Sound.transfer {s : Owners A H} (hs : Sound s) {a b : A} (ne : a ≠ b)
    (free : s.holds b = none) :
    Sound ⟨Function.update (Function.update s.holds b (s.holds a)) a none, s.moves⟩ := by
  have hother : ∀ c t, Function.update (Function.update s.holds b (s.holds a)) a none c = some t →
      (c = b ∧ s.holds a = some t) ∨ (c ≠ a ∧ c ≠ b ∧ s.holds c = some t) := by
    intro c t hc
    by_cases hca : c = a
    · subst hca
      rw [Function.update_self] at hc
      cases hc
    · rw [Function.update_of_ne hca] at hc
      by_cases hcb : c = b
      · subst hcb
        rw [Function.update_self] at hc
        exact Or.inl ⟨rfl, hc⟩
      · rw [Function.update_of_ne hcb] at hc
        exact Or.inr ⟨hca, hcb, hc⟩
  constructor
  · intro c d t hc hd
    rcases hother c t hc with ⟨rfl, hc'⟩ | ⟨hca, hcb, hc'⟩ <;>
      rcases hother d t hd with ⟨hdb, hd'⟩ | ⟨hda, hdb, hd'⟩
    · exact hdb.symm
    · exact absurd (hs.unique a d t hc' hd').symm hda
    · exact absurd (hs.unique c a t hc' hd') hca
    · exact hs.unique c d t hc' hd'
  · intro c t hc
    rcases hother c t hc with ⟨-, hc'⟩ | ⟨-, -, hc'⟩
    · exact hs.live a t hc'
    · exact hs.live c t hc'
  · intro t ht
    rcases hs.accounted t ht with hr | ⟨c, hc⟩
    · exact Or.inl hr
    · right
      by_cases hca : c = a
      · subst hca
        refine ⟨b, ?_⟩
        show Function.update (Function.update s.holds b (s.holds c)) c none b = some t
        rw [Function.update_of_ne ne.symm, Function.update_self]
        exact hc
      · refine ⟨c, ?_⟩
        show Function.update (Function.update s.holds b (s.holds a)) a none c = some t
        rw [Function.update_of_ne hca, Function.update_of_ne ?_]
        · exact hc
        · intro heq
          subst heq
          rw [free] at hc
          cases hc
  · exact hs.known
  · exact hs.once
  · exact hs.safe

/-- Every step keeps the invariant. -/
theorem Step.sound {s s' : Owners A H} (h : Step s s') (hs : Sound s) : Sound s' := by
  cases h with
  | acquire free fresh => exact hs.acquire free fresh
  | use held => exact hs.use held
  | release held => exact hs.release held
  | transfer ne free => exact hs.transfer ne free

/-- **So does every run.** -/
theorem Steps.sound {s s' : Owners A H} (h : Steps s s') (hs : Sound s) : Sound s' := by
  induction h with
  | refl => exact hs
  | tail _ hstep ih => exact hstep.sound ih

/-- Any number of uses of a token that is held. -/
theorem steps_use {s : Owners A H} {a : A} {h : H} (held : s.holds a = some h) :
    ∀ ms : List (Move H), (∀ m ∈ ms, m = .use h) → Steps s ⟨s.holds, s.moves ++ ms⟩ := by
  intro ms
  induction ms using List.reverseRecOn with
  | nil =>
      intro _
      rw [List.append_nil]
  | append_singleton ms m ih =>
      intro hall
      have hm : m = .use h := hall m (by simp)
      have hms : ∀ m' ∈ ms, m' = .use h := fun m' hm' => hall m' (by simp [hm'])
      refine (ih hms).tail ?_
      rw [hm, ← List.append_assoc]
      exact Step.use (s := ⟨s.holds, s.moves ++ ms⟩) held

end Machine

end Ownership
