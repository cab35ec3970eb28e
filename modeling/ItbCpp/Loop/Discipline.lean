/-
  ItbCpp.Loop.Discipline
  ──────────────────────
  **WHO MAY CHANGE WHAT, AND WHEN.**

  The discipline every thread of the harness follows (`discipline`):

    • the INVARIANT `PipeInv` — readers and a writer exclude each other, a
      call that changes a handle needs the write side and a cipher call the
      read side, sessions are open only under the read side, and while
      nobody writes each pipe's blob encodes its handle's keying;
    • the RELY — while a thread holds either side, no other thread changes
      a pipe, a blob or the keying of a live handle;
    • the GUARANTEE — a thread without the write side changes none of them.

  What libitb3 is relied on for is `KeyedLib`.
-/
import ItbCpp.Loop.Threads

namespace ItbCpp

/-! ## §1. What is relied on of the library. -/

/-- The calls that open a Pipeline handle. -/
def FfiCall.opens : FfiCall → Bool
  | .init _ _ _ | .initKeys _ _ _ _ _ | .load _ _ _ _ | .loadF _ _ _ _ => true
  | _ => false

/-- The handle a call did change: a failed rekey changes none. -/
def FfiCall.changed (c : FfiCall) (r : Reply) : Option Handle :=
  match c with
  | .rekey h _ _ _ => if r.rc = 0 then some h else none
  | c => c.mutates

theorem FfiCall.changed_of_not_mutates {c : FfiCall} (hc : c.mutates = none) (r : Reply) :
    c.changed r = none := by
  cases c <;> first | exact hc | cases hc

theorem FfiCall.isCipher_of_owner {c : FfiCall} {sessions : List (Handle × Handle)} {h : Handle}
    (ho : c.owner sessions = some h) : c.isCipher = true := by
  cases c <;> first | rfl | cases ho

theorem FfiCall.not_mutates_of_isCipher {c : FfiCall} (hc : c.isCipher = true) :
    c.mutates = none := by
  cases c <;> first | rfl | cases hc

/-- The bytes a successful call delivered into a buffer of `cap` bytes. -/
structure Delivered (r : Reply) (cap : Nat) (blob : Bytes) : Prop where
  fits : r.len ≤ cap
  written : r.len ≤ r.out.length
  bytes : blob = r.out.take r.len

/-- libitb3, as far as keyings go.  `key s h` is the keying of the handle `h`
in state `s`, if `h` is live; `decode b` is the keying a blob encodes. -/
structure KeyedLib {σ K : Type} (L : Lib σ) (key : σ → Handle → Option K)
    (decode : Bytes → Option K) : Prop where
  /-- a call leaves every live handle as it was, but the one it changes -/
  frame : ∀ c s h k, key s h = some k → c.changed (L c s).1 ≠ some h →
    key (L c s).2 h = some k
  /-- a handle that was opened is a new one -/
  opened : ∀ c s, c.opens = true → (L c s).1.rc = 0 →
    (L c s).1.handle ≠ 0 ∧ key s (L c s).1.handle = none ∧
      ∃ k, key (L c s).2 (L c s).1.handle = some k
  /-- `load` gives it the keying of the blob -/
  load : ∀ blob n s, (L (.load blob [] [] n) s).1.rc = 0 →
    key (L (.load blob [] [] n) s).2 (L (.load blob [] [] n) s).1.handle = decode blob
  /-- a successful rekey delivers a blob of the state after it -/
  rekey : ∀ h perm wrap cap s, (L (.rekey h perm wrap cap) s).1.rc = 0 →
    ∃ k blob, Delivered (L (.rekey h perm wrap cap) s).1 cap blob ∧
      key (L (.rekey h perm wrap cap) s).2 h = some k ∧ decode blob = some k
  /-- a successful save delivers a blob of the state -/
  save : ∀ h cap s k, key s h = some k → (L (.save h cap) s).1.rc = 0 →
    ∃ blob, Delivered (L (.save h cap) s).1 cap blob ∧ decode blob = some k

namespace Loop

open Interleave (Discipline Stable Triple)

variable {σ K : Type} {N : Nat}

/-! ## §2. The invariant. -/

/-- A set pipe owns a live handle, its blob encodes that handle's keying,
and that keying is the last it was given. -/
def PipeMatched (key : σ → Handle → Option K) (decode : Bytes → Option K)
    (s : PipeState σ K N) (p : Pipe) : Prop :=
  ∀ h, s.pipes p = some h → h ≠ 0 ∧
    ∃ k, key s.lib h = some k ∧ decode (s.blobs p) = some k ∧
      (s.rotations p).getLast? = some k

/-- **The invariant.** -/
structure PipeInv (key : σ → Handle → Option K) (decode : Bytes → Option K)
    (s : PipeState σ K N) : Prop where
  /-- a writer excludes every reader -/
  lock : ∀ i, s.writer = some i → ∀ j, s.readers j = false
  /-- the two pipes own different handles -/
  distinct : ∀ p q h, s.pipes p = some h → s.pipes q = some h → p = q
  /-- while nobody writes, blobs and handles match -/
  matched : s.writer = none → ∀ p, PipeMatched key decode s p
  /-- a call inside the library has the side of the lock it needs -/
  calls : ∀ i c a, s.calls i = some (c, a) →
    (c.mutates ≠ none → s.writer = some i) ∧ (c.isCipher = true → s.readers i = true)
  /-- sessions are open under the read side only -/
  sessions : ∀ i, s.sessions i ≠ [] → s.readers i = true
  /-- an iteration uses one handle with one keying -/
  uniform : ∀ i, s.used i ≠ [] → ∃ h k, ∀ e ∈ s.used i, e.handle = h ∧ e.keying = some k

/-! ## §3. Rely and guarantee. -/

/-- The part of the state that belongs to thread `i`. -/
structure SameOwn (i : Tid N) (s s' : PipeState σ K N) : Prop where
  calls : s'.calls i = s.calls i
  sessions : s'.sessions i = s.sessions i
  used : s'.used i = s.used i
  readers : s'.readers i = s.readers i
  writer : s'.writer = some i ↔ s.writer = some i

/-- Pipes, blobs and the keyings of live handles are as they were. -/
structure Frozen (key : σ → Handle → Option K) (s s' : PipeState σ K N) : Prop where
  pipes : s'.pipes = s.pipes
  blobs : s'.blobs = s.blobs
  rotations : s'.rotations = s.rotations
  keys : ∀ h k, key s.lib h = some k → key s'.lib h = some k

/-- What thread `i` relies on. -/
structure Rely (key : σ → Handle → Option K) (i : Tid N) (s s' : PipeState σ K N) : Prop where
  own : SameOwn i s s'
  frozen : s.readers i = true ∨ s.writer = some i → Frozen key s s'

/-- What thread `i` guarantees. -/
structure Guar (key : σ → Handle → Option K) (i : Tid N) (s s' : PipeState σ K N) : Prop where
  others : ∀ j, j ≠ i → SameOwn j s s'
  frozen : s.writer ≠ some i → Frozen key s s'

variable {key : σ → Handle → Option K} {decode : Bytes → Option K}

theorem SameOwn.refl (i : Tid N) (s : PipeState σ K N) : SameOwn i s s :=
  ⟨rfl, rfl, rfl, rfl, Iff.rfl⟩

theorem Frozen.refl (s : PipeState σ K N) : Frozen key s s := ⟨rfl, rfl, rfl, fun _ _ h => h⟩

theorem SameOwn.trans {i : Tid N} {s s' s'' : PipeState σ K N} (h : SameOwn i s s')
    (h' : SameOwn i s' s'') : SameOwn i s s'' :=
  ⟨h'.calls.trans h.calls, h'.sessions.trans h.sessions, h'.used.trans h.used,
    h'.readers.trans h.readers, h'.writer.trans h.writer⟩

theorem Frozen.trans {s s' s'' : PipeState σ K N} (h : Frozen key s s')
    (h' : Frozen key s' s'') : Frozen key s s'' :=
  ⟨h'.pipes.trans h.pipes, h'.blobs.trans h.blobs, h'.rotations.trans h.rotations,
    fun g k hk => h'.keys g k (h.keys g k hk)⟩

theorem Rely.refl (i : Tid N) (s : PipeState σ K N) : Rely key i s s :=
  ⟨.refl i s, fun _ => .refl s⟩

theorem Rely.trans {i : Tid N} {s s' s'' : PipeState σ K N} (h : Rely key i s s')
    (h' : Rely key i s' s'') : Rely key i s s'' := by
  refine ⟨h.own.trans h'.own, fun hside => (h.frozen hside).trans (h'.frozen ?_)⟩
  rw [h.own.readers, h.own.writer]
  exact hside

/-- Two threads cannot be in each other's way: whoever changes a pipe holds
the write side, and then nobody else holds anything. -/
theorem Guar.rely {i j : Tid N} {s s' : PipeState σ K N} (hinv : PipeInv key decode s)
    (hne : i ≠ j) (h : Guar key i s s') : Rely key j s s' := by
  refine ⟨h.others j (Ne.symm hne), fun hside => h.frozen ?_⟩
  intro hw
  -- `i` writes, so `j` can be neither a reader nor another writer
  rcases hside with hr | hw'
  · rw [hinv.lock i hw j] at hr
    cases hr
  · rw [hw] at hw'
    exact hne (Option.some.inj hw')

/-- The harness's discipline, on the shared state. -/
def discipline (N : Nat) (key : σ → Handle → Option K) (decode : Bytes → Option K) :
    Discipline (Tid N) (Shared σ K N) where
  inv s := PipeInv key decode s.toPipeState
  rely i s s' := Rely key i s.toPipeState s'.toPipeState
  guar i s s' := Guar key i s.toPipeState s'.toPipeState
  rely_refl i s := Rely.refl i s.toPipeState
  rely_trans _ _ _ _ h h' := h.trans h'
  compat _ _ _ _ hne hinv _ hg := hg.rely hinv hne

/-! ## §4. A call takes effect. -/

/-- Whoever has a session had one before, or called for it. -/
theorem sessionsAfter_ne_nil {sessions : List (Handle × Handle)} {c : FfiCall} {r : Reply}
    (h : sessionsAfter sessions c r ≠ []) : sessions ≠ [] ∨ c.isCipher = true := by
  cases c <;> first | exact Or.inl h | exact Or.inr rfl

variable {L : Lib σ} {s : PipeState σ K N} {i : Tid N} {c : FfiCall}

/-- A call that changes no handle leaves pipes and keyings alone. -/
theorem frozen_effect (hL : KeyedLib L key decode) (hc : c.changed (L c s.lib).1 = none) :
    Frozen key s (s.effect L key i c) := by
  refine ⟨rfl, rfl, ?_, ?_⟩
  · funext p
    cases c with
    | rekey h perm wrap cap =>
        have hrc : ¬ ((L (.rekey h perm wrap cap) s.lib).1.rc = 0 ∧ s.pipes p = some h) := by
          intro hok
          rw [FfiCall.changed, if_pos hok.1] at hc
          cases hc
        exact if_neg hrc
    | _ => rfl
  · intro h k hk
    apply hL.frame c s.lib h k hk
    rw [hc]
    simp

theorem frozen_effect_of_not_mutates (hL : KeyedLib L key decode) (hc : c.mutates = none) :
    Frozen key s (s.effect L key i c) :=
  frozen_effect hL (FfiCall.changed_of_not_mutates hc _)

theorem guar_effect (hL : KeyedLib L key decode) (hinv : PipeInv key decode s)
    (hcall : s.calls i = some (c, none)) : Guar key i s (s.effect L key i c) := by
  constructor
  · intro j hj
    exact ⟨Function.update_of_ne hj _ _, Function.update_of_ne hj _ _,
      Function.update_of_ne hj _ _, rfl, Iff.rfl⟩
  · intro hw
    apply frozen_effect_of_not_mutates hL
    -- a call that changes a handle is made under the write side
    by_contra hm
    exact hw ((hinv.calls i c none hcall).1 hm)

/-- What a thread must know to have a cipher call take effect: its handle is
live and is the one this iteration has been using. -/
def Agrees (key : σ → Handle → Option K) (i : Tid N) (c : FfiCall) (s : PipeState σ K N) :
    Prop :=
  ∀ h, c.owner (s.sessions i) = some h →
    ∃ k, key s.lib h = some k ∧ ∀ e ∈ s.used i, e.handle = h ∧ e.keying = some k

/-- The cipher calls of the iteration after one more of them. -/
theorem used_effect (hL : KeyedLib L key decode) {h : Handle} {k : K}
    (ho : c.owner (s.sessions i) = some h) (hk : key s.lib h = some k)
    (hused : ∀ e ∈ s.used i, e.handle = h ∧ e.keying = some k) :
    ∀ e ∈ (s.effect L key i c).used i, e.handle = h ∧ e.keying = some k := by
  intro e he
  have hmut : c.mutates = none :=
    FfiCall.not_mutates_of_isCipher (FfiCall.isCipher_of_owner ho)
  simp only [PipeState.effect, Function.update_self, ho, Option.map_some, Option.toList_some,
    List.mem_append, List.mem_singleton] at he
  rcases he with he | rfl
  · exact hused e he
  · exact ⟨rfl, (frozen_effect_of_not_mutates (i := i) hL hmut).keys h k hk⟩

/-- **Every call keeps the invariant** when it takes effect. -/
theorem inv_effect (hL : KeyedLib L key decode) (hinv : PipeInv key decode s)
    (hcall : s.calls i = some (c, none)) (hagrees : Agrees key i c s) :
    PipeInv key decode (s.effect L key i c) := by
  have hside := hinv.calls i c none hcall
  constructor
  · exact hinv.lock
  · exact hinv.distinct
  -- with nobody writing, the call is one that changes no handle
  · intro hw p h hp
    have hmut : c.mutates = none := by
      by_contra hm
      have hwriter : s.writer = some i := hside.1 hm
      have hnone : s.writer = none := hw
      rw [hwriter] at hnone
      cases hnone
    have hf : Frozen key s (s.effect L key i c) :=
      frozen_effect_of_not_mutates hL hmut
    obtain ⟨hz, k, hk, hb, hr⟩ := hinv.matched hw p h hp
    refine ⟨hz, k, hf.keys h k hk, hb, ?_⟩
    rw [hf.rotations]
    exact hr
  -- the call that took effect is the one that entered, answered now
  · intro j c' a hj
    by_cases hji : j = i
    · subst hji
      have hca : (s.effect L key j c).calls j = some (c, some (L c s.lib).1) :=
        Function.update_self ..
      rw [hca] at hj
      injection hj with hj
      injection hj with hc' _
      subst hc'
      exact hside
    · apply hinv.calls j c' a
      rw [← hj]
      exact (Function.update_of_ne hji _ _).symm
  · intro j hj
    by_cases hji : j = i
    · subst hji
      have hafter : (s.effect L key j c).sessions j =
          sessionsAfter (s.sessions j) c (L c s.lib).1 := Function.update_self ..
      rw [hafter] at hj
      rcases sessionsAfter_ne_nil hj with hold | hnew
      · exact hinv.sessions j hold
      · exact hside.2 hnew
    · apply hinv.sessions j
      have hother : (s.effect L key i c).sessions j = s.sessions j :=
        Function.update_of_ne hji _ _
      rw [← hother]
      exact hj
  -- one more use of the same handle and keying, or none
  · intro j hj
    by_cases hji : j = i
    · subst hji
      cases ho : c.owner (s.sessions j) with
      | none =>
          have hsame : (s.effect L key j c).used j = s.used j := by
            simp [PipeState.effect, ho]
          rw [hsame] at hj ⊢
          exact hinv.uniform j hj
      | some h =>
          obtain ⟨k, hk, hused⟩ := hagrees h ho
          exact ⟨h, k, used_effect hL ho hk hused⟩
    · have hother : (s.effect L key i c).used j = s.used j := Function.update_of_ne hji _ _
      rw [hother] at hj ⊢
      exact hinv.uniform j hj

end Loop

end ItbCpp
