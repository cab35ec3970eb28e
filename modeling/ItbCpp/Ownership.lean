/-
  ItbCpp.Ownership
  ────────────────
  **WHO OWNS A HANDLE.**

  Every operation on the objects of the binding is a run of the ownership
  discipline (`Ownership.Step`) on the handles they hold: a factory or a
  `begin` acquires, an entry uses, a destructor, a session's `close` and an
  assignment over an owning object release, a move transfers.  A pump's
  local session occupies a slot of its own while the pump runs.

    • `wp_op` — one operation simulates a run of the discipline,
    • `handle_ownership` — every finite program of operations.
-/
import ItbCpp.Constructors
import ItbCpp.Footprint
import ItbCpp.Objects

namespace ItbCpp

open Ownership (Owners Move Step Steps Sound acquired released)

/-! ## §1. Libraries that issue fresh handles. -/

/-- A library that issues fresh non-zero handles.  `At s used` says that in
state `s` it has issued the handles `used`. -/
structure IssuesFresh {σ : Type} (L : Lib σ) (At : σ → List Handle → Prop) : Prop where
  fresh : ∀ s used c h, At s used → Event.success (.call c (L c s).1) = some h →
    h ≠ 0 ∧ h ∉ used
  keeps : ∀ s used c, At s used →
    At (L c s).2 (used ++ (Event.success (.call c (L c s).1)).toList)

/-- The handles issued so far are known to the library, distinct and not
zero. -/
structure Issued {σ : Type} (At : σ → List Handle → Prop) (w : World σ) : Prop where
  known : At w.lib (successes w.trace)
  nodup : (successes w.trace).Nodup
  nonzero : 0 ∉ successes w.trace

/-- A slot that may hold a handle: an object, or the local session of a
pump. -/
abbrev Slot := Option Addr

section Tracking

variable {σ : Type} {L : Lib σ} {At : σ → List Handle → Prop}

theorem Issued.answered (hL : IssuesFresh L At) {w : World σ} (hw : Issued At w) (c : FfiCall) :
    Issued At (w.answered c (L c w.lib)) := by
  have hnew : successes (w.answered c (L c w.lib)).trace =
      successes w.trace ++ (Event.success (.call c (L c w.lib).1)).toList := by
    rw [World.answered_trace, successes_append, successes_singleton]
  constructor
  · rw [hnew]
    exact hL.keeps w.lib _ c hw.known
  · rw [hnew, List.nodup_append]
    refine ⟨hw.nodup, by cases Event.success _ <;> simp, ?_⟩
    intro h hh h' hh' heq
    -- the library would have issued one handle twice
    subst heq
    exact (hL.fresh w.lib _ c h hw.known (Option.mem_toList.mp hh')).2 hh
  · rw [hnew, List.mem_append]
    intro hz
    rcases hz with hz | hz
    · exact hw.nonzero hz
    · exact (hL.fresh w.lib _ c 0 hw.known (Option.mem_toList.mp hz)).1 rfl

theorem Issued.log {w : World σ} (hw : Issued At w) {e : Event} (he : e.success = none) :
    Issued At (w.log e) := by
  have hsame : successes (w.log e).trace = successes w.trace := by
    rw [World.log_trace, successes_append, successes_singleton, he]
    exact List.append_nil _
  exact ⟨hsame ▸ hw.known, hsame ▸ hw.nodup, hsame ▸ hw.nonzero⟩

/-! ## §2. Programs that only use one handle. -/

/-- From `w` to `w'` the handle `g` is used, and no other, and nothing is
acquired or released. -/
structure UsesOnly (At : σ → List Handle → Prop) (g : Handle) (w w' : World σ) : Prop where
  issued : Issued At w → Issued At w'
  trace : Prog.Extends World.trace (fun e => ∀ m, e.move = some m → m = .use g) w w'

instance (g : Handle) : IsPreorder (World σ) (UsesOnly At g) where
  refl w := ⟨id, refl_of _ w⟩
  trans _ _ _ h h' := ⟨h'.issued ∘ h.issued, trans_of _ h.trace h'.trace⟩

theorem allows_use (hL : IssuesFresh L At) {g : Handle} {c : FfiCall}
    (hg : ∀ h, c.handle? = some h → h = g) (hr : c.releases = false) :
    Allows L (UsesOnly At g) c := by
  intro w
  refine ⟨fun hw => hw.answered hL c, [.call c (L c w.lib).1], rfl, ?_⟩
  intro e he m hm
  rw [List.mem_singleton.mp he] at hm
  obtain ⟨h, hh, hm⟩ := Option.bind_eq_some_iff.mp hm
  rw [hr] at hm
  by_cases hz : h = 0
  · rw [if_pos hz] at hm
    cases hm
  · rw [if_neg hz] at hm
    injection hm with hm
    rw [← hm, ← hg h hh]
    rfl

theorem usesOnly_log {g : Handle} {e : Event} (hs : e.success = none) (hm : e.move = none)
    (w : World σ) : UsesOnly At g w (w.log e) := by
  refine ⟨fun hw => hw.log hs, [e], rfl, ?_⟩
  intro e' he' m hm'
  rw [List.mem_singleton.mp he', hm] at hm'
  cases hm'

theorem lenient_usesOnly (hL : IssuesFresh L At) (g : Handle) : Lenient L (UsesOnly At g) :=
  ⟨fun _ => allows_use hL (fun _ h => by cases h) rfl,
    fun _ w => usesOnly_log rfl rfl w⟩

/-! ## §3. The discipline, tracked. -/

/-- The state of the discipline that belongs to a world. -/
structure Tracks (At : σ → List Handle → Prop) (w : World σ) (s : Owners Slot Handle) :
    Prop where
  history : s.moves = moves w.trace
  issued : Issued At w
  known : ∀ h ∈ acquired s.moves, h ∈ successes w.trace

/-- A slot holds `g`, or `g` is no handle. -/
def Holds (s : Owners Slot Handle) (g : Handle) : Prop := g = 0 ∨ ∃ slot, s.holds slot = some g

/-- Uses of a handle that is held are steps of the discipline. -/
theorem Tracks.uses {w w' : World σ} {s : Owners Slot Handle} {g : Handle}
    (ht : Tracks At w s) (hg : Holds s g) (h : UsesOnly At g w w') :
    ∃ s', Steps s s' ∧ Tracks At w' s' ∧ s'.holds = s.holds ∧
      acquired s'.moves = acquired s.moves := by
  obtain ⟨new, hnew, hall⟩ := h.trace
  -- every move of the run is a use of `g`, so none acquires
  have huse : ∀ m ∈ moves new, m = .use g := by
    intro m hm
    obtain ⟨e, he, hem⟩ := List.mem_filterMap.mp hm
    exact hall e he m hem
  have hsame : acquired (s.moves ++ moves new) = acquired s.moves := by
    have hnone : acquired (moves new) = [] := by
      apply List.filterMap_eq_nil_iff.mpr
      intro m hm
      rw [huse m hm]
    rw [Ownership.acquired_append, hnone, List.append_nil]
  have htrack : Tracks At w' ⟨s.holds, s.moves ++ moves new⟩ := by
    refine ⟨by rw [hnew, moves_append, ht.history], h.issued ht.issued, ?_⟩
    intro t hmem
    rw [hsame] at hmem
    rw [hnew, successes_append, List.mem_append]
    exact Or.inl (ht.known t hmem)
  refine ⟨⟨s.holds, s.moves ++ moves new⟩, ?_, htrack, rfl, hsame⟩
  rcases hg with hz | ⟨slot, hslot⟩
  · -- a use of zero leaves no move at all
    have hnil : moves new = [] := by
      rw [List.eq_nil_iff_forall_not_mem]
      intro m hm
      obtain ⟨e, he, hem⟩ := List.mem_filterMap.mp hm
      apply Event.move_token_ne_zero hem
      rw [huse m hm]
      exact hz
    rw [hnil, List.append_nil]
  · exact Ownership.steps_use hslot (moves new) huse

/-- A buffer given back is no business of the discipline. -/
theorem Tracks.dealloc {w : World σ} {s : Owners Slot Handle} (ht : Tracks At w s)
    (content : Bytes) : Tracks At (w.log (.dealloc content)) s := by
  refine ⟨?_, ht.issued.log rfl, ?_⟩
  · rw [World.log_trace, moves_append, moves_singleton, ht.history]
    exact (List.append_nil _).symm
  · intro t hmem
    rw [World.log_trace, successes_append, List.mem_append]
    exact Or.inl (ht.known t hmem)

/-- An object that adopts a freshly issued handle acquires it. -/
theorem Tracks.adopt {w : World σ} {s : Owners Slot Handle} {slot : Slot} {h : Handle}
    (ht : Tracks At w s) (free : s.holds slot = none) (hnew : h ∈ successes w.trace)
    (hnot : h ∉ acquired s.moves) :
    h ≠ 0 ∧ ∃ s', Steps s s' ∧ Tracks At (w.log (.adopt h)) s' ∧
      s'.holds = Function.update s.holds slot (some h) := by
  have hz : h ≠ 0 := fun hz => ht.issued.nonzero (hz ▸ hnew)
  have hmove : Event.move (.adopt h) = some (.acquire h) := if_neg hz
  refine ⟨hz, ⟨Function.update s.holds slot (some h), s.moves ++ [.acquire h]⟩, ?_, ?_, rfl⟩
  · exact Relation.ReflTransGen.single (Step.acquire free hnot)
  · refine ⟨?_, ht.issued.log rfl, ?_⟩
    · rw [World.log_trace, moves_append, moves_singleton, hmove, ht.history]
      rfl
    · intro t hmem
      rw [World.log_trace, successes_append, List.mem_append]
      simp only [Ownership.acquired_append, Ownership.acquired_acquire, List.mem_append,
        List.mem_singleton] at hmem
      rcases hmem with hmem | rfl
      · exact Or.inl (ht.known t hmem)
      · exact Or.inl hnew

/-- A free of a handle that is held releases it. -/
theorem Tracks.free (hL : IssuesFresh L At) {w : World σ} {s : Owners Slot Handle} {slot : Slot}
    {h : Handle} (ht : Tracks At w s) (held : s.holds slot = some h) (hz : h ≠ 0)
    {c : FfiCall} (hc : c.handle? = some h) (hr : c.releases = true) (hi : c.issues = false) :
    ∃ s', Steps s s' ∧ Tracks At (w.answered c (L c w.lib)) s' ∧
      s'.holds = Function.update s.holds slot none := by
  have hmove : Event.move (.call c (L c w.lib).1) = some (.release h) := by
    show c.handle?.bind _ = _
    rw [hc, Option.bind_some, if_neg hz, hr]
    rfl
  have hsuccess : Event.success (.call c (L c w.lib).1) = none := by
    show (if c.issues = true ∧ _ then _ else _) = _
    rw [hi]
    simp
  refine ⟨⟨Function.update s.holds slot none, s.moves ++ [.release h]⟩, ?_, ?_, rfl⟩
  · exact Relation.ReflTransGen.single (Step.release held)
  · refine ⟨?_, ht.issued.answered hL c, ?_⟩
    · rw [World.answered_trace, moves_append, moves_singleton, hmove, ht.history]
      rfl
    · intro t hmem
      rw [World.answered_trace, successes_append, successes_singleton, hsuccess]
      simp only [Ownership.acquired_append, Ownership.acquired_release, List.append_nil] at hmem
      simpa using ht.known t hmem

/-! ## §4. Programs on the world. -/

/-- However a run stands, the discipline has a run from `s` to a state that
belongs to the world reached; `ok`, `threw` and `running` say what is held
there. -/
def simulates (At : σ → List Handle → Prop) (s : Owners Slot Handle) {α : Type}
    (ok : α → (Slot → Option Handle) → Prop) (threw running : (Slot → Option Handle) → Prop) :
    Prog.Post Exn (World σ) α where
  ok a w' := ∃ s', Steps s s' ∧ Tracks At w' s' ∧ ok a s'.holds
  threw _ w' := ∃ s', Steps s s' ∧ Tracks At w' s' ∧ threw s'.holds
  running w' := ∃ s', Steps s s' ∧ Tracks At w' s' ∧ running s'.holds

/-- What the discipline did before comes first. -/
theorem simulates_trans {α : Type} {s s₁ : Owners Slot Handle} (h : Steps s s₁)
    {ok : α → (Slot → Option Handle) → Prop} {threw running : (Slot → Option Handle) → Prop}
    {m : Prog Exn (World σ) α} {w : World σ}
    (hm : Prog.wp m (simulates At s₁ ok threw running) w) :
    Prog.wp m (simulates At s ok threw running) w := by
  refine hm.mono ?_ ?_ ?_
  · intro a w' h'
    obtain ⟨s', hsteps, ht, hok⟩ := h'
    exact ⟨s', h.trans hsteps, ht, hok⟩
  · intro e w' h'
    obtain ⟨s', hsteps, ht, hok⟩ := h'
    exact ⟨s', h.trans hsteps, ht, hok⟩
  · intro w' h'
    obtain ⟨s', hsteps, ht, hok⟩ := h'
    exact ⟨s', h.trans hsteps, ht, hok⟩

variable {α β : Type} {w : World σ} {s : Owners Slot Handle} {g : Handle}

/-- A program that always returns leaves nothing to show of its other ends. -/
theorem simulates_never {ok : α → (Slot → Option Handle) → Prop} {m : Prog Exn (World σ) α}
    (h : Prog.wp m (simulates At s ok (fun _ => False) (fun _ => False)) w)
    {Q : Prog.Post Exn (World σ) α}
    (hok : ∀ a w' s', Steps s s' → Tracks At w' s' → ok a s'.holds → Q.ok a w') :
    Prog.wp m Q w := by
  refine h.mono ?_ ?_ ?_
  · intro a w' h'
    obtain ⟨s', hsteps, ht, ho⟩ := h'
    exact hok a w' s' hsteps ht ho
  · intro e w' h'
    obtain ⟨_, _, _, hf⟩ := h'
    exact hf.elim
  · intro w' h'
    obtain ⟨_, _, _, hf⟩ := h'
    exact hf.elim

/-- A program that only uses a handle leaves what is held. -/
theorem wp_uses (ht : Tracks At w s) (hg : Holds s g) {m : Prog Exn (World σ) α}
    (hm : Prog.Within (UsesOnly At g) m) :
    Prog.wp m (simulates At s (fun _ o => o = s.holds) (· = s.holds) (· = s.holds)) w := by
  have hstep : ∀ w', UsesOnly At g w w' →
      ∃ s', Steps s s' ∧ Tracks At w' s' ∧ s'.holds = s.holds := by
    intro w' h
    obtain ⟨s', hsteps, ht', hholds, -⟩ := ht.uses hg h
    exact ⟨s', hsteps, ht', hholds⟩
  exact (hm.wp w).mono (fun _ w' h => hstep w' h) (fun _ w' h => hstep w' h)
    (fun w' h => hstep w' h)

/-- A program that is issued a handle and adopts it: the slot holds it when
the program returns, and nothing has changed when it throws. -/
theorem wp_adopt (ht : Tracks At w s) (hg : Holds s g) {slot : Slot}
    (free : s.holds slot = none) {m : Prog Exn (World σ) β} (hm : Prog.Within (UsesOnly At g) m)
    {f : β → Handle}
    (hf : Prog.wp m ⟨fun b w' => ∃ evs, w'.trace = w.trace ++ evs ∧ f b ∈ successes evs,
      fun _ _ => True, fun _ => True⟩ w)
    {k : β → Prog Exn (World σ) α} {mk : Handle → α}
    (hk : ∀ b w', Prog.wp (k b) ⟨fun a w'' => a = mk (f b) ∧ UsesOnly At g w' w'',
      fun _ _ => False, fun _ => False⟩ w') :
    Prog.wp (do
        let b ← m
        emit (.adopt (f b))
        k b)
      (simulates At s
        (fun a o => ∃ h, a = mk h ∧ h ≠ 0 ∧ o = Function.update s.holds slot (some h))
        (· = s.holds) (· = s.holds)) w := by
  have hstep : ∀ w', UsesOnly At g w w' →
      ∃ s', Steps s s' ∧ Tracks At w' s' ∧ s'.holds = s.holds := by
    intro w' h
    obtain ⟨s', hsteps, ht', hholds, -⟩ := ht.uses hg h
    exact ⟨s', hsteps, ht', hholds⟩
  rw [Prog.wp_bind]
  refine ((hm.wp w).and hf).mono ?_ (fun _ w' h => hstep w' h.1) (fun w' h => hstep w' h.1)
  intro b w₁ h
  obtain ⟨huse, evs, htrace, hmem⟩ := h
  obtain ⟨s₁, hsteps₁, ht₁, hholds₁, hacq₁⟩ := ht.uses hg huse
  have hnew : f b ∈ successes w₁.trace := by
    rw [htrace, successes_append, List.mem_append]
    exact Or.inr hmem
  -- distinct handles: the one just issued was not issued before
  have hnot : f b ∉ acquired s₁.moves := by
    intro hin
    rw [hacq₁] at hin
    have hnodup := ht₁.issued.nodup
    rw [htrace, successes_append, List.nodup_append] at hnodup
    exact hnodup.2.2 (f b) (ht.known _ hin) (f b) hmem rfl
  obtain ⟨hz, s₂, hsteps₂, ht₂, hholds₂⟩ := ht₁.adopt (hholds₁ ▸ free) hnew hnot
  show Prog.wp _ _ _
  rw [Prog.wp_bind, wp_emit]
  refine (hk b _).mono ?_ (fun _ _ hf => hf.elim) (fun _ hf => hf.elim)
  intro a w₃ h
  obtain ⟨rfl, huse₃⟩ := h
  have hheld : Holds s₂ g := by
    rcases hg with hg | ⟨slot', hslot'⟩
    · exact Or.inl hg
    · right
      refine ⟨slot', ?_⟩
      rw [hholds₂, hholds₁, Function.update_of_ne ?_]
      · exact hslot'
      · intro heq
        subst heq
        rw [free] at hslot'
        cases hslot'
  obtain ⟨s₃, hsteps₃, ht₃, hholds₃, -⟩ := ht₂.uses hheld huse₃
  refine ⟨s₃, (hsteps₁.trans hsteps₂).trans hsteps₃, ht₃, f b, rfl, hz, ?_⟩
  rw [hholds₃, hholds₂, hholds₁]

/-- The short form: one issuing call, checked. -/
theorem wp_issue (hL : IssuesFresh L At) (ht : Tracks At w s) (hg : Holds s g) {slot : Slot}
    (free : s.holds slot = none) {c : FfiCall} (hc : ∀ h, c.handle? = some h → h = g)
    (hi : c.issues = true) (hr : c.releases = false) (what : String) (mk : Handle → α) :
    Prog.wp (do
        let r ← ffi L c
        check L r.rc what
        emit (.adopt r.handle)
        pure (mk r.handle))
      (simulates At s
        (fun a o => ∃ h, a = mk h ∧ h ≠ 0 ∧ o = Function.update s.holds slot (some h))
        (· = s.holds) (· = s.holds)) w := by
  -- the call and its check form the issuing part, the adoption comes after it
  have hm : Prog.Within (UsesOnly At g) (do
      let r ← ffi L c
      check L r.rc what
      pure r : Prog Exn (World σ) Reply) :=
    .bind (within_ffi (allows_use hL hc hr)) fun r =>
      .bind (within_check (lenient_usesOnly hL g) r.rc what) fun _ => .pure r
  have hf : Prog.wp (do
      let r ← ffi L c
      check L r.rc what
      pure r : Prog Exn (World σ) Reply)
      ⟨fun r w' => ∃ evs, w'.trace = w.trace ++ evs ∧ r.handle ∈ successes evs,
        fun _ _ => True, fun _ => True⟩ w := by
    rw [Prog.wp_bind, wp_ffi]
    show Prog.wp _ _ _
    rw [Prog.wp_bind]
    apply wp_check
    · intro hrc
      refine ⟨[.call c (L c w.lib).1], rfl, ?_⟩
      rw [successes_singleton, Event.success, if_pos ⟨hi, hrc⟩]
      exact List.mem_singleton.mpr rfl
    · intro e w' _ _ _
      trivial
  have hk : ∀ (r : Reply) (w' : World σ),
      Prog.wp (pure (mk r.handle) : Prog Exn (World σ) α)
      ⟨fun a w'' => a = mk r.handle ∧ UsesOnly At g w' w'', fun _ _ => False, fun _ => False⟩
      w' := fun r w' => ⟨rfl, refl_of _ w'⟩
  have hrun := wp_adopt ht hg free hm hf hk
  simpa only [Prog.bind_bind, Prog.pure_bind] using hrun

/-- What a handle is to the discipline. -/
def held (h : Handle) : Option Handle := if h = 0 then none else some h

/-- A slot is left without its handle, by a free or because there was none. -/
theorem wp_free (hL : IssuesFresh L At) (ht : Tracks At w s) {slot : Slot} {h : Handle}
    (hslot : s.holds slot = held h) {c : FfiCall} (hc : c.handle? = some h)
    (hr : c.releases = true) (hi : c.issues = false) (a b : α) :
    Prog.wp (if h ≠ 0 then do
        let _ ← ffi L c
        pure a
      else pure b)
      (simulates At s (fun x o => x = (if h ≠ 0 then a else b) ∧
        o = Function.update s.holds slot none) (fun _ => False) (fun _ => False)) w := by
  -- a null handle is not freed: its slot was empty before
  by_cases hz : h ≠ 0
  · rw [if_pos hz, if_pos hz]
    rw [held, if_neg hz] at hslot
    obtain ⟨s', hsteps, ht', hholds⟩ := ht.free hL hslot hz hc hr hi
    exact ⟨s', hsteps, ht', rfl, hholds⟩
  · rw [if_neg hz, if_neg hz]
    rw [held, if_pos (not_not.mp hz)] at hslot
    refine ⟨s, .refl, ht, rfl, ?_⟩
    rw [← hslot, Function.update_eq_self]

/-! ## §5. The functions of the binding. -/

/-- A program that makes an object from one handle, in the slot given. -/
def Makes (At : σ → List Handle → Prop) (g : Handle) (mk : Handle → α)
    (m : Prog Exn (World σ) α) : Prop :=
  ∀ (w : World σ) (s : Owners Slot Handle) (slot : Slot), Tracks At w s → Holds s g →
    s.holds slot = none →
    Prog.wp m (simulates At s
      (fun a o => ∃ h, a = mk h ∧ h ≠ 0 ∧ o = Function.update s.holds slot (some h))
      (· = s.holds) (· = s.holds)) w

/-- The calls that make a Pipeline are given no handle. -/
theorem handle?_constructs {fn : BlobFn} (hfn : fn.constructs = true) (n : Nat) :
    (fn.call n).handle? = none := by
  cases fn <;> simp [BlobFn.constructs] at hfn <;> rfl

theorem makes_construct (hL : IssuesFresh L At) {fn : BlobFn} (hfn : fn.constructs = true)
    (what : String) : Makes At 0 (fun h => ({ handle := h } : Pipeline)) (construct L fn what) := by
  intro w s slot ht hg free
  have hm : Prog.Within (UsesOnly At 0) (bufCall L fn what) := by
    apply within_bufCall (lenient_usesOnly hL 0)
    intro n
    apply allows_use hL
    · intro h hh
      rw [handle?_constructs hfn n] at hh
      cases hh
    · cases fn <;> rfl
  have hf : Prog.wp (bufCall L fn what)
      ⟨fun p w' => ∃ evs, w'.trace = w.trace ++ evs ∧ p.2.handle ∈ successes evs,
        fun _ _ => True, fun _ => True⟩ w := by
    refine (wp_bufCall_success hfn what).mono_ok ?_
    intro p w' h
    obtain ⟨evs, htrace, hsuccess⟩ := h
    exact ⟨evs, htrace, by rw [hsuccess]; exact List.mem_singleton.mpr rfl⟩
  have hk : ∀ (p : Bytes × Reply) (w' : World σ),
      Prog.wp (do
        emit (.dealloc (wipeBytes p.1))
        pure { handle := p.2.handle } : Prog Exn (World σ) Pipeline)
        ⟨fun a w'' => a = { handle := p.2.handle } ∧ UsesOnly At 0 w' w'',
          fun _ _ => False, fun _ => False⟩ w' :=
    fun p w' => ⟨rfl, usesOnly_log rfl rfl w'⟩
  exact wp_adopt ht hg free hm hf hk

theorem makes_factory (hL : IssuesFresh L At) (f : Factory) :
    Makes At 0 (fun h => ({ handle := h } : Pipeline)) (f.run L) := by
  cases f with
  | init profile opts => exact makes_construct hL rfl _
  | initKeys profile masters opts =>
      intro w s slot ht hg free
      show Prog.wp (Pipeline.initKeys L profile masters opts) _ w
      -- the flattened masters are given back on both ways out
      rw [initKeys_eq_construct, Prog.wp_ensuring]
      refine (makes_construct hL rfl _ w s slot ht hg free).mono ?_ ?_ (fun _ h => h)
      · intro a w' h
        obtain ⟨s', hsteps, ht', hok⟩ := h
        exact ⟨s', hsteps, ht'.dealloc _, hok⟩
      · intro e w' h
        obtain ⟨s', hsteps, ht', hok⟩ := h
        exact ⟨s', hsteps, ht'.dealloc _, hok⟩
  | load blob perm wrap =>
      intro w s slot ht hg free
      exact wp_issue hL ht hg free (fun h hh => by cases hh) rfl rfl _ _
  | loadF path perm wrap =>
      intro w s slot ht hg free
      exact wp_issue hL ht hg free (fun h hh => by cases hh) rfl rfl _ _

theorem makes_begin (hL : IssuesFresh L At) (dir : Direction) (self : Pipeline) :
    Makes At self.handle (fun h => ({ handle := h } : Stream)) (dir.begin_ L self) := by
  intro w s slot ht hg free
  cases dir with
  | encrypt => exact wp_issue hL ht hg free (fun h hh => by cases hh; rfl) rfl rfl _ _
  | decrypt => exact wp_issue hL ht hg free (fun h hh => by cases hh; rfl) rfl rfl _ _

theorem allowsSession (hL : IssuesFresh L At) (h : Handle) :
    AllowsSession L (UsesOnly At h) h where
  toLenient := lenient_usesOnly hL h
  write _ := allows_use hL (fun _ hh => (Option.some.inj hh).symm) rfl
  end_ := allows_use hL (fun _ hh => (Option.some.inj hh).symm) rfl
  read _ := allows_use hL (fun _ hh => (Option.some.inj hh).symm) rfl

/-- `Stream::close`, on the session in a slot. -/
theorem wp_streamClose (hL : IssuesFresh L At) (ht : Tracks At w s) {slot : Slot}
    {self : Stream} (hslot : s.holds slot = held self.handle) :
    Prog.wp (self.close L)
      (simulates At s (fun a o => a.handle = 0 ∧ o = Function.update s.holds slot none)
        (fun _ => False) (fun _ => False)) w := by
  have hrun := wp_free hL ht hslot (c := .streamFree self.handle) rfl rfl rfl
    ({ handle := 0 } : Stream) self
  refine hrun.mono_ok ?_
  intro a w' h
  obtain ⟨s', hsteps, ht', rfl, hholds⟩ := h
  refine ⟨s', hsteps, ht', ?_, hholds⟩
  by_cases hz : self.handle ≠ 0
  · rw [if_pos hz]
  · rw [if_neg hz]
    exact not_not.mp hz

/-- Its destructor. -/
theorem wp_streamDestroy (hL : IssuesFresh L At) (ht : Tracks At w s) {slot : Slot}
    {self : Stream} (hslot : s.holds slot = held self.handle) :
    Prog.wp (self.destroy L)
      (simulates At s (fun _ o => o = Function.update s.holds slot none)
        (fun _ => False) (fun _ => False)) w := by
  unfold Stream.destroy
  rw [Prog.wp_bind]
  refine (wp_streamClose hL ht hslot).mono_ok ?_
  intro a w' h
  obtain ⟨s', hsteps, ht', -, hholds⟩ := h
  exact ⟨s', hsteps, ht', hholds⟩

/-- `Pipeline::~Pipeline`. -/
theorem wp_pipelineDestroy (hL : IssuesFresh L At) (ht : Tracks At w s) {slot : Slot}
    {self : Pipeline} (hslot : s.holds slot = held self.handle) :
    Prog.wp (self.destroy L)
      (simulates At s (fun _ o => o = Function.update s.holds slot none)
        (fun _ => False) (fun _ => False)) w := by
  have hrun := wp_free hL ht hslot (c := .free self.handle) rfl rfl rfl () ()
  refine hrun.mono_ok ?_
  intro a w' h
  obtain ⟨s', hsteps, ht', -, hholds⟩ := h
  exact ⟨s', hsteps, ht', hholds⟩

/-! ## §6. Pumps. -/

/-- A postcondition on worlds, for a computation on a pump. -/
def onPump (Q : Prog.Post Exn (World σ) α) : Prog.Post Exn (Pump σ) α :=
  ⟨fun a p => Q.ok a p.world, fun e p => Q.threw e p.world, fun p => Q.running p.world⟩

/-- The objects are as they were; the local slot may be taken. -/
def SameObjects (s : Owners Slot Handle) (o : Slot → Option Handle) : Prop :=
  ∀ a, o (some a) = s.holds (some a)

/-- **A pump's local session** is begun, used and released; while it runs it
occupies the local slot. -/
theorem wp_localSession (hL : IssuesFresh L At) {p : Pump σ} (ht : Tracks At p.world s)
    (hg : Holds s g) (free : s.holds none = none) {begin_ : Prog Exn (World σ) Stream}
    (hbegin : Makes At g (fun h => ({ handle := h } : Stream)) begin_)
    {body : Stream → Prog Exn (Pump σ) α}
    (hbody : ∀ session, Prog.Within (OnWorld (UsesOnly At session.handle)) (body session)) :
    Prog.wp (do
        let session ← Pump.onWorld begin_
        Prog.ensuring (body session) (Pump.onWorld (session.destroy L)))
      (onPump (simulates At s (fun _ o => o = s.holds) (· = s.holds) (SameObjects s))) p := by
  rw [Prog.wp_bind, wp_onWorld]
  refine (hbegin p.world s none ht hg free).mono ?_ (fun _ _ h => h) ?_
  · intro session w₁ h
    obtain ⟨s₁, hsteps₁, ht₁, h, rfl, hz, hholds₁⟩ := h
    have hslot₁ : s₁.holds none = some h := by rw [hholds₁, Function.update_self]
    -- the body uses the session, the destructor releases it
    have huse : ∀ p₂ : Pump σ, UsesOnly At h w₁ p₂.world →
        ∃ s₂, Steps s s₂ ∧ Tracks At p₂.world s₂ ∧ s₂.holds = s₁.holds := by
      intro p₂ huse
      obtain ⟨s₂, hsteps₂, ht₂, hholds₂, -⟩ := ht₁.uses (Or.inr ⟨none, hslot₁⟩) huse
      exact ⟨s₂, hsteps₁.trans hsteps₂, ht₂, hholds₂⟩
    have hrelease : ∀ p₂ : Pump σ, UsesOnly At h w₁ p₂.world →
        ∀ Q : Prog.Post Exn (World σ) Unit,
          (∀ w₃ s₃, Steps s s₃ → Tracks At w₃ s₃ → s₃.holds = s.holds → Q.ok () w₃) →
          Prog.wp (Stream.destroy L { handle := h }) Q p₂.world := by
      intro p₂ hp₂ Q hQ
      obtain ⟨s₂, hsteps₂, ht₂, hholds₂⟩ := huse p₂ hp₂
      have hslot₂ : s₂.holds none = held ({ handle := h } : Stream).handle := by
        rw [hholds₂, hslot₁, held, if_neg hz]
      refine simulates_never (wp_streamDestroy hL ht₂ hslot₂) ?_
      intro _ w₃ s₃ hsteps₃ ht₃ hholds₃
      refine hQ w₃ s₃ (hsteps₂.trans hsteps₃) ht₃ ?_
      rw [hholds₃, hholds₂, hholds₁, Function.update_idem]
      exact Function.update_eq_self_iff.mpr free.symm
    show Prog.wp _ _ _
    rw [Prog.wp_ensuring]
    -- the session's destructor runs when the body returns and when it throws
    refine ((hbody { handle := h }).wp _).mono ?_ ?_ ?_
    · intro a p₂ hp₂
      show Prog.wp (Pump.onWorld _) _ _
      rw [wp_onWorld]
      exact hrelease p₂ hp₂ _ fun w₃ s₃ hsteps ht' hholds => ⟨s₃, hsteps, ht', hholds⟩
    · intro e p₂ hp₂
      show Prog.wp (Pump.onWorld _) _ _
      rw [wp_onWorld]
      exact hrelease p₂ hp₂ _ fun w₃ s₃ hsteps ht' hholds => ⟨s₃, hsteps, ht', hholds⟩
    · intro p₂ hp₂
      obtain ⟨s₂, hsteps₂, ht₂, hholds₂⟩ := huse p₂ hp₂
      refine ⟨s₂, hsteps₂, ht₂, ?_⟩
      intro a
      rw [hholds₂, hholds₁, Function.update_of_ne (by simp)]
  · intro w₁ h
    obtain ⟨s₁, hsteps₁, ht₁, hholds₁⟩ := h
    exact ⟨s₁, hsteps₁, ht₁, fun a => by rw [hholds₁]⟩

/-- What every entry leaves: the objects hold what they held. -/
abbrev keepsObjects (At : σ → List Handle → Prop) (s : Owners Slot Handle) (α : Type) :
    Prog.Post Exn (World σ) α :=
  simulates At s (fun _ o => o = s.holds) (· = s.holds) (SameObjects s)

/-- The pumps into the caller's buffer. -/
theorem wp_pumpInto_keeps (hL : IssuesFresh L At) (ht : Tracks At w s) (hg : Holds s g)
    (free : s.holds none = none) {begin_ : Prog Exn (World σ) Stream}
    (hbegin : Makes At g (fun h => ({ handle := h } : Stream)) begin_) (src dst : Bytes)
    (fuel : Nat) :
    Prog.wp (Entry.pumpInto dst do
        let session ← Pump.onWorld begin_
        Prog.ensuring (pumpInto L session src fuel) (Pump.onWorld (session.destroy L)))
      (keepsObjects At s Unit) w := by
  unfold Entry.pumpInto
  rw [Prog.wp_bind, Prog.wp_zoom]
  exact wp_localSession hL ht hg free hbegin fun session =>
    within_pumpInto (allowsSession hL session.handle) src fuel

/-- One pass of the allocating pump. -/
theorem wp_pumpAttempt_keeps (hL : IssuesFresh L At) (junk : Nat → Nat → UInt8)
    (ht : Tracks At w s) (hg : Holds s g) (free : s.holds none = none)
    {begin_ : Prog Exn (World σ) Stream}
    (hbegin : Makes At g (fun h => ({ handle := h } : Stream)) begin_) (src : Bytes)
    (fuel : Nat) (last : Bool) (cap : Nat) :
    Prog.wp (pumpAttempt L junk begin_ src fuel last cap)
      (keepsObjects At s (Option Bytes)) w := by
  unfold pumpAttempt Pump.withBuffer
  rw [Prog.wp_zoom, Prog.wp_ensuring]
  refine (wp_localSession hL ht hg free hbegin fun session => ?_).mono ?_ ?_ (fun _ h => h)
  · refine .handle ?_ fun e => ?_
    · refine .bind (within_pumpInto (allowsSession hL session.handle) src fuel) fun n => ?_
      exact .bind .get fun p => .pure _
    · cases e with
      | error e => exact .throw _
      | invalidArgument what => exact .ite (.throw _) (.pure _)
  · intro a p' h
    obtain ⟨s', hsteps, ht', hholds⟩ := h
    exact ⟨s', hsteps, ht'.dealloc _, hholds⟩
  · intro e p' h
    obtain ⟨s', hsteps, ht', hholds⟩ := h
    exact ⟨s', hsteps, ht'.dealloc _, hholds⟩

/-- All of its passes. -/
theorem wp_pumpAttempts_keeps (hL : IssuesFresh L At) (junk : Nat → Nat → UInt8)
    {begin_ : Prog Exn (World σ) Stream}
    (hbegin : Makes At g (fun h => ({ handle := h } : Stream)) begin_) (src : Bytes)
    (fuel : Nat) :
    ∀ (left cap : Nat) (w : World σ) (s : Owners Slot Handle), Tracks At w s → Holds s g →
      s.holds none = none →
      Prog.wp (pumpAttempts L junk begin_ src fuel left cap) (keepsObjects At s Bytes) w := by
  intro left
  -- on the attempts left: a pass that gives up has released its session
  induction left with
  | zero =>
      intro cap w s ht hg free
      unfold pumpAttempts
      rw [Prog.wp_bind]
      refine (wp_pumpAttempt_keeps hL junk ht hg free hbegin src fuel _ cap).mono_ok ?_
      intro done w' h
      cases done with
      | some bytes => exact h
      | none => exact h
  | succ left ih =>
      intro cap w s ht hg free
      unfold pumpAttempts
      rw [Prog.wp_bind]
      refine (wp_pumpAttempt_keeps hL junk ht hg free hbegin src fuel _ cap).mono_ok ?_
      intro done w' h
      cases done with
      | some bytes => exact h
      -- the next pass starts with the slots as this one found them
      | none =>
          obtain ⟨s', hsteps, ht', hholds⟩ := h
          have hg' : Holds s' g := by
            unfold Holds
            rw [hholds]
            exact hg
          have hrun := ih (cap * 2 % sizeMod) w' s' ht' hg' (by rw [hholds]; exact free)
          unfold keepsObjects SameObjects at hrun
          rw [hholds] at hrun
          exact simulates_trans hsteps hrun

/-! ## §7. Entries. -/

/-- Any use of a handle, inside an entry. -/
theorem allows_own (hL : IssuesFresh L At) {c : FfiCall} {h : Handle} (hc : c.handle? = some h)
    (hr : c.releases = false) : Allows L (UsesOnly At h) c :=
  allows_use hL (fun _ hh => (Option.some.inj (hc.symm.trans hh)).symm) hr

theorem wp_quiet (ht : Tracks At w s) (hg : Holds s g) {m : Prog Exn (World σ) α}
    (hm : Prog.Within (UsesOnly At g) m) : Prog.wp m (keepsObjects At s α) w := by
  refine (wp_uses ht hg hm).mono (fun _ _ h => h) (fun _ _ h => h) ?_
  intro w' h
  obtain ⟨s', hsteps, ht', hholds⟩ := h
  exact ⟨s', hsteps, ht', fun a => by rw [hholds]⟩

/-- The entries of a Pipeline that make one kind of call on its handle. -/
theorem within_cipherEntry (hL : IssuesFresh L At) (junk : Nat → Nat → UInt8) (h : Handle)
    (fn : CipherFn) (src : Bytes) (what : String) :
    Prog.Within (UsesOnly At h) (do
      let _ ← cipherCall L junk h fn src what
      pure () : Prog Exn (World σ) Unit) := by
  refine .bind (within_cipherCall (lenient_usesOnly hL h) junk (fun n => ?_) what) fun _ => .pure ()
  cases fn <;> exact allows_own hL rfl rfl

theorem within_cipherEntryInto (hL : IssuesFresh L At) (h : Handle) (fn : CipherFn)
    (src dst : Bytes) (what : String) :
    Prog.Within (UsesOnly At h) (do
      let _ ← cipherCallInto L h fn src dst what
      pure () : Prog Exn (World σ) Unit) := by
  refine .bind (within_cipherCallInto (lenient_usesOnly hL h) (fun n => ?_) dst what) fun _ =>
    .pure ()
  cases fn <;> exact allows_own hL rfl rfl

/-- A Pipeline's entries leave what the objects hold. -/
theorem wp_onPipeline (hL : IssuesFresh L At) (junk : Nat → Nat → UInt8) {self : Pipeline}
    (ht : Tracks At w s) (hg : Holds s self.handle) (free : s.holds none = none) (e : Entry) :
    Prog.wp (e.onPipeline L junk self) (keepsObjects At s Unit) w := by
  have hlen := lenient_usesOnly hL self.handle
  have hpump : ∀ (dir : Direction) (src : Bytes) (fuel : Nat),
      Prog.wp (do
          let _ ← pumpAlloc L junk (dir.begin_ L self) src fuel
          pure () : Prog Exn (World σ) Unit) (keepsObjects At s Unit) w := by
    intro dir src fuel
    rw [Prog.wp_bind]
    exact wp_pumpAttempts_keeps hL junk (makes_begin hL dir self) src fuel 2 _ w s ht hg free
  cases e with
  | save =>
      refine wp_quiet ht hg (.bind (.bind (within_bufCall hlen ?_ _) fun _ => .pure _) fun _ =>
        .pure ())
      exact fun n => allows_own hL rfl rfl
  | saveF path =>
      refine wp_quiet ht hg (.bind (within_ffi (allows_own hL rfl rfl)) fun r => ?_)
      exact within_check hlen r.rc _
  | maxWorkers n =>
      refine wp_quiet ht hg (.bind (within_ffi (allows_own hL rfl rfl)) fun r => ?_)
      exact within_check hlen r.rc _
  | rekey perm wrap =>
      refine wp_quiet ht hg (.bind (.bind (within_bufCall hlen ?_ _) fun _ => .pure _) fun _ =>
        .pure ())
      exact fun n => allows_own hL rfl rfl
  | encryptMessage plain => exact wp_quiet ht hg (within_cipherEntry hL junk _ _ _ _)
  | decryptMessage wire => exact wp_quiet ht hg (within_cipherEntry hL junk _ _ _ _)
  | encryptMessageInto plain dst => exact wp_quiet ht hg (within_cipherEntryInto hL _ _ _ _ _)
  | decryptMessageInto wire dst => exact wp_quiet ht hg (within_cipherEntryInto hL _ _ _ _ _)
  | encryptStreamOneShot plain => exact wp_quiet ht hg (within_cipherEntry hL junk _ _ _ _)
  | decryptStreamOneShot wire => exact wp_quiet ht hg (within_cipherEntry hL junk _ _ _ _)
  | encryptStreamOneShotInto plain dst =>
      exact wp_quiet ht hg (within_cipherEntryInto hL _ _ _ _ _)
  | decryptStreamOneShotInto wire dst =>
      exact wp_quiet ht hg (within_cipherEntryInto hL _ _ _ _ _)
  | encryptStreamPump plain fuel => exact hpump .encrypt plain fuel
  | decryptStreamPump wire fuel => exact hpump .decrypt wire fuel
  | encryptStreamPumpInto plain dst fuel =>
      exact wp_pumpInto_keeps hL ht hg free (makes_begin hL .encrypt self) plain dst fuel
  | decryptStreamPumpInto wire dst fuel =>
      exact wp_pumpInto_keeps hL ht hg free (makes_begin hL .decrypt self) wire dst fuel
  | write | end_ | read => exact wp_quiet ht hg (.pure ())

/-- So do a session's. -/
theorem wp_onStream (hL : IssuesFresh L At) {self : Stream} (ht : Tracks At w s)
    (hg : Holds s self.handle) (e : Entry) :
    Prog.wp (e.onStream L self) (keepsObjects At s Unit) w := by
  have hsession := allowsSession hL self.handle
  apply wp_quiet ht hg
  cases e with
  | write src => exact within_write hsession src
  | end_ => exact within_end hsession
  | read dst => exact .bind (within_read hsession dst) fun _ => .pure ()
  | _ => exact .pure ()

/-! ## §8. Operations on objects. -/

/-- What the objects hold; no pump is running. -/
def heldBy (objects : Addr → Option Object) : Slot → Option Handle
  | none => none
  | some a => (objects a).bind fun o => held o.handle

theorem heldBy_update (objects : Addr → Option Object) (a : Addr) (o : Option Object) :
    heldBy (Function.update objects a o) =
      Function.update (heldBy objects) (some a) (o.bind fun o => held o.handle) := by
  funext slot
  cases slot with
  | none => rw [Function.update_of_ne (by simp)]; rfl
  | some b =>
      by_cases hb : b = a
      · subst hb
        rw [Function.update_self]
        show (Function.update objects b o b).bind _ = _
        rw [Function.update_self]
      · rw [Function.update_of_ne (by simpa using hb)]
        show (Function.update objects a o b).bind _ = _
        rw [Function.update_of_ne hb]
        rfl

/-- The state of the discipline that belongs to a heap. -/
structure Matches (At : σ → List Handle → Prop) (heap : Heap σ) (s : Owners Slot Handle) :
    Prop where
  tracks : Tracks At heap.world s
  holds : s.holds = heldBy heap.objects

/-- However an operation ends, the discipline has gone along. -/
def follows (At : σ → List Handle → Prop) (s : Owners Slot Handle) :
    Prog.Post Exn (Heap σ) Unit where
  ok _ heap := ∃ s', Steps s s' ∧ Matches At heap s'
  threw _ heap := ∃ s', Steps s s' ∧ Matches At heap s'
  running heap := ∃ s', Steps s s' ∧ Tracks At heap.world s' ∧
    ∀ a, s'.holds (some a) = heldBy heap.objects (some a)

variable {heap : Heap σ}

theorem Matches.slot (hm : Matches At heap s) {a : Addr} {self : Object}
    (ha : heap.objects a = some self) : s.holds (some a) = held self.handle := by
  rw [hm.holds]
  show (heap.objects a).bind _ = _
  rw [ha]
  rfl

theorem Matches.free (hm : Matches At heap s) {a : Addr} (ha : heap.objects a = none) :
    s.holds (some a) = none := by
  rw [hm.holds]
  show (heap.objects a).bind _ = _
  rw [ha]
  rfl

theorem Matches.held (hm : Matches At heap s) {a : Addr} {self : Object}
    (ha : heap.objects a = some self) : Holds s self.handle := by
  by_cases hz : self.handle = 0
  · exact Or.inl hz
  · right
    refine ⟨some a, ?_⟩
    rw [hm.slot ha, ItbCpp.held, if_neg hz]

/-- Work on the world, and then the objects updated. -/
theorem wp_thenSet (hm : Matches At heap s) {m : Prog Exn (World σ) α}
    {k : α → Prog Exn (Heap σ) Unit} {f : α → (Addr → Option Object) → Addr → Option Object}
    (hk : ∀ a heap', Prog.wp (k a)
      ⟨fun _ h => h = { heap' with objects := f a heap'.objects }, fun _ _ => False,
        fun _ => False⟩ heap')
    (hrun : Prog.wp m (simulates At s (fun a o => o = heldBy (f a heap.objects)) (· = s.holds)
      (SameObjects s)) heap.world) :
    Prog.wp (do
        let a ← Heap.onWorld m
        k a)
      (follows At s) heap := by
  unfold Heap.onWorld
  rw [Prog.wp_bind, Prog.wp_zoom]
  refine hrun.mono ?_ ?_ ?_
  · intro a w' h
    obtain ⟨s', hsteps, ht', hholds⟩ := h
    refine (hk a { heap with world := w' }).mono ?_ (fun _ _ h => h.elim) (fun _ h => h.elim)
    intro _ heap heq
    subst heq
    exact ⟨s', hsteps, ht', hholds⟩
  · intro e w' h
    obtain ⟨s', hsteps, ht', hholds⟩ := h
    exact ⟨s', hsteps, ht', hholds.trans hm.holds⟩
  · intro w' h
    obtain ⟨s', hsteps, ht', hholds⟩ := h
    exact ⟨s', hsteps, ht', fun a => (hholds a).trans (by rw [hm.holds])⟩

/-- `close`: a session is left without its handle, a Pipeline keeps it. -/
theorem wp_objectClose (hL : IssuesFresh L At) (ht : Tracks At w s) {slot : Slot}
    {self : Object} (hslot : s.holds slot = held self.handle) (hg : Holds s self.handle) :
    Prog.wp (self.close L)
      (simulates At s (fun x o => o = Function.update s.holds slot (held x.handle))
        (· = s.holds) (SameObjects s)) w := by
  -- the two kinds of session close alike
  have hstream : ∀ (session : Stream) (mk : Stream → Object), (∀ x, (mk x).handle = x.handle) →
      s.holds slot = held session.handle →
      Prog.wp (do
          let x ← session.close L
          pure (mk x))
        (simulates At s (fun x o => o = Function.update s.holds slot (held x.handle))
          (· = s.holds) (SameObjects s)) w := by
    intro session mk hmk hsession
    rw [Prog.wp_bind]
    refine simulates_never (wp_streamClose hL ht hsession) ?_
    intro x w' s' hsteps ht' h
    obtain ⟨hz, hholds⟩ := h
    refine ⟨s', hsteps, ht', ?_⟩
    show s'.holds = Function.update s.holds slot (held (mk x).handle)
    rw [hholds, hmk, hz]
    rfl
  cases self with
  | pipeline self =>
      have hclose : Prog.Within (UsesOnly At self.handle) (self.close L) :=
        .ite (.bind (within_ffi (allows_own hL rfl rfl)) fun _ => .pure ()) (.pure ())
      show Prog.wp (do
        self.close L
        pure (Object.pipeline self)) _ w
      rw [Prog.wp_bind]
      refine (wp_quiet ht hg hclose).mono_ok ?_
      intro _ w' h
      obtain ⟨s', hsteps, ht', hholds⟩ := h
      refine ⟨s', hsteps, ht', ?_⟩
      show s'.holds = _
      rw [hholds]
      exact (Function.update_eq_self_iff.mpr hslot.symm).symm
  | encryptStream self => exact hstream self .encryptStream (fun _ => rfl) hslot
  | decryptStream self => exact hstream self .decryptStream (fun _ => rfl) hslot

/-- The destructor. -/
theorem wp_objectDestroy (hL : IssuesFresh L At) (ht : Tracks At w s) {slot : Slot}
    {self : Object} (hslot : s.holds slot = held self.handle) :
    Prog.wp (self.destroy L)
      (simulates At s (fun _ o => o = Function.update s.holds slot none)
        (fun _ => False) (fun _ => False)) w := by
  cases self with
  | pipeline self => exact wp_pipelineDestroy hL ht hslot
  | encryptStream self | decryptStream self => exact wp_streamDestroy hL ht hslot

/-- **Move assignment** releases what the target owned and then hands over
the handle of the source. -/
theorem wp_objectMoveAssign (hL : IssuesFresh L At) (ht : Tracks At w s) {a b : Slot}
    (ne : b ≠ a) {self other : Object} (hself : s.holds a = held self.handle)
    (hother : s.holds b = held other.handle) {m : Prog Exn (World σ) (Object × Object)}
    (hm : self.moveAssign L other = some m) :
    Prog.wp m (simulates At s
      (fun x o => o = Function.update (Function.update s.holds a (held x.1.handle)) b
        (held x.2.handle)) (fun _ => False) (fun _ => False)) w := by
  -- what is left to do once the target is free
  have hmove : ∀ (w' : World σ) s₁, Tracks At w' s₁ → Steps s s₁ →
      s₁.holds = Function.update s.holds a none →
      ∃ s', Steps s s' ∧ Tracks At w' s' ∧
        s'.holds = Function.update (Function.update s.holds a (held other.handle)) b none := by
    intro w' s₁ ht₁ hsteps₁ hholds₁
    have hfree : s₁.holds a = none := by rw [hholds₁, Function.update_self]
    have hb : s₁.holds b = held other.handle := by
      rw [hholds₁, Function.update_of_ne ne, hother]
    refine ⟨_, hsteps₁.tail (Step.transfer ne hfree), ⟨ht₁.history, ht₁.issued, ht₁.known⟩, ?_⟩
    show Function.update (Function.update s₁.holds a (s₁.holds b)) b none = _
    rw [hb, hholds₁, Function.update_idem]
  -- the two kinds of session assign alike
  have hstream : ∀ (x y : Stream) (mk : Stream → Object), (∀ z, (mk z).handle = z.handle) →
      s.holds a = held x.handle → y.handle = other.handle →
      Prog.wp (x.moveAssign L y >>= fun z => pure (mk z.1, mk z.2))
        (simulates At s (fun x o => o = Function.update (Function.update s.holds a
          (held x.1.handle)) b (held x.2.handle)) (fun _ => False) (fun _ => False)) w := by
    intro x y mk hmk hx hy
    unfold Stream.moveAssign
    rw [Prog.bind_bind, Prog.wp_bind]
    refine (wp_streamClose hL ht hx).mono_ok ?_
    intro _ w' h
    obtain ⟨s₁, hsteps₁, ht₁, -, hholds₁⟩ := h
    obtain ⟨s', hsteps, ht', hholds⟩ := hmove w' s₁ ht₁ hsteps₁ hholds₁
    refine ⟨s', hsteps, ht', ?_⟩
    show s'.holds = Function.update (Function.update s.holds a (held (mk _).handle)) b
      (held (mk _).handle)
    rw [hholds, hmk, hmk, ← hy]
    rfl
  cases self with
  | pipeline x =>
      cases other with
      | pipeline y =>
          obtain rfl := Option.some.inj hm
          rw [Prog.wp_bind]
          have hfreed := wp_free hL ht hself (c := .free x.handle) rfl rfl rfl
            (({ handle := y.handle }, { handle := 0 }) : Pipeline × Pipeline)
            ({ handle := y.handle }, { handle := 0 })
          refine hfreed.mono_ok ?_
          intro p w' h
          obtain ⟨s₁, hsteps₁, ht₁, hp, hholds₁⟩ := h
          obtain ⟨s', hsteps, ht', hholds⟩ := hmove w' s₁ ht₁ hsteps₁ hholds₁
          rw [ite_self] at hp
          subst hp
          exact ⟨s', hsteps, ht', hholds⟩
      | encryptStream y | decryptStream y => cases hm
  | encryptStream x =>
      cases other with
      | encryptStream y =>
          obtain rfl := Option.some.inj hm
          exact hstream x y .encryptStream (fun _ => rfl) hself rfl
      | pipeline y | decryptStream y => cases hm
  | decryptStream x =>
      cases other with
      | decryptStream y =>
          obtain rfl := Option.some.inj hm
          exact hstream x y .decryptStream (fun _ => rfl) hself rfl
      | pipeline y | encryptStream y => cases hm

/-- A slot of the objects is not the pump's. -/
theorem heldBy_free (hm : Matches At heap s) : s.holds none = none := by
  rw [hm.holds]
  rfl

/-- Where two objects are put back. -/
theorem heldBy_update₂ (objects : Addr → Option Object) (a b : Addr) (x y : Object) :
    heldBy (Function.update (Function.update objects a (some x)) b (some y)) =
      Function.update (Function.update (heldBy objects) (some a) (held x.handle)) (some b)
        (held y.handle) := by
  rw [heldBy_update, heldBy_update]
  rfl

/-- Nothing happened. -/
theorem follows_refl (hm : Matches At heap s) :
    Prog.wp (pure () : Prog Exn (Heap σ) Unit) (follows At s) heap := ⟨s, .refl, hm⟩

/-- What the discipline did before comes first. -/
theorem follows_trans {s₁ : Owners Slot Handle} (h : Steps s s₁) {m : Prog Exn (Heap σ) Unit}
    (hm : Prog.wp m (follows At s₁) heap) : Prog.wp m (follows At s) heap := by
  refine hm.mono ?_ ?_ ?_
  · intro _ heap' h'
    obtain ⟨s', hsteps, hmatch⟩ := h'
    exact ⟨s', h.trans hsteps, hmatch⟩
  · intro _ heap' h'
    obtain ⟨s', hsteps, hmatch⟩ := h'
    exact ⟨s', h.trans hsteps, hmatch⟩
  · intro heap' h'
    obtain ⟨s', hsteps, hmatch⟩ := h'
    exact ⟨s', h.trans hsteps, hmatch⟩

/-- A new object at an address that had none. -/
theorem wp_makes (hm : Matches At heap s) {a : Addr} (ha : heap.objects a = none)
    (hg : Holds s g) {β : Type} {mk : Handle → β} {m : Prog Exn (World σ) β}
    (hmakes : Makes At g mk m) {wrap : β → Object} (hwrap : ∀ h, (wrap (mk h)).handle = h) :
    Prog.wp (do
        let x ← Heap.onWorld m
        Heap.set a (some (wrap x)))
      (follows At s) heap := by
  refine wp_thenSet (f := fun x objects => Function.update objects a (some (wrap x))) hm
    (fun _ _ => rfl) ?_
  refine (hmakes heap.world s (some a) hm.tracks hg (hm.free ha)).mono ?_ (fun _ _ h => h) ?_
  · intro x w' h
    obtain ⟨s', hsteps, ht', h, rfl, hz, hholds⟩ := h
    refine ⟨s', hsteps, ht', ?_⟩
    show s'.holds = heldBy (Function.update heap.objects a (some (wrap (mk h))))
    rw [heldBy_update, hholds, hm.holds, Option.bind_some, hwrap, held, if_neg hz]
  · intro w' h
    obtain ⟨s', hsteps, ht', hholds⟩ := h
    exact ⟨s', hsteps, ht', fun b => by rw [hholds]⟩

/-- **One operation.** -/
theorem wp_op (hL : IssuesFresh L At) (junk : Nat → Nat → UInt8) (hm : Matches At heap s)
    (op : Op) : Prog.wp (op.run L junk) (follows At s) heap := by
  unfold Op.run
  rw [Prog.wp_bind, Prog.wp_get]
  cases op with
  | make a f =>
      dsimp only
      cases ha : heap.objects a with
      | some self => exact follows_refl hm
      | none => exact wp_makes hm ha (Or.inl rfl) (makes_factory hL f) (fun _ => rfl)
  | begin_ a p dir =>
      dsimp only
      cases ha : heap.objects a with
      | some self => exact follows_refl hm
      | none =>
          cases hp : heap.objects p with
          | none => exact follows_refl hm
          | some owner =>
              cases owner with
              | encryptStream self | decryptStream self => exact follows_refl hm
              | pipeline self =>
                  refine wp_makes hm ha (hm.held hp) (makes_begin hL dir self) (fun h => ?_)
                  cases dir <;> rfl
  | moveConstruct a b =>
      dsimp only
      cases ha : heap.objects a with
      | some self => exact follows_refl hm
      | none =>
          cases hb : heap.objects b with
          | none => exact follows_refl hm
          | some other =>
              -- `a` is empty and `b` is not
              have hne : some b ≠ some a := by
                intro h
                rw [Option.some.inj h, ha] at hb
                cases hb
              refine ⟨_, .single (Step.transfer hne (hm.free ha)), ⟨?_, ?_⟩⟩
              · exact ⟨hm.tracks.history, hm.tracks.issued, hm.tracks.known⟩
              · show Function.update (Function.update s.holds (some a) (s.holds (some b)))
                  (some b) none = heldBy (Function.update (Function.update heap.objects a _) b _)
                rw [heldBy_update₂, hm.slot hb, hm.holds]
                cases other <;> rfl
  | moveAssign a b =>
      dsimp only
      by_cases hab : a = b
      -- self-assignment does nothing
      · rw [if_pos hab]
        exact follows_refl hm
      · rw [if_neg hab]
        cases ha : heap.objects a with
        | none => exact follows_refl hm
        | some self =>
            cases hb : heap.objects b with
            | none => exact follows_refl hm
            | some other =>
                cases hassign : self.moveAssign L other with
                | none =>
                    simp only [hassign]
                    exact follows_refl hm
                | some m =>
                    simp only [hassign]
                    refine wp_thenSet (f := fun x objects => Function.update
                      (Function.update objects a (some x.1)) b (some x.2)) hm
                      (fun _ _ => rfl) ?_
                    have hne : some b ≠ some a := fun h => hab (Option.some.inj h).symm
                    refine simulates_never (wp_objectMoveAssign hL hm.tracks hne (hm.slot ha)
                      (hm.slot hb) hassign) ?_
                    intro x w' s' hsteps ht' hholds
                    refine ⟨s', hsteps, ht', hholds.trans ?_⟩
                    rw [heldBy_update₂, ← hm.holds]
  | close a =>
      dsimp only
      cases ha : heap.objects a with
      | none => exact follows_refl hm
      | some self =>
          refine wp_thenSet (f := fun x objects => Function.update objects a (some x)) hm
            (fun _ _ => rfl) ?_
          refine (wp_objectClose hL hm.tracks (hm.slot ha) (hm.held ha)).mono_ok ?_
          intro x w' h
          obtain ⟨s', hsteps, ht', hholds⟩ := h
          refine ⟨s', hsteps, ht', hholds.trans ?_⟩
          rw [heldBy_update, ← hm.holds]
          rfl
  | call a e =>
      dsimp only
      cases ha : heap.objects a with
      | none => exact follows_refl hm
      | some self =>
          have hrun : Prog.wp (e.run L junk self) (keepsObjects At s Unit) heap.world := by
            cases self with
            | pipeline self =>
                exact wp_onPipeline hL junk hm.tracks (hm.held ha) (heldBy_free hm) e
            | encryptStream self | decryptStream self =>
                exact wp_onStream hL hm.tracks (hm.held ha) e
          dsimp only
          rw [← Prog.bind_pure (Heap.onWorld _)]
          refine wp_thenSet (f := fun _ objects => objects) hm (fun _ _ => rfl) ?_
          refine hrun.mono_ok ?_
          intro _ w' h
          obtain ⟨s', hsteps, ht', hholds⟩ := h
          exact ⟨s', hsteps, ht', hholds.trans hm.holds⟩
  | destroy a =>
      dsimp only
      cases ha : heap.objects a with
      | none => exact follows_refl hm
      | some self =>
          refine wp_thenSet (f := fun _ objects => Function.update objects a none) hm
            (fun _ _ => rfl) ?_
          refine simulates_never (wp_objectDestroy hL hm.tracks (hm.slot ha)) ?_
          intro _ w' s' hsteps ht' hholds
          refine ⟨s', hsteps, ht', hholds.trans ?_⟩
          rw [heldBy_update, ← hm.holds]
          rfl

/-- **Any program of operations**, from any heap the discipline accounts
for. -/
theorem wp_runOps (hL : IssuesFresh L At) (junk : Nat → Nat → UInt8) (ops : List Op) :
    ∀ (heap : Heap σ) (s : Owners Slot Handle), Matches At heap s →
      Prog.wp (runOps L junk ops) (follows At s) heap := by
  induction ops with
  | nil => exact fun heap s hm => follows_refl hm
  | cons op ops ih =>
      intro heap s hm
      have hrest : ∀ heap' s', Steps s s' → Matches At heap' s' →
          Prog.wp (runOps L junk ops) (follows At s) heap' :=
        fun heap' s' hsteps hm' => follows_trans hsteps (ih heap' s' hm')
      unfold runOps
      rw [Prog.wp_bind, Prog.wp_handle]
      -- the exception of an operation ends that operation only
      refine (wp_op hL junk hm op).mono ?_ ?_ (fun _ h => h)
      · intro _ heap' h
        obtain ⟨s', hsteps, hm'⟩ := h
        exact hrest heap' s' hsteps hm'
      · intro e heap' h
        obtain ⟨s', hsteps, hm'⟩ := h
        exact hrest heap' s' hsteps hm'

end Tracking

/-! ## §9. The main theorem. -/

section Main

variable {σ : Type} {L : Lib σ} {At : σ → List Handle → Prop}

theorem matches_start {lib₀ : σ} (h₀ : At lib₀ []) :
    Matches At (Heap.start lib₀) ⟨fun _ => none, []⟩ := by
  refine ⟨⟨rfl, ⟨h₀, List.nodup_nil, by simp [Heap.start]⟩, by simp [acquired]⟩, ?_⟩
  funext slot
  cases slot <;> rfl

/-- A handle adopted in a trace is acquired there. -/
theorem mem_acquired_of_adopt {evs : List Event} {h : Handle} (hmem : Event.adopt h ∈ evs)
    (hz : h ≠ 0) : h ∈ acquired (moves evs) := by
  refine List.mem_filterMap.mpr ⟨.acquire h, ?_, rfl⟩
  exact List.mem_filterMap.mpr ⟨.adopt h, hmem, if_neg hz⟩

/-- A call with a handle that was released before it breaks the discipline. -/
theorem not_released_of_call {evs : List Event} (h : Ownership.NoneAfterRelease (moves evs))
    {pre post : List Event} {c : FfiCall} {r : Reply} (heq : evs = pre ++ .call c r :: post)
    {g : Handle} (hg : c.handle? = some g) : g ∉ released (moves pre) := by
  intro hmem
  -- a released token is never zero, so the call is a move of the discipline
  have hz : g ≠ 0 := by
    obtain ⟨m, hm, hrel⟩ := List.mem_filterMap.mp hmem
    obtain ⟨e, -, he⟩ := List.mem_filterMap.mp hm
    cases m with
    | release t =>
        rw [← Option.some.inj hrel]
        exact Event.move_token_ne_zero he
    | acquire t | use t => cases hrel
  have hmove : ∃ m : Move Handle, Event.move (.call c r) = some m ∧ m.token = g := by
    refine ⟨if c.releases = true then .release g else .use g, ?_, by split <;> rfl⟩
    show c.handle?.bind _ = _
    rw [hg, Option.bind_some, if_neg hz]
  obtain ⟨m, hm, rfl⟩ := hmove
  refine h (moves pre) m (moves post) ?_ hmem
  have hcons : Event.call c r :: post = [.call c r] ++ post := rfl
  rw [heq, hcons, moves_append, moves_append, moves_singleton, hm]
  rfl

/-- What a program of operations may not do to handles. -/
structure OwnsHandles (r : Prog.Result Exn (Heap σ) Unit) : Prop where
  /-- a handle has one live owner at most -/
  unique : ∀ a b x y, r.state.objects a = some x → r.state.objects b = some y →
    x.handle ≠ 0 → x.handle = y.handle → a = b
  /-- nothing is released twice -/
  once : (released (moves r.state.world.trace)).Nodup
  /-- a released handle is given to no call -/
  live : ∀ pre c reply post h, r.state.world.trace = pre ++ .call c reply :: post →
    c.handle? = some h → h ∉ released (moves pre)
  /-- with all objects destroyed, every handle given to one was released once -/
  settled : ∀ heap, r = .ok () heap → (∀ a, heap.objects a = none) →
    ∀ h, h ≠ 0 → Event.adopt h ∈ heap.world.trace →
      (released (moves heap.world.trace)).count h = 1

/-- Two live objects never hold one handle. -/
theorem unique_of_sound {s : Owners Slot Handle} (hs : Sound s) {objects : Addr → Option Object}
    (hholds : ∀ a, s.holds (some a) = heldBy objects (some a)) (a b : Addr) (x y : Object)
    (ha : objects a = some x) (hb : objects b = some y) (hz : x.handle ≠ 0)
    (heq : x.handle = y.handle) : a = b := by
  have hslot : ∀ c z, objects c = some z → z.handle = x.handle →
      s.holds (some c) = some x.handle := by
    intro c z hc hz'
    rw [hholds c]
    show (objects c).bind _ = _
    rw [hc, Option.bind_some, held, hz', if_neg hz]
  exact Option.some.inj
    (hs.unique (some a) (some b) x.handle (hslot a x ha rfl) (hslot b y hb heq.symm))

/-- **Handle ownership**, for every finite program of operations on any
number of objects, starting with none. -/
theorem handle_ownership (hL : IssuesFresh L At) {lib₀ : σ} (h₀ : At lib₀ [])
    (junk : Nat → Nat → UInt8) (ops : List Op) :
    OwnsHandles (runOps L junk ops (Heap.start lib₀)) := by
  have hstart : Sound (⟨fun _ => none, []⟩ : Owners Slot Handle) :=
    Ownership.sound_start _ fun _ => rfl
  -- one state of the discipline accounts for the heap reached
  have hreach : ∃ s, Sound s ∧
      Tracks At (runOps L junk ops (Heap.start lib₀)).state.world s ∧
      (∀ a, s.holds (some a) =
        heldBy (runOps L junk ops (Heap.start lib₀)).state.objects (some a)) ∧
      ∀ heap, runOps L junk ops (Heap.start lib₀) = .ok () heap →
        s.holds = heldBy heap.objects := by
    have hrun := wp_runOps hL junk ops _ _ (matches_start h₀)
    unfold Prog.wp at hrun
    cases hr : runOps L junk ops (Heap.start lib₀) with
    | ok u heap =>
        rw [hr] at hrun
        obtain ⟨s, hsteps, hm⟩ := hrun
        refine ⟨s, hsteps.sound hstart, hm.tracks, fun a => by rw [hm.holds]; rfl, ?_⟩
        intro heap' h
        cases h
        exact hm.holds
    | threw e heap =>
        rw [hr] at hrun
        obtain ⟨s, hsteps, hm⟩ := hrun
        exact ⟨s, hsteps.sound hstart, hm.tracks, fun a => by rw [hm.holds]; rfl,
          fun heap' h => by cases h⟩
    | running heap =>
        rw [hr] at hrun
        obtain ⟨s, hsteps, ht, hholds⟩ := hrun
        exact ⟨s, hsteps.sound hstart, ht, hholds, fun heap' h => by cases h⟩
  obtain ⟨s, hs, ht, hholds, hok⟩ := hreach
  constructor
  · exact unique_of_sound hs hholds
  · rw [← ht.history]
    exact hs.once
  · intro pre c reply post h heq hh
    exact not_released_of_call (ht.history ▸ hs.safe) heq hh
  · intro heap hr hnone h hz hadopt
    -- no object is left, so no slot holds anything
    have hempty : ∀ slot, s.holds slot = none := by
      intro slot
      rw [hok heap hr]
      cases slot with
      | none => rfl
      | some a =>
          show (heap.objects a).bind _ = _
          rw [hnone a]
          rfl
    have hhist : s.moves = moves heap.world.trace := by
      rw [ht.history, hr]
      rfl
    rw [← hhist]
    apply List.count_eq_one_of_mem hs.once
    rw [← hs.settled hempty, hhist]
    exact mem_acquired_of_adopt hadopt hz

end Main

/-- A library that numbers its handles from one. -/
def numbering : Lib Nat := fun c n =>
  if c.issues then ({ rc := 0, handle := n + 1 }, n + 1) else ({ rc := 0 }, n)

theorem numbering_issuesFresh : IssuesFresh numbering (fun n used => ∀ h ∈ used, h ≤ n) := by
  -- its answers in closed form
  have hsucc : ∀ c n, Event.success (.call c (numbering c n).1) =
      if c.issues then some (n + 1) else none := by
    intro c n
    cases hc : c.issues <;> simp [Event.success, numbering, hc]
  constructor
  · intro n used c h hat hs
    rw [hsucc] at hs
    split at hs
    · obtain rfl := Option.some.inj hs
      exact ⟨Nat.succ_ne_zero n, fun hmem => Nat.not_succ_le_self n (hat _ hmem)⟩
    · cases hs
  · intro n used c hat h hmem
    rw [hsucc, List.mem_append] at hmem
    unfold numbering
    split at hmem
    · next hc =>
      rw [if_pos hc]
      rcases hmem with hmem | hmem
      · exact Nat.le_succ_of_le (hat h hmem)
      · obtain rfl := List.mem_singleton.mp hmem
        exact Nat.le_refl _
    · next hc =>
      rw [if_neg hc]
      simpa using hat h (by simpa using hmem)

/-- Objects moved between, closed twice and destroyed. -/
def tour : List Op :=
  [.make 0 (.load [] [] []), .make 1 (.load [] [] []), .begin_ 2 0 .encrypt, .moveConstruct 3 2,
    .moveAssign 3 3, .moveAssign 1 0, .close 3, .close 3, .close 1, .call 1 (.saveF []),
    .destroy 2, .destroy 3, .destroy 0, .destroy 1]

theorem handle_ownership_tour :
    OwnsHandles (runOps numbering (fun _ _ => 0) tour (Heap.start 0)) ∧
      released (moves (runOps numbering (fun _ _ => 0) tour (Heap.start 0)).state.world.trace) =
        [2, 3, 1] :=
  ⟨handle_ownership numbering_issuesFresh (by simp) _ tour, by decide +kernel⟩

end ItbCpp
