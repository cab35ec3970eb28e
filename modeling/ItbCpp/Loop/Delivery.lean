/-
  ItbCpp.Loop.Delivery
  ────────────────────
  **A WORKER AND ITS SESSIONS, AMONG THE OTHERS.**

  One worker of the harness that holds the read side, with its own sessions
  open.  Before each of its questions the others may have done anything that
  the discipline lets them do, and made any calls that are not on its
  sessions.  A session promises its worker something of its own calls only
  (`Serves`), and what it promises, the others cannot break.

    • `serves_of_conforming` — a conforming session serves its output,
    • `among` — what the worker is told: an answer of the machine, after
      what the others have done,
    • `wp_self`, `wp_setSelf`, `wp_pipe`, `wp_libraryCall` — its questions.
-/
import ItbCpp.Pump
import ItbCpp.Loop.Conduct

namespace ItbCpp

/-! ## §1. What a session is relied on for. -/

/-- The session a call is made on. -/
def FfiCall.session : FfiCall → Option Handle
  | .streamWrite x _ | .streamEnd x | .streamRead x _ | .streamFree x => some x
  | _ => none

/-- How far a session is: the bytes of the source written, what it has
delivered, and whether the input has ended. -/
structure Course where
  written : Nat
  got : Bytes
  ended : Bool

/-- What is true of a session as long as nobody makes a call on it or changes
a Pipeline. -/
def Lonely {σ : Type} (L : Lib σ) (x : Handle) (Φ : σ → Prop) : Prop :=
  ∀ c s, c.mutates = none → c.session ≠ some x → Φ s → Φ (L c s).2

/-- **A session** on the handle `x`, fed `src`: as long as its calls succeed
its reads deliver bytes, and all it has delivered when it reports the end is
`Made`.  It is nobody else's business. -/
structure Serves {σ : Type} (L : Lib σ) (x : Handle) (src : Bytes) (Made : Bytes → Prop)
    (At : σ → Course → Prop) : Prop where
  own : ∀ p, Lonely L x fun s => At s p
  write : ∀ s i d n, At s ⟨i, d, false⟩ → 0 < n → i + n ≤ src.length →
    (L (.streamWrite x ((src.drop i).take n)) s).1.rc = 0 →
    At (L (.streamWrite x ((src.drop i).take n)) s).2 ⟨i + n, d, false⟩
  end_ : ∀ s d, At s ⟨src.length, d, false⟩ → (L (.streamEnd x) s).1.rc = 0 →
    At (L (.streamEnd x) s).2 ⟨src.length, d, true⟩
  read : ∀ s i d e cap, At s ⟨i, d, e⟩ → 0 < cap → (L (.streamRead x cap) s).1.rc = 0 →
    (L (.streamRead x cap) s).1.len ≤ cap ∧
      (L (.streamRead x cap) s).1.len ≤ (L (.streamRead x cap) s).1.out.length
  /-- what a read has delivered, but for the read that reports the end -/
  more : ∀ s i d e cap, At s ⟨i, d, e⟩ → 0 < cap → (L (.streamRead x cap) s).1.rc = 0 →
    (e = true → (L (.streamRead x cap) s).1.fin = 0) →
    At (L (.streamRead x cap) s).2
      ⟨i, d ++ (L (.streamRead x cap) s).1.out.take (L (.streamRead x cap) s).1.len, e⟩
  last : ∀ s i d cap, At s ⟨i, d, true⟩ → 0 < cap → (L (.streamRead x cap) s).1.rc = 0 →
    (L (.streamRead x cap) s).1.fin ≠ 0 →
    Made (d ++ (L (.streamRead x cap) s).1.out.take (L (.streamRead x cap) s).1.len)

/-- A session that fails no call, delivers no more than `n` bytes, and once it
is ended delivers something with every read that does not report the end. -/
structure Prompt {σ : Type} (L : Lib σ) (x : Handle) (src : Bytes) (n : Nat)
    (At : σ → Course → Prop) : Prop where
  write : ∀ s i d m, At s ⟨i, d, false⟩ → 0 < m → i + m ≤ src.length →
    (L (.streamWrite x ((src.drop i).take m)) s).1.rc = 0
  end_ : ∀ s d, At s ⟨src.length, d, false⟩ → (L (.streamEnd x) s).1.rc = 0
  read : ∀ s i d e cap, At s ⟨i, d, e⟩ → 0 < cap → (L (.streamRead x cap) s).1.rc = 0
  bounded : ∀ s p, At s p → p.got.length ≤ n
  gives : ∀ s i d cap, At s ⟨i, d, true⟩ → 0 < cap → (L (.streamRead x cap) s).1.fin = 0 →
    0 < (L (.streamRead x cap) s).1.len

/-- A conforming session at a course: what it has delivered is the front of
its output. -/
structure Conformed {σ : Type} (O : Bytes) (At : σ → Phase → Prop) (s : σ) (p : Course) :
    Prop where
  phase : At s ⟨p.written, p.got.length, p.ended⟩
  within : p.got.length ≤ O.length
  got : p.got = O.take p.got.length

section Conforming

variable {σ : Type} {L : Lib σ} {x : Handle} {src O : Bytes} {At : σ → Phase → Prop}

/-- What a reply delivers that delivers the next bytes of the output. -/
theorem Delivers.next {d : Bytes} {cap : Nat} {r : Reply} (h : Delivers O d.length cap r)
    (hd : d = O.take d.length) :
    r.len ≤ r.out.length ∧ (d ++ r.out.take r.len).length = d.length + r.len ∧
      d ++ r.out.take r.len = O.take (d.length + r.len) := by
  have hlen := congrArg List.length h.bytes
  have hwithin := h.within
  simp only [List.length_take, List.length_drop] at hlen
  refine ⟨by omega, ?_, ?_⟩
  · rw [List.length_append, List.length_take]
    omega
  · rw [h.bytes, List.take_add, ← hd]

/-- **A conforming session** that is its owner's alone serves its output. -/
theorem serves_of_conforming (hS : Conforming L x src O At)
    (hown : ∀ p, Lonely L x fun s => At s p) :
    Serves L x src (· = O) (Conformed O At) := by
  have hread {s : σ} {i cap : Nat} {d : Bytes} {e : Bool} (h : Conformed O At s ⟨i, d, e⟩)
      (hcap : 0 < cap) : Delivers O d.length cap (L (.streamRead x cap) s).1 :=
    hS.read s i d.length e cap h.phase hcap
  constructor
  · exact fun p c s hm hx h => ⟨hown _ c s hm hx h.phase, h.within, h.got⟩
  · intro s i d n h hn hi _
    exact ⟨(hS.write s i d.length n h.phase hn hi).2, h.within, h.got⟩
  · exact fun s d h _ => ⟨(hS.end_ s d.length h.phase).2, h.within, h.got⟩
  · exact fun s i d e cap h hcap _ => ⟨(hread h hcap).fits, ((hread h hcap).next h.got).1⟩
  · intro s i d e cap h hcap _ hmore
    obtain ⟨-, hlen, hgot⟩ := (hread h hcap).next h.got
    have hphase : At (L (.streamRead x cap) s).2
        ⟨i, d.length + (L (.streamRead x cap) s).1.len, e⟩ := by
      cases e with
      | false => exact (hS.readBefore s i d.length cap h.phase hcap).2
      | true => exact ((hS.readAfter s i d.length cap h.phase hcap).2 (hmore rfl)).2
    refine ⟨?_, ?_, ?_⟩
    · show At _ ⟨i, (d ++ _).length, e⟩
      rw [hlen]
      exact hphase
    · show (d ++ _).length ≤ O.length
      rw [hlen]
      exact (hread h hcap).within
    · show d ++ _ = O.take (d ++ _).length
      rw [hlen]
      exact hgot
  · intro s i d cap h hcap _ hfin
    obtain ⟨-, -, hgot⟩ := (hread h hcap).next h.got
    rw [hgot, ((hS.readAfter s i d.length cap h.phase hcap).1).mp hfin, List.take_length]

theorem prompt_of_conforming (hS : Conforming L x src O At) :
    Prompt L x src O.length (Conformed O At) := by
  constructor
  · exact fun s i d m h hm hi => (hS.write s i d.length m h.phase hm hi).1
  · exact fun s d h => (hS.end_ s d.length h.phase).1
  · exact fun s i d e cap h hcap => (hS.read s i d.length e cap h.phase hcap).ok
  · exact fun s p h => h.within
  · exact fun s i d cap h hcap hfin =>
      ((hS.readAfter s i d.length cap h.phase hcap).2 hfin).1

theorem Prompt.mono {At : σ → Course → Prop} {n m : Nat} (h : Prompt L x src n At)
    (hnm : n ≤ m) : Prompt L x src m At :=
  ⟨h.write, h.end_, h.read, fun s p hat => Nat.le_trans (h.bounded s p hat) hnm, h.gives⟩

end Conforming

namespace Loop

open Thread

variable {σ K : Type} {N : Nat}

/-! ## §2. Among the others. -/

/-- Where a worker stands: the shared state, and the calls it has made. -/
structure Seen (σ K : Type) (N : Nat) where
  state : Shared σ K N
  calls : List Event

/-- A call that changes no Pipeline and is on none of the sessions `ss`. -/
def Apart (L : Lib σ) (ss : List (Handle × Handle)) (s s' : σ) : Prop :=
  ∃ c, c.mutates = none ∧ (∀ x, c.session = some x → ss.lookup x = none) ∧ s' = (L c s).2

/-- What the others may have done: what worker `k` relies on, and while it
holds the read side, calls apart from its sessions. -/
structure Others (L : Lib σ) (key : σ → Handle → Option K) (decode : Bytes → Option K)
    (k : Fin N) (s s' : Shared σ K N) : Prop where
  rely : Rely key (some k) s.toPipeState s'.toPipeState
  inv : PipeInv key decode s'.toPipeState
  lib : s.readers (some k) = true →
    Relation.ReflTransGen (Apart L (s.sessions (some k))) s.lib s'.lib
  worker : s'.workers k = s.workers k

/-- The call that an answer brings back. -/
def heard (k : Fin N) (s : Shared σ K N) : (q : Req) → q.Answer → List Event
  | .leave, r =>
      match s.calls (some k) with
      | some (c, _) => [.call c r]
      | none => []
  | _, _ => []

/-- **A worker among the others**: it may ask anything but to end the
process, and is answered by the machine.  Its loops may run on only when
nothing is said of their end. -/
def among (L : Lib σ) (key : σ → Handle → Option K) (decode : Bytes → Option K)
    (k : Fin N) (live : Prop) : Protocol Req Req.Answer (Seen σ K N) where
  asks _ q := ∀ n, q ≠ .exit n
  told t q a t' := ∃ s, Others L key decode k t.state s ∧
    answers L key (some k) s q a t'.state ∧ t'.calls = t.calls ++ heard k s q a
  spins _ := ¬ live

/-- The worker's record is given another value. -/
def Seen.setSelf (k : Fin N) (f : Worker → Worker) (t : Seen σ K N) : Seen σ K N :=
  { t with state := { t.state with
      workers := Function.update t.state.workers k (f (t.state.workers k)) } }

/-- A call of worker `k` has been made. -/
def Seen.called (L : Lib σ) (key : σ → Handle → Option K) (k : Fin N) (c : FfiCall)
    (t : Seen σ K N) : Seen σ K N :=
  { state := { t.state with toPipeState := t.state.toPipeState.effect L key (some k) c }
    calls := t.calls ++ [.call c (L c t.state.lib).1] }

section Rules

variable {L : Lib σ} {key : σ → Handle → Option K} {decode : Bytes → Option K}
  {k : Fin N} {live : Prop} {A : Seen σ K N → Prop} {t : Seen σ K N}

/-- An assertion that the others cannot break, and that is not about the call
inside the library. -/
structure Lasts (L : Lib σ) (key : σ → Handle → Option K) (decode : Bytes → Option K)
    (k : Fin N) (A : Seen σ K N → Prop) : Prop where
  others : ∀ t s, A t → Others L key decode k t.state s → A { t with state := s }
  inside : ∀ t v, A t → A { t with state := { t.state with calls := v } }

theorem lasts_true : Lasts L key decode k (fun _ : Seen σ K N => True) :=
  ⟨fun _ _ _ _ => trivial, fun _ _ _ => trivial⟩

/-- An answer that brings no call back. -/
theorem Seen.eq_of_quiet {t t' : Seen σ K N} {s : Shared σ K N} (hstate : t'.state = s)
    (hcalls : t'.calls = t.calls ++ []) : t' = { t with state := s } := by
  obtain ⟨state, calls⟩ := t'
  rw [List.append_nil] at hcalls
  subst hstate hcalls
  rfl

/-! ## §3. Its questions. -/

theorem wp_self (hA : Lasts L key decode k A) (ht : A t) {R : Ends Exn (Seen σ K N) Worker}
    (h : ∀ t', A t' → R.ok (t'.state.workers k) t') :
    (ask .self).wp (among L key decode k live) R t := by
  refine wp_call.mpr ⟨fun _ => nofun, ?_⟩
  intro w t' htold
  obtain ⟨s, hothers, hanswer, hcalls⟩ := htold
  obtain ⟨⟨j, hj, rfl⟩, hstate⟩ := hanswer
  obtain rfl := Option.some.inj hj
  rw [Seen.eq_of_quiet hstate hcalls]
  exact h _ (hA.others t s ht hothers)

theorem wp_setSelf {f : Worker → Worker} (hA : Lasts L key decode k A) (ht : A t)
    {R : Ends Exn (Seen σ K N) Unit} (h : ∀ t', A t' → R.ok () (t'.setSelf k f)) :
    (ask (.setSelf f)).wp (among L key decode k live) R t := by
  refine wp_call.mpr ⟨fun _ => nofun, ?_⟩
  intro u t' htold
  obtain ⟨s, hothers, hanswer, hcalls⟩ := htold
  obtain ⟨j, hj, hstate⟩ := hanswer
  obtain rfl := Option.some.inj hj
  rw [Seen.eq_of_quiet hstate hcalls]
  exact h _ (hA.others t s ht hothers)

/-- The handle of a pipe, live with a keying. -/
theorem wp_pipe {p : Pipe} (hA : Lasts L key decode k A) (ht : A t)
    (hreading : ∀ t', A t' → t'.state.readers (some k) = true)
    {R : Ends Exn (Seen σ K N) Handle}
    (h : ∀ g κ t', A t' → t'.state.pipes p = some g → key t'.state.lib g = some κ →
      R.ok g t') :
    (ask (.pipe p)).wp (among L key decode k live) R t := by
  refine wp_call.mpr ⟨fun _ => nofun, ?_⟩
  intro g t' htold
  obtain ⟨s, hothers, hanswer, hcalls⟩ := htold
  obtain ⟨hpipe, hstate⟩ := hanswer
  have hs := hA.others t s ht hothers
  -- a reader excludes a writer, so the pipes match
  have hnone : s.writer = none := by
    cases hw : s.writer with
    | none => rfl
    | some j =>
        have hfree := hothers.inv.lock j hw (some k)
        rw [hreading _ hs] at hfree
        cases hfree
  obtain ⟨-, κ, hκ, -⟩ := hothers.inv.matched hnone p g hpipe
  rw [Seen.eq_of_quiet hstate hcalls]
  exact h g κ _ hs hpipe hκ

/-- **A library call**: it takes effect at one point, and the others come in
before and after it. -/
theorem wp_libraryCall {c : FfiCall} {B : Reply → Seen σ K N → Prop}
    (hA : Lasts L key decode k A) (hB : ∀ r, Lasts L key decode k (B r)) (ht : A t)
    (hcall : ∀ t', A t' → B (L c t'.state.lib).1 (t'.called L key k c))
    {R : Ends Exn (Seen σ K N) Reply} (h : ∀ r t', B r t' → R.ok r t') :
    (libraryCall c).wp (among L key decode k live) R t := by
  show (ask (.enter c) >>= fun _ => ask .effect >>= fun _ => ask .leave).wp _ R t
  rw [wp_bind]
  refine wp_call.mpr ⟨fun _ => nofun, ?_⟩
  intro u t₁ htold
  obtain ⟨s, hothers, ⟨-, hstate⟩, hcalls⟩ := htold
  -- it is inside the library
  have ht₁ : A t₁ ∧ t₁.state.calls (some k) = some (c, none) ∧ t₁.calls = t.calls := by
    have hin := hA.inside _ (Function.update s.calls (some k) (some (c, none)))
      (hA.others t s ht hothers)
    obtain ⟨state, calls⟩ := t₁
    simp only [heard, List.append_nil] at hcalls hstate
    subst hcalls hstate
    exact ⟨hin, Function.update_self .., rfl⟩
  obtain ⟨ht₁, hinside, hcalls₁⟩ := ht₁
  show (ask .effect >>= fun _ => ask .leave).wp _ R t₁
  rw [wp_bind]
  refine wp_call.mpr ⟨fun _ => nofun, ?_⟩
  intro u t₂ htold
  obtain ⟨s₁, hothers₁, ⟨c', hc', hstate₁⟩, hcalls₂⟩ := htold
  have hsame : s₁.calls (some k) = some (c, none) := hothers₁.rely.own.calls.trans hinside
  rw [hsame] at hc'
  cases hc'
  have hs₁ := hA.others t₁ s₁ ht₁ hothers₁
  have hB₂ := hcall _ hs₁
  -- the answer is there, and is heard when the call returns
  refine wp_call.mpr ⟨fun _ => nofun, ?_⟩
  intro r t₃ htold
  obtain ⟨s₂, hothers₂, ⟨c₂, hc₂, hstate₂⟩, hcalls₃⟩ := htold
  have hanswered : s₂.calls (some k) = some (c, some (L c s₁.lib).1) := by
    rw [hothers₂.rely.own.calls, hstate₁]
    exact Function.update_self ..
  rw [hanswered] at hc₂
  cases hc₂
  rw [hstate₁] at hothers₂
  have hB₃ := (hB _).inside _ (Function.update s₂.calls (some k) none)
    ((hB _).others _ s₂ hB₂ hothers₂)
  have ht₃ : t₃ = ⟨{ s₂ with calls := Function.update s₂.calls (some k) none },
      t₁.calls ++ [.call c (L c s₁.lib).1]⟩ := by
    obtain ⟨state, calls⟩ := t₃
    simp only [heard, hanswered, hcalls₂, List.append_nil] at hcalls₃ hstate₂
    rw [hcalls₃, hstate₂]
  rw [ht₃]
  exact h _ _ hB₃

end Rules

end Loop

end ItbCpp
