/-
  ItbCpp.Loop.Drill
  ─────────────────
  **A RATCHET, AND A DRILL ON IT.**

  A library whose rekeys move a keying on by one, and the run of two
  workers over it that the results below are tried on: both pass their
  warmup and the barriers, then worker 0 makes one counted iteration, a
  rekey and a blob cycle.

    • `ratchet_keyedLib` — the library is one the harness may rely on,
    • `runs_lib` — calls that nobody comes in between are the entry of the
      binding that they make up,
    • `runs_iterate`, `runs_rekeyPipes`, `runs_blobCyclePipes` — what a
      worker does while the others wait,
    • `drill_runs` — the drill, over any library that goes along with it.
-/
import ItbCpp.Lib.Protocol
import ItbCpp.Loop.Startup

namespace ItbCpp.Loop

open Thread Interleave

/-! ## §1. A library that ratchets. -/

/-- The handles given out so far, and the keyings of the live ones. -/
structure Ratchet where
  next : Handle := 0
  live : Handle → Option UInt8 := fun _ => none

/-- The keying of a live handle. -/
def Ratchet.key (s : Ratchet) (h : Handle) : Option UInt8 :=
  if h ≤ s.next then s.live h else none

/-- One handle more. -/
def Ratchet.opened (s : Ratchet) (k : UInt8) : Ratchet :=
  { next := s.next + 1
    live := Function.update s.live (s.next + 1) (some k) }

/-- A handle is rekeyed or freed. -/
def Ratchet.set (s : Ratchet) (h : Handle) (k : Option UInt8) : Ratchet :=
  { s with live := Function.update s.live h k }

/-- Bytes for a buffer of `cap` bytes. -/
def deliver (b : Bytes) (cap : Nat) : Reply :=
  if b.length ≤ cap then { rc := 0, len := b.length, out := b }
  else { rc := Status.bufferTooSmall.code, len := b.length }

/-- A library whose blobs are the keying itself, whose rekey moves it on by
one, and whose ciphers are the identity. -/
def ratchet : Lib Ratchet := fun c s =>
  match c with
  | .init _ _ cap =>
      if 1 ≤ cap then ({ deliver [0] cap with handle := s.next + 1 }, s.opened 0)
      else (deliver [0] cap, s)
  | .load [k] _ _ _ => ({ rc := 0, handle := s.next + 1 }, s.opened k)
  | .load _ _ _ _ | .initKeys _ _ _ _ _ | .loadF _ _ _ _ => ({ rc := Status.badInput.code }, s)
  | .rekey h _ _ cap =>
      match s.key h with
      | some k => (deliver [k + 1] cap, if 1 ≤ cap then s.set h (some (k + 1)) else s)
      | none => ({ rc := Status.badHandle.code }, s)
  | .save h cap =>
      match s.key h with
      | some k => (deliver [k] cap, s)
      | none => ({ rc := Status.badHandle.code }, s)
  | .free h => ({ rc := 0 }, s.set h none)
  | .encryptMessage _ src cap | .decryptMessage _ src cap
  | .encryptStream _ src cap | .decryptStream _ src cap => (deliver src cap, s)
  | _ => ({ rc := 0 }, s)

section Ratchet

variable {s : Ratchet} {h g : Handle} {k : UInt8}

/-- The call succeeds when the buffer holds the bytes. -/
theorem rc_deliver {b : Bytes} {cap : Nat} : (deliver b cap).rc = 0 ↔ b.length ≤ cap := by
  unfold deliver
  by_cases hb : b.length ≤ cap
  · simp [hb]
  · simp [hb, Status.code]

theorem delivered_deliver {b : Bytes} {cap : Nat} (hb : b.length ≤ cap) :
    Delivered (deliver b cap) cap b := by
  unfold deliver
  rw [if_pos hb]
  exact ⟨hb, Nat.le_refl _, (List.take_length ..).symm⟩

/-- A cipher that is the identity gives back what it is given. -/
theorem returns_deliver {σ : Type} {L : Lib σ} {junk : Nat → Nat → UInt8} {h : Handle}
    {fn : CipherFn} {src : Bytes} {w : World σ} {l : σ} (what : String)
    (hroom : src.length ≤ outCap src.length) (hw : w.lib = l)
    (hcall : ∀ n, L (fn.call h src n) l = (deliver src n, l)) :
    Returns (cipherCall L junk h fn src what) w src l := by
  have hreply : L (fn.call h src (outCap src.length)) w.lib =
      (deliver src (outCap src.length), l) := by
    rw [hw]
    exact hcall _
  exact returns_cipherCall what hreply (rc_deliver.mpr hroom) (delivered_deliver hroom)

/-- The next handle is not live before it is given out. -/
theorem key_next (s : Ratchet) : s.key (s.next + 1) = none := if_neg (Nat.not_succ_le_self _)

/-- And has its keying then. -/
theorem key_opened_next (s : Ratchet) (k : UInt8) :
    (s.opened k).key (s.next + 1) = some k :=
  (if_pos (Nat.le_refl _)).trans (Function.update_self ..)

/-- Giving it out leaves the other handles alone, -/
theorem key_opened (hk : s.key h = some k) (k' : UInt8) : (s.opened k').key h = some k := by
  unfold Ratchet.key at hk ⊢
  by_cases hle : h ≤ s.next
  · have hne : h ≠ s.next + 1 := Nat.ne_of_lt (Nat.lt_succ_of_le hle)
    rw [if_pos hle] at hk
    rw [if_pos (show h ≤ (s.opened k').next from Nat.le_succ_of_le hle)]
    exact (Function.update_of_ne hne ..).trans hk
  · rw [if_neg hle] at hk
    cases hk

/-- as does a change of one of them. -/
theorem key_set_of_ne (s : Ratchet) (v : Option UInt8) (hne : g ≠ h) :
    (s.set h v).key g = s.key g := by
  show (if g ≤ s.next then Function.update s.live h v g else none) = s.key g
  rw [Function.update_of_ne hne]
  rfl

theorem key_set_self (hk : s.key h = some k) (k' : UInt8) :
    (s.set h (some k')).key h = some k' := by
  unfold Ratchet.key at hk ⊢
  by_cases hle : h ≤ s.next
  · exact (if_pos hle).trans (Function.update_self ..)
  · rw [if_neg hle] at hk
    cases hk

/-- A rekey moves the keying on, once the blob fits. -/
theorem ratchet_rekey (hk : s.key h = some k) (perm wrap : Bytes) (cap : Nat) :
    ratchet (.rekey h perm wrap cap) s =
      (deliver [k + 1] cap, if 1 ≤ cap then s.set h (some (k + 1)) else s) := by
  simp only [ratchet, hk]

theorem ratchet_rekey_dead (hk : s.key h = none) (perm wrap : Bytes) (cap : Nat) :
    ratchet (.rekey h perm wrap cap) s = ({ rc := Status.badHandle.code }, s) := by
  simp only [ratchet, hk]

theorem ratchet_save (hk : s.key h = some k) (cap : Nat) :
    ratchet (.save h cap) s = (deliver [k] cap, s) := by
  simp only [ratchet, hk]

/-- Every call but the one for a handle leaves its keying. -/
theorem ratchet_frame (c : FfiCall) (hk : s.key h = some k)
    (hc : c.changed (ratchet c s).1 ≠ some h) : (ratchet c s).2.key h = some k := by
  cases c with
  | init profile opts cap =>
      by_cases hcap : 1 ≤ cap
      · simp only [ratchet, if_pos hcap]
        exact key_opened hk 0
      · simp only [ratchet, if_neg hcap]
        exact hk
  | load blob perm wrap n =>
      match blob with
      | [k'] => exact key_opened hk k'
      | [] => exact hk
      | _ :: _ :: _ => exact hk
  | rekey g perm wrap cap =>
      cases hg : s.key g with
      | none =>
          rw [ratchet_rekey_dead hg]
          exact hk
      | some k' =>
          rw [ratchet_rekey hg, FfiCall.changed] at hc
          rw [ratchet_rekey hg]
          by_cases hcap : 1 ≤ cap
          · rw [if_pos (rc_deliver.mpr hcap)] at hc
            have hne : h ≠ g := fun heq => hc (congrArg some heq.symm)
            simp only [if_pos hcap, key_set_of_ne s _ hne]
            exact hk
          · simp only [if_neg hcap]
            exact hk
  | free g =>
      have hne : h ≠ g := fun heq => hc (congrArg some heq.symm)
      exact (key_set_of_ne s none hne).trans hk
  | save g cap =>
      cases hg : s.key g with
      | none =>
          simp only [ratchet, hg]
          exact hk
      | some k' =>
          rw [ratchet_save hg]
          exact hk
  | _ => exact hk

/-- It is what the harness relies on. -/
theorem ratchet_keyedLib : KeyedLib ratchet Ratchet.key List.head? where
  frame c _ _ _ hk hc := ratchet_frame c hk hc
  opened c s ho hrc := by
    cases c with
    | init profile opts cap =>
        by_cases hcap : 1 ≤ cap
        · simp only [ratchet, if_pos hcap]
          exact ⟨Nat.succ_ne_zero _, key_next s, 0, key_opened_next s 0⟩
        · simp only [ratchet, if_neg hcap] at hrc
          exact (hcap (rc_deliver.mp hrc)).elim
    | load blob perm wrap n =>
        match blob with
        | [k'] => exact ⟨Nat.succ_ne_zero _, key_next s, k', key_opened_next s k'⟩
        | [] => cases hrc
        | _ :: _ :: _ => cases hrc
    | initKeys | loadF => cases hrc
    | _ => cases ho
  load blob n s hrc := by
    match blob with
    | [k'] => exact key_opened_next s k'
    | [] => cases hrc
    | _ :: _ :: _ => cases hrc
  rekey h perm wrap cap s hrc := by
    cases hk : s.key h with
    | none =>
        rw [ratchet_rekey_dead hk] at hrc
        cases hrc
    | some k =>
        rw [ratchet_rekey hk] at hrc ⊢
        have hcap : 1 ≤ cap := rc_deliver.mp hrc
        refine ⟨k + 1, [k + 1], delivered_deliver hcap, ?_, rfl⟩
        rw [if_pos hcap]
        exact key_set_self hk (k + 1)
  save h cap s k hk hrc := by
    rw [ratchet_save hk] at hrc ⊢
    exact ⟨[k], delivered_deliver (rc_deliver.mp hrc), rfl⟩

end Ratchet

/-! ## §2. While the others wait. -/

/-- What is recorded of library calls. -/
structure Notes (K : Type) (N : Nat) where
  sessions : Tid N → List (Handle × Handle)
  used : Tid N → List (Use K)
  rotations : Pipe → List K

section Alone

variable {σ K : Type} {N : Nat} {L : Lib σ} (key : σ → Handle → Option K)
  {i : Tid N} {s : Shared σ K N}

/-- The state once library calls have come and gone. -/
def Shared.noting (s : Shared σ K N) (l : σ) (n : Notes K N) : Shared σ K N :=
  { s with lib := l, sessions := n.sessions, used := n.used, rotations := n.rotations }

/-- One call: it enters, takes effect and returns. -/
theorem runs_libraryCall (hexit : s.exited = none) (hidle : s.calls i = none) (c : FfiCall) :
    ∃ n : Notes K N, n.used i = s.used i ++ ((c.owner (s.sessions i)).map fun h =>
        { call := c, reply := (L c s.lib).1, handle := h, keying := key (L c s.lib).2 h }).toList ∧
      Runs ((machine L key).serve i) (libraryCall c) s (L c s.lib).1
        (s.noting (L c s.lib).2 n) := by
  let s₁ : Shared σ K N := { s with calls := Function.update s.calls i (some (c, none)) }
  let s₂ : Shared σ K N := { s₁ with toPipeState := s₁.toPipeState.effect L key i c }
  have hcalls : Function.update s₂.calls i none = s.calls := by
    show Function.update (Function.update (Function.update s.calls i _) i _) i none = s.calls
    rw [Function.update_idem, Function.update_idem]
    exact (congrArg (Function.update s.calls i) hidle.symm).trans (Function.update_eq_self i s.calls)
  have hend : { s₂ with calls := Function.update s₂.calls i none } =
      s.noting (L c s.lib).2 ⟨s₂.sessions, s₂.used, s₂.rotations⟩ := by
    rw [hcalls]
    rfl
  refine ⟨⟨s₂.sessions, s₂.used, s₂.rotations⟩, Function.update_self .., ?_⟩
  rw [← hend]
  exact runs_bind.mpr ⟨(), s₁, runs_call.mpr ⟨hexit, hidle, rfl⟩, runs_bind.mpr ⟨(), s₂,
    runs_call.mpr ⟨hexit, c, Function.update_self .., rfl⟩,
    runs_call.mpr ⟨hexit, c, Function.update_self .., rfl⟩⟩⟩

/-- A call that an entry begins with, and what is left of the entry. -/
theorem runs_first {α : Type} {c : FfiCall} {m : Reply → Call α} {a : α} {l : σ}
    (hexit : s.exited = none) (hidle : s.calls i = none)
    (hrest : ∀ s' : Shared σ K N, s'.exited = none → s'.calls i = none → s'.lib = (L c s.lib).2 →
      ∃ n : Notes K N, (s'.used i).length ≤ (n.used i).length ∧
        Runs ((machine L key).serve i) (lib (m (L c s.lib).1)) s' a (s'.noting l n)) :
    ∃ n : Notes K N,
      (s.used i).length + (c.owner (s.sessions i)).toList.length ≤ (n.used i).length ∧
        Runs ((machine L key).serve i) (lib (.ask (.ffi c) m)) s a (s.noting l n) := by
  obtain ⟨n₁, hused, hcall⟩ := runs_libraryCall (L := L) key hexit hidle c
  obtain ⟨n₂, hmore, hruns⟩ := hrest (s.noting (L c s.lib).2 n₁) hexit hidle rfl
  refine ⟨n₂, le_trans (Nat.le_of_eq ?_) hmore, ?_⟩
  · show _ = (n₁.used i).length
    rw [hused, List.length_append]
    cases c.owner (s.sessions i) with
    | none => rfl
    | some h => rfl
  · show Runs _ (libraryCall c >>= fun r => lib (m r)) s a _
    exact runs_bind.mpr ⟨_, _, hcall, hruns⟩

/-- **An entry of the binding** that nobody comes in between is the entry
alone; the record of cipher calls grows. -/
theorem runs_lib {α : Type} {m : Call α} {w : World σ} {a : α} {l : σ}
    (h : Returns (m.alone L) w a l) (hexit : s.exited = none) (hidle : s.calls i = none)
    (hw : w.lib = s.lib) :
    ∃ n : Notes K N, (s.used i).length ≤ (n.used i).length ∧
      Runs ((machine L key).serve i) (lib m) s a (s.noting l n) := by
  induction m generalizing s w with
  | ret b =>
      obtain ⟨w', hrun, rfl⟩ := h
      cases hrun
      refine ⟨⟨s.sessions, s.used, s.rotations⟩, Nat.le_refl _, ?_⟩
      rw [hw]
      exact .ret a s
  | throw e =>
      obtain ⟨w', hrun, -⟩ := h
      cases hrun
  | spin =>
      obtain ⟨w', hrun, -⟩ := h
      cases hrun
  | ask q k ih =>
      cases q with
      | ffi c =>
          have hanswer : L c w.lib = L c s.lib := congrArg (L c) hw
          have hrest : Returns (Call.alone L (k (L c s.lib).1)) (w.answered c (L c w.lib)) a l := by
            rw [← hanswer]
            exact h
          obtain ⟨n, hmore, hruns⟩ := runs_first key (m := k) hexit hidle fun s' hexit' hidle' hlib =>
            ih _ hrest hexit' hidle' ((congrArg Prod.snd hanswer).trans hlib.symm)
          exact ⟨n, Nat.le_of_add_right_le hmore, hruns⟩
      | emit e => exact ih () (w := w.log e) h hexit hidle hw

/-- A message or one-shot entry is put on record. -/
theorem runs_cipherCall {junk : Nat → Nat → UInt8} {h : Handle} {fn : CipherFn} {src : Bytes}
    {what : String} {a : Bytes} {l : σ} (hexit : s.exited = none) (hidle : s.calls i = none)
    (hret : ∀ w : World σ, w.lib = s.lib → Returns (cipherCall L junk h fn src what) w a l) :
    ∃ n : Notes K N, (s.used i).length < (n.used i).length ∧
      Runs ((machine L key).serve i) (lib (Call.cipherCall junk h fn src what)) s a
        (s.noting l n) := by
  let c := fn.call h src (outCap src.length)
  have hfirst : ∃ m, Call.cipherCall junk h fn src what = .ask (.ffi c) m := ⟨_, rfl⟩
  obtain ⟨m, hm⟩ := hfirst
  have halone : Returns (Call.alone L (m (L c s.lib).1))
      (World.answered ⟨s.lib, []⟩ c (L c s.lib)) a l := by
    have hwhole := hret ⟨s.lib, []⟩ rfl
    rw [← Call.alone_cipherCall, hm] at hwhole
    exact hwhole
  have howner : c.owner (s.sessions i) = some h := by
    cases fn <;> rfl
  obtain ⟨n, hmore, hruns⟩ := runs_first key (m := m) hexit hidle fun s' hexit' hidle' hlib =>
    runs_lib key halone hexit' hidle' hlib.symm
  rw [howner] at hmore
  rw [hm]
  exact ⟨n, hmore, hruns⟩

end Alone

/-! ## §3. A worker, while the others wait. -/

section Worker

variable {σ K : Type} {N : Nat} {L : Lib σ} (key : σ → Handle → Option K)
  (junk : Nat → Nat → UInt8) (cfg : Config) (id iter fuel : Nat) {k : Fin N}
  {s : Shared σ K N} {h : Handle}

/-- A worker whose round trip gave its plaintext back. -/
def Worker.counted (w : Worker) : Worker :=
  { w with
    iters := w.iters + 1
    bytesEnc := w.bytesEnc + w.plaintext.length
    bytesDec := w.bytesDec + w.plaintext.length }

/-- A computation that returns is caught returning. -/
theorem Runs.attempt {α τ : Type} {T : τ → (q : Req) → q.Answer → τ → Prop} {m : Task α}
    {t t' : τ} {a : α} (h : Runs T m t a t') : Runs T (attempt m) t (.ok a) t' := by
  have hok : Runs T (m >>= fun a => .ret (.ok a)) t (Except.ok a : Except Error α) t' :=
    runs_bind.mpr ⟨a, t', h, .ret _ t'⟩
  exact hok.handle _

/-- The state once worker `k` has changed its own record. -/
def Shared.setSelf (s : Shared σ K N) (k : Fin N) (f : Worker → Worker) : Shared σ K N :=
  { s with workers := Function.update s.workers k (f (s.workers k)) }

@[simp] theorem Shared.setSelf_setSelf (f g : Worker → Worker) :
    (s.setSelf k f).setSelf k g = s.setSelf k fun w => g (f w) := by
  simp only [Shared.setSelf, Function.update_self, Function.update_idem]

/-- A worker changes its own record. -/
theorem runs_setSelf (s : Shared σ K N) (hexit : s.exited = none) (f : Worker → Worker) :
    Runs ((machine L key).serve (some k)) (ask (.setSelf f)) s () (s.setSelf k f) :=
  runs_call.mpr ⟨hexit, k, rfl, rfl⟩

/-- The message round trip. -/
theorem runs_messageTrip {wire got : Bytes} {l₁ l₂ : σ} (hexit : s.exited = none)
    (hidle : s.calls (some k) = none) (hpipe : s.pipes .msg = some h)
    (henc : ∀ w : World σ, w.lib = s.lib →
      Returns (Pipeline.encryptMessage L junk { handle := h } (s.workers k).plaintext) w wire l₁)
    (hdec : ∀ w : World σ, w.lib = l₁ →
      Returns (Pipeline.decryptMessage L junk { handle := h } wire) w got l₂) :
    ∃ n : Notes K N, 2 ≤ (n.used (some k)).length ∧
      Runs ((machine L key).serve (some k)) (roundTrip junk id iter fuel .message) s (some got)
        (s.noting l₂ n) := by
  obtain ⟨n₁, hlen₁, hruns₁⟩ := runs_cipherCall key hexit hidle henc
  obtain ⟨n₂, hlen₂, hruns₂⟩ :=
    runs_cipherCall key (s := s.noting l₁ n₁) hexit hidle hdec
  have htwo : 2 ≤ (n₂.used (some k)).length := by
    have hone : (n₁.used (some k)).length < (n₂.used (some k)).length := hlen₂
    omega
  have hwire : Runs ((machine L key).serve (some k)) (Loop.attempt (do
      let h ← ask (.pipe .msg)
      let w ← ask .self
      lib (Call.encryptMessage junk { handle := h } w.plaintext))) s (.ok wire)
      (s.noting l₁ n₁) := by
    refine Runs.attempt (runs_bind.mpr ⟨h, s, runs_call.mpr ⟨hexit, hpipe, rfl⟩, ?_⟩)
    exact runs_bind.mpr ⟨s.workers k, s, runs_call.mpr ⟨hexit, ⟨k, rfl, rfl⟩, rfl⟩, hruns₁⟩
  have hplain : Runs ((machine L key).serve (some k)) (Loop.attempt (do
      let h ← ask (.pipe .msg)
      lib (Call.decryptMessage junk { handle := h } wire))) (s.noting l₁ n₁) (.ok got)
      (s.noting l₂ n₂) :=
    Runs.attempt (runs_bind.mpr ⟨h, _, runs_call.mpr ⟨hexit, hpipe, rfl⟩, hruns₂⟩)
  exact ⟨n₂, htwo, runs_bind.mpr ⟨.ok wire, _, hwire, runs_bind.mpr ⟨.ok got, _, hplain,
    .ret _ _⟩⟩⟩

/-- The comparison finds the plaintext, and the worker counts. -/
theorem runs_settle (s : Shared σ K N) (hexit : s.exited = none) :
    Runs ((machine L key).serve (some k)) (settle (s.workers k).plaintext) s true
      (s.setSelf k .counted) := by
  refine runs_bind.mpr ⟨s.workers k, s, runs_call.mpr ⟨hexit, ⟨k, rfl, rfl⟩, rfl⟩, ?_⟩
  rw [if_neg (not_not.mpr rfl)]
  let s₁ := s.setSelf k fun w => { w with iters := w.iters + 1 }
  let s₂ := s₁.setSelf k fun w => { w with bytesEnc := w.bytesEnc + w.plaintext.length }
  have hend : s₂.setSelf k (fun w =>
      { w with bytesDec := w.bytesDec + (s.workers k).plaintext.length }) =
      s.setSelf k .counted := by
    rw [Shared.setSelf_setSelf, Shared.setSelf_setSelf]
    rfl
  refine runs_bind.mpr ⟨(), s₁, runs_setSelf key s hexit _, ?_⟩
  refine runs_bind.mpr ⟨(), s₂, runs_setSelf key s₁ hexit _, ?_⟩
  exact runs_bind.mpr ⟨(), _, runs_setSelf key s₂ hexit _, hend ▸ .ret true _⟩

/-- **An iteration** on the message Pipeline that gives the plaintext back. -/
theorem runs_iterate {wire : Bytes} {l₁ l₂ : σ} (hshape : surface cfg.shape iter = .message)
    (hmode : cfg.payloadMode ≠ .rotating) (hexit : s.exited = none)
    (hidle : s.calls (some k) = none) (hwriter : s.writer = none)
    (hreader : s.readers (some k) = false) (hpipe : s.pipes .msg = some h)
    (henc : ∀ w : World σ, w.lib = s.lib →
      Returns (Pipeline.encryptMessage L junk { handle := h } (s.workers k).plaintext) w wire l₁)
    (hdec : ∀ w : World σ, w.lib = l₁ →
      Returns (Pipeline.decryptMessage L junk { handle := h } wire) w (s.workers k).plaintext
        l₂) :
    ∃ n : Notes K N, 2 ≤ (n.used (some k)).length ∧
      Runs ((machine L key).serve (some k)) (iterate junk cfg id iter fuel) s true
        ((s.noting l₂ n).setSelf k .counted) := by
  let s₁ : Shared σ K N := { s with
    readers := Function.update s.readers (some k) true
    used := Function.update s.used (some k) [] }
  obtain ⟨n, hlen, htrip⟩ := runs_messageTrip key junk id iter fuel (s := s₁)
    hexit hidle hpipe henc hdec
  let s₂ : Shared σ K N := (s₁.noting l₂ n).setSelf k .counted
  have hreaders : Function.update s₂.readers (some k) false = s.readers := by
    show Function.update (Function.update s.readers (some k) true) (some k) false = s.readers
    rw [Function.update_idem]
    exact (congrArg (Function.update s.readers (some k)) hreader.symm).trans
      (Function.update_eq_self (some k) s.readers)
  have hend : { s₂ with readers := Function.update s₂.readers (some k) false } =
      (s.noting l₂ n).setSelf k .counted := by
    rw [hreaders]
    rfl
  refine ⟨n, hlen, ?_⟩
  rw [← hend]
  unfold iterate refill
  rw [if_neg hmode, hshape]
  refine runs_bind.mpr ⟨true, s, .ret true s, runs_bind.mpr ⟨(), s₁,
    runs_call.mpr ⟨hexit, hwriter, rfl⟩, runs_ensuring.mpr ⟨s₂, ?_,
      runs_call.mpr ⟨hexit, rfl⟩⟩⟩⟩
  exact runs_bind.mpr ⟨some (s.workers k).plaintext, _, htrip,
    runs_settle key (s₁.noting l₂ n) hexit⟩

/-- Fresh masters are always to be had. -/
theorem runs_drawMaster (hexit : s.exited = none) (on : Bool) (layer : String) :
    ∃ b, Runs ((machine L key).serve (some k)) (drawMaster on layer id iter) s (some b) s := by
  cases on with
  | false => exact ⟨[], .ret _ s⟩
  | true =>
      refine ⟨zeros kRekeyMasterSize, runs_bind.mpr ⟨some (zeros kRekeyMasterSize), s,
        runs_call.mpr ⟨hexit, fun b hb => ?_, rfl⟩, .ret _ s⟩⟩
      obtain rfl := Option.some.inj hb
      exact length_zeros kRekeyMasterSize

/-- A Pipeline that is not there is passed over. -/
theorem runs_unset {p : Pipe} {m : Task Bool} (hexit : s.exited = none)
    (hunset : s.pipes p = none) :
    Runs ((machine L key).serve (some k)) (do if ← ask (.hasPipe p) then m else pure true) s
      true s :=
  runs_bind.mpr ⟨false, s, runs_call.mpr ⟨hexit, by rw [hunset]; rfl, rfl⟩, .ret true s⟩

/-- One that is there is maintained. -/
theorem runs_set {p : Pipe} {m : Task Bool} {s' : Shared σ K N} (hexit : s.exited = none)
    (hset : s.pipes p = some h) (hm : Runs ((machine L key).serve (some k)) m s true s') :
    Runs ((machine L key).serve (some k)) (do if ← ask (.hasPipe p) then m else pure true) s
      true s' :=
  runs_bind.mpr ⟨true, s, runs_call.mpr ⟨hexit, by rw [hset]; rfl, rfl⟩, hm⟩

/-- Two pieces of maintenance and their counter, in the scope of the write
lock. -/
theorem runs_exclusive {m m' : Task Bool} {count : Task Nat} {n : Nat}
    {s₁ s₂ s₃ : Shared σ K N} (hexit : s.exited = none) (hwriter : s.writer = none)
    (hreaders : ∀ j, s.readers j = false)
    (hm : Runs ((machine L key).serve (some k)) m { s with writer := some (some k) } true s₁)
    (hm' : Runs ((machine L key).serve (some k)) m' s₁ true s₂)
    (hcount : Runs ((machine L key).serve (some k)) count s₂ n s₃) (hexit₃ : s₃.exited = none) :
    Runs ((machine L key).serve (some k)) (do
        ask .lock
        Thread.ensuring (do
            if ← m then
              if ← m' then
                let _ ← count
                pure true
              else pure false
            else pure false)
          (ask .unlock)) s true { s₃ with writer := none } := by
  refine runs_bind.mpr ⟨(), { s with writer := some (some k) },
    runs_call.mpr ⟨hexit, hwriter, hreaders, rfl⟩, ?_⟩
  refine runs_ensuring.mpr ⟨s₃, ?_, runs_call.mpr ⟨hexit₃, rfl⟩⟩
  refine runs_bind.mpr ⟨true, s₁, hm, runs_bind.mpr ⟨true, s₂, hm', ?_⟩⟩
  exact runs_bind.mpr ⟨n, s₃, hcount, .ret true s₃⟩

/-- **A rotation** of the message Pipeline, the only one there is. -/
theorem runs_rekeyPipes {blob : Bytes} {l : σ} (hexit : s.exited = none)
    (hidle : s.calls (some k) = none) (hwriter : s.writer = none)
    (hreaders : ∀ j, s.readers j = false) (hstream : s.pipes .stream = none)
    (hmsg : s.pipes .msg = some h)
    (hrekey : ∀ perm wrap, ∀ w : World σ, w.lib = s.lib →
      Returns (Pipeline.rekey L { handle := h } perm wrap) w blob l) :
    ∃ n : Notes K N, (s.used (some k)).length ≤ (n.used (some k)).length ∧
      Runs ((machine L key).serve (some k)) (rekeyPipes cfg id iter) s true
        { s.noting l n with
          blobs := Function.update s.blobs .msg blob
          rekeys := s.rekeys + 1
          writer := none } := by
  let s₁ : Shared σ K N := { s with writer := some (some k) }
  obtain ⟨perm, hperm⟩ := runs_drawMaster key id iter (L := L) (k := k) hexit
    cfg.parallax "parallax"
  obtain ⟨wrap, hwrap⟩ := runs_drawMaster key id iter (L := L) (k := k) hexit
    cfg.wrapper "wrapper"
  have halone : Returns (Call.alone L (Call.rekey { handle := h } perm wrap)) ⟨s.lib, []⟩
      blob l := by
    rw [Call.alone_rekey]
    exact hrekey perm wrap _ rfl
  obtain ⟨n, hlen, hruns⟩ := runs_lib key (i := some k) (s := s₁) halone hexit hidle rfl
  let s₂ : Shared σ K N := { s₁.noting l n with blobs := Function.update s.blobs .msg blob }
  have hpipe : Runs ((machine L key).serve (some k)) (rekeyPipe cfg id iter perm wrap .msg) s₁
      true s₂ := by
    refine runs_set key hexit hmsg (runs_bind.mpr ⟨.ok (), s₂, Runs.attempt ?_, .ret true s₂⟩)
    exact runs_bind.mpr ⟨h, s₁, runs_call.mpr ⟨hexit, hmsg, rfl⟩, runs_bind.mpr ⟨blob, _, hruns,
      runs_call.mpr ⟨hexit, rfl⟩⟩⟩
  have hnone : Runs ((machine L key).serve (some k)) (rekeyPipe cfg id iter perm wrap .stream) s₁
      true s₁ := runs_unset key hexit hstream
  have hcount : Runs ((machine L key).serve (some k)) (ask .addRekeys) s₂ s.rekeys
      { s₂ with rekeys := s.rekeys + 1 } := runs_call.mpr ⟨hexit, rfl, rfl⟩
  refine ⟨n, hlen, ?_⟩
  refine runs_bind.mpr ⟨some perm, s, hperm, runs_bind.mpr ⟨some wrap, s, hwrap, ?_⟩⟩
  exact runs_exclusive key hexit hwriter hreaders hnone hpipe hcount hexit

/-- **A blob cycle** of the message Pipeline. -/
theorem runs_blobCyclePipes {g : Handle} {l₁ l₂ : σ} (hexit : s.exited = none)
    (hidle : s.calls (some k) = none) (hwriter : s.writer = none)
    (hreaders : ∀ j, s.readers j = false) (hstream : s.pipes .stream = none)
    (hmsg : s.pipes .msg = some h)
    (hload : ∀ w : World σ, w.lib = s.lib →
      Returns (Pipeline.load L (s.blobs .msg) [] []) w { handle := g } l₁)
    (hfree : ∀ w : World σ, w.lib = l₁ →
      Returns (Pipeline.moveAssign L { handle := h } { handle := g }) w
        ({ handle := g }, { handle := 0 }) l₂) :
    ∃ n : Notes K N, (s.used (some k)).length ≤ (n.used (some k)).length ∧
      Runs ((machine L key).serve (some k)) (blobCyclePipes cfg id iter) s true
        { s.noting l₂ n with
          pipes := Function.update s.pipes .msg (some g)
          blobCycles := s.blobCycles + 1
          writer := none } := by
  let s₁ : Shared σ K N := { s with writer := some (some k) }
  have hloads : Returns (Call.alone L (Call.load (s.blobs .msg) [] [])) ⟨s.lib, []⟩
      { handle := g } l₁ := by
    rw [Call.alone_load]
    exact hload _ rfl
  obtain ⟨n₁, hlen₁, hruns₁⟩ :=
    runs_lib key (i := some k) (s := s₁) hloads hexit hidle rfl
  have hfrees : Returns (Call.alone L (Call.moveAssign { handle := h } { handle := g }))
      ⟨l₁, []⟩ ({ handle := g }, { handle := 0 }) l₂ := by
    rw [Call.alone_moveAssign]
    exact hfree _ rfl
  obtain ⟨n₂, hlen₂, hruns₂⟩ :=
    runs_lib key (i := some k) (s := s₁.noting l₁ n₁) hfrees hexit hidle rfl
  let s₂ : Shared σ K N := { s₁.noting l₂ n₂ with
    pipes := Function.update s.pipes .msg (some g) }
  have hpipe : Runs ((machine L key).serve (some k)) (blobCyclePipe cfg id iter .msg) s₁
      true s₂ := by
    refine runs_set key hexit hmsg (runs_bind.mpr ⟨.ok (), s₂, Runs.attempt ?_, .ret true s₂⟩)
    refine runs_bind.mpr ⟨s.blobs .msg, s₁, runs_call.mpr ⟨hexit, rfl, rfl⟩, ?_⟩
    refine runs_bind.mpr ⟨{ handle := g }, _, hruns₁, ?_⟩
    refine runs_bind.mpr ⟨h, _, runs_call.mpr ⟨hexit, hmsg, rfl⟩, ?_⟩
    refine runs_bind.mpr ⟨_, _, hruns₂, ?_⟩
    -- the moved-from object has no handle to free
    exact runs_bind.mpr ⟨(), s₂, runs_call.mpr ⟨hexit, rfl⟩, .ret () s₂⟩
  have hnone : Runs ((machine L key).serve (some k)) (blobCyclePipe cfg id iter .stream) s₁
      true s₁ := runs_unset key hexit hstream
  have hcount : Runs ((machine L key).serve (some k)) (ask .addBlobCycles) s₂ s.blobCycles
      { s₂ with blobCycles := s.blobCycles + 1 } := runs_call.mpr ⟨hexit, rfl, rfl⟩
  exact ⟨n₂, hlen₁.trans hlen₂,
    runs_exclusive key hexit hwriter hreaders hnone hpipe hcount hexit⟩

end Worker

section Barriers

variable {σ K : Type} {N : Nat} {L : Lib σ} {key : σ → Handle → Option K} {i : Tid N}

/-- The state once thread `i` has come to a barrier. -/
def Shared.arrive (s : Shared σ K N) (b : Barrier) (i : Tid N) : Shared σ K N :=
  { s with arrived := Function.update s.arrived b (Function.update (s.arrived b) i true) }

/-- A thread comes to a barrier, and waits. -/
theorem leads_arrive (s : Shared σ K N) (hexit : s.exited = none) (b : Barrier)
    (f : Unit → Task Unit) :
    Leads ((machine L key).serve i) (arriveAndWait b >>= f) s (.ask (.await b) f)
      (s.arrive b i) :=
  leads_ask (a := ()) ⟨hexit, rfl⟩ .here

/-- The last one has come. -/
theorem leads_await (s : Shared σ K N) (hexit : s.exited = none) (b : Barrier)
    (f : Unit → Task Unit) (hall : ∀ j, s.arrived b j = true) :
    Leads ((machine L key).serve i) (.ask (.await b) f) s (f ()) s :=
  leads_ask (a := ()) ⟨hexit, hall, rfl⟩ .here

end Barriers

/-! ## §4. The drill. -/

/-- A run on one message Pipeline: `--shape=message --iterations=2
--rekey-every=1 --blob-cycle-every=1`, on a named hash. -/
def drill : Config :=
  { durationNs := 1, iterations := 2, shape := .message, hash := text "blake3", payload := 1,
    rekeyEvery := 1, blobCycleEvery := 1, poolSlots := 14 }

/-- The Pipelines of the drill: one, on the first handle. -/
def drillBuilt : Pipe → Option (Pipeline × Bytes)
  | .stream => none
  | .msg => some ({ handle := 1 }, [0])

/-- A library that goes along with the drill, and the states it goes through:
while its ciphers run, once its handle is rekeyed, once the blob is loaded,
and once the handle is freed. -/
structure Drills {σ : Type} (L : Lib σ) (l₀ l₁ l₂ l₃ : σ) : Prop where
  encrypt : ∀ src n, L (.encryptMessage 1 src n) l₀ = (deliver src n, l₀)
  decrypt : ∀ wire n, L (.decryptMessage 1 wire n) l₀ = (deliver wire n, l₀)
  pool : ∀ n, L (.poolStats n) l₀ = ({ rc := 0 }, l₀)
  rekey : ∀ perm wrap, L (.rekey 1 perm wrap kBlobCap) l₀ = (deliver [1] kBlobCap, l₁)
  load : L (.load [1] [] [] 0) l₁ = ({ rc := 0, handle := 2 }, l₂)
  free : (L (.free 1) l₂).2 = l₃

/-- Where the drill comes to: worker 0 has compared two round trips, the
cipher calls of the second are on record, and the Pipeline has been rekeyed
and reloaded. -/
structure Drilled {σ K : Type} (s : Shared σ K 2) : Prop where
  compared : (s.workers 0).iters = 2
  recorded : 2 ≤ (s.used (some 0)).length
  rekeyed : s.rekeys = 1
  reloaded : s.blobCycles = 1

section Drill

variable {σ K : Type} {L : Lib σ} (key : σ → Handle → Option K) {l₀ l₁ l₂ l₃ : σ}
  {s : Shared σ K 2}

/-- Nobody is inside anything, and the Pipeline is as it was built. -/
structure Poised (l : σ) (s : Shared σ K 2) : Prop where
  running : s.exited = none
  idle : ∀ i, s.calls i = none
  unwritten : s.writer = none
  unread : ∀ i, s.readers i = false
  lib : s.lib = l
  stream : s.pipes .stream = none
  msg : s.pipes .msg = some 1
  plain : ∀ k, (s.workers k).plaintext = [0]

theorem Poised.noting {l : σ} (h : Poised l s) (n : Notes K 2) : Poised l (s.noting l n) :=
  ⟨h.running, h.idle, h.unwritten, h.unread, rfl, h.stream, h.msg, h.plain⟩

theorem Poised.counted {l : σ} (h : Poised l s) (k : Fin 2) :
    Poised l (s.setSelf k .counted) := by
  refine ⟨h.running, h.idle, h.unwritten, h.unread, h.lib, h.stream, h.msg, fun j => ?_⟩
  show (Function.update s.workers k (s.workers k).counted j).plaintext = [0]
  by_cases hj : j = k
  · subst hj
    rw [Function.update_self]
    exact h.plain j
  · rw [Function.update_of_ne hj]
    exact h.plain j

theorem Poised.arrive {l : σ} (h : Poised l s) (b : Barrier) (i : Tid 2) :
    Poised l (s.arrive b i) :=
  ⟨h.running, h.idle, h.unwritten, h.unread, h.lib, h.stream, h.msg, h.plain⟩

/-- Every iteration of the drill goes well. -/
theorem runs_drillIterate (hL : Drills L l₀ l₁ l₂ l₃) (h : Poised l₀ s) (k : Fin 2)
    (iter : Nat) :
    ∃ n : Notes K 2, 2 ≤ (n.used (some k)).length ∧
      Runs ((machine L key).serve (some k)) (iterate (fun _ _ => 0) drill k iter 1) s true
        ((s.noting l₀ n).setSelf k .counted) := by
  have hroom : [(0 : UInt8)].length ≤ outCap [(0 : UInt8)].length := Nat.le_of_ble_eq_true rfl
  have henc : ∀ w : World σ, w.lib = s.lib → Returns (Pipeline.encryptMessage L (fun _ _ => 0)
      { handle := 1 } (s.workers k).plaintext) w [0] l₀ := by
    intro w hw
    rw [h.plain]
    exact returns_deliver _ hroom (hw.trans h.lib) (hL.encrypt [0])
  have hdec : ∀ w : World σ, w.lib = l₀ → Returns (Pipeline.decryptMessage L (fun _ _ => 0)
      { handle := 1 } [0]) w (s.workers k).plaintext l₀ := by
    intro w hw
    rw [h.plain]
    exact returns_deliver _ hroom hw (hL.decrypt [0])
  exact runs_iterate key _ drill k iter 1 rfl nofun h.running (h.idle _) h.unwritten
    (h.unread _) h.msg henc hdec

/-- So does the maintenance after iteration 1. -/
theorem runs_drillMaintenance (hL : Drills L l₀ l₁ l₂ l₃) (h : Poised l₀ s) (k : Fin 2) :
    ∃ s', Runs ((machine L key).serve (some k)) (workerMaintenance drill k 1) s true s' ∧
      s'.workers = s.workers ∧ (s.used (some k)).length ≤ (s'.used (some k)).length ∧
      s'.rekeys = s.rekeys + 1 ∧ s'.blobCycles = s.blobCycles + 1 := by
  have hone : 1 ≤ kBlobCap := Nat.le_of_ble_eq_true rfl
  have hrekey : ∀ perm wrap, ∀ w : World σ, w.lib = s.lib →
      Returns (Pipeline.rekey L { handle := 1 } perm wrap) w [1] l₁ := by
    intro perm wrap w hw
    have hcall : L ((BlobFn.rekey 1 perm wrap).call kBlobCap) w.lib =
        ({ rc := 0, len := 1, out := [1] }, l₁) := by
      rw [hw, h.lib]
      exact (hL.rekey perm wrap).trans (congrArg (·, l₁) (if_pos hone))
    exact (returns_bufCall _ hcall ⟨rfl, rfl, hone⟩).bind fun w' h => ⟨w', rfl, h⟩
  obtain ⟨n₁, hlen₁, hruns₁⟩ := runs_rekeyPipes key drill k 1
    h.running (h.idle (some k)) h.unwritten h.unread h.stream h.msg hrekey
  let s₁ : Shared σ K 2 := { s.noting l₁ n₁ with
    blobs := Function.update s.blobs .msg [1]
    rekeys := s.rekeys + 1
    writer := none }
  have hload : ∀ w : World σ, w.lib = s₁.lib →
      Returns (Pipeline.load L (s₁.blobs .msg) [] []) w { handle := 2 } l₂ := by
    intro w hw
    have hcall : L (.load [1] [] [] (mastersCount [] [])) w.lib =
        ({ rc := 0, handle := 2 }, l₂) := hw ▸ hL.load
    exact (returns_ffi hcall).bind fun w₁ h₁ => ⟨w₁.log (.adopt 2), rfl, h₁⟩
  have hfree : ∀ w : World σ, w.lib = l₂ →
      Returns (Pipeline.moveAssign L { handle := 1 } { handle := 2 }) w
        ({ handle := 2 }, { handle := 0 }) l₃ := by
    intro w hw
    exact ⟨w.answered (.free 1) (L (.free 1) w.lib), rfl, hw ▸ hL.free⟩
  obtain ⟨n₂, hlen₂, hruns₂⟩ := runs_blobCyclePipes key drill k 1
    (s := s₁) h.running (h.idle (some k)) rfl h.unread h.stream h.msg hload hfree
  refine ⟨_, runs_bind.mpr ⟨true, s₁, hruns₁, hruns₂⟩, rfl, hlen₁.trans hlen₂, rfl, rfl⟩

/-- What is left of a worker at the second barrier, and at the first. -/
def looping (k : Fin 2) : Task Unit := do
  workerLoop (fun _ _ => 0) drill k 1 1 1
  workerDone
  ask .return_

def released (k : Fin 2) : Task Unit := do
  arriveAndWait .release
  looping k

/-- A worker warms up. -/
theorem leads_warmup (hL : Drills L l₀ l₁ l₂ l₃) (h : Poised l₀ s) (k : Fin 2) :
    ∃ n : Notes K 2, Leads ((machine L key).serve (some k))
      (workerMain (fun _ _ => 0) drill k 1) s (.ask (.await .warmupDone) fun _ => released k)
      (((s.noting l₀ n).setSelf k .counted).arrive .warmupDone (some k)) := by
  obtain ⟨n, -, hruns⟩ := runs_drillIterate key hL h k 0
  exact ⟨n, (hruns.leads.bind _).trans (leads_arrive
    ((s.noting l₀ n).setSelf k .counted) h.running .warmupDone fun _ => released k)⟩

/-- What is left of main at the second barrier. -/
def measuring : Task Unit := do
  ask .lockDone
  Thread.ensuring (waitLoop drill 0 1) (ask .unlockDone)
  joinAll 2 0
  let _ ← poolSnapshotTake drill

/-- Main takes its snapshot and comes to the second barrier. -/
theorem leads_main (hL : Drills L l₀ l₁ l₂ l₃) (h : Poised l₀ s)
    (hall : ∀ j, (s.arrive .warmupDone none).arrived .warmupDone j = true) :
    ∃ n : Notes K 2, Leads ((machine L key).serve none)
      (mainThread drill 2 1) s (.ask (.await .release) fun _ => measuring)
      ({ (s.arrive .warmupDone none).noting l₀ n with finishNs := 0 }.arrive .release none) := by
  let s₁ := s.arrive .warmupDone none
  have hstats : Returns (Call.alone L (Call.poolStats (List.replicate drill.poolSlots 0)))
      ⟨l₀, []⟩ (0, Buffer.overlay (List.replicate drill.poolSlots 0) []) l₀ := by
    rw [Call.alone_poolStats]
    exact (returns_ffi (hL.pool _)).bind fun w hw => ⟨w, rfl, hw⟩
  obtain ⟨n, -, hruns⟩ := runs_lib key (i := none) (s := s₁) hstats h.running (h.idle _)
    h.lib.symm
  have hsnapshot : Runs ((machine L key).serve none) (poolSnapshotTake drill) s₁ true
      (s₁.noting l₀ n) := runs_bind.mpr ⟨_, _, Runs.attempt hruns, .ret true _⟩
  let s₂ : Shared σ K 2 := { s₁.noting l₀ n with finishNs := 0 }
  have hnow : (machine L key).serve none (s₁.noting l₀ n) .now (0 : Int) (s₁.noting l₀ n) :=
    ⟨h.running, rfl⟩
  have hstamp : (machine L key).serve none (s₁.noting l₀ n) (.setFinish 0) () s₂ :=
    ⟨h.running, rfl⟩
  refine ⟨n, ?_⟩
  refine (leads_arrive s h.running .warmupDone _).trans ?_
  refine (leads_await s₁ h.running .warmupDone _ hall).trans ?_
  refine (hsnapshot.leads.bind _).trans ?_
  refine leads_ask hnow (leads_ask hstamp ?_)
  exact leads_arrive s₂ h.running .release fun _ => measuring

/-- Everybody is warm: a worker comes to the second barrier. -/
theorem leads_released (s : Shared σ K 2) (hexit : s.exited = none) (k : Fin 2)
    (hall : ∀ j, s.arrived .warmupDone j = true) :
    Leads ((machine L key).serve (some k)) (.ask (.await .warmupDone) fun _ => released k) s
      (.ask (.await .release) fun _ => looping k) (s.arrive .release (some k)) :=
  (leads_await s hexit .warmupDone _ hall).trans (leads_arrive s hexit .release _)

/-- The first round of the main loop. -/
theorem leads_workerLoop (hL : Drills L l₀ l₁ l₂ l₃) (h : Poised l₀ s) (hgo : s.stop = false)
    (k : Fin 2) :
    ∃ s', Leads ((machine L key).serve (some k)) (workerLoop (fun _ _ => 0) drill k 1 1 1) s
        .spin s' ∧
      s'.workers = Function.update s.workers k (s.workers k).counted ∧
      2 ≤ (s'.used (some k)).length ∧ s'.rekeys = s.rekeys + 1 ∧
      s'.blobCycles = s.blobCycles + 1 := by
  obtain ⟨n, hlen, hiter⟩ := runs_drillIterate key hL h k 1
  obtain ⟨s', hmaint, hworkers, hmore, hrekeys, hcycles⟩ :=
    runs_drillMaintenance key hL ((h.noting n).counted k) k
  refine ⟨s', ?_, hworkers, hlen.trans hmore, hrekeys, hcycles⟩
  have hless : ¬ (0 < drill.iterations ∧ drill.iterations ≤ ((1 : Nat) : Int)) := by decide
  unfold workerLoop
  rw [if_neg hless]
  have hload : (machine L key).serve (some k) s .loadStop false s := ⟨h.running, hgo.symm, rfl⟩
  refine leads_ask hload ?_
  exact (hiter.leads.bind _).trans (hmaint.leads.bind _)

/-- **The drill**: both workers pass their warmup, main opens the second
barrier, and worker 0 makes its first counted iteration and the maintenance
that is due after it. -/
theorem drill_runs (hL : Drills L l₀ l₁ l₂ l₃) :
    ∃ r, Reach (machine L key) (Run.start 2 key (fun _ _ _ => 0) drill (fun _ _ => 0) drillBuilt
      l₀ 1) r ∧ Drilled r.state := by
  let start : Run σ K 2 := Run.start 2 key (fun _ _ _ => 0) drill (fun _ _ => 0) drillBuilt l₀ 1
  have hstart : Poised l₀ start.state :=
    ⟨rfl, fun _ => rfl, rfl, fun _ => rfl, rfl, rfl, rfl, fun _ => rfl⟩
  -- both workers come to the first barrier
  obtain ⟨n₁, hwarm₁⟩ := leads_warmup key hL hstart 0
  let s₁ := ((start.state.noting l₀ n₁).setSelf 0 .counted).arrive .warmupDone (some 0)
  have h₁ : Poised l₀ s₁ := ((hstart.noting n₁).counted 0).arrive _ _
  obtain ⟨n₂, hwarm₂⟩ := leads_warmup key hL h₁ 1
  let s₂ := ((s₁.noting l₀ n₂).setSelf 1 .counted).arrive .warmupDone (some 1)
  have h₂ : Poised l₀ s₂ := ((h₁.noting n₂).counted 1).arrive _ _
  have hwarm : ∀ j, (s₂.arrive .warmupDone none).arrived .warmupDone j = true := by
    intro j
    match j with
    | none => rfl
    | some 0 => rfl
    | some 1 => rfl
  -- main opens it, and all three come to the second
  obtain ⟨n₃, hmain⟩ := leads_main key hL h₂ hwarm
  let s₃ := { (s₂.arrive .warmupDone none).noting l₀ n₃ with finishNs := 0 }.arrive .release none
  have hrun₃ : s₃.exited = none := h₂.running
  have hwarm₃ : ∀ j, s₃.arrived .warmupDone j = true := hwarm
  let s₄ := s₃.arrive .release (some 1)
  let s₅ := s₄.arrive .release (some 0)
  have h₅ : Poised l₀ s₅ := ⟨h₂.running, h₂.idle, h₂.unwritten, h₂.unread, rfl, h₂.stream,
    h₂.msg, h₂.plain⟩
  have hrelease : ∀ j, s₅.arrived .release j = true := by
    intro j
    match j with
    | none => rfl
    | some 0 => rfl
    | some 1 => rfl
  -- worker 0 goes on alone
  obtain ⟨s₆, hloop, hworkers, hused, hrekeys, hcycles⟩ :=
    leads_workerLoop key hL h₅ rfl 0
  have hgo : Leads ((machine L key).serve (some 0)) (.ask (.await .release) fun _ => looping 0)
      s₅ .spin s₆ := by
    refine (leads_await s₅ h₅.running .release _ hrelease).trans ?_
    exact hloop.bind _
  have hreach₁ := Reach.goes (Relation.ReflTransGen.refl (a := start)) (i := some 0) rfl hwarm₁
  have hreach₂ := hreach₁.goes (i := some 1) rfl hwarm₂
  have hreach₃ := hreach₂.goes (i := none) rfl hmain
  have hreach₄ := hreach₃.goes (i := some 1) rfl (leads_released key s₃ hrun₃ 1 hwarm₃)
  have hreach₅ := hreach₄.goes (i := some 0) rfl (leads_released key s₄ hrun₃ 0 hwarm₃)
  refine ⟨_, hreach₅.goes (i := some 0) rfl hgo, ?_⟩
  refine ⟨?_, hused, hrekeys, hcycles⟩
  show (s₆.workers 0).iters = 2
  rw [hworkers]
  rfl

end Drill

/-! ## §5. The ratchet goes along. -/

/-- The library once they are built. -/
def drillLib : Ratchet := Ratchet.opened {} 0

theorem drill_init (profile opts : CString) :
    ratchet (.init profile opts kBlobCap) {} =
      ({ rc := 0, len := 1, out := [0], handle := 1 }, drillLib) := by
  simp [ratchet, deliver, kBlobCap, drillLib]

theorem drill_save : ratchet (.save 1 kBlobCap) drillLib =
    ({ rc := 0, len := 1, out := [0] }, drillLib) := by
  have hk : drillLib.key 1 = some 0 := key_opened_next {} 0
  rw [ratchet_save hk]
  simp [deliver, kBlobCap]

/-- **The start-up of the drill** succeeds. -/
theorem drill_builds :
    Returns (buildPipelines ratchet drill) ⟨{}, []⟩ (some drillBuilt) drillLib := by
  have hone : 1 ≤ kBlobCap := Nat.le_of_ble_eq_true rfl
  exact returns_message rfl rfl (drill_init _ _) drill_save rfl ⟨rfl, rfl, hone⟩
    ⟨rfl, rfl, hone⟩ ⟨rfl, rfl, Nat.zero_le kBlobCap⟩ rfl rfl

/-- The ratchet: the keying moves from 0 to 1, then on to the second handle.
-/
theorem ratchet_drills :
    Drills ratchet drillLib (drillLib.set 1 (some 1)) ((drillLib.set 1 (some 1)).opened 1)
      (((drillLib.set 1 (some 1)).opened 1).set 1 none) where
  encrypt _ _ := rfl
  decrypt _ _ := rfl
  pool _ := rfl
  rekey perm wrap := by
    have hone : 1 ≤ kBlobCap := Nat.le_of_ble_eq_true rfl
    have hk : drillLib.key 1 = some 0 := key_opened_next {} 0
    rw [ratchet_rekey hk, if_pos hone]
    rfl
  load := rfl
  free := rfl

/-- Two workers and main, before their first step. -/
def Run.drill : Run Ratchet UInt8 2 :=
  Run.start 2 Ratchet.key (fun _ _ _ => 0) Loop.drill (fun _ _ => 0) drillBuilt drillLib 1

/-- **The drill of the ratchet.** -/
theorem drill_reaches :
    ∃ r, Reach (machine ratchet Ratchet.key) Run.drill r ∧ Drilled r.state :=
  drill_runs Ratchet.key ratchet_drills

end ItbCpp.Loop
