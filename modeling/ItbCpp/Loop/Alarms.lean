/-
  ItbCpp.Loop.Alarms
  ──────────────────
  **NO FALSE ALARM** (`loop/worker.cpp`, `loop/ops.cpp`).

  A DATA MISMATCH ends the process on the spot, and is read as wrong bytes
  from the library.  Here is why it can be: over a library whose ciphers
  make round trips under one keying, no run raises it, whatever surfaces
  are exercised, however many workers there are, and however their
  iterations, rotations and blob cycles fall together.

    • `CipherLib` — what the library promises,
    • `wp_wholeTrip`, `gives_maintenance` — what a worker does besides
      pumping, and that it is ready for its next iteration after it,
    • `Watched` — what the others have done since a worker last looked,
    • `no_false_alarm` — the result, over every run.
-/
import ItbCpp.Loop.Roundtrip
import ItbCpp.Loop.Sessions
import ItbCpp.Loop.Walk

namespace ItbCpp.Loop

open Thread Interleave

/-! ## §1. What is relied on of the library. -/

/-- **Whole-buffer round trips**: what encrypts to a wire under a keying is
what the wire decrypts to under that keying. -/
structure WholeTrips {σ K : Type} (L : Lib σ) (key : σ → Handle → Option K)
    (encrypt decrypt : CipherFn) (Wire : K → Bytes → Bytes → Prop) : Prop where
  encrypt : ∀ h κ src n s, key s h = some κ → (L (encrypt.call h src n) s).1.rc = 0 →
    ∃ wire, Delivered (L (encrypt.call h src n) s).1 n wire ∧ Wire κ src wire
  decrypt : ∀ h κ src wire n s, Wire κ src wire → key s h = some κ →
    (L (decrypt.call h wire n) s).1.rc = 0 → Delivered (L (decrypt.call h wire n) s).1 n src

/-- **A library that keeps its keyings and inverts its ciphers.**  Its calls
may fail, and a wire need not be the same twice. -/
structure CipherLib {σ K : Type} (L : Lib σ) (key : σ → Handle → Option K)
    (decode : Bytes → Option K) (taken : σ → Handle → Prop)
    (Wire : Shape → K → Bytes → Bytes → Prop) : Prop extends KeyedLib L key decode where
  /-- a session that is begun has a handle that no open session has -/
  begun : ∀ c s, c.begins = true → (L c s).1.rc = 0 → (L c s).1.handle ≠ 0 ∧
    ¬ taken s (L c s).1.handle ∧ taken (L c s).2 (L c s).1.handle
  /-- and has it until it is freed -/
  stays : ∀ c s x, taken s x → c ≠ .streamFree x → taken (L c s).2 x
  sessions : RoundTrips L key (Wire .stream)
  message : WholeTrips L key .encryptMessage .decryptMessage (Wire .message)
  oneShot : WholeTrips L key .encryptStream .decryptStream (Wire .streamOneShot)

section Trip

variable {σ K : Type} {N : Nat} {L : Lib σ} {key : σ → Handle → Option K}
  {decode : Bytes → Option K} {k : Fin N} {p : Pipe} {h : Handle} {κ : K} {t : Seen σ K N}
  {W : Worker → Prop}

/-! ## §2. Whole-buffer round trips. -/

/-- The worker holds the read side, with no session open; the pipe `p` has the
handle `h`, live with the keying `κ`. -/
structure Holding (key : σ → Handle → Option K) (k : Fin N) (p : Pipe) (h : Handle) (κ : K)
    (W : Worker → Prop) (t : Seen σ K N) : Prop extends locked : Locked k W t where
  pipe : t.state.pipes p = some h
  alive : key t.state.lib h = some κ

theorem lasts_holding : Lasts L key decode k (Holding key k p h κ W) := by
  constructor
  · intro t s ht ho
    have hf := ho.rely.frozen (Or.inl ht.locked.1)
    refine ⟨lasts_locked.others t s ht.locked ho, ?_, hf.keys h κ ht.alive⟩
    show s.pipes p = some h
    rw [hf.pipes]
    exact ht.pipe
  · exact fun t v ht => ⟨ht.locked, ht.pipe, ht.alive⟩

/-- A fact that no state bears on. -/
theorem Lasts.and_fact {A : Seen σ K N → Prop} (hA : Lasts L key decode k A) (φ : Prop) :
    Lasts L key decode k fun t => φ ∧ A t :=
  ⟨fun t s ht ho => ⟨ht.1, hA.others t s ht.2 ho⟩, fun t v ht => ⟨ht.1, hA.inside t v ht.2⟩⟩

/-- A call that no session has a part in leaves the own sessions alone. -/
theorem called_sessions {c : FfiCall} (hc : c.sessionless = true) (t : Seen σ K N) :
    (t.called L key k c).state.sessions (some k) = t.state.sessions (some k) := by
  show Function.update t.state.sessions (some k) (sessionsAfter _ c _) (some k) = _
  rw [Function.update_self, sessionsAfter_of_sessionless hc]

/-- The answer to a call on a handle with the keying `κ`. -/
def AnswerTo (L : Lib σ) (key : σ → Handle → Option K) (h : Handle) (κ : K) (c : FfiCall)
    (r : Reply) : Prop :=
  ∃ s, key s h = some κ ∧ r = (L c s).1

/-- **A whole-buffer call.** -/
theorem wp_bufferCall (hL : KeyedLib L key decode) {c : FfiCall} (hc : c.sessionless = true)
    (hm : c.mutates = none) (ht : Holding key k p h κ W t) {R : Ends Exn (Seen σ K N) Reply}
    (hok : ∀ r t', AnswerTo L key h κ c r → Holding key k p h κ W t' → R.ok r t') :
    (libraryCall c).wp (among L key decode k False) R t := by
  refine wp_libraryCall lasts_holding (fun r => lasts_holding.and_fact (AnswerTo L key h κ c r)) ht
    (fun u hu => ?_) fun r t' ht' => hok r t' ht'.1 ht'.2
  have hf := frozen_effect_of_not_mutates (s := u.state.toPipeState) (i := some k) hL hm
  refine ⟨⟨u.state.lib, hu.alive, rfl⟩, ⟨hu.locked.1, ?_, hu.locked.2.2⟩, hu.pipe,
    hf.keys h κ hu.alive⟩
  exact (called_sessions hc u).trans hu.locked.2.1

/-- `fail`. -/
theorem wp_failing {α : Type} (rc : Int) (what : String) {R : Ends Exn (Seen σ K N) α}
    (herr : ∀ e t', Dropped False e t' → R.threw e t') :
    (lib (Call.fail rc what : Call α)).wp (among L key decode k False) R t := by
  unfold Call.fail
  rw [lib_bind, wp_bind]
  refine (wp_anyhow not_false Call.throws_lastError t).mono (fun diag t' _ => ?_) herr
  exact herr _ t' ⟨⟨_, rfl⟩, not_false⟩

/-- The end of a whole-buffer call: the answer is judged, and the bytes are
returned or an error is thrown. -/
theorem wp_answered {buf : Bytes} {r : Reply} {what : String}
    {R : Ends Exn (Seen σ K N) Bytes}
    (hok : r.rc = 0 → r.len ≤ buf.length → R.ok (buf.take r.len) t)
    (herr : ∀ e t', Dropped False e t' → R.threw e t') :
    (lib (Call.checkedPrefix buf r what)).wp (among L key decode k False) R t := by
  unfold Call.checkedPrefix
  rw [lib_bind, wp_bind]
  refine wp_checked False.elim (fun hrc => ?_) herr
  show (lib (if r.len > buf.length then _ else _)).wp _ _ t
  by_cases hlen : r.len > buf.length
  · rw [if_pos hlen]
    exact wp_failing _ _ herr
  · rw [if_neg hlen]
    exact hok hrc (Nat.le_of_not_lt hlen)

/-- **The retry-once machine** around it. -/
theorem wp_wholeCall (hL : KeyedLib L key decode) (junk : Nat → Nat → UInt8) (fn : CipherFn)
    (src : Bytes) (what : String) (ht : Holding key k p h κ W t)
    {R : Ends Exn (Seen σ K N) Bytes}
    (hok : ∀ n r t', AnswerTo L key h κ (fn.call h src n) r → r.rc = 0 → r.len ≤ n →
      Holding key k p h κ W t' →
      R.ok ((Buffer.overlay (uninit junk n) r.out).take r.len) t')
    (herr : ∀ e t', Dropped False e t' → R.threw e t') :
    (lib (Call.cipherCall junk h fn src what)).wp (among L key decode k False) R t := by
  have hmutates : ∀ n, (fn.call h src n).mutates = none := by
    intro n
    cases fn <;> rfl
  -- what is left once the last answer is in
  have htail : ∀ n r t', AnswerTo L key h κ (fn.call h src n) r → Holding key k p h κ W t' →
      (lib (Thread.ensuring (do
          let bytes ← Call.checkedPrefix (Buffer.overlay (uninit junk n) r.out) r what
          pure (bytes, r)) (Call.emit (.dealloc (id (Buffer.overlay (uninit junk n) r.out))))) >>=
        fun x => Thread.ret x.1).wp (among L key decode k False) R t' := by
    intro n r t' hr ht'
    have hlen : (Buffer.overlay (uninit junk n) r.out).length = n := by
      rw [Buffer.length_overlay, length_uninit]
    rw [lib_ensuring, wp_bind, wp_ensuring]
    simp only [lib_bind, lib_emit, Thread.pure_eq_ret, lib_ret]
    rw [wp_bind]
    refine wp_answered (fun hrc hroom => ?_) herr
    rw [hlen] at hroom
    exact hok n r t' hr hrc hroom ht'
  have hcall : ∀ n t', Holding key k p h κ W t' → ∀ {R : Ends Exn (Seen σ K N) Reply},
      (∀ r t', AnswerTo L key h κ (fn.call h src n) r → Holding key k p h κ W t' → R.ok r t') →
      (libraryCall (fn.call h src n)).wp (among L key decode k False) R t' :=
    fun n t' ht' _ h => wp_bufferCall hL (sessionless_cipher fn _ src n) (hmutates n) ht' h
  unfold Call.cipherCall
  rw [lib_bind]
  show (lib (Call.retryOnce _ _ _ _ _) >>= fun x => Thread.ret x.1).wp _ R t
  unfold Call.retryOnce
  rw [lib_bind, lib_ffi, bind_bind, wp_bind]
  refine hcall _ t ht fun r₁ t₁ hr₁ ht₁ => ?_
  by_cases hmore : r₁.asksForMore (outCap src.length)
  · simp only [if_pos hmore, lib_bind, lib_emit, lib_ffi, Thread.ret_bind, Thread.pure_eq_ret]
    rw [bind_bind, wp_bind]
    refine hcall r₁.len t₁ ht₁ fun r₂ t₂ hr₂ ht₂ => ?_
    exact htail r₁.len r₂ t₂ hr₂ ht₂
  · simp only [if_neg hmore, Thread.pure_eq_ret, Thread.ret_bind]
    exact htail (outCap src.length) r₁ t₁ hr₁ ht₁

/-- What a call with one of the four functions returns. -/
theorem taken_of_delivered {junk : Nat → Nat → UInt8} {n : Nat} {r : Reply} {b : Bytes}
    (hroom : r.len ≤ n) (hd : Delivered r n b) :
    (Buffer.overlay (uninit junk n) r.out).take r.len = b := by
  have hlen : r.len ≤ (uninit junk n).length := by
    rw [length_uninit]
    exact hroom
  rw [Buffer.take_overlay hd.written hlen, hd.bytes]

/-- The record of a worker whose plaintext is `src`. -/
structure Sourced (src : Bytes) (w : Worker) : Prop where
  plaintext : w.plaintext = src
  size : Sliced w

/-- The handle of the pipe, once more. -/
theorem wp_pipe_again (ht : Holding key k p h κ W t) {R : Ends Exn (Seen σ K N) Handle}
    (hok : ∀ t', Holding key k p h κ W t' → R.ok h t') :
    (ask (.pipe p)).wp (among L key decode k False) R t := by
  refine wp_pipe lasts_holding ht (fun _ hl => hl.locked.1) fun g _ t' ht' hpipe _ => ?_
  obtain rfl : h = g := Option.some.inj (ht'.pipe.symm.trans hpipe)
  exact hok t' ht'

/-- **The message and one-shot round trips**: what comes back is the worker's
plaintext. -/
theorem wp_wholeTrip (hL : KeyedLib L key decode) (junk : Nat → Nat → UInt8)
    {encrypt decrypt : CipherFn} {Wire : K → Bytes → Bytes → Prop}
    (hT : WholeTrips L key encrypt decrypt Wire) (id iter : Nat) (shape : Shape) (p : Pipe)
    (what what' : String) (ht : Locked k Sliced t) :
    (wholeTrip id iter shape p
      (fun self src => Call.cipherCall junk self.handle encrypt src what)
      (fun self src => Call.cipherCall junk self.handle decrypt src what')).wp
      (among L key decode k False)
      ⟨fun r t' => ∀ got, r = some got → Idling k (Matched got) t', fun _ _ => True⟩ t := by
  -- a failed step is recorded, and nothing comes back
  have hfail : ∀ direction e t', (cipherFail id iter shape direction "" e >>= fun _ =>
      Thread.ret (none : Option Bytes)).wp (among L key decode k False)
      ⟨fun r t' => ∀ got, r = some got → Idling k (Matched got) t', fun _ _ => True⟩ t' := by
    intro direction e t'
    rw [wp_bind]
    exact (wp_cipherFail id iter shape direction "" e).mono (fun _ _ _ => nofun) fun _ _ h => h
  unfold wholeTrip attempt
  rw [wp_bind, wp_handle, wp_bind, wp_bind]
  refine wp_pipe lasts_locked ht (fun _ hl => hl.1) fun h κ t₁ ht₁ hpipe hκ => ?_
  show (ask .self >>= fun w => _).wp _ _ t₁
  rw [wp_bind]
  have hholding : Holding key k p h κ Sliced t₁ := ⟨ht₁, hpipe, hκ⟩
  refine wp_self lasts_holding hholding fun t₂ ht₂ => ?_
  -- from here on the record holds the plaintext
  show (lib (Call.cipherCall junk h encrypt (t₂.state.workers k).plaintext what)).wp _ _ t₂
  generalize hsrc : (t₂.state.workers k).plaintext = src
  have ht₂ : Holding key k p h κ (Sourced src) t₂ :=
    ⟨⟨ht₂.locked.1, ht₂.locked.2.1, hsrc, ht₂.locked.2.2⟩, ht₂.pipe, ht₂.alive⟩
  refine wp_wholeCall hL junk encrypt src what ht₂ (fun n r t₃ hr hrc hroom ht₃ => ?_) ?_
  · obtain ⟨s, hs, rfl⟩ := hr
    obtain ⟨wire, hd, hwire⟩ := hT.encrypt h κ src n s hs hrc
    rw [taken_of_delivered hroom hd]
    show (Thread.handle _ _ >>= fun r => _).wp _ _ t₃
    rw [wp_bind, wp_handle, wp_bind, wp_bind]
    refine wp_pipe_again ht₃ fun t₄ ht₄ => ?_
    refine wp_wholeCall hL junk decrypt wire what' ht₄ (fun m r t₅ hr hrc hroom ht₅ => ?_) ?_
    · obtain ⟨s', hs', rfl⟩ := hr
      have hd' := hT.decrypt h κ src wire m s' hwire hs' hrc
      rw [taken_of_delivered hroom hd']
      intro got hgot
      obtain rfl := Option.some.inj hgot
      exact ⟨ht₅.locked.2.1, ht₅.locked.2.2.plaintext, ht₅.locked.2.2.size⟩
    · intro e t' he
      obtain ⟨⟨e, rfl⟩, -⟩ := he
      exact hfail "decrypt" e t'
  · intro e t' he
    obtain ⟨⟨e, rfl⟩, -⟩ := he
    exact hfail "encrypt" e t'

/-- A surface is one of three. -/
theorem surface_ne_both (shape : Shape) (iter : Nat) : surface shape iter ≠ .both := by
  cases shape with
  | both =>
      unfold surface
      dsimp only
      split <;> exact nofun
  | _ => exact nofun

variable {taken : σ → Handle → Prop} {Wire : Shape → K → Bytes → Bytes → Prop}

/-- **A round trip**, over whichever surface. -/
theorem wp_roundTrip (hC : CipherLib L key decode taken Wire) (junk : Nat → Nat → UInt8)
    (id iter fuel : Nat) {shape : Shape} (hshape : shape ≠ .both) (ht : Locked k Sliced t) :
    (roundTrip junk id iter fuel shape).wp (among L key decode k False)
      ⟨fun r t' => ∀ got, r = some got → Idling k (Matched got) t', fun _ _ => True⟩ t := by
  cases shape with
  | stream => exact wp_streamTrip hC.toKeyedLib hC.sessions id iter fuel ht
  | message => exact wp_wholeTrip hC.toKeyedLib junk hC.message id iter _ .msg _ _ ht
  | streamOneShot => exact wp_wholeTrip hC.toKeyedLib junk hC.oneShot id iter _ .stream _ _ ht
  | both => exact (hshape rfl).elim

end Trip

section Worker

variable {σ K : Type} {N : Nat} {L : Lib σ} {key : σ → Handle → Option K}
  {decode : Bytes → Option K} {k : Fin N} {α : Type}

/-! ## §3. Maintenance. -/

/-- The requests that leave the worker's record and its sessions alone. -/
def Req.calm : Req → Bool
  | .enter _ | .effect | .leave | .exit _ | .setSelf _ => false
  | _ => true

theorem calm_answers {q : Req} (hq : q.calm = true) {i : Tid N} {s s' : Shared σ K N}
    {a : q.Answer} (h : answers L key i s q a s') :
    s'.sessions = s.sessions ∧ s'.workers = s.workers := by
  cases q with
  | enter | effect | leave | exit | setSelf => cases hq
  | lock =>
      obtain ⟨-, -, rfl⟩ := h
      exact ⟨rfl, rfl⟩
  | unlockShared | unlock | setPipe | setBlob | storeStop | arrive | unlockDone | setActive
  | setFinish | return_ | now | signalSeen =>
      obtain rfl := h
      exact ⟨rfl, rfl⟩
  | lockShared | hasPipe | pipe | blob | fillRandom | fillPayload | self | loadStop | addRekeys
  | addBlobCycles | await | lockDone | getActive | join =>
      obtain ⟨-, rfl⟩ := h
      exact ⟨rfl, rfl⟩

/-- A worker outside an iteration, ready for the next. -/
abbrev Ready (k : Fin N) : Seen σ K N → Prop := Idling k Sliced

/-- A worker that has given up. -/
abbrev GivenUp (_ : Seen σ K N) : Prop := True

theorem remains_calm {q : Req} (hq : q.calm = true) {F : Exn → Seen σ K N → Prop} :
    Remains (among L key decode k False) (Ready k) F (ask q) := by
  intro t ht
  have hexit : ∀ n, q ≠ .exit n := by
    rintro n rfl
    cases hq
  refine wp_call.mpr ⟨hexit, fun a t' htold => ?_⟩
  obtain ⟨s, hothers, hanswer, -⟩ := htold
  obtain ⟨hsessions, hworkers⟩ := calm_answers hq hanswer
  have hs := lasts_idling.others t s ht hothers
  refine ⟨?_, ?_⟩
  · rw [hsessions]
    exact hs.1
  · rw [hworkers]
    exact hs.2

/-- An entry of the binding that no session has a part in. -/
theorem remains_sessionless {m : Call α} (hm : m.Throws Exn.IsError)
    (hasks : m.Asks (Ask.only Sessionless)) :
    Remains (among L key decode k False) (Ready k) (Thrown fun _ => GivenUp) (lib m) := by
  have hcall : ∀ c : FfiCall, c.sessionless = true →
      Remains (among L key decode k False) (Ready k)
        (fun e t => Exn.IsError e ∧ Ready k t) (libraryCall c) := by
    intro c hc t ht
    refine wp_libraryCall lasts_idling (fun _ => lasts_idling) ht (fun u hu => ?_)
      fun _ _ h => h
    exact ⟨(called_sessions hc u).trans hu.1, hu.2⟩
  have hall : Remains (among L key decode k False) (Ready k)
      (fun e t => Exn.IsError e ∧ Ready k t) (lib m) := by
    refine hasks.translate hm (fun _ _ => not_false) fun q hq => ?_
    cases q with
    | ffi c => exact hcall c hq
    | emit e => exact remains_ret ()
  intro t ht
  refine (hall t ht).mono (fun _ _ h => h) fun e t' h => ?_
  obtain ⟨⟨e, rfl⟩, -⟩ := h
  exact ⟨e, rfl, trivial⟩

/-- An error is recorded, and the worker gives up. -/
theorem gives_recorded {won : α → Bool} {x : α} (hx : won x = false) (text : Bytes)
    {G : Seen σ K N → Prop} :
    Gives (among L key decode k False) (Ready k) (workerFail text >>= fun _ => .ret x) won G
      GivenUp := by
  refine gives_failed (fun t _ => ?_) hx
  exact ⟨fun _ => nofun, fun _ _ _ => ⟨fun _ => nofun, fun _ _ _ => trivial⟩⟩

theorem gives_drawMaster (on : Bool) (layer : String) (id iter : Nat) :
    Gives (among L key decode k False) (Ready k) (drawMaster on layer id iter) Option.isSome
      (Ready k) GivenUp := by
  refine gives_ite (fun _ => ?_) fun _ => gives_won rfl
  refine gives_after (remains_calm rfl) fun drawn => ?_
  cases drawn with
  | some b => exact gives_won rfl
  | none => exact gives_recorded rfl _

theorem remains_detail (e : Error) :
    Remains (among L key decode k False) GivenUp Nowhere (detail e) := by
  have hcall : ∀ c, Remains (among L key decode k False) GivenUp
      (fun e t => NoExn e ∧ GivenUp t) (libraryCall c) := by
    intro c t _
    exact wp_libraryCall lasts_true (fun _ => lasts_true) trivial (fun _ _ => trivial)
      fun _ _ _ => trivial
  have hlib : Remains (among L key decode k False) GivenUp
      (fun e t => NoExn e ∧ GivenUp t) (lib Call.lastError) := by
    refine remains_translate throwless_lastError (fun _ _ => not_false) fun q => ?_
    cases q with
    | ffi c => exact hcall c
    | emit e => exact remains_ret ()
  have hnowhere : Remains (among L key decode k False) GivenUp Nowhere (lib Call.lastError) :=
    fun t ht => (hlib t ht).mono (fun _ _ h => h) fun _ _ h => h.1
  unfold detail
  exact remains_bind hnowhere fun _ => remains_ret _

theorem gives_maintenanceFail (cfg : Config) (id iter : Nat) (op : String) (p : Pipe)
    (e : Error) : Gives (among L key decode k False) GivenUp (maintenanceFail cfg id iter op p e)
      (fun b => b) (Ready k) GivenUp := by
  refine gives_after (remains_detail e) fun d => ?_
  refine gives_failed (fun t _ => ?_) rfl
  exact ⟨fun _ => nofun, fun _ _ _ => ⟨fun _ => nofun, fun _ _ _ => trivial⟩⟩

/-- Something done with a Pipeline, if there is one, and its error. -/
theorem gives_onPipe (cfg : Config) (id iter : Nat) (op : String) (p : Pipe) {m : Task Unit}
    (hm : Remains (among L key decode k False) (Ready k) (Thrown fun _ => GivenUp) m) :
    Gives (among L key decode k False) (Ready k) (ask (.hasPipe p) >>= fun has =>
      if has then attempt m >>= fun done =>
        match done with
        | .ok _ => Thread.ret true
        | .error e => maintenanceFail cfg id iter op p e
      else Thread.ret true) (fun b => b) (Ready k) GivenUp := by
  refine gives_after (remains_calm rfl) fun has => gives_ite (fun _ => ?_) fun _ => gives_won rfl
  exact gives_tried (wp_attempt hm) (fun _ => gives_won rfl) fun e =>
    gives_maintenanceFail cfg id iter op p e

theorem gives_rekeyPipe (cfg : Config) (id iter : Nat) (perm wrap : Bytes) (p : Pipe) :
    Gives (among L key decode k False) (Ready k) (rekeyPipe cfg id iter perm wrap p) (fun b => b)
      (Ready k) GivenUp := by
  refine gives_onPipe cfg id iter "Rekey" p ?_
  refine remains_bind (remains_calm rfl) fun h => ?_
  refine remains_bind
    (remains_sessionless (Call.throws_rekey _ _ _)
      (Call.asks_rekey sessionless_lastError fun _ => rfl)) fun b => ?_
  exact remains_calm rfl

theorem gives_blobCyclePipe (cfg : Config) (id iter : Nat) (p : Pipe) :
    Gives (among L key decode k False) (Ready k) (blobCyclePipe cfg id iter p) (fun b => b)
      (Ready k) GivenUp := by
  refine gives_onPipe cfg id iter "Load" p ?_
  refine remains_bind (remains_calm rfl) fun b => ?_
  refine remains_bind
    (remains_sessionless (Call.throws_load _ _ _)
      (Call.asks_load sessionless_lastError fun _ => rfl)) fun fresh => ?_
  refine remains_bind (remains_calm rfl) fun h => ?_
  refine remains_bind
    (remains_sessionless (Call.throws_moveAssign _ _) (Call.asks_moveAssign fun _ => rfl))
      fun y => ?_
  refine remains_bind (remains_calm rfl) fun _ => ?_
  exact remains_sessionless (Call.throws_destroyPipeline _) (Call.asks_destroyPipeline fun _ => rfl)

/-- Both Pipelines under the write lock, and the counter. -/
theorem gives_bothPipes {stream msg : Task Bool} {q : Req} {x : q.Answer → Bool}
    (hs : Gives (among L key decode k False) (Ready k) stream (fun b => b) (Ready k) GivenUp)
    (hm : Gives (among L key decode k False) (Ready k) msg (fun b => b) (Ready k) GivenUp)
    (hq : q.calm = true) (hx : ∀ a, x a = true) :
    Gives (among L key decode k False) (Ready k) (ask .lock >>= fun _ =>
      Thread.ensuring (stream >>= fun a =>
        if a then msg >>= fun b => if b then ask q >>= fun a => .ret (x a) else .ret false
        else .ret false)
        (ask .unlock)) (fun b => b) (Ready k) GivenUp := by
  have hunlock : Remains (among L key decode k False) GivenUp Nowhere (ask .unlock) :=
    fun _ _ => ⟨fun _ => nofun, fun _ _ _ => trivial⟩
  refine gives_after (remains_calm rfl) fun _ => gives_ensuring ?_ (remains_calm rfl) hunlock
  refine gives_and hs (gives_and hm ?_)
  exact gives_after (remains_calm hq) fun a => gives_won (hx a)

theorem gives_rekeyPipes (cfg : Config) (id iter : Nat) :
    Gives (among L key decode k False) (Ready k) (rekeyPipes cfg id iter) (fun b => b) (Ready k)
      GivenUp := by
  refine gives_some (gives_drawMaster _ _ id iter) (fun perm => ?_) rfl rfl
  refine gives_some (gives_drawMaster _ _ id iter) (fun wrap => ?_) rfl rfl
  exact gives_bothPipes (q := .addRekeys) (gives_rekeyPipe cfg id iter perm wrap .stream)
    (gives_rekeyPipe cfg id iter perm wrap .msg) rfl fun _ => rfl

theorem gives_blobCyclePipes (cfg : Config) (id iter : Nat) :
    Gives (among L key decode k False) (Ready k) (blobCyclePipes cfg id iter) (fun b => b)
      (Ready k) GivenUp :=
  gives_bothPipes (q := .addBlobCycles) (gives_blobCyclePipe cfg id iter .stream)
    (gives_blobCyclePipe cfg id iter .msg) rfl fun _ => rfl

/-- **Maintenance** leaves the worker ready, or given up. -/
theorem gives_maintenance (cfg : Config) (id iter : Nat) :
    Gives (among L key decode k False) (Ready k) (workerMaintenance cfg id iter) (fun b => b)
      (Ready k) GivenUp := by
  have hcycle : Gives (among L key decode k False) (Ready k)
      (if due cfg.blobCycleEvery iter then blobCyclePipes cfg id iter else .ret true)
      (fun b => b) (Ready k) GivenUp :=
    gives_ite (fun _ => gives_blobCyclePipes cfg id iter) fun _ => gives_won rfl
  exact gives_ite (fun _ => gives_and (gives_rekeyPipes cfg id iter) hcycle) fun _ => hcycle

/-! ## §4. A worker. -/

variable {taken : σ → Handle → Prop} {Wire : Shape → K → Bytes → Bytes → Prop}
  {t : Seen σ K N}

/-- A worker's loop, from an iteration to the next. -/
theorem wp_workerLoop (hC : CipherLib L key decode taken Wire) (junk : Nat → Nat → UInt8)
    (cfg : Config) (id fuel₀ fuel iter : Nat) (ht : Ready k t) :
    (workerLoop junk cfg id fuel₀ fuel iter).wp (among L key decode k False)
      ⟨fun _ _ => True, fun _ _ => True⟩ t := by
  induction fuel generalizing iter t with
  | zero => exact not_false
  | succ fuel ih =>
      unfold workerLoop
      by_cases hend : 0 < cfg.iterations ∧ cfg.iterations ≤ iter
      · rw [if_pos hend]
        exact trivial
      rw [if_neg hend, wp_bind]
      refine (remains_calm rfl t ht).mono (fun stop t₁ ht₁ => ?_) fun _ _ h => h
      cases stop with
      | true => exact trivial
      | false =>
          show (iterate junk cfg id iter fuel₀ >>= fun ok => _).wp _ _ t₁
          rw [wp_bind]
          refine (wp_iterate_of_trip junk id fuel₀ (fun t' ht' =>
            wp_roundTrip hC junk id iter fuel₀ (surface_ne_both _ _) ht') ht₁).mono
              (fun ok t₂ hok => ?_) fun _ _ h => h
          cases ok with
          | false => exact trivial
          | true =>
              show (workerMaintenance cfg id iter >>= fun kept => _).wp _ _ t₂
              rw [wp_bind]
              refine (gives_maintenance cfg id iter).wp (hok rfl) (fun kept t₃ hkept ht₃ => ?_)
                fun kept t₃ hlost _ => ?_
              · obtain rfl : kept = true := hkept
                exact ih (iter + 1) ht₃
              · obtain rfl : kept = false := hlost
                exact trivial

/-- Any request but one to end the process, of a worker that has given up. -/
theorem remains_any {q : Req} (hq : ∀ n, q ≠ .exit n) :
    Remains (among L key decode k False) GivenUp Nowhere (ask q) :=
  fun _ _ => wp_call.mpr ⟨hq, fun _ _ _ => trivial⟩

theorem remains_workerDone : Remains (among L key decode k False) GivenUp Nowhere workerDone := by
  have hcount : Remains (among L key decode k False) GivenUp Nowhere (do
      let n ← ask .getActive
      ask (.setActive (n - 1))
      if n - 1 = 0 then do
        let t ← ask .now
        ask (.setFinish t)
      else pure ()) := by
    refine remains_bind (remains_any fun _ => nofun) fun n => ?_
    refine remains_bind (remains_any fun _ => nofun) fun _ => ?_
    split
    · exact remains_bind (remains_any fun _ => nofun) fun t => remains_any fun _ => nofun
    · exact remains_ret ()
  refine remains_bind (remains_any fun _ => nofun) fun _ => ?_
  intro t ht
  rw [wp_ensuring]
  refine (hcount t ht).mono (fun _ t' ht' => ?_) fun _ _ h => h.elim
  exact remains_any (q := .unlockDone) (fun _ => nofun) t' ht'

/-- **A worker never ends the process.** -/
theorem wp_workerMain (hC : CipherLib L key decode taken Wire) (junk : Nat → Nat → UInt8)
    (cfg : Config) (id fuel : Nat) (ht : Ready k t) :
    (workerMain junk cfg id fuel).wp (among L key decode k False)
      ⟨fun _ _ => True, fun _ _ => True⟩ t := by
  have hend : Remains (among L key decode k False) GivenUp Nowhere
      (workerDone >>= fun _ => ask .return_) :=
    remains_bind remains_workerDone fun _ => remains_any fun _ => nofun
  unfold workerMain
  rw [wp_bind]
  refine (wp_iterate_of_trip junk id fuel (fun t' ht' =>
    wp_roundTrip hC junk id 0 fuel (surface_ne_both _ _) ht') ht).mono (fun ok t₁ hok => ?_)
      fun _ _ h => h
  cases ok with
  | true =>
      have hcross : ∀ b, Remains (among L key decode k False) (Ready k) Nowhere
          (arriveAndWait b) :=
        fun b => remains_bind (remains_calm rfl) fun _ => remains_calm rfl
      show (arriveAndWait .warmupDone >>= fun _ => arriveAndWait .release >>= fun _ =>
        workerLoop junk cfg id fuel fuel 1 >>= fun _ => workerDone >>= fun _ =>
          ask .return_).wp _ _ t₁
      rw [wp_bind]
      refine (hcross .warmupDone t₁ (hok rfl)).mono (fun _ t₂ ht₂ => ?_) fun _ _ _ => trivial
      show (arriveAndWait .release >>= fun _ => _).wp _ _ t₂
      rw [wp_bind]
      refine (hcross .release t₂ ht₂).mono (fun _ t₃ ht₃ => ?_) fun _ _ _ => trivial
      show (workerLoop junk cfg id fuel fuel 1 >>= fun _ => _).wp _ _ t₃
      rw [wp_bind]
      refine (wp_workerLoop hC junk cfg id fuel fuel 1 ht₃).mono (fun _ t₄ _ => ?_)
        fun _ _ h => h
      exact (hend t₄ trivial).mono (fun _ _ h => h) fun _ _ _ => trivial
  -- a failed warmup passes both barriers and returns
  | false =>
      have hcross : ∀ b, Remains (among L key decode k False) GivenUp Nowhere
          (arriveAndWait b) :=
        fun b => remains_bind (remains_any fun _ => nofun) fun _ => remains_any fun _ => nofun
      have hrest : Remains (among L key decode k False) GivenUp Nowhere
          (arriveAndWait .warmupDone >>= fun _ => arriveAndWait .release >>= fun _ =>
            workerDone >>= fun _ => ask .return_) :=
        remains_bind (hcross _) fun _ => remains_bind (hcross _) fun _ => hend
      exact (hrest t₁ trivial).mono (fun _ _ h => h) fun _ _ _ => trivial

/-! ## §5. The main thread. -/

/-- The requests that do not end the process. -/
def Req.goesOn (q : Req) : Prop := ∀ n, q ≠ .exit n

/-- A thread of which nothing is said but that it does not end the process. -/
def going {τ : Type} : Protocol Req Req.Answer τ where
  asks _ q := q.goesOn
  told _ _ _ _ := True
  spins _ := True

theorem asks_arriveAndWait (b : Barrier) : (arriveAndWait b).Asks Req.goesOn :=
  asks_bind (asks_call fun _ => nofun) fun _ => asks_call fun _ => nofun

theorem asks_poolSnapshotTake (cfg : Config) : (poolSnapshotTake cfg).Asks Req.goesOn := by
  have hlib : (lib (Call.poolStats (List.replicate cfg.poolSlots 0))).Asks Req.goesOn := by
    refine asks_translate fun q => ?_
    cases q with
    | ffi c =>
        refine asks_bind (asks_call fun _ => nofun) fun _ => ?_
        exact asks_bind (asks_call fun _ => nofun) fun _ => asks_call fun _ => nofun
    | emit e => trivial
  refine asks_bind (asks_handle (asks_bind hlib fun _ => trivial) fun e => ?_) fun r => ?_
  · cases e <;> trivial
  · cases r <;> trivial

theorem asks_waitLoop (cfg : Config) (start : Int) (fuel : Nat) :
    (waitLoop cfg start fuel).Asks Req.goesOn := by
  induction fuel with
  | zero => trivial
  | succ fuel ih =>
      have hq : ∀ q : Req, q.goesOn → (ask q).Asks Req.goesOn := fun q h => asks_call h
      have hagain : (ask .unlockDone >>= fun _ => ask .lockDone >>= fun _ =>
          waitLoop cfg start fuel).Asks Req.goesOn :=
        asks_bind (hq _ fun _ => nofun) fun _ => asks_bind (hq _ fun _ => nofun) fun _ => ih
      have hstop := asks_bind (hq .storeStop fun _ => nofun) fun _ => hagain
      have hdeadline : (if cfg.iterations = 0 then ask .now >>= fun t =>
          if overdue cfg start t then ask .storeStop >>= fun _ => (ask .unlockDone >>= fun _ =>
            ask .lockDone >>= fun _ => waitLoop cfg start fuel)
          else (ask .unlockDone >>= fun _ => ask .lockDone >>= fun _ => waitLoop cfg start fuel)
          else (ask .unlockDone >>= fun _ => ask .lockDone >>= fun _ =>
            waitLoop cfg start fuel)).Asks Req.goesOn :=
        asks_ite (fun _ => asks_bind (hq _ fun _ => nofun) fun t =>
          asks_ite (fun _ => hstop) fun _ => hagain) fun _ => hagain
      refine asks_bind (hq _ fun _ => nofun) fun n => asks_ite (fun _ => ?_) fun _ => trivial
      refine asks_bind (hq _ fun _ => nofun) fun seen => ?_
      exact asks_ite (fun _ => asks_bind (hq _ fun _ => nofun) fun _ => hdeadline)
        fun _ => hdeadline

theorem asks_joinAll (n k : Nat) : (joinAll n k).Asks Req.goesOn := by
  induction n generalizing k with
  | zero => trivial
  | succ n ih => exact asks_bind (asks_call fun _ => nofun) fun _ => ih (k + 1)

/-- **The main thread** does not end the process. -/
theorem asks_mainThread (cfg : Config) (workers fuel : Nat) :
    (mainThread cfg workers fuel).Asks Req.goesOn := by
  have hq : ∀ q : Req, q.goesOn → (ask q).Asks Req.goesOn := fun q h => asks_call h
  refine asks_bind (asks_arriveAndWait _) fun _ => ?_
  refine asks_bind (asks_poolSnapshotTake cfg) fun _ => ?_
  refine asks_bind (hq _ fun _ => nofun) fun start => asks_bind (hq _ fun _ => nofun) fun _ => ?_
  refine asks_bind (asks_arriveAndWait _) fun _ => asks_bind (hq _ fun _ => nofun) fun _ => ?_
  refine asks_bind (asks_ensuring (asks_waitLoop cfg start fuel) (hq _ fun _ => nofun))
    fun _ => ?_
  refine asks_bind (asks_joinAll workers 0) fun _ => ?_
  exact asks_bind (asks_poolSnapshotTake cfg) fun _ => trivial

end Worker

section Together

variable {σ K : Type} {N : Nat} {L : Lib σ} {key : σ → Handle → Option K}
  {decode : Bytes → Option K} {taken : σ → Handle → Prop}
  {Wire : Shape → K → Bytes → Bytes → Prop} {s s' : Shared σ K N} {i : Tid N}

/-! ## §6. All of them. -/

/-- The handles of the sessions a thread has open. -/
def PipeState.open_ (s : PipeState σ K N) (i : Tid N) : List Handle :=
  (s.sessions i).map Prod.fst

/-- Every open session has a handle of its own. -/
structure OwnSessions (taken : σ → Handle → Prop) (s : PipeState σ K N) : Prop where
  taken : ∀ i x, x ∈ s.open_ i → taken s.lib x
  apart : ∀ i j x, i ≠ j → x ∈ s.open_ i → x ∉ s.open_ j

/-- What a thread stands for at its desk, by the shared state. -/
inductive AtDesk (s : PipeState σ K N) (i : Tid N) : Desk → Prop
  | outside (h : s.calls i = none) : AtDesk s i { sessions := s.sessions i }
  | entered (c : FfiCall) (h : s.calls i = some (c, none))
      (own : ∀ x, c.session = some x → x ∈ s.open_ i) :
      AtDesk s i { sessions := s.sessions i, call := some c }
  | answered (c : FfiCall) (r : Reply) (ss : List (Handle × Handle))
      (h : s.calls i = some (c, some r)) (handed : Handed c r)
      (after : s.sessions i = sessionsAfter ss c r) : AtDesk s i { sessions := ss, call := some c }

/-- Nothing of the thread's own has changed. -/
theorem AtDesk.same {s s' : PipeState σ K N} {d : Desk} (h : AtDesk s i d)
    (hcalls : s'.calls i = s.calls i) (hsessions : s'.sessions i = s.sessions i) :
    AtDesk s' i d := by
  have hopen : s'.open_ i = s.open_ i := congrArg (List.map Prod.fst) hsessions
  cases h with
  | outside h =>
      rw [← hsessions]
      exact .outside (hcalls.trans h)
  | entered c h own =>
      rw [← hsessions]
      exact .entered c (hcalls.trans h) fun x hx => hopen ▸ own x hx
  | answered c r ss h handed after =>
      exact .answered c r ss (hcalls.trans h) handed (hsessions.trans after)

/-- Only a call that takes effect changes the library or a session. -/
theorem answers_lib {q : Req} (hq : q ≠ .effect) {a : q.Answer}
    (h : answers L key i s q a s') : s'.lib = s.lib ∧ s'.sessions = s.sessions := by
  cases q with
  | effect => exact (hq rfl).elim
  | leave =>
      obtain ⟨c, -, rfl⟩ := h
      exact ⟨rfl, rfl⟩
  | setSelf =>
      obtain ⟨k, -, rfl⟩ := h
      exact ⟨rfl, rfl⟩
  | lock =>
      obtain ⟨-, -, rfl⟩ := h
      exact ⟨rfl, rfl⟩
  | unlockShared | unlock | setPipe | setBlob | storeStop | arrive | unlockDone | setActive
  | setFinish | return_ | now | signalSeen | exit =>
      obtain rfl := h
      exact ⟨rfl, rfl⟩
  | enter | lockShared | hasPipe | pipe | blob | fillRandom | fillPayload | self | loadStop
  | addRekeys | addBlobCycles | await | lockDone | getActive | join =>
      obtain ⟨-, rfl⟩ := h
      exact ⟨rfl, rfl⟩

/-- Only a request to end the process ends it. -/
theorem answers_exited {q : Req} (hq : q.goesOn) {a : q.Answer}
    (h : answers L key i s q a s') : s'.exited = s.exited := by
  cases q with
  | exit n => exact (hq n rfl).elim
  | leave | effect =>
      obtain ⟨c, -, rfl⟩ := h
      rfl
  | setSelf =>
      obtain ⟨k, -, rfl⟩ := h
      rfl
  | lock =>
      obtain ⟨-, -, rfl⟩ := h
      rfl
  | unlockShared | unlock | setPipe | setBlob | storeStop | arrive | unlockDone | setActive
  | setFinish | return_ | now | signalSeen =>
      obtain rfl := h
      rfl
  | enter | lockShared | hasPipe | pipe | blob | fillRandom | fillPayload | self | loadStop
  | addRekeys | addBlobCycles | await | lockDone | getActive | join =>
      obtain ⟨-, rfl⟩ := h
      rfl

/-- Only its own worker changes a record. -/
theorem answers_workers {q : Req} {a : q.Answer} {k : Fin N} (hne : i ≠ some k)
    (h : answers L key i s q a s') : s'.workers k = s.workers k := by
  cases q with
  | leave | effect =>
      obtain ⟨c, -, rfl⟩ := h
      rfl
  | setSelf f =>
      obtain ⟨j, hj, rfl⟩ := h
      have hkj : k ≠ j := fun he => hne (he ▸ hj)
      exact Function.update_of_ne hkj _ _
  | lock =>
      obtain ⟨-, -, rfl⟩ := h
      rfl
  | unlockShared | unlock | setPipe | setBlob | storeStop | arrive | unlockDone | setActive
  | setFinish | return_ | now | signalSeen | exit =>
      obtain rfl := h
      rfl
  | enter | lockShared | hasPipe | pipe | blob | fillRandom | fillPayload | self | loadStop
  | addRekeys | addBlobCycles | await | lockDone | getActive | join =>
      obtain ⟨-, rfl⟩ := h
      rfl

/-- A session that is open after a call was open before it and is not the one
it frees, or was begun by it. -/
theorem open_after {ss : List (Handle × Handle)} {c : FfiCall} {r : Reply} {x : Handle}
    (hx : x ∈ (sessionsAfter ss c r).map Prod.fst) :
    (x ∈ ss.map Prod.fst ∧ c ≠ .streamFree x) ∨ (c.begins = true ∧ r.rc = 0 ∧ x = r.handle) := by
  have hbegin : ∀ h, x ∈ (if r.rc = 0 ∧ r.handle ≠ 0 then (r.handle, h) :: ss else ss).map
      Prod.fst → x ∈ ss.map Prod.fst ∨ (r.rc = 0 ∧ x = r.handle) := by
    intro h hx
    by_cases hok : r.rc = 0 ∧ r.handle ≠ 0
    · rw [if_pos hok, List.map_cons, List.mem_cons] at hx
      rcases hx with rfl | hx
      · exact Or.inr ⟨hok.1, rfl⟩
      · exact Or.inl hx
    · rw [if_neg hok] at hx
      exact Or.inl hx
  cases c with
  | encryptStreamBegin h | decryptStreamBegin h =>
      rcases hbegin h hx with hold | ⟨hrc, hnew⟩
      · refine Or.inl ⟨hold, ?_⟩
        intro hfree
        cases hfree
      · exact Or.inr ⟨rfl, hrc, hnew⟩
  | streamFree y =>
      simp only [sessionsAfter, List.mem_map, List.mem_filter, decide_eq_true_eq] at hx
      obtain ⟨e, ⟨he, hne⟩, rfl⟩ := hx
      refine Or.inl ⟨List.mem_map_of_mem he, fun hfree => hne ?_⟩
      injection hfree with hfree
      exact hfree.symm
  | _ =>
      refine Or.inl ⟨hx, ?_⟩
      intro hfree
      cases hfree

/-- **The sessions stay apart** when a call takes effect that is on a session
of its own thread, if on one. -/
theorem OwnSessions.effect (hC : CipherLib L key decode taken Wire) {s : PipeState σ K N}
    {c : FfiCall} (h : OwnSessions taken s) (own : ∀ x, c.session = some x → x ∈ s.open_ i) :
    OwnSessions taken (s.effect L key i c) := by
  have hself : (s.effect L key i c).sessions i = sessionsAfter (s.sessions i) c (L c s.lib).1 :=
    Function.update_self ..
  have hother : ∀ j, j ≠ i → (s.effect L key i c).open_ j = s.open_ j := by
    intro j hj
    exact congrArg (List.map Prod.fst) (Function.update_of_ne hj _ _)
  -- what another thread has open is not what the call frees or begins
  have hkept : ∀ j x, j ≠ i → x ∈ s.open_ j →
      taken (L c s.lib).2 x ∧ x ∉ (s.effect L key i c).open_ i := by
    intro j x hj hx
    constructor
    · refine hC.stays c s.lib x (h.taken j x hx) ?_
      rintro rfl
      exact h.apart j i x hj hx (own x rfl)
    · intro hi
      unfold PipeState.open_ at hi
      rw [hself] at hi
      rcases open_after hi with ⟨hold, -⟩ | ⟨hbegins, hrc, rfl⟩
      · exact h.apart j i x hj hx hold
      · exact (hC.begun c s.lib hbegins hrc).2.1 (h.taken j _ hx)
  constructor
  · intro j x hx
    by_cases hj : j = i
    · subst hj
      unfold PipeState.open_ at hx
      rw [hself] at hx
      rcases open_after hx with ⟨hold, hne⟩ | ⟨hbegins, hrc, rfl⟩
      · exact hC.stays c s.lib x (h.taken j x hold) hne
      · exact (hC.begun c s.lib hbegins hrc).2.2
    · rw [hother j hj] at hx
      exact (hkept j x hj hx).1
  · intro j j' x hne hx
    by_cases hj : j = i
    · subst hj
      rw [hother j' hne.symm]
      exact fun hx' => (hkept j' x hne.symm hx').2 hx
    · rw [hother j hj] at hx
      by_cases hj' : j' = i
      · subst hj'
        exact (hkept j x hj hx).2
      · rw [hother j' hj']
        exact h.apart j j' x hne hx

/-- **An answer to a thread**, at its desk. -/
theorem AtDesk.serve (hC : CipherLib L key decode taken Wire) {d : Desk}
    (h : AtDesk s.toPipeState i d) {q : Req} (hq : owning.asks d q) {a : q.Answer}
    (ha : answers L key i s q a s') :
    ∃ d', owning.told d q a d' ∧ AtDesk s'.toPipeState i d' := by
  cases q with
  | enter c =>
      obtain ⟨hfree, rfl⟩ := ha
      refine ⟨_, rfl, ?_⟩
      cases h with
      | outside _ => exact .entered c (Function.update_self ..) fun x hx => hq c x rfl hx
      | entered _ hin => rw [hfree] at hin; cases hin
      | answered _ _ _ hin => rw [hfree] at hin; cases hin
  | effect =>
      obtain ⟨c, hin, rfl⟩ := ha
      refine ⟨_, rfl, ?_⟩
      cases h with
      | outside hout => rw [hin] at hout; cases hout
      | answered _ _ _ hin' => rw [hin] at hin'; cases hin'
      | entered c' hin' own =>
          rw [hin] at hin'
          cases hin'
          refine .answered c _ _ (Function.update_self ..) ?_ (Function.update_self ..)
          exact fun hb hrc => (hC.begun c s.lib hb hrc).1
  | leave =>
      obtain ⟨c, hin, rfl⟩ := ha
      cases h with
      | outside hout => rw [hin] at hout; cases hout
      | entered _ hin' => rw [hin] at hin'; cases hin'
      | answered c' r' ss hin' handed after =>
          rw [hin] at hin'
          cases hin'
          refine ⟨_, ⟨c, rfl, handed, rfl⟩, ?_⟩
          have hout : AtDesk { s.toPipeState with calls := Function.update s.calls i none } i
              { sessions := s.sessions i } := .outside (Function.update_self ..)
          rw [after] at hout
          exact hout
  | lock =>
      obtain ⟨-, -, rfl⟩ := ha
      exact ⟨d, rfl, h.same rfl rfl⟩
  | setSelf =>
      obtain ⟨k, -, rfl⟩ := ha
      exact ⟨d, rfl, h.same rfl rfl⟩
  | unlockShared | unlock | setPipe | setBlob | storeStop | arrive | unlockDone | setActive
  | setFinish | return_ | now | signalSeen | exit =>
      obtain rfl := ha
      exact ⟨d, rfl, h.same rfl rfl⟩
  | lockShared | hasPipe | pipe | blob | fillRandom | fillPayload | self | loadStop
  | addRekeys | addBlobCycles | await | lockDone | getActive | join =>
      obtain ⟨-, rfl⟩ := ha
      exact ⟨d, rfl, h.same rfl rfl⟩

/-- **An answer to another thread**, as a worker sees it. -/
theorem Others.served (hinv : PipeInv key decode s.toPipeState)
    (hinv' : PipeInv key decode s'.toPipeState)
    (hguar : Guar key i s.toPipeState s'.toPipeState) (hsessions : OwnSessions taken s.toPipeState)
    {d : Desk} (hdesk : AtDesk s.toPipeState i d) {q : Req} {a : q.Answer}
    (ha : answers L key i s q a s') {k : Fin N} (hne : i ≠ some k) {t : Shared σ K N}
    (h : Others L key decode k t s) : Others L key decode k t s' := by
  refine ⟨h.rely.trans (hguar.rely hinv hne), hinv', fun hreader => ?_,
    (answers_workers hne ha).trans h.worker⟩
  refine (h.lib hreader).trans ?_
  by_cases hq : q = .effect
  · subst hq
    obtain ⟨c, hin, rfl⟩ := ha
    refine .single ⟨c, ?_, ?_, rfl⟩
    -- the worker reads, so nobody may change a Pipeline
    · by_contra hm
      have hw : s.writer = some i := (hinv.calls i c none hin).1 hm
      have hfree := hinv.lock i hw (some k)
      rw [h.rely.own.readers, hreader] at hfree
      cases hfree
    · intro x hx
      rw [List.lookup_eq_none_iff]
      have hmine : x ∈ s.open_ i := by
        cases hdesk with
        | outside hout => rw [hin] at hout; cases hout
        | answered _ _ _ hin' => rw [hin] at hin'; cases hin'
        | entered c' hin' own =>
            rw [hin] at hin'
            cases hin'
            exact own x hx
      have hnot : x ∉ s.open_ (some k) := hsessions.apart i (some k) x hne hmine
      unfold PipeState.open_ at hnot
      rw [h.rely.own.sessions] at hnot
      intro e he
      rw [bne_iff_ne]
      rintro rfl
      exact hnot (List.mem_map_of_mem he)
  · obtain ⟨hlib, -⟩ := answers_lib hq ha
    rw [hlib]

/-- What each thread keeps to. -/
def rules (L : Lib σ) (key : σ → Handle → Option K) (decode : Bytes → Option K) :
    Tid N → Protocol Req Req.Answer (Seen σ K N × Desk)
  | some k => both (among L key decode k False) owning
  | none => both going owning

/-- **All of them, watched**: what each worker has last seen, and what the
others have done since. -/
structure Watched (L : Lib σ) (key : σ → Handle → Option K) (decode : Bytes → Option K)
    (taken : σ → Handle → Prop) (s : Shared σ K N) (ts : Tid N → Seen σ K N × Desk) : Prop where
  running : s.exited = none
  others : ∀ k, Others L key decode k (ts (some k)).1.state s
  desk : ∀ i, AtDesk s.toPipeState i (ts i).2
  sessions : OwnSessions taken s.toPipeState

/-- Nothing has happened yet. -/
theorem Others.refl {k : Fin N} (hinv : PipeInv key decode s.toPipeState) :
    Others L key decode k s s :=
  ⟨.refl _ _, hinv, fun _ => .refl, rfl⟩

/-- **Every answer** keeps them watched. -/
theorem Watched.served (hC : CipherLib L key decode taken Wire)
    {ts : Tid N → Seen σ K N × Desk} {q : Req} {a : q.Answer}
    (hinv : PipeInv key decode s.toPipeState) (hinv' : PipeInv key decode s'.toPipeState)
    (hguar : Guar key i s.toPipeState s'.toPipeState) (h : Watched L key decode taken s ts)
    (hasks : (rules L key decode i).asks (ts i) q) (hserve : (machine L key).serve i s q a s') :
    ∃ t', (rules L key decode i).told (ts i) q a t' ∧
      Watched L key decode taken s' (Function.update ts i t') := by
  obtain ⟨-, ha⟩ := hserve
  have hrules : q.goesOn ∧ owning.asks (ts i).2 q := by
    cases i with
    | none => exact hasks
    | some k => exact hasks
  obtain ⟨hgo, howns⟩ := hrules
  obtain ⟨d', hdesk, hat⟩ := (h.desk i).serve hC howns ha
  -- the sessions, whether or not a call takes effect
  have hsessions : OwnSessions taken s'.toPipeState := by
    by_cases hq : q = .effect
    · subst hq
      obtain ⟨c, hin, rfl⟩ := ha
      refine h.sessions.effect hC fun x hx => ?_
      have hdesk := h.desk i
      generalize (ts i).2 = d at hdesk
      cases hdesk with
      | outside hout => rw [hin] at hout; cases hout
      | answered _ _ _ hin' => rw [hin] at hin'; cases hin'
      | entered c' hin' own =>
          rw [hin] at hin'
          cases hin'
          exact own x hx
    · obtain ⟨hlib, hsame⟩ := answers_lib hq ha
      have hopen : ∀ j, s'.open_ j = s.open_ j :=
        fun j => congrArg (fun f => (f j).map Prod.fst) hsame
      constructor
      · intro j x hx
        rw [hlib]
        rw [hopen] at hx
        exact h.sessions.taken j x hx
      · intro j j' x hne hx
        rw [hopen] at hx ⊢
        exact h.sessions.apart j j' x hne hx
  -- the thread has been told `u`, and stands at `d'`
  have hwatched : ∀ u : Seen σ K N, (∀ k, i = some k → u.state = s') →
      Watched L key decode taken s' (Function.update ts i (u, d')) := by
    intro u hu
    refine ⟨(answers_exited hgo ha).trans h.running, fun k => ?_, fun j => ?_, hsessions⟩
    · by_cases hk : i = some k
      · subst hk
        rw [Function.update_self, hu k rfl]
        exact .refl hinv'
      · rw [Function.update_of_ne (Ne.symm hk)]
        exact (h.others k).served hinv hinv' hguar h.sessions (h.desk i) ha hk
    · by_cases hj : j = i
      · subst hj
        rw [Function.update_self]
        exact hat
      · rw [Function.update_of_ne hj]
        have hsame := hguar.others j hj
        exact (h.desk j).same hsame.calls hsame.sessions
  cases i with
  | none => exact ⟨((ts none).1, d'), ⟨trivial, hdesk⟩, hwatched _ nofun⟩
  | some k =>
      refine ⟨(⟨s', (ts (some k)).1.calls ++ heard k s q a⟩, d'), ⟨?_, hdesk⟩,
        hwatched _ fun _ _ => rfl⟩
      exact ⟨s, h.others k, ha, rfl⟩

/-! ## §7. The result. -/

/-- **No false alarm.**  Over a library that keeps its keyings and whose
ciphers make round trips, the process is never ended: not in any state
reached, for any number of workers and any configuration, whatever surfaces
and maintenance it asks for, in whatever order the threads take their
steps. -/
theorem no_false_alarm (hC : CipherLib L key decode taken Wire) {cfg : Config}
    {w w' : World σ} {built : Pipe → Option (Pipeline × Bytes)}
    (hbuilt : buildPipelines L cfg w = .ok (some built) w')
    (junk : Fin N → Nat → Nat → UInt8) (content : Fin N → Nat → UInt8) (fuel : Nat)
    {r : Run σ K N}
    (hreach : Reach (machine L key) (Run.start N key junk cfg content built w'.lib fuel) r) :
    r.state.exited = none := by
  have hL := hC.toKeyedLib
  have hb := allBuilt_of_run hL hbuilt
  have hi : PipeInv key decode (Shared.start N key cfg content built w'.lib).toPipeState :=
    pipeInv_start cfg content hb
  let start : Seen σ K N := ⟨Shared.start N key cfg content built w'.lib, []⟩
  have hsafe := safe_start hL junk cfg content hb fuel
  have hwatched : Watched L key decode taken start.state fun _ => (start, {}) :=
    ⟨rfl, fun _ => .refl hi, fun _ => .outside rfl, ⟨fun _ _ => nofun, fun _ _ _ _ => nofun⟩⟩
  -- every thread keeps to its rules
  have hwp : ∀ i : Tid N, (harness N junk cfg fuel i).wp (rules L key decode i)
      ⟨fun _ _ => True, fun _ _ => True⟩ (start, {}) := by
    intro i
    have howns := owns_harness junk cfg fuel i
    cases i with
    | none =>
        have hgoing : (mainThread cfg N fuel).wp going ⟨fun _ _ => True, fun _ _ => True⟩ start :=
          (asks_mainThread cfg N fuel).wp (fun _ _ h => h) (fun _ => trivial) start
        exact (wp_both hgoing howns).mono (fun _ _ _ => trivial) fun _ _ _ => trivial
    | some k =>
        have hready : Ready k start := ⟨rfl, length_zeros kPumpSlice⟩
        have hworker := wp_workerMain hC (junk k) cfg k fuel hready
        exact (wp_both hworker howns).mono (fun _ _ _ => trivial) fun _ _ _ => trivial
  obtain ⟨ts, hend, -⟩ := Safe.upheld (P := rules L key decode)
    (fun s ts i q a s' hinv hinv' hguar h hasks hserve =>
      h.served hC hinv hinv' hguar hasks hserve) hi hsafe hwatched hwp hreach
  exact hend.running

/-- An echo is such a library: its wires are their plaintexts. -/
theorem echo_cipherLib : CipherLib echo Echo.key List.head? (fun s x => x ≤ s.next)
    fun _ _ src wire => wire = src where
  toKeyedLib := echo_keyedLib
  begun c s hb hrc := by
    cases c with
    | encryptStreamBegin | decryptStreamBegin =>
        exact ⟨Nat.succ_ne_zero _, Nat.not_succ_le_self _, Nat.le_refl _⟩
    | _ => cases hb
  stays c s x hx hc := by
    cases c with
    | encryptStreamBegin | decryptStreamBegin => exact Nat.le_succ_of_le hx
    | _ => exact hx
  sessions := echo_roundTrips
  message :=
    { encrypt := fun h κ src n s _ hrc => ⟨src, delivered_deliver (rc_deliver.mp hrc), rfl⟩
      decrypt := fun h κ src wire n s hwire _ hrc =>
        hwire ▸ delivered_deliver (rc_deliver.mp hrc) }
  oneShot :=
    { encrypt := fun h κ src n s _ hrc => ⟨src, delivered_deliver (rc_deliver.mp hrc), rfl⟩
      decrypt := fun h κ src wire n s hwire _ hrc =>
        hwire ▸ delivered_deliver (rc_deliver.mp hrc) }

/-- An echo once the Pipelines of the drill are built. -/
def echoDrill : Echo := { base := drillLib }

theorem echo_init (profile opts : CString) : echo (.init profile opts kBlobCap) { base := {} } =
    ({ rc := 0, len := 1, out := [0], handle := 1 }, echoDrill) := by
  show ((ratchet (.init profile opts kBlobCap) {}).1, _) = _
  rw [drill_init]
  rfl

theorem echo_save : echo (.save 1 kBlobCap) echoDrill =
    ({ rc := 0, len := 1, out := [0] }, echoDrill) := by
  show ((ratchet (.save 1 kBlobCap) drillLib).1, _) = _
  rw [drill_save]
  rfl

theorem echo_builds :
    Returns (buildPipelines echo drill) ⟨{ base := {} }, []⟩ (some drillBuilt) echoDrill := by
  have hone : 1 ≤ kBlobCap := Nat.le_of_ble_eq_true rfl
  exact returns_message rfl rfl (echo_init _ _) echo_save rfl ⟨rfl, rfl, hone⟩ ⟨rfl, rfl, hone⟩
    ⟨rfl, rfl, Nat.zero_le kBlobCap⟩ rfl rfl

theorem echo_drills : ∃ s₁ s₂ s₃, Drills echo echoDrill s₁ s₂ s₃ := by
  refine ⟨{ base := drillLib.set 1 (some 1) }, { base := (drillLib.set 1 (some 1)).opened 1 },
    { base := ((drillLib.set 1 (some 1)).opened 1).set 1 none }, ?_⟩
  refine ⟨fun _ _ => rfl, fun _ _ => rfl, fun _ => rfl, fun perm wrap => ?_, rfl, rfl⟩
  exact congrArg (fun a : Reply × Ratchet => (a.1, ({ base := a.2 } : Echo)))
    (ratchet_drills.rekey perm wrap)

/-- Two workers drill an echo: after two comparisons, a rekey and a blob cycle
the process runs on. -/
theorem no_false_alarm_echo :
    ∃ r, Reach (machine echo Echo.key) (Run.start 2 Echo.key (fun _ _ _ => 0) drill
        (fun _ _ => 0) drillBuilt echoDrill 1) r ∧
      Drilled r.state ∧ r.state.exited = none := by
  obtain ⟨s₁, s₂, s₃, hdrills⟩ := echo_drills
  obtain ⟨r, hr, hdrilled⟩ := drill_runs Echo.key hdrills
  obtain ⟨w', hbuilt, hlib⟩ := echo_builds
  have hrun : Reach (machine echo Echo.key) (Run.start 2 Echo.key (fun _ _ _ => 0) drill
      (fun _ _ => 0) drillBuilt w'.lib 1) r := hlib ▸ hr
  exact ⟨r, hr, hdrilled, no_false_alarm echo_cipherLib hbuilt _ _ 1 hrun⟩

end Together

end ItbCpp.Loop
