/-
  ItbCpp.Loop.Roundtrip
  ─────────────────────
  **THE TWO PUMPS AGREE, AND STREAM ITERATIONS MATCH.**

  The harness's pump over a conforming session leaves its accumulator equal
  to the session's output, as the binding's pump leaves its destination.  A
  stream iteration runs one pump after the other, through one Pipeline with
  one keying, so what it compares with its plaintext is that plaintext.

    • `opens_of_conforms` — a conforming session, as the pump relies on it,
    • `wp_streamTrip`, `wp_iterate` — a round trip, and an iteration,
    • `pumps_agree` — the two pumps, and the iteration that never mismatches.
-/
import ItbCpp.Loop.Pumping

namespace ItbCpp.Loop

open Thread

section Trip

variable {σ K : Type} {N : Nat} {L : Lib σ} {key : σ → Handle → Option K}
  {decode : Bytes → Option K} {k : Fin N} {h : Handle} {κ : K} {t : Seen σ K N}
  {W : Worker → Prop}

/-! ## §1. The contracts. -/

/-- Whenever `h` has the keying `κ`, a session begun on it in the state `s`
conforms: fed `src`, it produces `O s`. -/
def Conforms (L : Lib σ) (key : σ → Handle → Option K) (encrypt : Bool) (h : Handle) (κ : K)
    (src : Bytes) (O : σ → Bytes) : Prop :=
  ∀ s, key s h = some κ →
    (L (beginCall encrypt h) s).1.rc = 0 ∧ (L (beginCall encrypt h) s).1.handle ≠ 0 ∧
      ∃ At, Conforming L (L (beginCall encrypt h) s).1.handle src (O s) At ∧
        (∀ p, Lonely L (L (beginCall encrypt h) s).1.handle fun s => At s p) ∧
        At (L (beginCall encrypt h) s).2 ⟨0, 0, false⟩

/-- **A library whose sessions make a round trip**: fed a wire that an
encrypting session with the same keying made of `src`, a decrypting session
makes `src`.  Its calls may fail, and their number may have no bound. -/
structure RoundTrips (L : Lib σ) (key : σ → Handle → Option K)
    (Wire : K → Bytes → Bytes → Prop) : Prop where
  encrypt : ∀ h κ src, Opens L key true h κ src (fun _ => Wire κ src) 0 False
  decrypt : ∀ h κ src wire, Wire κ src wire → Opens L key false h κ wire
    (fun _ plain => plain = src) 0 False

theorem opens_of_conforms {encrypt : Bool} {src : Bytes} {O : σ → Bytes} {n : Nat}
    (hC : Conforms L key encrypt h κ src O) (hn : ∀ s, key s h = some κ → (O s).length ≤ n) :
    Opens L key encrypt h κ src (fun s d => d = O s) n True := by
  intro s hκ
  obtain ⟨hrc, hz, At, hS, hown, hat⟩ := hC s hκ
  refine ⟨fun _ => hrc, fun _ => ⟨hz, Conformed (O s) At, serves_of_conforming hS hown,
    fun _ => (prompt_of_conforming hS).mono (hn s hκ), ⟨hat, Nat.zero_le _, ?_⟩⟩⟩
  exact (List.take_zero ..).symm

/-- A session that may fail promises less. -/
theorem Opens.anyhow {encrypt : Bool} {src : Bytes} {Made : σ → Bytes → Prop} {n : Nat}
    {live : Prop} (hO : Opens L key encrypt h κ src Made n live) :
    Opens L key encrypt h κ src Made 0 False := by
  intro s hκ
  refine ⟨False.elim, fun hrc => ?_⟩
  obtain ⟨hz, At, hS, -, hat⟩ := (hO s hκ).ok hrc
  exact ⟨hz, At, hS, False.elim, hat⟩

/-! ## §2. One iteration. -/

/-- The drain slice has its size. -/
def Sliced (w : Worker) : Prop := w.scratch.length = kPumpSlice

/-- Outside the read side: no session is open. -/
def Idling (k : Fin N) (W : Worker → Prop) (t : Seen σ K N) : Prop :=
  t.state.sessions (some k) = [] ∧ W (t.state.workers k)

/-- With the read side. -/
def Locked (k : Fin N) (W : Worker → Prop) (t : Seen σ K N) : Prop :=
  t.state.readers (some k) = true ∧ Idling k W t

theorem lasts_idling : Lasts L key decode k (Idling k W) := by
  constructor
  · intro t s ht ho
    refine ⟨ho.rely.own.sessions.trans ht.1, ?_⟩
    show W (s.workers k)
    rw [ho.worker]
    exact ht.2
  · exact fun t v ht => ht

theorem lasts_locked : Lasts L key decode k (Locked k W) := by
  constructor
  · exact fun t s ht ho => ⟨ho.rely.own.readers.trans ht.1, lasts_idling.others t s ht.2 ho⟩
  · exact fun t v ht => ht

/-- Any request but one to end the process may be made anywhere. -/
theorem wp_any (q : Req) {live : Prop} (hq : ∀ n, q ≠ .exit n) :
    (ask q).wp (among L key decode k live) ⟨fun _ _ => True, fun _ _ => True⟩ t :=
  wp_call.mpr ⟨hq, fun _ _ _ => trivial⟩

/-- A failed step is recorded. -/
theorem wp_cipherFail (id iter : Nat) (shape : Shape) (direction stage : String) (e : Error) :
    (cipherFail id iter shape direction stage e).wp (among L key decode k False)
      ⟨fun _ _ => True, fun _ _ => True⟩ t := by
  unfold cipherFail detail workerFail
  rw [wp_bind, wp_bind]
  refine (wp_anyhow not_false Call.throws_lastError t).mono (fun diag t₁ _ => ?_)
    fun _ _ _ => trivial
  show (ask (.setSelf _) >>= fun _ => ask .storeStop).wp _ _ t₁
  rw [wp_bind]
  exact (wp_any (.setSelf _) fun _ => nofun).mono (fun _ t₂ _ => wp_any .storeStop fun _ => nofun)
    fun _ _ h => h

/-- The worker's record is looked at, and the failed step recorded. -/
theorem wp_failedStep (id iter : Nat) (direction : String) (stage : Worker → String) (e : Error)
    {Q : Option Bytes → Seen σ K N → Prop} (hQ : ∀ t', Q none t') :
    (ask .self >>= fun w => cipherFail id iter .stream direction (stage w) e >>= fun _ =>
      Thread.ret none).wp (among L key decode k False) ⟨Q, fun _ _ => True⟩ t := by
  rw [wp_bind]
  refine (wp_any .self fun _ => nofun).mono (fun w t₁ _ => ?_) fun _ _ h => h
  show (cipherFail id iter .stream direction (stage w) e >>= fun _ => _).wp _ _ t₁
  rw [wp_bind]
  exact (wp_cipherFail id iter .stream direction (stage w) e).mono (fun _ t₂ _ => hQ t₂)
    fun _ _ h => h

/-- What a pump leaves alone. -/
theorem Filled.plaintext {out : Out} {w₀ w : Worker} {d : Bytes} (hw : Filled out w₀ d w) :
    w.plaintext = w₀.plaintext := by
  have hrest := congrArg Worker.plaintext hw.rest
  cases out <;> exact hrest

/-- Between two pumps nothing has been called. -/
theorem Engaged.noCalls {pre : List Event} {T : List Event → Prop}
    (ht : Engaged key k h κ pre [] (fun _ => True) T t) :
    Engaged key k h κ t.calls [] (fun _ => True) NoCalls t :=
  ⟨ht.sharing, ht.sessions, trivial, [], (List.append_nil _).symm, rfl⟩

/-- What came back is the worker's plaintext. -/
structure Matched (got : Bytes) (w : Worker) : Prop where
  plaintext : w.plaintext = got
  size : Sliced w

/-- **The stream round trip**: what comes back is the worker's plaintext. -/
theorem wp_streamTrip (hL : KeyedLib L key decode) {Wire : K → Bytes → Bytes → Prop}
    (hR : RoundTrips L key Wire) (id iter fuel : Nat)
    (ht : Locked k Sliced t) :
    (streamTrip id iter fuel).wp (among L key decode k False)
      ⟨fun r t' => ∀ got, r = some got → Idling k (Matched got) t', fun _ _ => True⟩ t := by
  unfold streamTrip
  rw [wp_bind]
  refine wp_pipe lasts_locked ht (fun _ hl => hl.1) fun h κ t₁ ht₁ hpipe hκ => ?_
  have hengaged : Engaged key k h κ t₁.calls [] (fun _ => True) NoCalls t₁ :=
    ⟨⟨ht₁.1, hpipe, hκ⟩, ht₁.2.1, trivial, [], (List.append_nil _).symm, rfl⟩
  show (ask .self >>= fun w => _).wp _ _ t₁
  rw [wp_bind]
  refine wp_self (lasts_engaged (W := Sliced) untouched_true)
    ⟨hengaged, ht₁.2.2⟩ fun t₂ ht₂ => ?_
  -- from here on the record is the pump's
  generalize hw₀ : t₂.state.workers k = w₀ at ht₂ ⊢
  show (pump { handle := h } true w₀.plaintext .wire fuel >>= fun r => _).wp _ _ t₂
  rw [wp_bind]
  refine (wp_pump hL (hR.encrypt h κ w₀.plaintext) False.elim False.elim ht₂.2
    ⟨ht₂.1.noCalls, hw₀⟩).mono (fun r t₃ hr => ?_) fun _ _ hf => hf.elim
  cases r with
  | error e => exact wp_failedStep id iter "encrypt" Worker.stage e fun _ _ hnone => nomatch hnone
  | ok u =>
      obtain ⟨s, r, wire, -, hwire, ht₃, hfilled⟩ := hr
      show (ask (.pipe .stream) >>= fun g => _).wp _ _ t₃
      rw [wp_bind]
      refine wp_pipe (lasts_engaged untouched_true) ⟨ht₃.noCalls, hfilled⟩
        (fun _ hl => hl.1.sharing.reader) fun g κ' t₄ ht₄ hpipe' _ => ?_
      -- the pipe has the same handle, with the same keying
      obtain rfl : h = g := Option.some.inj (ht₄.1.sharing.pipe.symm.trans hpipe')
      show (ask .self >>= fun w => _).wp _ _ t₄
      rw [wp_bind]
      refine wp_self (lasts_engaged untouched_true) ht₄ fun t₅ ht₅ => ?_
      generalize hw₁ : t₅.state.workers k = w₁ at ht₅ ⊢
      have hsrc : w₁.wire = wire := ht₅.2.acc
      show (pump { handle := h } false w₁.wire .plain fuel >>= fun r => _).wp _ _ t₅
      rw [wp_bind, hsrc]
      refine (wp_pump hL (hR.decrypt h κ w₀.plaintext wire hwire) False.elim False.elim
        ht₅.2.size ⟨ht₅.1.noCalls, hw₁⟩).mono (fun r t₆ hr => ?_) fun _ _ hf => hf.elim
      cases r with
      | error e =>
          exact wp_failedStep id iter "decrypt" Worker.stage e fun _ _ hnone => nomatch hnone
      | ok u =>
          obtain ⟨s', r', plain, -, rfl, ht₆, hplain⟩ := hr
          show (ask .self >>= fun w => _).wp _ _ t₆
          rw [wp_bind]
          refine wp_self (lasts_engaged untouched_true) ⟨ht₆, hplain⟩ fun t₇ ht₇ => ?_
          intro got hgot
          obtain rfl := Option.some.inj hgot
          refine ⟨ht₇.1.sessions, ?_, ht₇.2.size⟩
          have hplain : (t₇.state.workers k).plain = w₀.plaintext := ht₇.2.acc
          show (t₇.state.workers k).plaintext = (t₇.state.workers k).plain
          rw [hplain, ht₇.2.plaintext, ht₅.2.plaintext]

/-- A change of the own record, with no session open. -/
theorem wp_idlingRecord {f : Worker → Worker} (W' : Worker → Prop) {live : Prop}
    (ht : Idling k W t) (hW : ∀ w, W w → W' (f w)) {R : Ends Exn (Seen σ K N) Unit}
    (hok : ∀ t', Idling k W' t' → R.ok () t') :
    (ask (.setSelf f)).wp (among L key decode k live) R t := by
  refine wp_setSelf lasts_idling ht fun t' ht' => hok _ ⟨ht'.1, ?_⟩
  show W' (Function.update t'.state.workers k (f (t'.state.workers k)) k)
  rw [Function.update_self]
  exact hW _ ht'.2

/-- **The comparison** of a round trip that gave back the plaintext: it does
not end the process. -/
theorem wp_settle {got : Bytes} (ht : Idling k (Matched got) t) :
    (settle got).wp (among L key decode k False)
      ⟨fun _ => Idling k Sliced, fun _ _ => True⟩ t := by
  unfold settle
  rw [wp_bind]
  refine wp_self lasts_idling ht fun t₁ ht₁ => ?_
  have hsame : ¬ got ≠ (t₁.state.workers k).plaintext := not_not.mpr ht₁.2.plaintext.symm
  show (if got ≠ (t₁.state.workers k).plaintext then _ else _ : Task Bool).wp _ _ t₁
  rw [if_neg hsame, wp_bind]
  -- the three counters
  refine wp_idlingRecord Sliced ht₁ ?_ fun t₂ ht₂ => ?_
  · exact fun w hw => hw.size
  show (ask (.setSelf _) >>= fun _ => ask (.setSelf _) >>= fun _ => Thread.ret true).wp _ _ t₂
  rw [wp_bind]
  refine wp_idlingRecord Sliced ht₂ ?_ fun t₃ ht₃ => ?_
  · exact fun w hw => hw
  show (ask (.setSelf _) >>= fun _ => Thread.ret true).wp _ _ t₃
  rw [wp_bind]
  refine wp_idlingRecord Sliced ht₃ ?_ fun t₄ ht₄ => ht₄
  exact fun w hw => hw

/-- A drawn payload changes nothing yet. -/
theorem wp_fillPayload {n : Nat} {A : Seen σ K N → Prop} (hA : Lasts L key decode k A)
    {live : Prop} (ht : A t) {R : Ends Exn (Seen σ K N) (Option Bytes)}
    (hok : ∀ drawn t', A t' → R.ok drawn t') :
    (ask (.fillPayload n)).wp (among L key decode k live) R t := by
  refine wp_call.mpr ⟨fun _ => nofun, ?_⟩
  intro drawn t' htold
  obtain ⟨s, hothers, ⟨-, hstate⟩, hcalls⟩ := htold
  rw [Seen.eq_of_quiet hstate hcalls]
  exact hok drawn _ (hA.others t s ht hothers)

/-- The read side is taken. -/
theorem wp_lockShared {live : Prop} (ht : Idling k W t) {R : Ends Exn (Seen σ K N) Unit}
    (hok : ∀ t', Locked k W t' → R.ok () t') :
    (ask .lockShared).wp (among L key decode k live) R t := by
  refine wp_call.mpr ⟨fun _ => nofun, ?_⟩
  intro u t' htold
  obtain ⟨s, hothers, ⟨-, hstate⟩, -⟩ := htold
  have hs := lasts_idling.others t s ht hothers
  refine hok t' ?_
  unfold Locked Idling
  rw [hstate]
  exact ⟨Function.update_self .., hs⟩

/-- It is given up again. -/
theorem wp_unlockShared {live : Prop} (ht : Idling k W t) {R : Ends Exn (Seen σ K N) Unit}
    (hok : ∀ t', Idling k W t' → R.ok () t') :
    (ask .unlockShared).wp (among L key decode k live) R t := by
  refine wp_call.mpr ⟨fun _ => nofun, ?_⟩
  intro u t' htold
  obtain ⟨s, hothers, hstate, -⟩ := htold
  have hs := lasts_idling.others t s ht hothers
  refine hok t' ?_
  unfold Idling
  rw [hstate]
  exact hs

/-- The refill leaves the buffers alone. -/
theorem wp_refill (cfg : Config) (id iter : Nat)
    (ht : Idling k Sliced t) :
    (refill cfg id iter).wp (among L key decode k False)
      ⟨fun b t' => b = true → Idling k Sliced t', fun _ _ => True⟩ t := by
  unfold refill
  by_cases hmode : cfg.payloadMode = .rotating
  · rw [if_pos hmode, wp_bind]
    refine wp_self lasts_idling ht fun t₁ ht₁ => ?_
    show (ask (.fillPayload _) >>= fun drawn => _).wp _ _ t₁
    rw [wp_bind]
    refine wp_fillPayload lasts_idling ht₁ fun drawn t₂ ht₂ => ?_
    cases drawn with
    | some b =>
        show (ask (.setSelf _) >>= fun _ => Thread.ret true).wp _ _ t₂
        rw [wp_bind]
        refine wp_idlingRecord Sliced ht₂ ?_ fun t₃ ht₃ _ => ht₃
        exact fun w hw => hw
    -- the csprng failed: the error is recorded, and the iteration is not run
    | none =>
        show ((ask (.setSelf _) >>= fun _ => ask .storeStop) >>= fun _ =>
          Thread.ret false).wp _ _ t₂
        rw [wp_bind, wp_bind]
        refine (wp_any (.setSelf _) fun _ => nofun).mono (fun _ t₃ _ => ?_) fun _ _ h => h
        exact (wp_any .storeStop fun _ => nofun).mono (fun _ _ _ => nofun) fun _ _ h => h
  · rw [if_neg hmode]
    exact fun _ => ht

/-- An iteration whose round trip, if it comes back, brings the plaintext
back. -/
theorem wp_iterate_of_trip (junk : Nat → Nat → UInt8) {cfg : Config} (id : Nat) {iter : Nat}
    (fuel : Nat)
    (htrip : ∀ t : Seen σ K N, Locked k Sliced t →
      (roundTrip junk id iter fuel (surface cfg.shape iter)).wp (among L key decode k False)
        ⟨fun r t' => ∀ got, r = some got → Idling k (Matched got) t', fun _ _ => True⟩ t)
    (ht : Idling k Sliced t) :
    (iterate junk cfg id iter fuel).wp (among L key decode k False)
      ⟨fun b t' => b = true → Idling k Sliced t', fun _ _ => True⟩ t := by
  unfold iterate
  rw [wp_bind]
  refine (wp_refill cfg id iter ht).mono (fun b t₁ ht₁ => ?_) fun _ _ h => h
  cases b with
  | false => exact nofun
  | true =>
      show (ask .lockShared >>= fun _ => _).wp _ _ t₁
      rw [wp_bind]
      refine wp_lockShared (ht₁ rfl) fun t₂ ht₂ => ?_
      show (Thread.ensuring _ _).wp _ _ t₂
      rw [wp_ensuring, wp_bind]
      -- an iteration that failed gives the read side up, too
      have hunlock : ∀ (t' : Seen σ K N) {Q : Unit → Seen σ K N → Prop}, (∀ u t'', Q u t'') →
          (ask .unlockShared).wp (among L key decode k False) ⟨Q, fun _ _ => True⟩ t' :=
        fun t' _ hQ => (wp_any .unlockShared fun _ => nofun).mono (fun u t'' _ => hQ u t'')
          fun _ _ h => h
      refine (htrip t₂ ht₂).mono (fun r t₃ hr => ?_) fun _ t₃ _ => hunlock t₃ fun _ _ => trivial
      cases r with
      | none => exact hunlock t₃ fun _ _ => nofun
      | some got =>
          show (settle got).wp _ _ t₃
          refine (wp_settle (hr got rfl)).mono (fun b t₄ ht₄ => ?_) fun _ t₄ _ =>
            hunlock t₄ fun _ _ => trivial
          exact wp_unlockShared ht₄ fun t₅ ht₅ _ => ht₅

/-- **An iteration over a stream session** never ends the process, and the
next one may follow. -/
theorem wp_iterate (hL : KeyedLib L key decode) {Wire : K → Bytes → Bytes → Prop}
    (hR : RoundTrips L key Wire) (junk : Nat → Nat → UInt8) {cfg : Config} (id : Nat)
    {iter : Nat} (fuel : Nat) (hstream : surface cfg.shape iter = .stream)
    (ht : Idling k Sliced t) :
    (iterate junk cfg id iter fuel).wp (among L key decode k False)
      ⟨fun b t' => b = true → Idling k Sliced t', fun _ _ => True⟩ t := by
  refine wp_iterate_of_trip junk id fuel (fun t' ht' => ?_) ht
  rw [hstream]
  exact wp_streamTrip hL hR id iter fuel ht'

end Trip

/-! ## §3. A library that echoes. -/

/-- The Pipelines of a ratchet, and the sessions: what each has yet to give
away, and whether its input has ended. -/
structure Echo where
  base : Ratchet
  next : Handle := 0
  spool : Handle → Bytes := fun _ => []
  ended : Handle → Bool := fun _ => false

/-- The keying of a live Pipeline. -/
def Echo.key (s : Echo) (h : Handle) : Option UInt8 := s.base.key h

/-- A session more. -/
def Echo.opened (s : Echo) : Echo :=
  { s with
    next := s.next + 1
    spool := Function.update s.spool (s.next + 1) []
    ended := Function.update s.ended (s.next + 1) false }

/-- A library whose sessions give back what they are given. -/
def echo : Lib Echo := fun c s =>
  match c with
  | .encryptStreamBegin _ | .decryptStreamBegin _ => ({ rc := 0, handle := s.next + 1 }, s.opened)
  | .streamWrite x b =>
      ({ rc := 0 }, { s with spool := Function.update s.spool x (s.spool x ++ b) })
  | .streamEnd x => ({ rc := 0 }, { s with ended := Function.update s.ended x true })
  | .streamRead x cap =>
      let n := min cap (s.spool x).length
      ({ rc := 0, len := n, out := (s.spool x).take n
         fin := if s.ended x ∧ n = (s.spool x).length then 1 else 0 },
       { s with spool := Function.update s.spool x ((s.spool x).drop n) })
  | .streamFree _ => ({ rc := 0 }, s)
  | c => ((ratchet c s.base).1, { s with base := (ratchet c s.base).2 })

/-- The session `x` of an echo, fed `src`. -/
structure EchoAt (x : Handle) (src : Bytes) (s : Echo) (p : Phase) : Prop where
  known : x ≤ s.next
  spool : s.spool x = (src.take p.written).drop p.delivered
  ordered : p.delivered ≤ p.written
  within : p.written ≤ src.length
  ended : s.ended x = p.ended
  whole : p.ended = true → p.written = src.length

section Echo

variable {s : Echo} {x : Handle} {src : Bytes} {p : Phase}

theorem EchoAt.rest (h : EchoAt x src s p) : (s.spool x).length = p.written - p.delivered := by
  have hwithin := h.within
  rw [h.spool, List.length_drop, List.length_take]
  omega

theorem echoAt_opened (s : Echo) (src : Bytes) :
    EchoAt (s.next + 1) src s.opened ⟨0, 0, false⟩ :=
  ⟨Nat.le_refl _, Function.update_self .., Nat.le_refl _, Nat.zero_le _, Function.update_self ..,
    nofun⟩

/-- Calls on another session, and on none. -/
theorem echo_lonely (x : Handle) (src : Bytes) (p : Phase) :
    Lonely echo x fun s => EchoAt x src s p := by
  intro c s hm hx h
  obtain ⟨hknown, hspool, hordered, hwithin, hended, hwhole⟩ := h
  have hnew : x ≠ s.next + 1 := Nat.ne_of_lt (Nat.lt_succ_of_le hknown)
  cases c with
  | encryptStreamBegin | decryptStreamBegin =>
      exact ⟨Nat.le_succ_of_le hknown, (Function.update_of_ne hnew ..).trans hspool, hordered,
        hwithin, (Function.update_of_ne hnew ..).trans hended, hwhole⟩
  | streamWrite y b =>
      have hne : x ≠ y := fun he => hx (congrArg some he.symm)
      exact ⟨hknown, (Function.update_of_ne hne ..).trans hspool, hordered, hwithin, hended,
        hwhole⟩
  | streamEnd y =>
      have hne : x ≠ y := fun he => hx (congrArg some he.symm)
      exact ⟨hknown, hspool, hordered, hwithin, (Function.update_of_ne hne ..).trans hended,
        hwhole⟩
  | streamRead y cap =>
      have hne : x ≠ y := fun he => hx (congrArg some he.symm)
      exact ⟨hknown, (Function.update_of_ne hne ..).trans hspool, hordered, hwithin, hended,
        hwhole⟩
  | _ => exact ⟨hknown, hspool, hordered, hwithin, hended, hwhole⟩

/-- An echo is a conforming session whose output is its source. -/
theorem echo_conforming (x : Handle) (src : Bytes) :
    Conforming echo x src src (EchoAt x src) := by
  -- a read takes the front off the spool, whatever the phase
  have hnext : ∀ s i d e cap, EchoAt x src s ⟨i, d, e⟩ →
      EchoAt x src (echo (.streamRead x cap) s).2
        ⟨i, d + (echo (.streamRead x cap) s).1.len, e⟩ := by
    intro s i d e cap h
    have hrest := h.rest
    have hordered := h.ordered
    refine ⟨h.known, ?_, ?_, h.within, h.ended, h.whole⟩
    · show Function.update s.spool x ((s.spool x).drop (min cap (s.spool x).length)) x =
        (src.take i).drop (d + min cap (s.spool x).length)
      rw [Function.update_self, h.spool, List.drop_drop]
    · show d + min cap (s.spool x).length ≤ i
      simp only at hrest hordered
      omega
  constructor
  · intro s i d n h hn hi
    have hordered := h.ordered
    refine ⟨rfl, h.known, ?_, Nat.le_add_right_of_le h.ordered, hi, h.ended, nofun⟩
    show Function.update s.spool x (s.spool x ++ (src.drop i).take n) x = (src.take (i + n)).drop d
    rw [Function.update_self, h.spool, List.take_add, List.drop_append_of_le_length]
    rw [List.length_take]
    simp only at hordered
    omega
  · exact fun s d h => ⟨rfl, h.known, h.spool, h.ordered, h.within, Function.update_self ..,
      fun _ => rfl⟩
  · intro s i d e cap h hcap
    have hread := hnext s i d e cap h
    refine ⟨rfl, Nat.min_le_left _ _, ?_, ?_⟩
    · exact Nat.le_trans hread.ordered h.within
    · show ((s.spool x).take (min cap (s.spool x).length)).take (min cap (s.spool x).length) =
        (src.drop d).take (min cap (s.spool x).length)
      have hrest : (s.spool x).length = i - d := h.rest
      rw [List.take_take, Nat.min_self, hrest, h.spool, List.drop_take, List.take_take,
        Nat.min_eq_left (Nat.min_le_right _ _)]
  · intro s i d cap h hcap
    refine ⟨?_, hnext s i d false cap h⟩
    show (if s.ended x = true ∧ _ then (1 : Int) else 0) = 0
    rw [show s.ended x = false from h.ended]
    exact if_neg fun hc => nomatch hc.1
  · intro s i d cap h hcap
    have hrest : (s.spool x).length = i - d := h.rest
    have hwhole : i = src.length := h.whole rfl
    have hordered : d ≤ i := h.ordered
    -- the flag is set exactly when the read empties the spool
    have hfin : (echo (.streamRead x cap) s).1.fin ≠ 0 ↔
        min cap (s.spool x).length = (s.spool x).length := by
      show (if s.ended x = true ∧ min cap (s.spool x).length = (s.spool x).length
        then (1 : Int) else 0) ≠ 0 ↔ _
      rw [show s.ended x = true from h.ended]
      by_cases hall : min cap (s.spool x).length = (s.spool x).length
      · rw [if_pos ⟨rfl, hall⟩]
        exact ⟨fun _ => hall, fun _ => Int.one_ne_zero⟩
      · rw [if_neg fun hc => hall hc.2]
        exact ⟨fun hc => (hc rfl).elim, fun hc => (hall hc).elim⟩
    refine ⟨hfin.trans ?_, fun hmore => ⟨?_, hnext s i d true cap h⟩⟩
    · show _ ↔ d + min cap (s.spool x).length = src.length
      omega
    · show 0 < min cap (s.spool x).length
      have hsome : min cap (s.spool x).length ≠ (s.spool x).length := fun hall =>
        hfin.mpr hall hmore
      omega

/-- Its Pipelines are the ratchet's. -/
theorem echo_keyedLib : KeyedLib echo Echo.key List.head? where
  frame c s h κ hκ hc := by
    cases c with
    | encryptStreamBegin | decryptStreamBegin | streamWrite | streamEnd | streamRead
    | streamFree => exact hκ
    | _ => exact ratchet_keyedLib.frame _ s.base h κ hκ hc
  opened c s ho hrc := by
    cases c with
    | init | initKeys | load | loadF => exact ratchet_keyedLib.opened _ s.base rfl hrc
    | _ => cases ho
  load blob n s hrc := ratchet_keyedLib.load blob n s.base hrc
  rekey h perm wrap cap s hrc := ratchet_keyedLib.rekey h perm wrap cap s.base hrc
  save h cap s κ hκ hrc := ratchet_keyedLib.save h cap s.base κ hκ hrc

theorem echo_conforms (encrypt : Bool) (h : Handle) (κ : UInt8) (src : Bytes) :
    Conforms echo Echo.key encrypt h κ src fun _ => src := by
  intro s _
  have hbegin : echo (beginCall encrypt h) s = ({ rc := 0, handle := s.next + 1 }, s.opened) := by
    cases encrypt <;> rfl
  rw [hbegin]
  exact ⟨rfl, Nat.succ_ne_zero _, EchoAt (s.next + 1) src, echo_conforming _ src,
    echo_lonely _ src, echoAt_opened s src⟩

theorem echo_roundTrips : RoundTrips echo Echo.key fun _ src wire => wire = src where
  encrypt h κ src :=
    (opens_of_conforms (echo_conforms true h κ src) fun _ _ => Nat.le_refl _).anyhow
  decrypt h κ src wire hwire := by
    subst hwire
    exact (opens_of_conforms (echo_conforms false h κ wire) fun _ _ => Nat.le_refl _).anyhow

end Echo

/-! ## §4. The results. -/

section Results

variable {σ K : Type} {N : Nat} {L : Lib σ} {key : σ → Handle → Option K}
  {decode : Bytes → Option K}

/-- What a pump of worker `k` from `t` leaves at `t'`, of a session begun with
`r` on `h`: its output `O` is in the accumulator, and nothing else changed but
the drain slice; the source was written in order and once, then the end was
sent, and all of the output was taken out. -/
structure Leaves (k : Fin N) (encrypt : Bool) (h : Handle) (r : Reply) (src O : Bytes)
    (out : Out) (t t' : Seen σ K N) : Prop where
  acc : (t'.state.workers k).acc out = O
  rest : (t'.state.workers k).rest out = (t.state.workers k).rest out
  calls : ∃ evs, t'.calls = t.calls ++ evs ∧
    evs.head? = some (.call (beginCall encrypt h) r) ∧ FedWith r.handle src true evs ∧
    delivered r.handle evs = O

/-- **The harness's pump and the binding's.**  For every conforming session
that is begun on a live handle, and every source: whatever worker `k`'s
buffers hold, and whatever the others do meanwhile, its pump comes to its end
with the output of the session it began in the accumulator; from that session
the binding's pump delivers the same into every destination that is larger.
And for every library whose sessions make round trips, no iteration over a
stream session ends the process, whatever it was given and whatever the
others do, and one that succeeded leaves the worker ready for the next. -/
theorem pumps_agree (hL : KeyedLib L key decode) (k : Fin N) :
    (∀ encrypt h κ src O, Conforms L key encrypt h κ src O → ∀ fuel, src.length < fuel →
      ((∀ s, key s h = some κ → (O s).length < fuel) → ∀ (out : Out) (t : Seen σ K N),
        Sharing key k h κ t → Idling k Sliced t →
        (pump { handle := h } encrypt src out fuel).wp (among L key decode k True)
          ⟨fun r t' => r = .ok () ∧ ∃ s, key s h = some κ ∧
            Leaves k encrypt h (L (beginCall encrypt h) s).1 src (O s) out t t',
            fun _ _ => False⟩ t) ∧
      ∀ s (w : World σ) dst, key s h = some κ → w.lib = (L (beginCall encrypt h) s).2 →
        (O s).length < dst.length → dst.length < fuel → ∀ session : Stream,
        session.handle = (L (beginCall encrypt h) s).1.handle →
        ∃ p, pumpInto L session src fuel { world := w, dst := dst } = .ok (O s).length p ∧
          p.dst.take (O s).length = O s ∧ FedWith session.handle src true (w.since p.world) ∧
          delivered session.handle (w.since p.world) = O s) ∧
    ∀ Wire, RoundTrips L key Wire → ∀ (junk : Nat → Nat → UInt8) (cfg : Config)
      (id iter fuel : Nat) (t : Seen σ K N), surface cfg.shape iter = .stream →
      Idling k Sliced t →
      (iterate junk cfg id iter fuel).wp (among L key decode k False)
        ⟨fun b t' => b = true → Idling k Sliced t', fun _ _ => True⟩ t := by
  refine ⟨fun encrypt h κ src O hC fuel hsrc => ⟨?_, ?_⟩, ?_⟩
  · intro hO out t hsharing hidle
    have ht : Engaged key k h κ t.calls [] (fun _ => True) NoCalls t :=
      ⟨hsharing, hidle.1, trivial, [], (List.append_nil _).symm, rfl⟩
    -- the fuel is a bound of every output
    have hopens := opens_of_conforms (n := fuel - 1) hC fun s hκ => by
      have hlen := hO s hκ
      omega
    refine (wp_pump hL hopens (fun _ => by omega) (fun _ => hsrc) hidle.2
      ⟨ht, rfl⟩).mono (fun r t' hr => ?_) fun _ _ hf => hf
    cases r with
    | error e => exact (hr trivial).elim
    | ok u =>
        obtain ⟨s, r, d, ⟨hκ, rfl⟩, rfl, hengaged, hfilled⟩ := hr
        obtain ⟨evs, hcalls, hx⟩ := hengaged.trace
        have hfed := hx.fed
        rw [List.take_length] at hfed
        exact ⟨rfl, s, hκ, hfilled.acc, hfilled.rest, evs, hcalls, hx.first, hfed, hx.got⟩
  · intro s w dst hκ hw hlarge hdst session hsession
    obtain ⟨-, -, At, hS, -, hat⟩ := hC s hκ
    rw [← hw] at hat
    rw [← hsession] at hS
    exact pumpInto_whole hS w dst hat hsrc hdst hlarge
  · intro Wire hR junk cfg id iter fuel t hstream hidle
    exact wp_iterate hL hR junk id fuel hstream hidle

/-- One worker of an echo, with stale buffers and the read side. -/
def echoSeen : Seen Echo UInt8 1 where
  state :=
    { lib := { base := drillLib }
      pipes := fun _ => some 1
      blobs := fun _ => [0]
      rotations := fun _ => [0]
      readers := fun _ => true
      workers := fun _ =>
        { plaintext := [5, 6], wire := [9], plain := [9, 9, 9], scratch := zeros kPumpSlice } }
  calls := []

/-- Over an echo: both pumps deliver the two bytes, and the worker's
iteration does not end the process. -/
theorem pumps_agree_echo :
    (pump { handle := 1 } true [5, 6] .wire 4).wp
        (among echo Echo.key List.head? (0 : Fin 1) True)
        ⟨fun r t' => r = .ok () ∧ ∃ s, Echo.key s 1 = some 0 ∧
          Leaves 0 true 1 (echo (beginCall true 1) s).1 [5, 6] [5, 6] .wire echoSeen t',
          fun _ _ => False⟩ echoSeen ∧
      (∃ p, pumpInto echo { handle := 1 } [5, 6] 4
          { world := ⟨(echo (beginCall true 1) echoSeen.state.lib).2, []⟩, dst := [0, 0, 0] } =
            .ok 2 p ∧ p.dst.take 2 = [5, 6]) ∧
      (iterate (fun _ _ => 0) {} 0 0 4).wp (among echo Echo.key List.head? (0 : Fin 1) False)
        ⟨fun b t' => b = true → Idling 0 Sliced t', fun _ _ => True⟩ echoSeen := by
  have hκ : Echo.key echoSeen.state.lib 1 = some 0 := key_opened_next {} 0
  have hidle : Idling 0 Sliced echoSeen :=
    ⟨rfl, length_zeros kPumpSlice⟩
  obtain ⟨hpump, htrip⟩ := pumps_agree echo_keyedLib (0 : Fin 1)
  obtain ⟨hharness, hbinding⟩ :=
    hpump true 1 0 [5, 6] (fun _ => [5, 6]) (echo_conforms true 1 0 [5, 6]) 4 (by decide)
  obtain ⟨p, hrun, hdst, -⟩ := hbinding echoSeen.state.lib
    ⟨(echo (beginCall true 1) echoSeen.state.lib).2, []⟩ [0, 0, 0] hκ rfl (by decide) (by decide)
    { handle := 1 } rfl
  exact ⟨hharness (fun _ _ => by decide) .wire echoSeen ⟨rfl, rfl, hκ⟩ hidle, ⟨p, hrun, hdst⟩,
    htrip _ echo_roundTrips _ _ 0 0 4 echoSeen rfl hidle⟩

end Results

end ItbCpp.Loop
