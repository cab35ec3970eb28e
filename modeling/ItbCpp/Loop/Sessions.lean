/-
  ItbCpp.Loop.Sessions
  ────────────────────
  **EVERY THREAD KEEPS TO ITS OWN SESSIONS** (`loop/worker.cpp`).

  A stream session is a local object of one pump.  The handle it was begun
  with goes nowhere else, so a thread of the harness calls no session but
  the one it has open itself, and leaves none open, whatever the library
  answers.

    • `owning` — what a thread may ask, by the sessions it has open,
    • `stays_pump` — a pump leaves no session open,
    • `owns_harness` — every thread of the harness keeps to it.
-/
import ItbCpp.Lib.Joint
import ItbCpp.Loop.Delivery

namespace ItbCpp

/-! ## §1. Calls and sessions. -/

/-- The calls that begin a session. -/
def FfiCall.begins : FfiCall → Bool
  | .encryptStreamBegin _ | .decryptStreamBegin _ => true
  | _ => false

/-- The calls that no session has a part in. -/
def FfiCall.sessionless (c : FfiCall) : Bool := !c.begins && c.session.isNone

/-- The binding asks such calls only. -/
def Ask.only (p : FfiCall → Prop) : Ask → Prop
  | .ffi c => p c
  | .emit _ => True

/-- Such a call names no session. -/
theorem FfiCall.session_of_sessionless {c : FfiCall} (h : c.sessionless = true) :
    c.session = none := by
  cases c <;> first | rfl | cases h

/-- A session that is begun has a handle. -/
def Handed (c : FfiCall) (r : Reply) : Prop := c.begins = true → r.rc = 0 → r.handle ≠ 0

namespace Call

open Thread (asks_bind asks_ite asks_ensuring asks_call)

variable {α : Type} {p : FfiCall → Prop}

theorem asks_ffi {c : FfiCall} (h : p c) : (ffi c).Asks (Ask.only p) := asks_call h

theorem asks_emit (e : Event) : (emit e).Asks (Ask.only p) := asks_call trivial

section Entries

variable (hp : ∀ n, p (.lastError n))
include hp

/-- The diagnostics may always be asked for: `p` holds of that call. -/
theorem asks_lastError : lastError.Asks (Ask.only p) := by
  have hret : ∀ b : Bytes, (Thread.ret b : Call Bytes).Asks (Ask.only p) := fun _ => trivial
  unfold lastError
  refine asks_bind (asks_ffi (hp _)) fun r => asks_ite (fun _ => hret _) fun _ => ?_
  refine asks_ite (fun _ => ?_) fun _ => hret _
  exact asks_bind (asks_ffi (hp _)) fun r' => asks_ite (fun _ => hret _) fun _ => hret _

/-- An error text is made of the diagnostics. -/
theorem asks_fail (rc : Int) (what : String) : (fail rc what : Call α).Asks (Ask.only p) :=
  asks_bind (asks_lastError hp) fun _ => trivial

/-- A check asks for them when it fails, and for nothing else. -/
theorem asks_check (rc : Int) (what : String) : (check rc what).Asks (Ask.only p) :=
  asks_ite (fun _ => asks_fail hp rc what) fun _ => trivial

theorem asks_checkedPrefix (buf : Bytes) (r : Reply) (what : String) :
    (checkedPrefix buf r what).Asks (Ask.only p) :=
  asks_bind (asks_check hp _ _) fun _ =>
    asks_ite (fun _ => asks_fail hp _ _) fun _ => trivial

/-- Both attempts are the same call, at two capacities. -/
theorem asks_retryOnce {call : Nat → FfiCall} (h : ∀ n, p (call n)) (cap : Nat)
    (block : Nat → Bytes) (scrub : Bytes → Bytes) (what : String) :
    (retryOnce call cap block scrub what).Asks (Ask.only p) := by
  have htail : ∀ (buf : Bytes) (r : Reply), (Thread.ensuring (do
      let bytes ← checkedPrefix buf r what
      pure (bytes, r)) (emit (.dealloc (scrub buf)))).Asks (Ask.only p) :=
    fun buf r => asks_ensuring (asks_bind (asks_checkedPrefix hp buf r what) fun _ => trivial)
      (asks_emit _)
  refine asks_bind (asks_ffi (h _)) fun r => asks_ite (fun _ => ?_) fun _ => htail _ r
  exact asks_bind (asks_emit _) fun _ => asks_bind (asks_ffi (h _)) fun r' => htail _ r'

theorem asks_cipherCall (junk : Nat → Nat → UInt8) (handle : Handle) (fn : CipherFn)
    (src : Bytes) (what : String) (h : ∀ n, p (fn.call handle src n)) :
    (cipherCall junk handle fn src what).Asks (Ask.only p) :=
  asks_bind (asks_retryOnce hp h _ _ _ _) fun _ => trivial

/-- A load is its one call, and a check. -/
theorem asks_load {blob perm wrap : Bytes} (h : ∀ n, p (.load blob perm wrap n)) :
    (load blob perm wrap).Asks (Ask.only p) := by
  refine asks_bind (asks_ffi (h _)) fun r => asks_bind (asks_check hp _ _) fun _ => ?_
  exact asks_bind (asks_emit _) fun _ => trivial

theorem asks_rekey {self : Pipeline} {perm wrap : Bytes}
    (h : ∀ n, p (.rekey self.handle perm wrap n)) :
    (rekey self perm wrap).Asks (Ask.only p) :=
  asks_bind (asks_retryOnce hp h _ _ _ _) fun _ => trivial

theorem asks_poolStats (dst : List Int) (h : ∀ n, p (.poolStats n)) :
    (poolStats dst).Asks (Ask.only p) :=
  asks_bind (asks_ffi (h _)) fun _ => asks_bind (asks_check hp _ _) fun _ => trivial

end Entries

/-- A destructor frees a handle, unless the object has none. -/
theorem asks_destroyPipeline {self : Pipeline} (h : self.handle ≠ 0 → p (.free self.handle)) :
    (destroyPipeline self).Asks (Ask.only p) :=
  asks_ite (fun hz => asks_bind (asks_ffi (h hz)) fun _ => trivial) fun _ => trivial

/-- So does an assignment, before it takes the other handle over. -/
theorem asks_moveAssign {self other : Pipeline}
    (h : self.handle ≠ 0 → p (.free self.handle)) :
    (moveAssign self other).Asks (Ask.only p) :=
  asks_ite (fun hz => asks_bind (asks_ffi (h hz)) fun _ => trivial) fun _ => trivial

end Call

namespace Loop

open Thread

/-- Such a call leaves the sessions alone. -/
theorem sessionsAfter_of_sessionless {c : FfiCall} (h : c.sessionless = true)
    (ss : List (Handle × Handle)) (r : Reply) : sessionsAfter ss c r = ss := by
  cases c <;> first | rfl | cases h

/-! ## §2. The protocol. -/

/-- The sessions a thread has open, and its call inside the library. -/
structure Desk where
  sessions : List (Handle × Handle) := []
  call : Option FfiCall := none

/-- Where an answer takes a thread. -/
def Desk.told (d : Desk) : (q : Req) → q.Answer → Desk → Prop
  | .enter c, _, d' => d' = { d with call := some c }
  | .leave, r, d' => ∃ c, d.call = some c ∧ Handed c r ∧
      d' = { sessions := sessionsAfter d.sessions c r }
  | _, _, d' => d' = d

/-- **A thread calls its own sessions only.** -/
def owning : Protocol Req Req.Answer Desk where
  asks d q := ∀ c x, q = .enter c → c.session = some x → x ∈ d.sessions.map Prod.fst
  told := Desk.told
  spins _ := True

/-- The requests that neither enter nor leave the library. -/
def Req.aside : Req → Bool
  | .enter _ | .leave => false
  | _ => true

section Desk

variable {ss : List (Handle × Handle)} {d : Desk} {E : Exn → Prop} {α : Type}

/-- A request that is no call leaves the desk as it is. -/
theorem stays_aside {q : Req} (hq : q.aside = true) : Stays owning E (ask q) d := by
  refine Thread.stays_call (fun c x hc => ?_) fun a d' htold => ?_
  · subst hc
    cases hq
  · cases q <;> first | exact htold | cases hq

/-- **A library call**, on a session of one's own if on one. -/
theorem wp_call_owning {c : FfiCall} (hc : ∀ x, c.session = some x → x ∈ ss.map Prod.fst)
    {R : Ends Exn Desk Reply} (h : ∀ r, Handed c r → R.ok r { sessions := sessionsAfter ss c r }) :
    (libraryCall c).wp owning R { sessions := ss } := by
  refine ⟨fun c' x hc' hx => ?_, fun _ d₁ h₁ => ?_⟩
  · cases hc'
    exact hc x hx
  obtain rfl : d₁ = { sessions := ss, call := some c } := h₁
  refine ⟨fun c' x hc' => (by cases hc'), fun _ d₂ h₂ => ?_⟩
  obtain rfl : d₂ = { sessions := ss, call := some c } := h₂
  refine ⟨fun c' x hc' => (by cases hc'), fun r d₃ h₃ => ?_⟩
  obtain ⟨c', hc', hhanded, rfl⟩ := h₃
  cases hc'
  exact h r hhanded

/-- A call outside every session comes and goes; the open sessions stay open.
-/
theorem stays_sessionless {c : FfiCall} (hc : c.sessionless = true) :
    Stays owning E (libraryCall c) { sessions := ss } := by
  refine wp_call_owning (fun x hx => ?_) fun r _ => ?_
  · rw [FfiCall.session_of_sessionless hc] at hx
    cases hx
  · show ({ sessions := sessionsAfter ss c r } : Desk) = { sessions := ss }
    rw [sessionsAfter_of_sessionless hc]

/-- A call that no session has a part in. -/
abbrev Sessionless (c : FfiCall) : Prop := c.sessionless = true

theorem sessionless_lastError (n : Nat) : Sessionless (.lastError n) := rfl

/-- The message and one-shot entries use no session. -/
theorem sessionless_cipher (fn : CipherFn) (h : Handle) (src : Bytes) (n : Nat) :
    Sessionless (fn.call h src n) := by
  cases fn <;> rfl

/-- An entry of the binding that no session has a part in. -/
theorem stays_entry {m : Call α} (hm : m.Throws E) (hasks : m.Asks (Ask.only Sessionless)) :
    Stays owning E (lib m) { sessions := ss } := by
  have hall : Remains owning (· = ({ sessions := ss } : Desk))
      (fun e d => E e ∧ d = { sessions := ss }) (lib m) := by
    refine hasks.translate hm (fun _ _ => trivial) fun q hq => ?_
    rintro d rfl
    cases q with
    | ffi c => exact (stays_sessionless (E := E) hq).mono (fun _ _ h => h) fun _ _ h => h
    | emit e => exact rfl
  exact hall _ rfl

/-- The diagnostic throws nothing. -/
theorem throwless_lastError : Call.lastError.Throws NoExn := by
  have hret : ∀ b : Bytes, (Thread.ret b : Call Bytes).Throws NoExn := fun _ => trivial
  have hffi : ∀ c, (Call.ffi c).Throws NoExn := fun _ _ => trivial
  refine throws_bind (hffi _) fun r => throws_ite (hret _) (throws_ite ?_ (hret _))
  exact throws_bind (hffi _) fun r' => throws_ite (hret _) (hret _)

/-- An error text can be read with sessions open. -/
theorem stays_detail_owning (e : Error) : Stays owning NoExn (detail e) { sessions := ss } :=
  stays_bind (stays_entry throwless_lastError (Call.asks_lastError sessionless_lastError))
    fun _ => stays_ret _

/-! ## §3. The pump. -/

variable {x h : Handle}

/-- A call on the session. -/
theorem stays_onSession {c : FfiCall} (hc : c.session = some x)
    (hafter : ∀ r, sessionsAfter [(x, h)] c r = [(x, h)]) :
    Stays owning E (libraryCall c) { sessions := [(x, h)] } := by
  refine wp_call_owning (fun y hy => ?_) fun r _ => ?_
  · obtain rfl : x = y := Option.some.inj (hc.symm.trans hy)
    simp
  · show ({ sessions := sessionsAfter [(x, h)] c r } : Desk) = _
    rw [hafter]

/-- A check asks for the diagnostics only, with sessions open or not. -/
theorem stays_check (rc : Int) (what : String) :
    Stays owning Exn.IsError (lib (Call.check rc what)) { sessions := ss } :=
  stays_entry (Call.throws_check rc what) (Call.asks_check sessionless_lastError rc what)

/-- A write to the session that is open. -/
theorem stays_write (src : Bytes) :
    Stays owning Exn.IsError (lib (Call.write { handle := x } src)) { sessions := [(x, h)] } := by
  unfold Call.write
  rw [lib_bind, lib_ffi]
  exact stays_bind (stays_onSession rfl fun _ => rfl) fun r => stays_check _ _

/-- Its end. -/
theorem stays_end :
    Stays owning Exn.IsError (lib (Call.end_ { handle := x })) { sessions := [(x, h)] } := by
  unfold Call.end_
  rw [lib_bind, lib_ffi]
  exact stays_bind (stays_onSession rfl fun _ => rfl) fun r => stays_check _ _

/-- A read from it. -/
theorem stays_read (dst : Bytes) :
    Stays owning Exn.IsError (lib (Call.read { handle := x } dst)) { sessions := [(x, h)] } := by
  unfold Call.read
  simp only [lib_bind, lib_ffi]
  refine stays_bind (stays_onSession rfl fun _ => rfl) fun r => ?_
  exact stays_bind (stays_check _ _) fun _ => stays_ret _

/-- One round of a drain, on the session that is open. -/
theorem stays_readChunk_owning :
    Stays owning Exn.IsError (readChunk { handle := x }) { sessions := [(x, h)] } := by
  refine stays_bind (stays_aside rfl) fun _ => stays_bind (stays_aside rfl) fun w => ?_
  refine stays_bind (stays_read w.scratch) fun y => ?_
  exact stays_bind (stays_aside rfl) fun _ => stays_ret _

/-- The drain after a write: by induction on the fuel, one read a round. -/
theorem stays_drainAvailable_owning (out : Out) (fuel : Nat) :
    Stays owning Exn.IsError (drainAvailable { handle := x } out fuel)
      { sessions := [(x, h)] } := by
  induction fuel with
  | zero => exact stays_spin trivial
  | succ fuel ih =>
      refine stays_bind stays_readChunk_owning fun got => stays_ite (fun _ => stays_ret _)
        fun _ => ?_
      exact stays_bind (stays_aside rfl) fun _ => ih

/-- The drain after `end`, in the same way. -/
theorem stays_drainFinished_owning (out : Out) (fuel : Nat) :
    Stays owning Exn.IsError (drainFinished { handle := x } out fuel)
      { sessions := [(x, h)] } := by
  induction fuel with
  | zero => exact stays_spin trivial
  | succ fuel ih =>
      refine stays_bind stays_readChunk_owning fun got => stays_bind (stays_aside rfl) fun _ => ?_
      exact stays_ite (fun _ => stays_ret _) fun _ => ih

/-- The feed loop: each write, then the drain after it. -/
theorem stays_feed_owning (src : Bytes) (out : Out) (drainFuel fuel off : Nat) :
    Stays owning Exn.IsError (feed { handle := x } src out drainFuel fuel off)
      { sessions := [(x, h)] } := by
  induction fuel generalizing off with
  | zero => exact stays_spin trivial
  | succ fuel ih =>
      refine stays_ite (fun _ => ?_) fun _ => stays_ret _
      refine stays_bind (stays_aside rfl) fun _ => stays_bind (stays_write _) fun _ => ?_
      exact stays_bind (stays_drainAvailable_owning out drainFuel) fun _ => ih _

/-- A session is fed, ended and drained, and is open throughout. -/
theorem stays_pumpBody (src : Bytes) (out : Out) (fuel : Nat) :
    Stays owning Exn.IsError (pumpBody { handle := x } src out fuel)
      { sessions := [(x, h)] } := by
  refine stays_bind (stays_feed_owning src out fuel fuel 0) fun _ => ?_
  refine stays_bind (stays_aside rfl) fun _ => stays_bind stays_end fun _ => ?_
  exact stays_drainFinished_owning out fuel

/-- A session is begun, and open, or there is none. -/
theorem wp_begin_owning (encrypt : Bool) {R : Ends Exn Desk Stream}
    (hok : ∀ x, x ≠ 0 → R.ok { handle := x } { sessions := [(x, h)] })
    (herr : ∀ e : Exn, e.IsError → R.threw e {}) :
    (lib (if encrypt then Call.encryptStreamBegin { handle := h }
      else Call.decryptStreamBegin { handle := h })).wp owning R {} := by
  -- the two entries differ in the call and in the text of the error
  have hentry : ∀ (c : FfiCall) (what : String), c.begins = true → c.session = none →
      (∀ r, sessionsAfter [] c r = if r.rc = 0 ∧ r.handle ≠ 0 then [(r.handle, h)] else []) →
      (libraryCall c >>= fun r => lib (Call.check r.rc what) >>= fun _ =>
        Thread.ret ({ handle := r.handle } : Stream)).wp owning R {} := by
    intro c what hbegins hsession hafter
    rw [wp_bind]
    refine wp_call_owning (fun x hx => ?_) fun r hhanded => ?_
    · rw [hsession] at hx
      cases hx
    show (lib (Call.check r.rc what) >>= fun _ => _).wp owning R _
    rw [wp_bind, hafter]
    by_cases hrc : r.rc = 0
    · have hz := hhanded hbegins hrc
      have hpass : Call.check r.rc what = .ret () := if_neg (not_not.mpr hrc)
      rw [hpass, if_pos ⟨hrc, hz⟩]
      exact hok r.handle hz
    -- refused: the library has opened nothing
    · have hfail : Call.check r.rc what = Call.fail r.rc what := if_pos hrc
      rw [hfail, if_neg fun hr => hrc hr.1]
      unfold Call.fail
      rw [lib_bind, wp_bind]
      have hdiag : Stays owning Exn.IsError (lib Call.lastError) {} :=
        stays_entry Call.throws_lastError (Call.asks_lastError sessionless_lastError)
      exact hdiag.wp (fun diag => herr _ ⟨_, rfl⟩) fun e he => herr e he
  cases encrypt with
  | true =>
      rw [if_pos rfl]
      unfold Call.encryptStreamBegin
      simp only [lib_bind, lib_ffi, lib_emit, Thread.pure_eq_ret, lib_ret, Thread.ret_bind]
      exact hentry (.encryptStreamBegin h) _ rfl rfl fun _ => rfl
  | false =>
      rw [if_neg nofun]
      unfold Call.decryptStreamBegin
      simp only [lib_bind, lib_ffi, lib_emit, Thread.pure_eq_ret, lib_ret, Thread.ret_bind]
      exact hentry (.decryptStreamBegin h) _ rfl rfl fun _ => rfl

/-- `~Stream` closes it. -/
theorem wp_destroyStream_owning (hz : x ≠ 0) {R : Ends Exn Desk Unit} (hok : R.ok () {}) :
    (lib (Call.destroyStream { handle := x })).wp owning R { sessions := [(x, h)] } := by
  have hclose : Call.destroyStream { handle := x } =
      (Call.ffi (.streamFree x) >>= fun _ => .ret ()) := by
    unfold Call.destroyStream Call.close
    rw [if_pos hz]
    rfl
  rw [hclose, lib_bind, lib_ffi, wp_bind]
  refine wp_call_owning (fun y hy => ?_) fun r _ => ?_
  · obtain rfl : x = y := Option.some.inj hy
    simp
  · have hnone : sessionsAfter [(x, h)] (.streamFree x) r = [] := by simp [sessionsAfter]
    rw [hnone]
    exact hok

/-- **The pump** leaves no session open, whether it comes to its end or an
error unwinds it. -/
theorem stays_pump_owning (encrypt : Bool) (src : Bytes) (out : Out) (fuel : Nat) :
    Stays owning NoExn (pump { handle := h } encrypt src out fuel) {} := by
  refine stays_bind (stays_aside rfl) fun _ => stays_attempt ?_
  refine stays_bind (stays_aside rfl) fun _ => ?_
  unfold Stays
  rw [wp_bind]
  refine wp_begin_owning encrypt (fun x hz => ?_) fun e he => ⟨he, rfl⟩
  show (Thread.ensuring _ _).wp owning _ _
  rw [wp_ensuring]
  refine (stays_pumpBody src out fuel).wp (fun _ => ?_) fun e he => ?_
  · exact wp_destroyStream_owning hz rfl
  · exact wp_destroyStream_owning hz ⟨he, rfl⟩

end Desk

/-! ## §4. A worker. -/

section Worker

variable {E : Exn → Prop} {α : Type}

theorem stays_workerFail_owning (t : Bytes) : Stays owning NoExn (workerFail t) {} :=
  stays_bind (stays_aside rfl) fun _ => stays_aside rfl

/-- A cipher error is recorded once the session is gone. -/
theorem stays_cipherFail_owning (id iter : Nat) (shape : Shape) (direction stage : String)
    (e : Error) : Stays owning NoExn (cipherFail id iter shape direction stage e) {} :=
  stays_bind (stays_detail_owning e) fun _ => stays_workerFail_owning _

/-- Both pumps of a round trip open and free a session of their own. -/
theorem stays_streamTrip_owning (id iter fuel : Nat) :
    Stays owning NoExn (streamTrip id iter fuel) {} := by
  have hfail : ∀ direction e, Stays owning NoExn
      (ask .self >>= fun w => do
        cipherFail id iter .stream direction w.stage e
        pure (none : Option Bytes)) {} := by
    intro direction e
    refine stays_bind (stays_aside rfl) fun w => ?_
    exact stays_bind (stays_cipherFail_owning _ _ _ _ _ e) fun _ => stays_ret none
  refine stays_bind (stays_aside rfl) fun h => stays_bind (stays_aside rfl) fun w => ?_
  refine stays_bind (stays_pump_owning _ _ _ fuel) fun r => ?_
  cases r with
  | error e => exact hfail "encrypt" e
  | ok u =>
      refine stays_bind (stays_aside rfl) fun h => stays_bind (stays_aside rfl) fun w => ?_
      refine stays_bind (stays_pump_owning _ _ _ fuel) fun r => ?_
      cases r with
      | error e => exact hfail "decrypt" e
      | ok u => exact stays_bind (stays_aside rfl) fun w => stays_ret _

/-- The other surfaces open none. -/
theorem stays_wholeTrip_owning (id iter : Nat) (shape : Shape) (p : Pipe)
    {encrypt decrypt : Pipeline → Bytes → Call Bytes}
    (hencrypt : ∀ self src, Stays owning Exn.IsError (lib (encrypt self src)) {})
    (hdecrypt : ∀ self src, Stays owning Exn.IsError (lib (decrypt self src)) {}) :
    Stays owning NoExn (wholeTrip id iter shape p encrypt decrypt) {} := by
  have hfail : ∀ direction e, Stays owning NoExn (do
      cipherFail id iter shape direction "" e
      pure (none : Option Bytes)) {} :=
    fun direction e => stays_bind (stays_cipherFail_owning _ _ _ _ _ e) fun _ => stays_ret none
  refine stays_bind (stays_attempt ?_) fun wire => ?_
  · refine stays_bind (stays_aside rfl) fun h => stays_bind (stays_aside rfl) fun w => ?_
    exact hencrypt _ _
  · cases wire with
    | error e => exact hfail "encrypt" e
    | ok wire =>
        refine stays_bind (stays_attempt ?_) fun plain => ?_
        · exact stays_bind (stays_aside rfl) fun h => hdecrypt _ _
        · cases plain with
          | error e => exact hfail "decrypt" e
          | ok plain => exact stays_ret _

theorem stays_cipherCall (junk : Nat → Nat → UInt8) (h : Handle) (fn : CipherFn) (src : Bytes)
    (what : String) : Stays owning Exn.IsError (lib (Call.cipherCall junk h fn src what)) {} :=
  stays_entry (Call.throws_cipherCall junk h fn src what)
    (Call.asks_cipherCall sessionless_lastError junk h fn src what (sessionless_cipher fn h src))

/-- Every surface leaves the desk empty. -/
theorem stays_roundTrip_owning (junk : Nat → Nat → UInt8) (id iter fuel : Nat) (shape : Shape) :
    Stays owning NoExn (roundTrip junk id iter fuel shape) {} := by
  cases shape with
  | stream => exact stays_streamTrip_owning id iter fuel
  | streamOneShot =>
      exact stays_wholeTrip_owning _ _ _ _ (fun _ _ => stays_cipherCall junk _ _ _ _)
        fun _ _ => stays_cipherCall junk _ _ _ _
  | message =>
      exact stays_wholeTrip_owning _ _ _ _ (fun _ _ => stays_cipherCall junk _ _ _ _)
        fun _ _ => stays_cipherCall junk _ _ _ _
  | both => exact stays_ret _

/-- The comparison and the counters make no call. -/
theorem stays_settle_owning (got : Bytes) : Stays owning NoExn (settle got) {} := by
  refine stays_bind (stays_aside rfl) fun w => stays_ite (fun _ => ?_) fun _ => ?_
  · exact stays_bind (stays_aside rfl) fun _ => stays_spin trivial
  · refine stays_bind (stays_aside rfl) fun _ => stays_bind (stays_aside rfl) fun _ => ?_
    exact stays_bind (stays_aside rfl) fun _ => stays_ret _

/-- Nor does the refill. -/
theorem stays_refill_owning (cfg : Config) (id iter : Nat) :
    Stays owning NoExn (refill cfg id iter) {} := by
  refine stays_ite (fun _ => ?_) fun _ => stays_ret _
  refine stays_bind (stays_aside rfl) fun w => stays_bind (stays_aside rfl) fun drawn => ?_
  cases drawn with
  | some b => exact stays_bind (stays_aside rfl) fun _ => stays_ret _
  | none => exact stays_bind (stays_workerFail_owning _) fun _ => stays_ret _

/-- **An iteration**, from no session to none. -/
theorem stays_iterate_owning (junk : Nat → Nat → UInt8) (cfg : Config) (id iter fuel : Nat) :
    Stays owning NoExn (iterate junk cfg id iter fuel) {} := by
  refine stays_bind (stays_refill_owning cfg id iter) fun b => ?_
  refine stays_ite (fun _ => ?_) fun _ => stays_ret _
  refine stays_bind (stays_aside rfl) fun _ => stays_ensuring ?_ (stays_aside rfl)
  refine stays_bind (stays_roundTrip_owning junk id iter fuel _) fun r => ?_
  cases r with
  | some got => exact stays_settle_owning got
  | none => exact stays_ret false

/-- Nor a fresh master. -/
theorem stays_drawMaster_owning (on : Bool) (layer : String) (id iter : Nat) :
    Stays owning NoExn (drawMaster on layer id iter) {} := by
  refine stays_ite (fun _ => ?_) fun _ => stays_ret _
  refine stays_bind (stays_aside rfl) fun drawn => ?_
  cases drawn with
  | some b => exact stays_ret _
  | none => exact stays_bind (stays_workerFail_owning _) fun _ => stays_ret _

theorem stays_maintenanceFail_owning (cfg : Config) (id iter : Nat) (op : String) (p : Pipe)
    (e : Error) : Stays owning NoExn (maintenanceFail cfg id iter op p e) {} :=
  stays_bind (stays_detail_owning e) fun _ =>
    stays_bind (stays_workerFail_owning _) fun _ => stays_ret _

/-- Something done with a Pipeline, if there is one, and its error. -/
theorem stays_onPipe (cfg : Config) (id iter : Nat) (op : String) (p : Pipe) {m : Task Unit}
    (hm : Stays owning Exn.IsError m {}) :
    Stays owning NoExn (ask (.hasPipe p) >>= fun has =>
      if has then attempt m >>= fun done =>
        match done with
        | .ok _ => Thread.ret true
        | .error e => maintenanceFail cfg id iter op p e
      else Thread.ret true) {} := by
  refine stays_bind (stays_aside rfl) fun has => stays_ite (fun _ => ?_) fun _ => stays_ret _
  refine stays_bind (stays_attempt hm) fun done => ?_
  cases done with
  | ok u => exact stays_ret _
  | error e => exact stays_maintenanceFail_owning cfg id iter op p e

/-- A rekey is a call outside every session. -/
theorem stays_rekeyPipe_owning (cfg : Config) (id iter : Nat) (perm wrap : Bytes) (p : Pipe) :
    Stays owning NoExn (rekeyPipe cfg id iter perm wrap p) {} := by
  refine stays_onPipe cfg id iter "Rekey" p ?_
  refine stays_bind (stays_aside rfl) fun h => ?_
  refine stays_bind (stays_entry (Call.throws_rekey _ _ _)
    (Call.asks_rekey sessionless_lastError fun _ => rfl)) fun b => ?_
  exact stays_aside rfl

/-- So are the load and the free of a blob cycle. -/
theorem stays_blobCyclePipe_owning (cfg : Config) (id iter : Nat) (p : Pipe) :
    Stays owning NoExn (blobCyclePipe cfg id iter p) {} := by
  refine stays_onPipe cfg id iter "Load" p ?_
  refine stays_bind (stays_aside rfl) fun b => ?_
  refine stays_bind (stays_entry (Call.throws_load _ _ _)
    (Call.asks_load sessionless_lastError fun _ => rfl)) fun fresh => ?_
  refine stays_bind (stays_aside rfl) fun h => ?_
  refine stays_bind
    (stays_entry (Call.throws_moveAssign _ _) (Call.asks_moveAssign fun _ => rfl)) fun y => ?_
  refine stays_bind (stays_aside rfl) fun _ => ?_
  exact stays_entry (Call.throws_destroyPipeline _) (Call.asks_destroyPipeline fun _ => rfl)

/-- Both Pipelines under the write lock, and the counter. -/
theorem stays_bothPipes {stream msg : Task Bool} {q : Req} {f : q.Answer → Task Bool}
    (hs : Stays owning NoExn stream {}) (hm : Stays owning NoExn msg {})
    (hq : q.aside = true) (hf : ∀ a, Stays owning NoExn (f a) {}) :
    Stays owning NoExn (ask .lock >>= fun _ =>
      Thread.ensuring (stream >>= fun a =>
        if a then msg >>= fun b => if b then ask q >>= f else .ret false else .ret false)
        (ask .unlock)) {} := by
  refine stays_bind (stays_aside rfl) fun _ => stays_ensuring ?_ (stays_aside rfl)
  refine stays_bind hs fun a => stays_ite (fun _ => ?_) fun _ => stays_ret _
  refine stays_bind hm fun b => stays_ite (fun _ => ?_) fun _ => stays_ret _
  exact stays_bind (stays_aside hq) hf

/-- The rotation of both Pipelines, the masters drawn first. -/
theorem stays_rekeyPipes_owning (cfg : Config) (id iter : Nat) :
    Stays owning NoExn (rekeyPipes cfg id iter) {} := by
  refine stays_bind (stays_drawMaster_owning _ _ id iter) fun perm => ?_
  cases perm with
  | none => exact stays_ret _
  | some perm =>
      refine stays_bind (stays_drawMaster_owning _ _ id iter) fun wrap => ?_
      cases wrap with
      | none => exact stays_ret _
      | some wrap =>
          exact stays_bothPipes (q := .addRekeys)
            (stays_rekeyPipe_owning cfg id iter perm wrap .stream)
            (stays_rekeyPipe_owning cfg id iter perm wrap .msg) rfl fun _ => stays_ret _

theorem stays_blobCyclePipes_owning (cfg : Config) (id iter : Nat) :
    Stays owning NoExn (blobCyclePipes cfg id iter) {} :=
  stays_bothPipes (q := .addBlobCycles) (stays_blobCyclePipe_owning cfg id iter .stream)
    (stays_blobCyclePipe_owning cfg id iter .msg) rfl fun _ => stays_ret _

/-- What is due after an iteration. -/
theorem stays_workerMaintenance_owning (cfg : Config) (id iter : Nat) :
    Stays owning NoExn (workerMaintenance cfg id iter) {} := by
  have hreopen : ∀ b : Bool, Stays owning NoExn
      (if b then if due cfg.blobCycleEvery iter then blobCyclePipes cfg id iter else .ret true
      else .ret false) {} := by
    intro b
    refine stays_ite (fun _ => ?_) fun _ => stays_ret _
    exact stays_ite (fun _ => stays_blobCyclePipes_owning cfg id iter) fun _ => stays_ret _
  refine stays_ite (fun _ => ?_) fun _ => hreopen true
  exact stays_bind (stays_rekeyPipes_owning cfg id iter) hreopen

/-- The main loop: each round leaves the desk empty for the next. -/
theorem stays_workerLoop_owning (junk : Nat → Nat → UInt8) (cfg : Config) (id fuel₀ : Nat)
    (fuel iter : Nat) : Stays owning NoExn (workerLoop junk cfg id fuel₀ fuel iter) {} := by
  induction fuel generalizing iter with
  | zero => exact stays_spin trivial
  | succ fuel ih =>
      unfold workerLoop
      refine stays_ite (fun _ => stays_ret _) fun _ => stays_bind (stays_aside rfl) fun stop => ?_
      refine stays_ite (fun _ => stays_ret _) fun _ => ?_
      refine stays_bind (stays_iterate_owning junk cfg id iter fuel₀) fun ok => ?_
      refine stays_ite (fun _ => ?_) fun _ => stays_ret _
      refine stays_bind (stays_workerMaintenance_owning cfg id iter) fun kept => ?_
      exact stays_ite (fun _ => ih (iter + 1)) fun _ => stays_ret _

theorem stays_arriveAndWait_owning (b : Barrier) : Stays owning NoExn (arriveAndWait b) {} :=
  stays_bind (stays_aside rfl) fun _ => stays_aside rfl

/-- The last section of a worker makes no call. -/
theorem stays_workerDone_owning : Stays owning NoExn workerDone {} := by
  refine stays_bind (stays_aside rfl) fun _ => stays_ensuring ?_ (stays_aside rfl)
  refine stays_bind (stays_aside rfl) fun n => stays_bind (stays_aside rfl) fun _ => ?_
  refine stays_ite (fun _ => ?_) fun _ => stays_ret _
  exact stays_bind (stays_aside rfl) fun t => stays_aside rfl

/-- **A worker.** -/
theorem stays_workerMain_owning (junk : Nat → Nat → UInt8) (cfg : Config) (id fuel : Nat) :
    Stays owning NoExn (workerMain junk cfg id fuel) {} := by
  refine stays_bind (stays_iterate_owning junk cfg id 0 fuel) fun ok => ?_
  refine stays_bind (stays_arriveAndWait_owning _) fun _ =>
    stays_bind (stays_arriveAndWait_owning _) fun _ => ?_
  have hfinish : Stays owning NoExn (workerDone >>= fun _ => ask .return_) {} :=
    stays_bind stays_workerDone_owning fun _ => stays_aside rfl
  refine stays_ite (fun _ => ?_) fun _ => hfinish
  exact stays_bind (stays_workerLoop_owning junk cfg id fuel fuel 1) fun _ => hfinish

/-! ## §5. The main thread. -/

/-- A snapshot is a call outside every session. -/
theorem stays_poolSnapshotTake_owning (cfg : Config) :
    Stays owning NoExn (poolSnapshotTake cfg) {} := by
  refine stays_bind (stays_attempt
    (stays_entry (Call.throws_poolStats _)
      (Call.asks_poolStats sessionless_lastError _ fun _ => rfl))) fun r => ?_
  cases r with
  | ok y => exact stays_ret _
  | error e => exact stays_ret _

/-- Main waits without calling the library. -/
theorem stays_waitLoop_owning (cfg : Config) (start : Int) (fuel : Nat) :
    Stays owning NoExn (waitLoop cfg start fuel) {} := by
  induction fuel with
  | zero => exact stays_spin trivial
  | succ fuel ih =>
      refine stays_bind (stays_aside rfl) fun n => stays_ite (fun _ => ?_) fun _ => stays_ret _
      have hagain : Stays owning NoExn (do
          ask .unlockDone
          ask .lockDone
          waitLoop cfg start fuel) {} :=
        stays_bind (stays_aside rfl) fun _ => stays_bind (stays_aside rfl) fun _ => ih
      -- the stop request may be made on the way
      have hstop : ∀ {m : Task Unit}, Stays owning NoExn m {} →
          Stays owning NoExn (ask .storeStop >>= fun _ => m) {} :=
        fun hm => stays_bind (stays_aside rfl) fun _ => hm
      refine stays_bind (stays_aside rfl) fun seen => ?_
      have hdeadline : Stays owning NoExn (if cfg.iterations = 0 then ask .now >>= fun t =>
          if overdue cfg start t then ask .storeStop >>= fun _ => (do
            ask .unlockDone
            ask .lockDone
            waitLoop cfg start fuel)
          else (do
            ask .unlockDone
            ask .lockDone
            waitLoop cfg start fuel)
        else (do
          ask .unlockDone
          ask .lockDone
          waitLoop cfg start fuel)) {} := by
        refine stays_ite (fun _ => stays_bind (stays_aside rfl) fun t => ?_) fun _ => hagain
        exact stays_ite (fun _ => hstop hagain) fun _ => hagain
      exact stays_ite (fun _ => hstop hdeadline) fun _ => hdeadline

theorem stays_joinAll_owning (n k : Nat) : Stays owning NoExn (joinAll n k) {} := by
  induction n generalizing k with
  | zero => exact stays_ret _
  | succ n ih => exact stays_bind (stays_aside rfl) fun _ => ih (k + 1)

/-- Main's only calls are its two snapshots. -/
theorem stays_mainThread_owning (cfg : Config) (workers fuel : Nat) :
    Stays owning NoExn (mainThread cfg workers fuel) {} := by
  refine stays_bind (stays_arriveAndWait_owning _) fun _ => ?_
  refine stays_bind (stays_poolSnapshotTake_owning cfg) fun _ => ?_
  refine stays_bind (stays_aside rfl) fun start => stays_bind (stays_aside rfl) fun _ => ?_
  refine stays_bind (stays_arriveAndWait_owning _) fun _ => stays_bind (stays_aside rfl) fun _ => ?_
  refine stays_bind (stays_ensuring (stays_waitLoop_owning cfg start fuel) (stays_aside rfl))
    fun _ => ?_
  refine stays_bind (stays_joinAll_owning workers 0) fun _ => ?_
  exact stays_bind (stays_poolSnapshotTake_owning cfg) fun _ => stays_ret _

/-- **Every thread of the harness keeps to its own sessions.** -/
theorem owns_harness {N : Nat} (junk : Fin N → Nat → Nat → UInt8) (cfg : Config) (fuel : Nat)
    (i : Tid N) : Stays owning NoExn (harness N junk cfg fuel i) {} := by
  cases i with
  | none => exact stays_mainThread_owning cfg N fuel
  | some k => exact stays_workerMain_owning (junk k) cfg k fuel

end Worker

end Loop

end ItbCpp
