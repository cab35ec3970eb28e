/-
  ItbCpp.Loop.Reports
  ───────────────────
  **ERRORS, FROM THE CALL THAT FAILED TO THE TEXT THAT IS RECORDED.**

  A thread's calls of the library, as far as its errors depend on them
  (`Log`): the reply of its latest call before it first read the last
  error, and what its readings gave.  `detail::fail` reads once, for the
  exception; `detail` reads again, for the text.

    • `remains_entry` — an entry of the binding returns, or throws an
      `itb::Error` with the status of its call and what it read,
    • `walk_reports` — the second reading is what is recorded,
    • `reports_workerMain` — a worker that has failed has recorded that.
-/
import ItbCpp.Loop.Stages
import ItbCpp.Loop.Walk

namespace ItbCpp

/-- A call that reads the last error. -/
def FfiCall.isReading : FfiCall → Bool
  | .lastError _ => true
  | _ => false

namespace Loop

open Thread

/-! ## §1. What a thread's errors depend on. -/

/-- What `last_error` makes of a buffer of `cap` bytes. -/
def said (cap : Nat) (r : Reply) : Bytes := (Buffer.overlay (zeros cap) r.out).takeWhile (· != 0)

/-- The calls of a thread, as far as its errors depend on them. -/
structure Log where
  /-- the call inside the library -/
  inside : Option FfiCall := none
  /-- the reply of the latest call before the first reading -/
  failing : Option Reply := none
  /-- a reading goes on, with a buffer of this size -/
  again : Option Nat := none
  /-- what the readings of the last error have given -/
  reads : List Bytes := []

/-- A call has returned. -/
def Log.returned (l : Log) (c : FfiCall) (r : Reply) : Log :=
  match c with
  | .lastError cap =>
      if r.rc = 0 then { l with again := none, reads := l.reads ++ [said cap r] }
      else if l.again = none ∧ r.rc = Status.bufferTooSmall.code ∧ 1 < r.len then
        { l with again := some r.len }
      else { l with again := none, reads := l.reads ++ [[]] }
  | _ => if l.reads = [] then { l with failing := some r } else l

/-- The log after an answer. -/
def Log.after (l : Log) : (q : Req) → q.Answer → Log
  | .enter c, _ => { l with inside := some c }
  | .leave, r =>
      match l.inside with
      | some c => { l.returned c r with inside := none }
      | none => l
  | _, _ => l

/-- The logs of the threads, from the events of a run. -/
def logs {N : Nat} (evs : List (Ev N)) : Tid N → Log :=
  evs.foldl (fun ls e => Function.update ls e.who ((ls e.who).after e.asked e.answer))
    fun _ => {}

theorem logs_snoc {N : Nat} (evs : List (Ev N)) (e : Ev N) :
    logs (evs ++ [e]) =
      Function.update (logs evs) e.who ((logs evs e.who).after e.asked e.answer) := by
  simp [logs]

/-- The status of the call that failed: its own, or the one for a length
that its buffer does not hold. -/
def Log.status (l : Log) : Status :=
  match l.failing with
  | some r => if r.rc = 0 then .internal else toStatus r.rc
  | none => .internal

/-- What `detail` prints. -/
def rendered (s : Status) (d : Bytes) : Bytes :=
  text "status " ++ text (toString s.code) ++ text ": " ++ d

/-! ## §2. The entries of the binding. -/

/-- Nothing has been read. -/
structure Log.Clear (l : Log) : Prop where
  inside : l.inside = none
  again : l.again = none
  reads : l.reads = []

/-- `e` has the status `s`, and `d` at the end of its `what()`. -/
def Carries (e : Error) (s : Status) (d : Bytes) : Prop :=
  e.status = s ∧ ∃ (context : Bytes) (rc : Int),
    e.what = context ++ text ": status " ++ text (toString rc) ++ text ": " ++ d

/-- The error carries the status of the call that failed and the one text
that has been read. -/
structure Log.Blames (e : Error) (l : Log) : Prop where
  inside : l.inside = none
  again : l.again = none
  carried : ∃ d, l.reads = [d] ∧ Carries e l.status d

/-- What may be called: the last error twice, and nothing else while a
reading goes on. -/
def Log.mayCall (l : Log) : FfiCall → Prop
  | .lastError cap => l.reads.length < 2 ∧ cap = l.again.getD 2048
  | _ => l.again = none

/-- The same, asked by the binding. -/
def Log.mayAsk (l : Log) : Ask → Prop
  | .ffi c => l.mayCall c
  | .emit _ => True

/-- Where an answer takes the log. -/
def Log.told (l : Log) : (q : Ask) → q.Answer → Log → Prop
  | .ffi c, r, l' => l' = l.returned c r
  | .emit _, _, l' => l' = l

/-- The protocol of the binding. -/
def readings : Protocol Ask Ask.Answer Log where
  asks := Log.mayAsk
  told := Log.told
  spins _ := True

section Entries

variable {l : Log} {c : FfiCall} {r : Reply} {α : Type}

theorem returned_of_clear (hc : c.isReading = false) (hl : l.Clear) :
    l.returned c r = { l with failing := some r } := by
  cases c <;> first | exact if_pos hl.reads | cases hc

theorem returned_of_read (hc : c.isReading = false) (hl : l.reads ≠ []) : l.returned c r = l := by
  cases c <;> first | exact if_neg hl | cases hc

theorem mayCall_of_again (hc : c.isReading = false) (hl : l.again = none) : l.mayCall c := by
  cases c <;> first | exact hl | cases hc

/-- A call that is not a reading. -/
theorem wp_ffi_clear (hc : c.isReading = false) (hl : l.Clear) {R : Ends Exn Log Reply}
    (h : ∀ r, R.ok r { l with failing := some r }) : (Call.ffi c).wp readings R l := by
  refine ⟨mayCall_of_again hc hl.again, fun r l' hl' => ?_⟩
  obtain rfl := hl'
  show R.ok r (l.returned c r)
  rw [returned_of_clear hc hl]
  exact h r

theorem clear_failing (hl : l.Clear) (r : Reply) : ({ l with failing := some r } : Log).Clear :=
  ⟨hl.inside, hl.again, hl.reads⟩

/-- A reading that gives what the buffer holds. -/
theorem returned_said {cap : Nat} (hr : r.rc = 0) : l.returned (.lastError cap) r =
    { l with again := none, reads := l.reads ++ [said cap r] } := if_pos hr

/-- A reading that will be made again. -/
theorem returned_again {cap : Nat} (hr : r.rc ≠ 0) (hl : l.again = none)
    (hmore : r.rc = Status.bufferTooSmall.code ∧ 1 < r.len) :
    l.returned (.lastError cap) r = { l with again := some r.len } :=
  (if_neg hr).trans (if_pos ⟨hl, hmore⟩)

/-- A reading that gives nothing. -/
theorem returned_nothing {cap : Nat} (hr : r.rc ≠ 0)
    (hmore : ¬ (l.again = none ∧ r.rc = Status.bufferTooSmall.code ∧ 1 < r.len)) :
    l.returned (.lastError cap) r = { l with again := none, reads := l.reads ++ [[]] } :=
  (if_neg hr).trans (if_neg hmore)

/-- **`last_error`**: one reading more, however many calls it takes. -/
theorem wp_lastError (hagain : l.again = none) (htwo : l.reads.length < 2)
    {R : Ends Exn Log Bytes} (h : ∀ d, R.ok d { l with reads := l.reads ++ [d] }) :
    Call.lastError.wp readings R l := by
  -- the log once a reading is over
  have hread : ∀ d, R.ok d { l with again := none, reads := l.reads ++ [d] } := by
    intro d
    rw [← hagain]
    exact h d
  unfold Call.lastError
  refine ⟨⟨htwo, ?_⟩, fun r l₁ h₁ => ?_⟩
  · rw [hagain]
    rfl
  obtain rfl := h₁
  show Thread.wp _ (if r.rc = 0 then _ else _) _ (l.returned (.lastError 2048) r)
  rw [wp_ite]
  split
  · rename_i hr
    rw [returned_said hr]
    exact hread _
  · rename_i hr
    rw [wp_ite]
    split
    · -- too small: once more, with as much as it said
      rename_i hmore
      rw [returned_again hr hagain hmore]
      refine ⟨⟨htwo, rfl⟩, fun r' l₂ h₂ => ?_⟩
      obtain rfl := h₂
      show Thread.wp _ (if r'.rc = 0 then _ else _) _
        (Log.returned { l with again := some r.len } (.lastError r.len) r')
      rw [wp_ite]
      split
      · rename_i hr'
        rw [returned_said hr']
        exact hread _
      · rename_i hr'
        rw [returned_nothing hr' fun hc => (by cases hc.1)]
        exact hread _
    · rename_i hmore
      rw [returned_nothing hr fun hc => hmore hc.2]
      exact hread _

/-- `fail`, for the call that has just returned. -/
theorem wp_fail {rc : Int} (hl : l.Clear) (hrc : toStatus rc = l.status) (what : String)
    {R : Ends Exn Log α} (h : ∀ x l', Thrown Log.Blames x l' → R.threw x l') :
    (Call.fail rc what : Call α).wp readings R l := by
  unfold Call.fail
  rw [wp_bind]
  refine wp_lastError hl.again (by rw [hl.reads]; decide) fun d => ?_
  refine h _ _ ⟨_, rfl, hl.inside, hl.again, d, ?_, hrc, text what, rc, rfl⟩
  rw [hl.reads]
  rfl

theorem wp_check (hl : l.Clear) (hr : l.failing = some r) (what : String)
    {R : Ends Exn Log Unit} (hok : r.rc = 0 → R.ok () l)
    (h : ∀ x l', Thrown Log.Blames x l' → R.threw x l') :
    (Call.check r.rc what).wp readings R l := by
  unfold Call.check
  rw [wp_ite]
  split
  · rename_i hrc
    refine wp_fail hl ?_ what h
    unfold Log.status
    rw [hr]
    exact (if_neg hrc).symm
  · rename_i hrc
    exact hok (not_not.mp hrc)

theorem wp_checkedPrefix (hl : l.Clear) (hr : l.failing = some r) (buf : Bytes) (what : String)
    {R : Ends Exn Log Bytes} (hok : ∀ b, R.ok b l)
    (h : ∀ x l', Thrown Log.Blames x l' → R.threw x l') :
    (Call.checkedPrefix buf r what).wp readings R l := by
  unfold Call.checkedPrefix
  rw [wp_bind]
  refine wp_check hl hr what (fun hrc => ?_) h
  show Thread.wp _ (if r.len > buf.length then _ else _) _ _
  rw [wp_ite]
  split
  · -- a length that does not fit the buffer
    refine wp_fail hl ?_ what h
    unfold Log.status
    rw [hr]
    exact (if_pos hrc).symm
  · exact hok _

/-- A call, and what is made of its reply. -/
theorem remains_ffi {g : Reply → Call α} (hc : c.isReading = false)
    (hg : ∀ r l, l.Clear → l.failing = some r →
      (g r).wp readings ⟨fun _ => Log.Clear, Thrown Log.Blames⟩ l) :
    Remains readings Log.Clear (Thrown Log.Blames) (Call.ffi c >>= g) := by
  intro l hl
  rw [wp_bind]
  exact wp_ffi_clear hc hl fun r => hg r _ (clear_failing hl r) rfl

theorem remains_unchecked {f : Reply → Call α} (hc : c.isReading = false)
    (hf : ∀ r, Remains readings Log.Clear (Thrown Log.Blames) (f r)) :
    Remains readings Log.Clear (Thrown Log.Blames) (Call.ffi c >>= f) :=
  remains_ffi hc fun r l hl _ => hf r l hl

theorem remains_check (hc : c.isReading = false) (what : String) :
    Remains readings Log.Clear (Thrown Log.Blames)
      (Call.ffi c >>= fun r => Call.check r.rc what) :=
  remains_ffi hc fun _ _ hl hr => wp_check hl hr what (fun _ => hl) fun _ _ h => h

theorem remains_checked {f : Reply → Call α} (hc : c.isReading = false) (what : String)
    (hf : ∀ r, Remains readings Log.Clear (Thrown Log.Blames) (f r)) :
    Remains readings Log.Clear (Thrown Log.Blames)
      (Call.ffi c >>= fun r => Call.check r.rc what >>= fun _ => f r) := by
  refine remains_ffi hc fun r l hl hr => ?_
  rw [wp_bind]
  exact wp_check hl hr what (fun _ => hf r l hl) fun _ _ h => h

theorem remains_emit {S : Log → Prop} {F : Exn → Log → Prop} (e : Event) :
    Remains readings S F (Call.emit e) := by
  intro l hl
  refine ⟨trivial, fun _ l' hl' => ?_⟩
  obtain rfl := hl'
  exact hl

theorem remains_retryOnce {call : Nat → FfiCall} (hcall : ∀ n, (call n).isReading = false)
    (cap : Nat) (block : Nat → Bytes) (scrub : Bytes → Bytes) (what : String) :
    Remains readings Log.Clear (Thrown Log.Blames)
      (Call.retryOnce call cap block scrub what) := by
  -- the reply that is checked is the latest one
  have htail : ∀ (buf : Bytes) (r : Reply) (l : Log), l.Clear → l.failing = some r →
      (Thread.ensuring (do
        let bytes ← Call.checkedPrefix buf r what
        pure (bytes, r)) (Call.emit (.dealloc (scrub buf)))).wp readings
          ⟨fun _ => Log.Clear, Thrown Log.Blames⟩ l := by
    intro buf r l hl hr
    rw [wp_ensuring, wp_bind]
    refine wp_checkedPrefix hl hr buf what (fun b => ?_) fun x l' hx => ?_
    · exact remains_emit (F := Thrown Log.Blames) _ l hl
    · exact remains_emit (S := Thrown Log.Blames x) (F := Thrown Log.Blames) _ l' hx
  intro l hl
  unfold Call.retryOnce
  rw [wp_bind]
  refine wp_ffi_clear (hcall cap) hl fun r => ?_
  show Thread.wp _ (if r.asksForMore cap then _ else _) _ _
  rw [wp_ite]
  split
  · refine ⟨trivial, fun _ l₁ h₁ => ?_⟩
    obtain rfl := h₁
    show Thread.wp _ (Call.ffi (call r.len) >>= _) _ _
    rw [wp_bind]
    refine wp_ffi_clear (hcall _) (clear_failing hl r) fun r' => ?_
    exact htail _ r' _ (clear_failing (clear_failing hl r) r') rfl
  · exact htail _ r _ (clear_failing hl r) rfl

/-- **An entry of the binding** returns with nothing read, or throws. -/
theorem remains_entry {m : Call α} (h : Entry m) :
    Remains readings Log.Clear (Thrown Log.Blames) m := by
  cases h with
  | cipher junk h fn src what =>
      refine remains_bind (remains_retryOnce (fun n => ?_) _ _ _ _) fun _ => remains_ret _
      cases fn <;> rfl
  | begin encrypt self =>
      refine remains_ite (fun _ => ?_) fun _ => ?_
      · exact remains_checked rfl _ fun r => remains_bind (remains_emit _) fun _ => remains_ret _
      · exact remains_checked rfl _ fun r => remains_bind (remains_emit _) fun _ => remains_ret _
  | write session src => exact remains_check rfl _
  | end_ session => exact remains_check rfl _
  | read session dst => exact remains_checked rfl _ fun r => remains_ret _
  | destroyStream session =>
      refine remains_bind (remains_ite (fun _ => ?_) fun _ => remains_ret _) fun _ => remains_ret _
      exact remains_unchecked rfl fun _ => remains_ret _
  | rekey self perm wrap =>
      exact remains_bind (remains_retryOnce (fun n => rfl) _ _ _ _) fun _ => remains_ret _
  | load blob perm wrap =>
      exact remains_checked rfl _ fun r => remains_bind (remains_emit _) fun _ => remains_ret _
  | moveAssign self other =>
      exact remains_ite (fun _ => remains_unchecked rfl fun _ => remains_ret _)
        fun _ => remains_ret _
  | destroyPipeline self =>
      exact remains_ite (fun _ => remains_unchecked rfl fun _ => remains_ret _)
        fun _ => remains_ret _

/-- A session object that is destroyed leaves the error that is on its way
as it is. -/
theorem remains_unwinding (session : Stream) (e : Error) :
    Remains readings (Log.Blames e) (Thrown Log.Blames) (Call.destroyStream session) := by
  refine remains_bind (remains_ite (fun _ => ?_) fun _ => remains_ret _) fun _ => remains_ret _
  intro l hl
  rw [wp_bind]
  refine ⟨hl.again, fun r l' hl' => ?_⟩
  obtain rfl := hl'
  show Log.Blames e (l.returned _ r)
  obtain ⟨d, hd, -⟩ := hl.carried
  rw [returned_of_read rfl (by rw [hd]; exact List.cons_ne_nil _ _)]
  exact hl

end Entries

/-! ## §3. A worker. -/

/-- Where a worker stands, as far as its error depends on it. -/
structure Report where
  log : Log := {}
  failed : Bool := false
  error : Bytes := []

/-- The text is what `detail` makes of an error that was thrown with the
first reading, and of the second reading. -/
def Log.Recorded (l : Log) (t : Bytes) : Prop :=
  ∃ e d₁ d₂ pre, l.reads = [d₁, d₂] ∧ Carries e l.status d₁ ∧ t = pre ++ rendered e.status d₂

/-- A worker that has failed has recorded that it was given no random bytes, and
read nothing; or it has recorded what it read. -/
def Report.Fair (t : Report) : Prop :=
  t.failed = true → (t.log.reads = [] ∧ CsprngText t.error) ∨ t.log.Recorded t.error

/-- Where an answer takes a worker. -/
def Report.told (t : Report) : (q : Req) → q.Answer → Report → Prop
  | .setSelf f, _, t' => ∃ w : Worker, w.failed = t.failed ∧ w.error = t.error ∧
      t' = { t with failed := (f w).failed, error := (f w).error }
  | q, a, t' => t' = { t with log := t.log.after q a }

/-- What a worker may ask. -/
def Report.asks (t : Report) (q : Req) : Prop :=
  t.Fair ∧ ∀ c, q = .enter c → t.log.inside = none ∧ t.log.mayCall c

/-- The protocol of a worker. -/
def reporting : Protocol Req Req.Answer Report where
  asks := Report.asks
  told := Report.told
  spins := Report.Fair

/-- The requests that no error depends on. -/
def Req.apart : Req → Bool
  | .enter _ | .leave | .setSelf _ => false
  | _ => true

section Workers

variable {t : Report} {α : Type}

/-- Nothing has gone wrong. -/
def Report.Sound (t : Report) : Prop := t.failed = false ∧ t.log.Clear

/-- An error has been caught. -/
def Report.Caught (e : Error) (t : Report) : Prop := t.failed = false ∧ t.log.Blames e

/-- An error has been recorded. -/
def Report.Failed (t : Report) : Prop := t.failed = true ∧ t.Fair

theorem fair_of_fine (h : t.failed = false) : t.Fair := by
  intro hf
  rw [h] at hf
  cases hf

theorem remains_apart {F : Exn → Report → Prop} {S : Report → Prop} (hS : ∀ t, S t → t.Fair)
    {q : Req} (hq : q.apart = true) : Remains reporting S F (ask q) := by
  intro t ht
  refine ⟨⟨hS t ht, fun c hc => ?_⟩, fun a t' ht' => ?_⟩
  · rw [hc] at hq
    cases hq
  · have hsame : t' = t := by
      cases q with
      | enter | leave | setSelf => cases hq
      | _ => exact ht'
    exact hsame ▸ ht

/-- While a call is inside, the rest of the log is as it was. -/
theorem returned_inside {l : Log} (hl : l.inside = none) (c : FfiCall) (r : Reply) :
    { ({ l with inside := some c } : Log).returned c r with inside := none } =
      l.returned c r := by
  obtain ⟨inside, failing, again, reads⟩ := l
  obtain rfl : inside = none := hl
  unfold Log.returned
  cases c <;> simp only <;> split_ifs <;> rfl

/-- The binding's part of a worker. -/
structure AtCall (l : Log) (t : Report) : Prop where
  log : t.log = l
  inside : l.inside = none
  failed : t.failed = false

/-- A library call of a worker that has not failed. -/
theorem wp_libraryCall_reporting {l : Log} (h : AtCall l t) {c : FfiCall} (hc : l.mayCall c)
    {R : Ends Exn Report Reply} (hok : ∀ r t', AtCall (l.returned c r) t' → R.ok r t') :
    (libraryCall c).wp reporting R t := by
  obtain ⟨log, failed, error⟩ := t
  obtain rfl : log = l := h.log
  obtain rfl : failed = false := h.failed
  refine ⟨⟨fair_of_fine rfl, fun c' hc' => ?_⟩, fun _ t₁ h₁ => ?_⟩
  · cases hc'
    exact ⟨h.inside, hc⟩
  obtain rfl := h₁
  refine ⟨⟨fair_of_fine rfl, fun c' hc' => (by cases hc')⟩, fun _ t₂ h₂ => ?_⟩
  obtain rfl := h₂
  refine ⟨⟨fair_of_fine rfl, fun c' hc' => (by cases hc')⟩, fun r t₃ h₃ => ?_⟩
  obtain rfl := h₃
  have hlog : { ({ log with inside := some c } : Log).returned c r with inside := none } =
      log.returned c r := returned_inside h.inside c r
  refine hok r _ ⟨hlog, ?_, rfl⟩
  rw [← hlog]

/-- **The binding, called by a worker**, does what it does alone. -/
theorem wp_lib {l : Log} (h : AtCall l t) {m : Call α} {R : Ends Exn Log α}
    (hm : m.wp readings R l) :
    (lib m).wp reporting ⟨fun a t' => ∃ l', AtCall l' t' ∧ R.ok a l',
      fun e t' => ∃ l', AtCall l' t' ∧ R.threw e l'⟩ t := by
  refine wp_translate (fun q l t hl hq => ?_) (fun l t hl _ => fair_of_fine hl.failed) h hm
  cases q with
  | ffi c =>
      refine wp_libraryCall_reporting hl hq fun r t' ht' => ?_
      exact ⟨_, rfl, ht'⟩
  | emit e => exact ⟨l, rfl, hl⟩

/-- An entry, from where the worker stands to where it stands after it. -/
theorem remains_lib {S : Log → Prop} {E : Exn → Log → Prop} (hS : ∀ l, S l → l.inside = none)
    {m : Call α} (hm : Remains readings S E m) :
    Remains reporting (fun t => t.failed = false ∧ S t.log)
      (fun x t => t.failed = false ∧ E x t.log) (lib m) := by
  intro t ht
  refine (wp_lib ⟨rfl, hS _ ht.2, ht.1⟩ (hm t.log ht.2)).mono (fun a t' h => ?_) fun x t' h => ?_
  · obtain ⟨l', hat, hl'⟩ := h
    exact ⟨hat.failed, hat.log ▸ hl'⟩
  · obtain ⟨l', hat, hl'⟩ := h
    exact ⟨hat.failed, hat.log ▸ hl'⟩

/-- `worker_fail`, for the first error. -/
theorem wp_workerFail_reporting (ht : t.failed = false) (what : Bytes)
    (h : (t.log.reads = [] ∧ CsprngText what) ∨ t.log.Recorded what) :
    (workerFail what).wp reporting ⟨fun _ => Report.Failed, Nowhere⟩ t := by
  refine ⟨⟨fair_of_fine ht, fun c hc => (by cases hc)⟩, fun _ t₁ h₁ => ?_⟩
  obtain ⟨w, hw, -, rfl⟩ := h₁
  rw [ht] at hw
  have hfailed : Report.Failed { t with
      failed := (if w.failed then w else { w with error := what, failed := true }).failed
      error := (if w.failed then w else { w with error := what, failed := true }).error } := by
    rw [hw]
    exact ⟨rfl, fun _ => h⟩
  exact remains_apart (fun _ h => h.2) rfl _ hfailed

theorem sound_fair (t : Report) (h : t.Sound) : t.Fair := fair_of_fine h.1

theorem caught_fair {e : Error} (t : Report) (h : t.Caught e) : t.Fair := fair_of_fine h.1

theorem failed_fair (t : Report) (h : t.Failed) : t.Fair := h.2

/-- **The second reading is what is recorded.** -/
theorem wp_report (pre : Bytes) (e : Error) (t : Report) (ht : t.Caught e) :
    (detail e >>= fun d => workerFail (pre ++ d)).wp reporting
      ⟨fun _ => Report.Failed, Nowhere⟩ t := by
  obtain ⟨d₁, hreads, hcarries⟩ := ht.2.carried
  have htwo : t.log.reads.length < 2 := by
    rw [hreads]
    exact Nat.lt_succ_self 1
  rw [wp_bind]
  show Thread.wp _ (lib Call.lastError >>= _) _ _
  rw [wp_bind]
  refine (wp_lib (R := ⟨fun d l' => l' = { t.log with reads := t.log.reads ++ [d] },
    fun _ _ => False⟩) ⟨rfl, ht.2.inside, ht.1⟩
      (wp_lastError ht.2.again htwo fun _ => rfl)).mono (fun d₂ t' h => ?_) fun _ _ h => ?_
  · obtain ⟨l', hat, rfl⟩ := h
    refine wp_workerFail_reporting hat.failed _ (Or.inr ⟨e, d₁, d₂, pre, ?_, ?_, rfl⟩)
    · rw [hat.log, hreads]
      rfl
    · rw [hat.log]
      exact hcarries
  · obtain ⟨_, -, hf⟩ := h
    exact hf.elim

/-- A change of the buffers is no part of a report. -/
theorem told_buffers {f : Worker → Worker} (hf : Worker.Buffers f) {t' : Report}
    (h : t.told (.setSelf f) () t') : t' = t := by
  obtain ⟨w, hfailed, herror, rfl⟩ := h
  rw [hf.failed, hf.error, hfailed, herror]

/-- **The steps of a worker**: sound, caught, recorded. -/
theorem walk_reports :
    Walk reporting (fun _ => true) Report.Sound Report.Caught Report.Failed where
  looks q hq := by
    refine remains_apart sound_fair ?_
    cases q <;> first | rfl | cases hq
  pipe p _ := remains_apart sound_fair rfl
  hasPipe p t ht :=
    (remains_apart sound_fair rfl t ht).mono (fun _ _ h => ⟨fun _ => rfl, h⟩) fun _ _ h => h
  setPipe p h _ := remains_apart sound_fair rfl
  buffers f hf t ht := by
    refine ⟨⟨sound_fair t ht, fun c hc => (by cases hc)⟩, fun _ t' ht' => ?_⟩
    exact told_buffers hf ht' ▸ ht
  spins := sound_fair
  entry hm t ht := by
    refine (remains_lib (fun l hl => hl.inside) (remains_entry hm) t ht).mono
      (fun _ _ h => h) fun x t' h => ?_
    obtain ⟨hfine, e, rfl, hblames⟩ := h
    exact ⟨e, rfl, hfine, hblames⟩
  unwinds session e t ht := by
    refine (remains_lib (fun l hl => hl.inside) (remains_unwinding session e) t ht).mono
      (fun _ _ h => h) fun x t' h => ?_
    obtain ⟨hfine, e', rfl, hblames⟩ := h
    exact ⟨e', rfl, hfine, hblames⟩
  rereads e := remains_apart caught_fair rfl
  report := wp_report
  giveUp hwhat t ht := wp_workerFail_reporting ht.1 _ (Or.inl ⟨ht.2.reads, hwhat⟩)

/-! ## §4. A worker's run. -/

/-- A change of the record that leaves its error alone. -/
theorem remains_setSelf {f : Worker → Worker} (hfailed : ∀ w, (f w).failed = w.failed)
    (herror : ∀ w, (f w).error = w.error) :
    Remains reporting Report.Sound Nowhere (ask (.setSelf f)) := by
  intro t ht
  refine ⟨⟨sound_fair t ht, fun c hc => (by cases hc)⟩, fun _ t' ht' => ?_⟩
  obtain ⟨w, hw, hw', rfl⟩ := ht'
  rw [hfailed, herror, hw, hw']
  exact ht

theorem shift_reports :
    Shift reporting (fun _ => true) Report.Sound Report.Caught Report.Failed where
  toWalk := walk_reports
  around q hq := by
    refine remains_apart sound_fair ?_
    cases q <;> first | rfl | cases hq
  unlocks q hq := by
    have hapart : q.apart = true := by
      rcases hq with rfl | rfl <;> rfl
    exact ⟨remains_apart sound_fair hapart, remains_apart failed_fair hapart⟩
  counts _ := remains_setSelf

/-- How a worker ends: without an error, or with a fair one. -/
def Report.Over (t : Report) : Prop := t.Sound ∨ t.Failed

theorem over_fair (t : Report) (h : t.Over) : t.Fair :=
  h.elim (sound_fair t) (failed_fair t)

/-- The loop of a worker that has come through its warmup. -/
theorem wp_workerLoop_reporting (junk : Nat → Nat → UInt8) (cfg : Config)
    (id fuel₀ fuel iter : Nat) (t : Report) (ht : t.Sound) :
    (workerLoop junk cfg id fuel₀ fuel iter).wp reporting ⟨fun _ => Report.Over, Nowhere⟩ t := by
  induction fuel generalizing iter t with
  | zero => exact sound_fair t ht
  | succ fuel ih =>
      have hout : ∀ t, Report.Over t →
          (Thread.ret () : Task Unit).wp reporting ⟨fun _ => Report.Over, Nowhere⟩ t :=
        fun _ h => h
      -- a call that ends the loop if it is lost
      have hnext : ∀ {m : Task Bool} {rest : Task Unit} (t : Report), t.Sound →
          Gives reporting Report.Sound m (fun b => b) Report.Sound Report.Failed →
          (∀ t, t.Sound → rest.wp reporting ⟨fun _ => Report.Over, Nowhere⟩ t) →
          (m >>= fun b => if b then rest else .ret ()).wp reporting
            ⟨fun _ => Report.Over, Nowhere⟩ t := by
        intro m rest t ht hm hrest
        rw [wp_bind]
        refine hm.wp ht (fun b t' hb ht' => ?_) fun b t' hb ht' => ?_
        · obtain rfl : b = true := hb
          exact hrest t' ht'
        · obtain rfl : b = false := hb
          exact Or.inr ht'
      unfold workerLoop
      rw [wp_ite]
      split
      · exact hout t (Or.inl ht)
      · rw [wp_bind]
        refine (remains_apart sound_fair rfl t ht).mono (fun stop t₁ ht₁ => ?_) fun _ _ h => h
        show Thread.wp _ (if stop = true then _ else _) _ _
        rw [wp_ite]
        split
        · exact hout t₁ (Or.inl ht₁)
        · have hiterate := shift_reports.iterate junk cfg (fun _ => rfl) id iter fuel₀
          refine hnext t₁ ht₁ hiterate fun t₂ ht₂ => ?_
          exact hnext t₂ ht₂ (shift_reports.workerMaintenance cfg id iter) fun t₃ ht₃ =>
            ih (iter + 1) t₃ ht₃

/-- A barrier leaves a worker as it is. -/
theorem wp_barrier {S : Report → Prop} (hS : ∀ t, S t → t.Fair) (b : Barrier)
    {rest : Task α} {R : Ends Exn Report α} (hrest : ∀ t, S t → rest.wp reporting R t) (t : Report)
    (ht : S t) : (arriveAndWait b >>= fun _ => rest).wp reporting R t := by
  have hboth : Remains reporting S Nowhere (arriveAndWait b) :=
    remains_bind (remains_apart hS rfl) fun _ => remains_apart hS rfl
  rw [wp_bind]
  exact (hboth t ht).mono (fun _ t' ht' => hrest t' ht') fun _ _ h => h.elim

/-- **A worker's error is fair**, from its first request to its last. -/
theorem reports_workerMain (junk : Nat → Nat → UInt8) (cfg : Config) (id fuel : Nat) :
    (workerMain junk cfg id fuel).wp reporting ⟨fun _ => Report.Over, Nowhere⟩ {} := by
  have hstep : ∀ {q : Req}, q.apart = true → Remains reporting Report.Over Nowhere (ask q) :=
    fun hq => remains_apart over_fair hq
  have hdone : Remains reporting Report.Over Nowhere workerDone := by
    refine remains_bind (hstep rfl) fun _ => remains_ensuring ?_ (hstep rfl) fun _ _ h => h.elim
    refine remains_bind (hstep rfl) fun n => remains_bind (hstep rfl) fun _ => ?_
    refine remains_ite (fun _ => ?_) fun _ => remains_ret _
    exact remains_bind (hstep rfl) fun _ => hstep rfl
  have hend : Remains reporting Report.Over Nowhere (do
      workerDone
      ask .return_) := remains_bind hdone fun _ => hstep rfl
  have hstart : Report.Sound {} := ⟨rfl, rfl, rfl, rfl⟩
  unfold workerMain
  rw [wp_bind]
  have hiterate := shift_reports.iterate junk cfg (fun _ => rfl) id 0 fuel
  refine hiterate.wp hstart (fun ok t hok ht => ?_) fun ok t hok ht => ?_
  · obtain rfl : ok = true := hok
    refine wp_barrier sound_fair .warmupDone (fun t ht => ?_) t ht
    refine wp_barrier sound_fair .release (fun t ht => ?_) t ht
    rw [if_pos rfl, wp_bind]
    exact (wp_workerLoop_reporting junk cfg id fuel fuel 1 t ht).mono
      (fun _ t' ht' => hend t' ht') fun _ _ h => h
  · -- a worker that failed its warmup passes both barriers all the same
    obtain rfl : ok = false := hok
    refine wp_barrier failed_fair .warmupDone (fun t ht => ?_) t ht
    exact wp_barrier failed_fair .release (fun t ht => hend t (Or.inr ht)) t ht

/-- On its way, too. -/
theorem fair_of_wp {m : Task α} (h : m.wp reporting ⟨fun _ => Report.Over, Nowhere⟩ t) :
    t.Fair := by
  cases m with
  | ret a => exact over_fair t h
  | throw e => exact h.elim
  | spin => exact h
  | ask q k => exact h.1.1

end Workers

end Loop

end ItbCpp
