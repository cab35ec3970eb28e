/-
  ItbCpp.Adversary
  ────────────────
  **THE PUMP AGAINST ANY SESSION.**

  `pump_into` over a session that may answer anything: any counts, any
  flags, an error at any call.  What the pump asks is fixed by its own two
  cursors, so one invariant (`Driving`) on the calls made so far holds at
  every loop head and is handed over at every way out.

    • `PumpRule` — what may be asked, given what came before,
    • `wp_pumpInto_any` — how every run ends, over every session,
    • `pumpInto_safe` — order, slices, tails and error exits,
    • `pumpInto_terminates` — the number of calls is bounded.
-/
import ItbCpp.Footprint
import ItbCpp.Pump
import Mathlib.Algebra.GroupWithZero.Nat

namespace ItbCpp

/-! ## §1. What a trace says of a session. -/

section Reading

variable (h : Handle)

/-- The slice an event gives to the session. -/
def Event.slice : Event → Bytes
  | .call (.streamWrite g s) _ => if g = h then s else []
  | _ => []

/-- Everything written so far. -/
def written (evs : List Event) : Bytes := evs.flatMap (Event.slice h)

/-- The end is sent. -/
def Event.isEnd : Event → Bool
  | .call (.streamEnd g) _ => g = h
  | _ => false

def endSent (evs : List Event) : Bool := evs.any (Event.isEnd h)

/-- The bytes a read brings in: its count, when the read succeeds and the
count fits the span. -/
def Event.count : Event → Nat
  | .call (.streamRead g cap) r => if g = h ∧ r.rc = 0 ∧ r.len ≤ cap then r.len else 0
  | _ => 0

/-- The sum of the counts accepted so far. -/
def accepted (evs : List Event) : Nat := (evs.map (Event.count h)).sum

def Event.isWrite : Event → Bool
  | .call (.streamWrite g _) _ => g = h
  | _ => false

def Event.isRead : Event → Bool
  | .call (.streamRead g _) _ => g = h
  | _ => false

/-- The number of writes, and of reads. -/
def writes (evs : List Event) : Nat := evs.countP (Event.isWrite h)

def reads (evs : List Event) : Nat := evs.countP (Event.isRead h)

/-- No call of the session was refused and no read over-reported. -/
def Event.Fine : Event → Prop
  | .call (.streamWrite g _) r | .call (.streamEnd g) r => g = h → r.rc = 0
  | .call (.streamRead g cap) r => g = h → r.rc = 0 ∧ r.len ≤ cap
  | _ => True

def Steady (evs : List Event) : Prop := ∀ e ∈ evs, e.Fine h

/-- A buffer and how much of it is used. -/
structure Cursor where
  buf : Bytes
  used : Nat := 0
  deriving DecidableEq

/-- A successful read writes at the cursor and moves it by a count that
fits. -/
def Cursor.after (c : Cursor) : Event → Cursor
  | .call (.streamRead g cap) r =>
      if g = h ∧ r.rc = 0 then
        { buf := Buffer.overlayAt c.buf c.used r.out
          used := if r.len ≤ cap then c.used + r.len else c.used }
      else c
  | _ => c

/-- Where the reads have landed. -/
def landed (dst : Bytes) (evs : List Event) : Cursor :=
  evs.foldl (Cursor.after h) { buf := dst }

/-- **The rule of the pump**: a call of the session it may make over `src`
and a buffer of `n` bytes, after the events `pre`. -/
def PumpRule (src : Bytes) (n : Nat) (pre : List Event) : Event → Prop
  | .call (.streamWrite g s) _ => g = h → Steady h pre ∧ endSent h pre = false ∧
      s ≠ [] ∧ s.length ≤ kPumpBuf ∧ written h pre ++ s <+: src
  | .call (.streamEnd g) _ => g = h → Steady h pre ∧ endSent h pre = false ∧
      written h pre = src
  | .call (.streamRead g cap) _ => g = h → Steady h pre ∧ 0 < cap ∧ accepted h pre + cap = n
  | _ => True

variable {h}

theorem written_snoc (evs : List Event) (e : Event) :
    written h (evs ++ [e]) = written h evs ++ e.slice h := by
  simp [written]

theorem endSent_snoc (evs : List Event) (e : Event) :
    endSent h (evs ++ [e]) = (endSent h evs || e.isEnd h) := by
  simp [endSent]

theorem accepted_snoc (evs : List Event) (e : Event) :
    accepted h (evs ++ [e]) = accepted h evs + e.count h := by
  simp [accepted]

theorem writes_snoc (evs : List Event) (e : Event) :
    writes h (evs ++ [e]) = writes h evs + if e.isWrite h then 1 else 0 := by
  simp [writes, List.countP_cons]

theorem reads_snoc (evs : List Event) (e : Event) :
    reads h (evs ++ [e]) = reads h evs + if e.isRead h then 1 else 0 := by
  simp [reads, List.countP_cons]

theorem steady_snoc {evs : List Event} {e : Event} (hs : Steady h evs) (he : e.Fine h) :
    Steady h (evs ++ [e]) := by
  intro e' he'
  rcases List.mem_append.mp he' with he' | he'
  · exact hs e' he'
  · rw [List.mem_singleton.mp he']
    exact he

theorem landed_snoc (dst : Bytes) (evs : List Event) (e : Event) :
    landed h dst (evs ++ [e]) = (landed h dst evs).after h e := by
  simp [landed]

/-- The cursor stands at the sum of the accepted counts. -/
theorem landed_used (dst : Bytes) (evs : List Event) :
    (landed h dst evs).used = accepted h evs := by
  induction evs using List.reverseRecOn with
  | nil => rfl
  | append_singleton evs e ih =>
      rw [landed_snoc, accepted_snoc, ← ih]
      cases e with
      | adopt g => rfl
      | dealloc content => rfl
      | call c r =>
          cases c with
          | streamRead g cap =>
              simp only [Cursor.after, Event.count]
              by_cases hread : g = h ∧ r.rc = 0
              · rw [if_pos hread]
                by_cases hfit : r.len ≤ cap
                · simp [hread, hfit]
                · simp [hfit]
              · rw [if_neg hread]
                have : ¬(g = h ∧ r.rc = 0 ∧ r.len ≤ cap) := fun hc => hread ⟨hc.1, hc.2.1⟩
                rw [if_neg this]
                rfl
          | _ => rfl

/-- Diagnostics are no calls of the session. -/
theorem lastError_quiet {e : Event} (he : e.isLastError = true) :
    e.slice h = [] ∧ e.isEnd h = false ∧ e.count h = 0 ∧ e.isWrite h = false ∧
      e.isRead h = false ∧ (∀ c, Cursor.after h c e = c) ∧
      ∀ src n pre, PumpRule h src n pre e := by
  unfold Event.isLastError at he
  split at he
  next n r => exact ⟨rfl, rfl, rfl, rfl, rfl, fun _ => rfl, fun _ _ _ => trivial⟩
  next => cases he

end Reading

/-! ## §2. The invariant. -/

section Invariant

variable {σ : Type}

/-- What a client can bring a session to from `s₀`: writes and reads, one
end, more reads.  The flag tells whether the end has been sent. -/
inductive Reached (L : Lib σ) (h : Handle) (s₀ : σ) : Bool → σ → Prop
  | start : Reached L h s₀ false s₀
  | write (s : σ) (src : Bytes) :
      Reached L h s₀ false s → Reached L h s₀ false (L (.streamWrite h src) s).2
  | read (s : σ) (e : Bool) (cap : Nat) :
      Reached L h s₀ e s → Reached L h s₀ e (L (.streamRead h cap) s).2
  | end_ (s : σ) : Reached L h s₀ false s → Reached L h s₀ true (L (.streamEnd h) s).2

/-- The documented blocking read: once the end has been sent, a read that
brings nothing reports the end. -/
def ReadsBlock (L : Lib σ) (h : Handle) (s₀ : σ) : Prop :=
  ∀ s cap, Reached L h s₀ true s → 0 < cap → (L (.streamRead h cap) s).1.rc = 0 →
    (L (.streamRead h cap) s).1.len = 0 → (L (.streamRead h cap) s).1.fin ≠ 0

/-- **The pump at a point of its run from `w`**, after the events `evs`: its
calls kept to the rule and were all answered well, and the two cursors say
what they amount to. -/
structure Driving (L : Lib σ) (h : Handle) (src dst : Bytes) (w : World σ) (ended : Bool)
    (evs : List Event) (p : Pump σ) : Prop where
  trace : p.world.trace = w.trace ++ evs
  reached : Reached L h w.lib ended p.world.lib
  calls : Prog.AtEach (PumpRule h src dst.length) evs
  steady : Steady h evs
  cursor : landed h dst evs = { buf := p.dst, used := p.used }
  size : p.dst.length = dst.length
  room : p.used ≤ dst.length
  offset : p.offset = min (writes h evs * kPumpBuf) src.length
  slices : writes h evs * kPumpBuf < src.length + kPumpBuf
  fed : written h evs = src.take p.offset
  sent : endSent h evs = ended
  all : ended = true → p.offset = src.length

/-- The name under which a call of the session is checked. -/
def FfiCall.sessionOp (h : Handle) : FfiCall → Option String
  | .streamWrite g _ => if g = h then some "Stream::write" else none
  | .streamEnd g => if g = h then some "Stream::end" else none
  | .streamRead g _ => if g = h then some "Stream::read" else none
  | _ => none

/-- Why a run breaks off with the error `x`, from the world `w₁` in which the
answer `r` to the call `c` is looked at. -/
inductive BreaksOff (L : Lib σ) (h : Handle) (c : FfiCall) (r : Reply) (w₁ w' : World σ)
    (x : Error) : Prop
  /-- the session refused the call: what `check` threw there -/
  | refused (what : String) (hop : c.sessionOp h = some what) (hrc : r.rc ≠ 0)
      (hst : x.status = toStatus r.rc) (hthrow : check L r.rc what w₁ = .threw (.error x) w')
  /-- the count does not fit the span: `internal` -/
  | overReported (cap : Nat) (hop : c = .streamRead h cap) (hrc : r.rc = 0) (hlen : cap < r.len)
      (hst : x.status = .internal)

/-- The pump as an error left it: `c` was its last call of the session. -/
structure Broke (L : Lib σ) (h : Handle) (src dst : Bytes) (w : World σ) (pre : List Event)
    (c : FfiCall) (r : Reply) (x : Error) (p : Pump σ) : Prop where
  trace : ∃ errs, p.world.trace = w.trace ++ (pre ++ [.call c r] ++ errs) ∧
    ∀ e ∈ errs, e.isLastError = true
  calls : Prog.AtEach (PumpRule h src dst.length) (pre ++ [.call c r])
  steady : Steady h pre
  cursor : landed h dst (pre ++ [.call c r]) = { buf := p.dst, used := p.used }
  used : p.used = accepted h pre
  room : p.used ≤ dst.length
  slices : writes h (pre ++ [.call c r]) * kPumpBuf < src.length + kPumpBuf
  cause : ∃ w₁, w₁.trace = w.trace ++ (pre ++ [.call c r]) ∧ BreaksOff L h c r w₁ p.world x

variable {L : Lib σ} {h : Handle} {src dst : Bytes} {w : World σ} {evs : List Event}
  {p : Pump σ}

/-- The pump before its first call. -/
theorem Driving.start : Driving L h src dst w false [] { world := w, dst := dst } where
  trace := (List.append_nil _).symm
  reached := .start
  calls := Prog.atEach_nil
  steady := by
    intro e he
    cases he
  cursor := rfl
  size := rfl
  room := Nat.zero_le _
  offset := by simp [writes]
  slices := by
    have hbuf : 0 < kPumpBuf := by decide
    simp only [writes, List.countP_nil]
    omega
  fed := rfl
  sent := rfl
  all := by
    intro hf
    cases hf

theorem Driving.accepted_eq {ended : Bool} (hp : Driving L h src dst w ended evs p) :
    accepted h evs = p.used := by
  rw [← landed_used dst, hp.cursor]

/-! ## §3. The steps. -/

/-- The next slice: what it is, and that the rule allows it. -/
theorem Driving.nextSlice (hp : Driving L h src dst w false evs p)
    (hmore : p.offset < src.length) :
    0 < p.slice src ∧ p.offset + p.slice src ≤ src.length ∧
      p.offset = writes h evs * kPumpBuf ∧
      ∀ r, PumpRule h src dst.length evs
        (.call (.streamWrite h ((src.drop p.offset).take (p.slice src))) r) := by
  have hbuf : 0 < kPumpBuf := by decide
  have hoff := hp.offset
  have hpos : 0 < p.slice src := by unfold Pump.slice; omega
  have hle : p.offset + p.slice src ≤ src.length := by unfold Pump.slice; omega
  have hlen : ((src.drop p.offset).take (p.slice src)).length = p.slice src := by
    rw [List.length_take, List.length_drop]
    omega
  refine ⟨hpos, hle, by omega, fun r _ => ⟨hp.steady, hp.sent, ?_, ?_, ?_⟩⟩
  · intro hnil
    rw [hnil] at hlen
    exact absurd hlen.symm (by simpa using Nat.pos_iff_ne_zero.mp hpos)
  · rw [hlen]
    unfold Pump.slice
    omega
  · rw [hp.fed, ← List.take_add]
    exact List.take_prefix _ _

/-- A write that is accepted. -/
theorem Driving.write (hp : Driving L h src dst w false evs p) (hmore : p.offset < src.length)
    {c : FfiCall} (hc : c = .streamWrite h ((src.drop p.offset).take (p.slice src)))
    (hrc : (L c p.world.lib).1.rc = 0) :
    Driving L h src dst w false (evs ++ [.call c (L c p.world.lib).1])
      (p.fed c (L c p.world.lib) (p.slice src)) := by
  obtain ⟨hpos, hle, halign, hrule⟩ := hp.nextSlice hmore
  subst hc
  have hwrites : ∀ r, writes h (evs ++
      [.call (.streamWrite h ((src.drop p.offset).take (p.slice src))) r]) =
      writes h evs + 1 := by
    intro r
    simp [writes_snoc, Event.isWrite]
  constructor
  · show p.world.trace ++ _ = _
    rw [hp.trace, List.append_assoc]
  · exact .write _ _ hp.reached
  · exact Prog.atEach_snoc hp.calls (hrule _)
  · exact steady_snoc hp.steady fun _ => hrc
  · rw [landed_snoc, hp.cursor]
    rfl
  · exact hp.size
  · exact hp.room
  · rw [Pump.fed_offset, hwrites, Nat.add_mul, Nat.one_mul, ← halign]
    unfold Pump.slice at hle ⊢
    omega
  · rw [hwrites, Nat.add_mul, Nat.one_mul, ← halign]
    omega
  · rw [written_snoc, hp.fed, Pump.fed_offset]
    simp only [Event.slice, if_true]
    exact List.take_add.symm
  · rw [endSent_snoc, hp.sent]
    rfl
  · intro hf
    cases hf

/-- The end, once all of the source is in. -/
theorem Driving.end_ (hp : Driving L h src dst w false evs p) (hall : p.offset = src.length)
    {c : FfiCall} (hc : c = .streamEnd h) (hrc : (L c p.world.lib).1.rc = 0) :
    Driving L h src dst w true (evs ++ [.call c (L c p.world.lib).1])
      (p.fed c (L c p.world.lib) 0) := by
  subst hc
  have hfed := hp.fed
  rw [hall, List.take_length] at hfed
  constructor
  · show p.world.trace ++ _ = _
    rw [hp.trace, List.append_assoc]
  · exact .end_ _ hp.reached
  · exact Prog.atEach_snoc hp.calls fun _ => ⟨hp.steady, hp.sent, hfed⟩
  · exact steady_snoc hp.steady fun _ => hrc
  · rw [landed_snoc, hp.cursor]
    rfl
  · exact hp.size
  · exact hp.room
  · rw [writes_snoc]
    exact hp.offset
  · rw [writes_snoc]
    exact hp.slices
  · rw [written_snoc, hp.fed]
    simp [Event.slice]
  · rw [endSent_snoc, hp.sent]
    simp [Event.isEnd]
  · intro _
    exact hall

/-- A read into the free tail, allowed while there is one. -/
theorem Driving.readRule {e : Bool} (hp : Driving L h src dst w e evs p)
    (hlt : p.used < dst.length) (r : Reply) :
    PumpRule h src dst.length evs (.call (.streamRead h (dst.length - p.used)) r) := by
  intro _
  refine ⟨hp.steady, by omega, ?_⟩
  rw [hp.accepted_eq]
  omega

/-- A read that succeeds, with a count that fits. -/
theorem Driving.read {e : Bool} (hp : Driving L h src dst w e evs p)
    (hlt : p.used < dst.length) {c : FfiCall} (hc : c = .streamRead h (dst.length - p.used))
    (hrc : (L c p.world.lib).1.rc = 0) (hfit : (L c p.world.lib).1.len ≤ dst.length - p.used) :
    Driving L h src dst w e (evs ++ [.call c (L c p.world.lib).1])
      (p.drained c (L c p.world.lib)) := by
  subst hc
  constructor
  · show p.world.trace ++ _ = _
    rw [hp.trace, List.append_assoc]
  · exact .read _ _ _ hp.reached
  · exact Prog.atEach_snoc hp.calls (hp.readRule hlt _)
  · exact steady_snoc hp.steady fun _ => ⟨hrc, hfit⟩
  · rw [landed_snoc, hp.cursor, Cursor.after, if_pos ⟨rfl, hrc⟩, if_pos hfit]
    rfl
  · exact (Buffer.length_overlayAt ..).trans hp.size
  · rw [Pump.drained_used]
    omega
  · rw [writes_snoc]
    exact hp.offset
  · rw [writes_snoc]
    exact hp.slices
  · rw [written_snoc, hp.fed]
    exact List.append_nil _
  · rw [endSent_snoc, hp.sent]
    exact Bool.or_false _
  · exact hp.all

end Invariant

section Steps

variable {σ : Type} {L : Lib σ} {session : Stream} {src dst : Bytes} {w : World σ}
  {evs : List Event} {p : Pump σ}

/-- `check`, with what it threw. -/
theorem wp_check_threw (rc : Int) (what : String) (w : World σ)
    {Q : Prog.Post Exn (World σ) Unit} (hok : rc = 0 → Q.ok () w)
    (hfail : ∀ x w', rc ≠ 0 → x.status = toStatus rc → AfterLastError w w' →
      check L rc what w = .threw (.error x) w' → Q.threw (.error x) w') :
    Prog.wp (check L rc what) Q w := by
  have hrun : Prog.wp (check L rc what)
      ⟨fun _ w' => rc = 0 ∧ w' = w, fun e w' => ∃ x, e = .error x ∧ rc ≠ 0 ∧
        x.status = toStatus rc ∧ AfterLastError w w', fun _ => False⟩ w := by
    apply wp_check
    · intro hrc
      exact ⟨hrc, rfl⟩
    · intro x w' hrc hst hw'
      exact ⟨x, rfl, hrc, hst, hw'⟩
  unfold Prog.wp at hrun ⊢
  cases hres : check L rc what w with
  | ok u w' =>
      rw [hres] at hrun
      obtain ⟨hrc, rfl⟩ := hrun
      exact hok hrc
  | threw e w' =>
      rw [hres] at hrun
      obtain ⟨x, rfl, hrc, hst, hw'⟩ := hrun
      exact hfail x w' hrc hst hw' hres
  | running w' =>
      rw [hres] at hrun
      exact hrun.elim

/-- A call of the session that is refused leaves the pump broken off. -/
theorem Driving.refused {e : Bool} (hp : Driving L session.handle src dst w e evs p)
    {c : FfiCall} {r : Reply} {x : Error} {w₁ w' : World σ} {what : String}
    (hrule : PumpRule session.handle src dst.length evs (.call c r))
    (hslices : writes session.handle (evs ++ [.call c r]) * kPumpBuf < src.length + kPumpBuf)
    (hop : c.sessionOp session.handle = some what) (hrc : r.rc ≠ 0)
    (hw₁ : w₁.trace = p.world.trace ++ [.call c r]) (hst : x.status = toStatus r.rc)
    (hthrow : check L r.rc what w₁ = .threw (.error x) w') (hw' : AfterLastError w₁ w') :
    Broke L session.handle src dst w evs c r x { p with world := w' } := by
  obtain ⟨errs, herrs, hall⟩ := hw'
  have htrace : w₁.trace = w.trace ++ (evs ++ [.call c r]) := by
    rw [hw₁, hp.trace, List.append_assoc]
  constructor
  · exact ⟨errs, by show w'.trace = _; rw [herrs, htrace, List.append_assoc], hall⟩
  · exact Prog.atEach_snoc hp.calls hrule
  · exact hp.steady
  · -- a refused read is not looked at
    rw [landed_snoc, hp.cursor]
    unfold Cursor.after
    split
    next g cap r' heq =>
      injection heq with _ heq
      subst heq
      rw [if_neg (fun hc => hrc hc.2)]
    next => rfl
  · exact hp.accepted_eq.symm
  · exact hp.room
  · exact hslices
  · exact ⟨w₁, htrace, .refused what hop hrc hst hthrow⟩

/-- A slice is offered: it is accepted, or the pump breaks off there. -/
theorem wp_feedOne_any (hp : Driving L session.handle src dst w false evs p)
    (hmore : p.offset < src.length) {c : FfiCall}
    (hc : c = .streamWrite session.handle ((src.drop p.offset).take (p.slice src)))
    {Q : Prog.Post Exn (Pump σ) Unit}
    (hok : Driving L session.handle src dst w false (evs ++ [.call c (L c p.world.lib).1])
      (p.fed c (L c p.world.lib) (p.slice src)) →
      Q.ok () (p.fed c (L c p.world.lib) (p.slice src)))
    (hbroke : ∀ x p', Broke L session.handle src dst w evs c (L c p.world.lib).1 x p' →
      Q.threw (.error x) p') :
    Prog.wp (feedOne L session src) Q p := by
  obtain ⟨hpos, hle, halign, hrule⟩ := hp.nextSlice hmore
  subst hc
  unfold feedOne
  rw [Prog.wp_bind, Prog.wp_get]
  show Prog.wp _ _ _
  rw [Prog.wp_bind, wp_onWorld]
  unfold Stream.write
  rw [Prog.wp_bind, wp_ffi]
  show Prog.wp _ _ _
  apply wp_check_threw
  · intro hrc
    exact hok (hp.write hmore rfl hrc)
  · intro x w' hrc hst hw' hthrow
    refine hbroke x _ (hp.refused (hrule _) ?_ (if_pos rfl) hrc rfl hst hthrow hw')
    rw [writes_snoc]
    simp only [Event.isWrite, decide_true, if_true, Nat.add_mul, Nat.one_mul]
    omega

/-- The end is sent: it is accepted, or the pump breaks off there. -/
theorem wp_end_any (hp : Driving L session.handle src dst w false evs p)
    (hall : p.offset = src.length) {c : FfiCall} (hc : c = .streamEnd session.handle)
    {Q : Prog.Post Exn (Pump σ) Unit}
    (hok : Driving L session.handle src dst w true (evs ++ [.call c (L c p.world.lib).1])
      (p.fed c (L c p.world.lib) 0) → Q.ok () (p.fed c (L c p.world.lib) 0))
    (hbroke : ∀ x p', Broke L session.handle src dst w evs c (L c p.world.lib).1 x p' →
      Q.threw (.error x) p') :
    Prog.wp (Pump.onWorld (session.end_ L)) Q p := by
  subst hc
  have hfed := hp.fed
  rw [hall, List.take_length] at hfed
  rw [wp_onWorld]
  unfold Stream.end_
  rw [Prog.wp_bind, wp_ffi]
  show Prog.wp _ _ _
  apply wp_check_threw
  · intro hrc
    exact hok (hp.end_ hall rfl hrc)
  · intro x w' hrc hst hw' hthrow
    refine hbroke x _ (hp.refused (fun _ => ⟨hp.steady, hp.sent, hfed⟩) ?_ (if_pos rfl) hrc rfl
      hst hthrow hw')
    rw [writes_snoc]
    exact hp.slices

/-- A read: the buffer is full, or the read brings a count that fits, or the
pump breaks off there. -/
theorem wp_drainOne_any {e : Bool} (hp : Driving L session.handle src dst w e evs p)
    {c : FfiCall} (hc : c = .streamRead session.handle (dst.length - p.used))
    {Q : Prog.Post Exn (Pump σ) StreamRead}
    (hfull : p.used = dst.length → Q.threw (.invalidArgument dstTooSmall) p)
    (hread : p.used < dst.length → (L c p.world.lib).1.rc = 0 →
      Driving L session.handle src dst w e (evs ++ [.call c (L c p.world.lib).1])
        (p.drained c (L c p.world.lib)) →
      Q.ok { n := (L c p.world.lib).1.len, finished := (L c p.world.lib).1.fin ≠ 0 }
        (p.drained c (L c p.world.lib)))
    (hbroke : ∀ x p', p.used < dst.length →
      Broke L session.handle src dst w evs c (L c p.world.lib).1 x p' →
      Q.threw (.error x) p') :
    Prog.wp (drainOne L session) Q p := by
  have hsize := hp.size
  have hroom := hp.room
  unfold drainOne
  rw [Prog.wp_bind, Prog.wp_get]
  show Prog.wp _ _ _
  by_cases hf : p.used = p.dst.length
  · rw [if_pos hf]
    exact hfull (hf.trans hsize)
  · have hlt : p.used < dst.length := by omega
    have hspan : (p.dst.drop p.used).length = dst.length - p.used := by
      rw [List.length_drop, hsize]
    rw [if_neg hf, Prog.wp_bind, wp_onWorld]
    unfold Stream.read
    rw [Prog.wp_bind, wp_ffi, hspan, ← hc]
    show Prog.wp _ _ _
    have hslices : writes session.handle (evs ++ [.call c (L c p.world.lib).1]) * kPumpBuf <
        src.length + kPumpBuf := by
      rw [hc, writes_snoc]
      exact hp.slices
    rw [Prog.wp_bind]
    apply wp_check_threw
    · intro hrc
      show Prog.wp _ _ _
      rw [Prog.wp_bind, Prog.wp_modify]
      show Prog.wp (if (L c p.world.lib).1.len > p.dst.length - p.used then _ else _) _ _
      by_cases hbig : (L c p.world.lib).1.len > p.dst.length - p.used
      -- the span was written, the cursor stays where it is
      · rw [if_pos hbig, wp_onWorld]
        apply wp_fail
        intro x w' hst hw'
        obtain ⟨errs, herrs, hall⟩ := hw'
        have htrace : (p.world.answered c (L c p.world.lib)).trace =
            w.trace ++ (evs ++ [.call c (L c p.world.lib).1]) := by
          rw [World.answered_trace, hp.trace, List.append_assoc]
        refine hbroke x _ hlt ⟨⟨errs, ?_, hall⟩, ?_, hp.steady, ?_, hp.accepted_eq.symm, hroom,
          hslices, _, htrace, .overReported _ hc hrc (by omega) hst⟩
        · show w'.trace = _
          rw [herrs, htrace, List.append_assoc]
        · rw [hc]
          exact Prog.atEach_snoc hp.calls (hp.readRule hlt _)
        · rw [hc] at hrc hbig ⊢
          rw [landed_snoc, hp.cursor, Cursor.after, if_pos ⟨rfl, hrc⟩, if_neg (by omega)]
          rfl
      · rw [if_neg hbig]
        exact hread hlt hrc (hp.read hlt hc hrc (by omega))
    · intro x w' hrc hst hw' hthrow
      refine hbroke x _ hlt (hp.refused ?_ hslices ?_ hrc rfl hst hthrow hw')
      · rw [hc]
        exact hp.readRule hlt _
      · rw [hc]
        exact if_pos rfl

/-! ## §4. The loops. -/

/-- The reads are paid for, with `k` to spare: by a byte of the buffer, or by
the write whose output they are after. -/
def Budget (L : Lib σ) (h : Handle) (w : World σ) (k : Nat) (evs : List Event) (p : Pump σ) :
    Prop :=
  ReadsBlock L h w.lib → reads h evs + k ≤ p.used + writes h evs

/-- What the reads of a whole run come to. -/
def Spent (L : Lib σ) (h : Handle) (dst : Bytes) (w : World σ) (evs : List Event) : Prop :=
  ReadsBlock L h w.lib → reads h evs ≤ dst.length + writes h evs + 1

theorem Budget.spent {k : Nat} (hb : Budget L session.handle w k evs p)
    (hroom : p.used ≤ dst.length) : Spent L session.handle dst w evs := by
  intro hblock
  have := hb hblock
  omega

/-- A write pays for the read that finds nothing. -/
theorem Budget.write (hb : Budget L session.handle w 0 evs p) {s : Bytes} {a : Reply × σ}
    (k : Nat) :
    Budget L session.handle w 1 (evs ++ [.call (.streamWrite session.handle s) a.1])
      (p.fed (.streamWrite session.handle s) a k) := by
  intro hblock
  have := hb hblock
  rw [writes_snoc, reads_snoc]
  simp only [Event.isWrite, Event.isRead, decide_true, if_true, Bool.false_eq_true, if_false]
  show _ ≤ p.used + _
  omega

/-- A read pays for itself with what it brings, or with what was spared. -/
theorem Budget.read {k k' : Nat} (hb : Budget L session.handle w k evs p) {cap : Nat}
    {a : Reply × σ} (hk : ReadsBlock L session.handle w.lib → 1 + k' ≤ a.1.len + k) :
    Budget L session.handle w k' (evs ++ [.call (.streamRead session.handle cap) a.1])
      (p.drained (.streamRead session.handle cap) a) := by
  intro hblock
  have := hb hblock
  have := hk hblock
  rw [writes_snoc, reads_snoc, Pump.drained_used]
  simp only [Event.isWrite, Event.isRead, decide_true, if_true, Bool.false_eq_true, if_false]
  omega

/-- So is the call the pump breaks off at. -/
theorem Budget.broke (hb : Budget L session.handle w 0 evs p) (hroom : p.used ≤ dst.length)
    (c : FfiCall) (r : Reply) : Spent L session.handle dst w (evs ++ [.call c r]) := by
  intro hblock
  have := hb hblock
  rw [writes_snoc, reads_snoc]
  split <;> split <;> omega

/-- The ways out by an exception: the buffer is full, or the run broke off. -/
def Thrown (L : Lib σ) (h : Handle) (src dst : Bytes) (w : World σ) (x : Exn) (p : Pump σ) :
    Prop :=
  (x = .invalidArgument dstTooSmall ∧ ∃ ended evs, Driving L h src dst w ended evs p ∧
    p.used = dst.length ∧ Spent L h dst w evs) ∨
  ∃ y pre c r, x = .error y ∧ Broke L h src dst w pre c r y p ∧
    Spent L h dst w (pre ++ [.call c r])

/-- Still running: the fuel was too little, or the session never finishes. -/
def Unfinished (L : Lib σ) (h : Handle) (src dst : Bytes) (w : World σ) (fuel : Nat)
    (p : Pump σ) : Prop :=
  ∃ ended evs, Driving L h src dst w ended evs p ∧ Spent L h dst w evs ∧
    (ReadsBlock L h w.lib → src.length < fuel → fuel ≤ dst.length)

/-- The drain loop after a write. -/
theorem wp_drainAvailable_any (hp : Driving L session.handle src dst w false evs p)
    (hb : Budget L session.handle w 1 evs p) (fuel : Nat) :
    Prog.wp (drainAvailable L session fuel)
      ⟨fun _ p' => ∃ evs', Driving L session.handle src dst w false evs' p' ∧
          Budget L session.handle w 0 evs' p' ∧ p'.offset = p.offset,
        Thrown L session.handle src dst w, Unfinished L session.handle src dst w fuel⟩ p := by
  let I : Nat → Pump σ → Prop := fun k q => ∃ evs',
    Driving L session.handle src dst w false evs' q ∧ Budget L session.handle w 1 evs' q ∧
    q.offset = p.offset ∧ (dst.length < fuel → dst.length - q.used < k)
  unfold drainAvailable
  refine Prog.wp_loop I ?_ ?_ fuel p ⟨evs, hp, hb, rfl, by omega⟩
  · intro k q hq
    obtain ⟨evs', hp', hb', hoff, hleft⟩ := hq
    have hroom := hp'.room
    rw [Prog.wp_bind]
    simp only [Prog.wp_pure]
    apply wp_drainOne_any hp' rfl
    · intro hf
      exact .inl ⟨rfl, false, evs', hp', hf, hb'.spent hroom⟩
    -- a read of nothing uses up what was spared and leaves the loop
    · intro hlt hrc hp₁
      dsimp only
      by_cases hnone : (L (.streamRead session.handle (dst.length - q.used)) q.world.lib).1.len = 0
      · rw [if_neg (by simp [hnone])]
        exact ⟨_, hp₁, hb'.read (fun _ => by omega), hoff⟩
      · rw [if_pos (by simp [hnone])]
        refine ⟨_, hp₁, hb'.read (fun _ => by omega), hoff, ?_⟩
        intro hfuel
        have := hleft hfuel
        rw [Pump.drained_used]
        omega
    · intro x p' hlt hbroke
      have hb₀ : Budget L session.handle w 0 evs' q := fun hblock => by
        have := hb' hblock
        omega
      exact .inr ⟨x, evs', _, _, rfl, hbroke, hb₀.broke hroom _ _⟩
  · intro q hq
    obtain ⟨evs', hp', hb', -, hleft⟩ := hq
    refine ⟨false, evs', hp', hb'.spent hp'.room, ?_⟩
    intro _ _
    by_contra hlt
    have := hleft (by omega)
    omega

/-- The drain loop after the end. -/
theorem wp_drainFinished_any (hp : Driving L session.handle src dst w true evs p)
    (hb : Budget L session.handle w 0 evs p) (fuel : Nat) :
    Prog.wp (drainFinished L session fuel)
      ⟨fun _ p' => ∃ pre cap r, Driving L session.handle src dst w true
            (pre ++ [.call (.streamRead session.handle cap) r]) p' ∧ r.fin ≠ 0 ∧
          Spent L session.handle dst w (pre ++ [.call (.streamRead session.handle cap) r]),
        Thrown L session.handle src dst w, Unfinished L session.handle src dst w fuel⟩ p := by
  let I : Nat → Pump σ → Prop := fun k q => ∃ evs',
    Driving L session.handle src dst w true evs' q ∧ Budget L session.handle w 0 evs' q ∧
    (ReadsBlock L session.handle w.lib → dst.length < fuel → dst.length - q.used < k)
  unfold drainFinished
  refine Prog.wp_loop I ?_ ?_ fuel p ⟨evs, hp, hb, by omega⟩
  · intro k q hq
    obtain ⟨evs', hp', hb', hleft⟩ := hq
    have hroom := hp'.room
    rw [Prog.wp_bind]
    simp only [Prog.wp_pure]
    apply wp_drainOne_any hp' rfl
    · intro hf
      exact .inl ⟨rfl, true, evs', hp', hf, hb'.spent hroom⟩
    -- the flag leaves the loop; a blocking session that does not set it delivers
    · intro hlt hrc hp₁
      dsimp only
      by_cases hend : (L (.streamRead session.handle (dst.length - q.used)) q.world.lib).1.fin = 0
      · rw [if_pos (by simp [hend])]
        have hpos : ReadsBlock L session.handle w.lib →
            0 < (L (.streamRead session.handle (dst.length - q.used)) q.world.lib).1.len := by
          intro hblock
          by_contra hnone
          exact hblock q.world.lib _ hp'.reached (by omega) hrc (by omega) hend
        refine ⟨_, hp₁, hb'.read (fun hblock => by have := hpos hblock; omega), ?_⟩
        intro hblock hfuel
        have := hleft hblock hfuel
        have := hpos hblock
        rw [Pump.drained_used]
        omega
      · rw [if_neg (by simp [hend])]
        exact ⟨evs', _, _, hp₁, hend, hb'.broke hroom _ _⟩
    · intro x p' hlt hbroke
      exact .inr ⟨x, evs', _, _, rfl, hbroke, hb'.broke hroom _ _⟩
  · intro q hq
    obtain ⟨evs', hp', hb', hleft⟩ := hq
    refine ⟨true, evs', hp', hb'.spent hp'.room, ?_⟩
    intro hblock _
    by_contra hlt
    have := hleft hblock (by omega)
    omega

/-- The feed loop. -/
theorem wp_feed_any (hp : Driving L session.handle src dst w false evs p)
    (hb : Budget L session.handle w 0 evs p) (fuel : Nat) :
    Prog.wp (Prog.while_ fuel (fun p => p.offset < src.length) do
        feedOne L session src
        drainAvailable L session fuel)
      ⟨fun _ p' => ∃ evs', Driving L session.handle src dst w false evs' p' ∧
          Budget L session.handle w 0 evs' p' ∧ p'.offset = src.length,
        Thrown L session.handle src dst w, Unfinished L session.handle src dst w fuel⟩ p := by
  let I : Nat → Pump σ → Prop := fun k q => ∃ evs',
    Driving L session.handle src dst w false evs' q ∧ Budget L session.handle w 0 evs' q ∧
    (src.length < fuel → src.length - q.offset < k)
  refine Prog.wp_while I ?_ ?_ ?_ fuel ⟨evs, hp, hb, by omega⟩
  · intro k q hq hcond
    obtain ⟨evs', hp', hb', hleft⟩ := hq
    have hmore : q.offset < src.length := by simpa using hcond
    have hpos := (hp'.nextSlice hmore).1
    rw [Prog.wp_bind]
    apply wp_feedOne_any hp' hmore rfl
    · intro hp₁
      refine (wp_drainAvailable_any hp₁ (hb'.write _) fuel).mono_ok ?_
      intro _ q' hq'
      obtain ⟨evs₂, hp₂, hb₂, hoff⟩ := hq'
      refine ⟨evs₂, hp₂, hb₂, ?_⟩
      intro hfuel
      have := hleft hfuel
      rw [Pump.fed_offset] at hoff
      omega
    · intro x p' hbroke
      exact .inr ⟨x, evs', _, _, rfl, hbroke, hb'.broke hp'.room _ _⟩
  · intro k q hq hcond
    obtain ⟨evs', hp', hb', -⟩ := hq
    have hoff := hp'.offset
    refine ⟨evs', hp', hb', ?_⟩
    simp at hcond
    omega
  · intro q hq
    obtain ⟨evs', hp', hb', hleft⟩ := hq
    refine ⟨false, evs', hp', hb'.spent hp'.room, ?_⟩
    intro _ hfuel
    have := hleft hfuel
    omega

/-- How a run of the pump from `w` into `dst` ends, over any session. -/
def anyPost (L : Lib σ) (h : Handle) (src dst : Bytes) (w : World σ) (fuel : Nat) :
    Prog.Post Exn (Pump σ) Nat where
  ok m p := m = p.used ∧ ∃ pre cap r,
    Driving L h src dst w true (pre ++ [.call (.streamRead h cap) r]) p ∧ r.fin ≠ 0 ∧
      Spent L h dst w (pre ++ [.call (.streamRead h cap) r])
  threw := Thrown L h src dst w
  running := Unfinished L h src dst w fuel

/-- **How every run ends**, whatever the session answers. -/
theorem wp_pumpInto_any (L : Lib σ) (session : Stream) (src dst : Bytes) (w : World σ)
    (fuel : Nat) :
    Prog.wp (pumpInto L session src fuel) (anyPost L session.handle src dst w fuel)
      { world := w, dst := dst } := by
  unfold pumpInto
  rw [Prog.wp_bind]
  refine (wp_feed_any .start (fun _ => Nat.zero_le _) fuel).mono_ok ?_
  intro _ p₁ hq₁
  obtain ⟨evs₁, hp₁, hb₁, hall⟩ := hq₁
  show Prog.wp _ _ _
  rw [Prog.wp_bind]
  apply wp_end_any hp₁ hall rfl
  · intro hp₂
    show Prog.wp _ _ _
    rw [Prog.wp_bind]
    have hb₂ : Budget L session.handle w 0
        (evs₁ ++ [.call (.streamEnd session.handle) (L (.streamEnd session.handle) p₁.world.lib).1])
        (p₁.fed (.streamEnd session.handle) (L (.streamEnd session.handle) p₁.world.lib) 0) := by
      intro hblock
      have := hb₁ hblock
      rw [writes_snoc, reads_snoc]
      exact this
    refine (wp_drainFinished_any hp₂ hb₂ fuel).mono_ok ?_
    intro _ p₃ hq₃
    exact ⟨rfl, hq₃⟩
  · intro x p' hbroke
    exact .inr ⟨x, evs₁, _, _, rfl, hbroke, hb₁.broke hp₁.room _ _⟩

end Steps

/-! ## §5. Safety. -/

section Safety

variable {σ : Type}

/-- A session that is released at the end of its scope. -/
def Pump.released (L : Lib σ) (session : Stream) (p : Pump σ) : Pump σ :=
  if session.handle ≠ 0 then
    let a := L (.streamFree session.handle) p.world.lib
    { p with world := p.world.answered (.streamFree session.handle) a }
  else p

/-- The release is one call, whose answer is not looked at. -/
theorem destroy_apply (L : Lib σ) (session : Stream) (p : Pump σ) :
    Pump.onWorld (session.destroy L) p = .ok () (p.released L session) := by
  unfold Pump.onWorld Prog.zoom Stream.destroy Stream.close Pump.released
  by_cases hh : session.handle ≠ 0
  · rw [if_pos hh, if_pos hh]
    rfl
  · rw [if_neg hh, if_neg hh]
    rfl

/-- **What a run of the pump over any session amounts to**, however it
stands. -/
structure PumpSafe (L : Lib σ) (h : Handle) (src dst : Bytes) (w : World σ)
    (res : Prog.Result Exn (Pump σ) Nat) : Prop where
  /-- every call of the session kept to the rule when it was made -/
  calls : Prog.AtEach (PumpRule h src dst.length) (w.since res.state.world)
  /-- every read wrote at the sum of the counts accepted before it -/
  landed : res.state.dst = (landed h dst (w.since res.state.world)).buf
  /-- the cursor is the sum of the accepted counts, inside the buffer -/
  used : res.state.used = accepted h (w.since res.state.world) ∧ res.state.used ≤ dst.length
  /-- a count beyond the span ends the run with `internal`, before the
  cursor moves -/
  overCount : ∀ pre cap r post,
    w.since res.state.world = pre ++ .call (.streamRead h cap) r :: post →
    r.rc = 0 → cap < r.len →
    (∃ x p, res = .threw (.error x) p ∧ x.status = .internal ∧ p.used = accepted h pre) ∧
      ∀ e ∈ post, e.isLastError = true
  /-- a refused call ends the run with the very error its check throws -/
  refusal : ∀ pre c r post what, w.since res.state.world = pre ++ .call c r :: post →
    c.sessionOp h = some what → r.rc ≠ 0 →
    (∃ x p w₁, res = .threw (.error x) p ∧ x.status = toStatus r.rc ∧
      w₁.trace = w.trace ++ (pre ++ [.call c r]) ∧
      check L r.rc what w₁ = .threw (.error x) p.world) ∧
      ∀ e ∈ post, e.isLastError = true
  /-- an `itb::Error` has one of these two reasons -/
  errors : ∀ x p, res = .threw (.error x) p → ¬Steady h (w.since p.world)
  /-- `std::invalid_argument` means a buffer filled to the last byte -/
  full : ∀ what p, res = .threw (.invalidArgument what) p →
    accepted h (w.since p.world) = dst.length
  /-- a return means the end was sent and the last read reported it -/
  returns : ∀ m p, res = .ok m p → endSent h (w.since p.world) = true ∧
    (∃ pre cap r, w.since p.world = pre ++ [.call (.streamRead h cap) r] ∧ r.fin ≠ 0) ∧
    m = accepted h (w.since p.world) ∧ m ≤ dst.length

variable {L : Lib σ} {h : Handle} {src dst : Bytes} {w : World σ}

/-- Reading diagnostics lands nowhere. -/
theorem landed_lastErrors (dst : Bytes) (evs : List Event) {errs : List Event}
    (herrs : ∀ e ∈ errs, e.isLastError = true) :
    landed h dst (evs ++ errs) = landed h dst evs := by
  induction errs using List.reverseRecOn with
  | nil => rw [List.append_nil]
  | append_singleton errs e ih =>
      have hquiet := (lastError_quiet (h := h) (herrs e (by simp))).2.2.2.2.2.1
      rw [← List.append_assoc, landed_snoc, hquiet]
      exact ih fun e' he' => herrs e' (by simp [he'])

/-- A steady trace has no refused call and no count beyond its span. -/
theorem not_fine_of_refused {c : FfiCall} {r : Reply} {what : String}
    (hop : c.sessionOp h = some what) (hrc : r.rc ≠ 0) : ¬(Event.call c r).Fine h := by
  intro hf
  unfold FfiCall.sessionOp at hop
  split at hop
  next g s =>
    split at hop
    next hg => exact hrc (hf hg)
    next => cases hop
  next g =>
    split at hop
    next hg => exact hrc (hf hg)
    next => cases hop
  next g cap =>
    split at hop
    next hg => exact hrc (hf hg).1
    next => cases hop
  next => cases hop

theorem not_fine_of_overCount {cap : Nat} {r : Reply} (hlen : cap < r.len) :
    ¬(Event.call (.streamRead h cap) r).Fine h := by
  intro hf
  have := (hf rfl).2
  omega

theorem fine_of_lastError {e : Event} (he : e.isLastError = true) : e.Fine h := by
  unfold Event.isLastError at he
  split at he
  next => trivial
  next => cases he

/-- The parts that hold while nothing has gone wrong. -/
theorem Driving.safe {ended : Bool} {evs : List Event} {p : Pump σ}
    {res : Prog.Result Exn (Pump σ) Nat} (hp : Driving L h src dst w ended evs p)
    (hstate : res.state = p) (herr : ∀ x q, res ≠ .threw (.error x) q)
    (hfull : ∀ what q, res = .threw (.invalidArgument what) q → p.used = dst.length)
    (hret : ∀ m q, res = .ok m q → ended = true ∧ m = p.used ∧
      ∃ pre cap r, evs = pre ++ [.call (.streamRead h cap) r] ∧ r.fin ≠ 0) :
    PumpSafe L h src dst w res := by
  have hsince : w.since p.world = evs := World.since_of_append hp.trace
  have hbad : ∀ pre e post, evs = pre ++ e :: post → e.Fine h := by
    intro pre e post heq
    exact hp.steady e (by rw [heq]; simp)
  have hq : ∀ q, res.state = q → q = p := fun q hq => hq.symm.trans hstate
  constructor
  · rw [hstate, hsince]
    exact hp.calls
  · rw [hstate, hsince, hp.cursor]
  · rw [hstate, hsince, hp.accepted_eq]
    exact ⟨rfl, hp.room⟩
  · intro pre cap r post heq _ hlen
    rw [hstate, hsince] at heq
    exact absurd (hbad _ _ _ heq) (not_fine_of_overCount hlen)
  · intro pre c r post what heq hop hrc
    rw [hstate, hsince] at heq
    exact absurd (hbad _ _ _ heq) (not_fine_of_refused hop hrc)
  · intro x q hres
    exact absurd hres (herr x q)
  · intro what q hres
    rw [hq q (by rw [hres]; rfl), hsince, hp.accepted_eq]
    exact hfull what q hres
  · intro m q hres
    obtain ⟨hended, hm, hlast⟩ := hret m q hres
    rw [hq q (by rw [hres]; rfl), hsince, hp.accepted_eq, hp.sent]
    exact ⟨hended, hlast, hm, hm ▸ hp.room⟩

/-- The run that broke off. -/
theorem Broke.safe {pre : List Event} {c : FfiCall} {r : Reply} {x : Error} {p : Pump σ}
    (hb : Broke L h src dst w pre c r x p) :
    PumpSafe L h src dst w (.threw (.error x) p) := by
  obtain ⟨errs, htrace, hall⟩ := hb.trace
  obtain ⟨w₁, hw₁, hcause⟩ := hb.cause
  have hsince : w.since p.world = pre ++ [.call c r] ++ errs := World.since_of_append htrace
  have hcursor : landed h dst (w.since p.world) = { buf := p.dst, used := p.used } := by
    rw [hsince, landed_lastErrors dst _ hall, hb.cursor]
  have hnot : ¬(Event.call c r).Fine h := by
    cases hcause with
    | refused what hop hrc _ _ => exact not_fine_of_refused hop hrc
    | overReported cap hop _ hlen _ =>
        rw [hop]
        exact not_fine_of_overCount hlen
  -- an event that is not fine is the one the run broke off at
  have hthe : ∀ pre' e post, w.since p.world = pre' ++ e :: post → ¬e.Fine h →
      pre' = pre ∧ e = .call c r ∧ post = errs := by
    intro pre' e post heq he
    rw [hsince, List.append_assoc] at heq
    exact Prog.unique_split heq.symm hb.steady (fun e' he' => fine_of_lastError (hall e' he')) he
  constructor
  · show Prog.AtEach _ (w.since p.world)
    rw [hsince]
    exact Prog.atEach_append hb.calls fun e he pre' =>
      (lastError_quiet (hall e he)).2.2.2.2.2.2 _ _ _
  · show p.dst = _
    rw [show (Prog.Result.threw (Exn.error x) p : Prog.Result Exn (Pump σ) Nat).state = p from rfl,
      hcursor]
  · refine ⟨?_, hb.room⟩
    show p.used = accepted h (w.since p.world)
    rw [← landed_used dst, hcursor]
  · intro pre' cap r' post heq hrc hlen
    obtain ⟨rfl, he, rfl⟩ := hthe _ _ _ heq (not_fine_of_overCount hlen)
    injection he with hc hr
    subst hc hr
    refine ⟨⟨x, p, rfl, ?_, hb.used⟩, hall⟩
    cases hcause with
    | refused what _ hrc' _ _ => exact absurd hrc hrc'
    | overReported _ _ _ _ hst => exact hst
  · intro pre' c' r' post what heq hop hrc
    obtain ⟨rfl, he, rfl⟩ := hthe _ _ _ heq (not_fine_of_refused hop hrc)
    injection he with hc hr
    subst hc hr
    refine ⟨?_, hall⟩
    cases hcause with
    | refused what' hop' _ hst hthrow =>
        rw [hop] at hop'
        injection hop' with hwhat
        exact ⟨x, p, w₁, rfl, hst, hw₁, hwhat ▸ hthrow⟩
    | overReported _ _ hrc' _ _ => exact absurd hrc' hrc
  · intro y q hres
    injection hres with _ hq
    subst hq
    intro hs
    exact hnot (hs _ (by rw [hsince]; simp))
  · intro what q hres
    injection hres with hx _
    cases hx
  · intro m q hres
    cases hres

/-- **THE PUMP IS SAFE AGAINST ANY SESSION.**  For every source, every
destination and every session behaviour, at whatever point the run stands:
the calls made, the places written and the way out are as `PumpSafe` says,
and leaving the session's scope adds its release and nothing else. -/
theorem pumpInto_safe (L : Lib σ) (session : Stream) (src dst : Bytes) (w : World σ)
    (fuel : Nat) :
    PumpSafe L session.handle src dst w
      (pumpInto L session src fuel { world := w, dst := dst }) ∧
    Prog.ensuring (pumpInto L session src fuel) (Pump.onWorld (session.destroy L))
        { world := w, dst := dst } =
      (pumpInto L session src fuel { world := w, dst := dst }).leaving
        (Pump.released L session) := by
  refine ⟨?_, Prog.ensuring_apply (destroy_apply L session) _⟩
  have hrun := wp_pumpInto_any L session src dst w fuel
  unfold Prog.wp at hrun
  cases hres : pumpInto L session src fuel { world := w, dst := dst } with
  | ok m p =>
      rw [hres] at hrun
      obtain ⟨hm, pre, cap, r, hp, hfin, -⟩ := hrun
      refine hp.safe rfl (fun _ _ h => (by cases h)) (fun _ _ h => (by cases h)) ?_
      intro m' q h
      injection h with h _
      exact ⟨rfl, h ▸ hm, pre, cap, r, rfl, hfin⟩
  | running p =>
      rw [hres] at hrun
      obtain ⟨ended, evs, hp, -, -⟩ := hrun
      exact hp.safe rfl (fun _ _ h => (by cases h)) (fun _ _ h => (by cases h))
        (fun _ _ h => (by cases h))
  | threw e p =>
      rw [hres] at hrun
      rcases hrun with hfull | hbroke
      · obtain ⟨rfl, ended, evs, hp, hf, -⟩ := hfull
        exact hp.safe rfl (fun _ _ h => (by cases h)) (fun _ _ _ => hf)
          (fun _ _ h => (by cases h))
      · obtain ⟨x, pre, c, r, rfl, hb, -⟩ := hbroke
        exact hb.safe

/-! ## §6. Termination. -/

/-- The number of slices: `n` bytes in steps of `kPumpBuf`, rounded up. -/
def sliceCount (n : Nat) : Nat := (n + (kPumpBuf - 1)) / kPumpBuf

theorem le_sliceCount {k n : Nat} (hk : k * kPumpBuf < n + kPumpBuf) : k ≤ sliceCount n := by
  have hbuf : 0 < kPumpBuf := by decide
  rw [sliceCount, Nat.le_div_iff_mul_le hbuf]
  omega

/-- Diagnostics are neither writes nor reads. -/
theorem counts_lastErrors (evs : List Event) {errs : List Event}
    (herrs : ∀ e ∈ errs, e.isLastError = true) :
    writes h (evs ++ errs) = writes h evs ∧ reads h (evs ++ errs) = reads h evs := by
  induction errs using List.reverseRecOn with
  | nil => simp
  | append_singleton errs e ih =>
      obtain ⟨-, -, -, hwrite, hread, -⟩ := lastError_quiet (h := h) (herrs e (by simp))
      rw [← List.append_assoc, writes_snoc, reads_snoc, hwrite, hread]
      exact ih fun e' he' => herrs e' (by simp [he'])

/-- The calls a run has made so far are bounded, however it stands. -/
def CallsBounded (h : Handle) (src dst : Bytes) (evs : List Event) : Prop :=
  writes h evs ≤ sliceCount src.length ∧
    reads h evs ≤ dst.length + sliceCount src.length + 1

theorem Spent.bounded {evs : List Event} (hs : Spent L h dst w evs)
    (hblock : ReadsBlock L h w.lib)
    (hslices : writes h evs * kPumpBuf < src.length + kPumpBuf) :
    CallsBounded h src dst evs := by
  have hw := le_sliceCount hslices
  have hr := hs hblock
  exact ⟨hw, by omega⟩

/-- **THE PUMP TERMINATES WITH A BOUND.**  For every source, every
destination and every session whose reads block once the end has been sent,
whatever it does before: the pump returns or throws, and at no point has it
made more writes than the source has slices, or more reads than the
destination has bytes and the source has slices, and one. -/
theorem pumpInto_terminates (L : Lib σ) (session : Stream) (src dst : Bytes) (w : World σ)
    (hblock : ReadsBlock L session.handle w.lib) (fuel : Nat) :
    CallsBounded session.handle src dst
      (w.since (pumpInto L session src fuel { world := w, dst := dst }).state.world) ∧
    (src.length < fuel → dst.length < fuel →
      (∃ m p, pumpInto L session src fuel { world := w, dst := dst } = .ok m p) ∨
      ∃ x p, pumpInto L session src fuel { world := w, dst := dst } = .threw x p) := by
  have hrun := wp_pumpInto_any L session src dst w fuel
  unfold Prog.wp at hrun
  cases hres : pumpInto L session src fuel { world := w, dst := dst } with
  | ok m p =>
      rw [hres] at hrun
      obtain ⟨-, pre, cap, r, hp, -, hspent⟩ := hrun
      refine ⟨?_, fun _ _ => .inl ⟨m, p, rfl⟩⟩
      show CallsBounded _ _ _ (w.since p.world)
      rw [World.since_of_append hp.trace]
      exact hspent.bounded hblock hp.slices
  | threw e p =>
      rw [hres] at hrun
      refine ⟨?_, fun _ _ => .inr ⟨e, p, rfl⟩⟩
      show CallsBounded _ _ _ (w.since p.world)
      rcases hrun with hfull | hbroke
      · obtain ⟨-, ended, evs, hp, -, hspent⟩ := hfull
        rw [World.since_of_append hp.trace]
        exact hspent.bounded hblock hp.slices
      · obtain ⟨x, pre, c, r, -, hb, hspent⟩ := hbroke
        obtain ⟨errs, htrace, hall⟩ := hb.trace
        obtain ⟨hwrites, hreads⟩ := counts_lastErrors (h := session.handle)
          (pre ++ [.call c r]) hall
        rw [World.since_of_append htrace, CallsBounded, hwrites, hreads]
        exact hspent.bounded hblock hb.slices
  | running p =>
      rw [hres] at hrun
      obtain ⟨ended, evs, hp, hspent, hfuel⟩ := hrun
      refine ⟨?_, ?_⟩
      · show CallsBounded _ _ _ (w.since p.world)
        rw [World.since_of_append hp.trace]
        exact hspent.bounded hblock hp.slices
      · intro hsrc hdst
        have := hfuel hblock hsrc
        omega

end Safety

/-- A spool that was ended stays ended. -/
theorem spool_ended {h : Handle} {s₀ s : Spool} {e : Bool}
    (hr : Reached spoolLib h s₀ e s) : e = true → s.ended = true := by
  induction hr with
  | start =>
      intro he
      cases he
  | write s src _ ih => exact ih
  | read s e cap _ ih => exact ih
  | end_ s _ _ =>
      intro _
      rfl

/-- Its reads block: one that takes nothing finds the spool empty. -/
theorem spool_readsBlock (h : Handle) (s₀ : Spool) : ReadsBlock spoolLib h s₀ := by
  intro s cap hr hcap _ hlen
  have hended := spool_ended hr rfl
  have hnone : s.available cap = 0 := hlen
  have hempty : s.spool.length = 0 := by
    unfold Spool.available at hnone
    rw [hended] at hnone
    simp only [if_true] at hnone
    omega
  show (if s.ended = true ∧ s.available cap = s.spool.length then (1 : Int) else 0) ≠ 0
  rw [if_pos ⟨hended, hnone.trans hempty.symm⟩]
  decide

/-- One slice into two bytes: at most one write and four reads, and an end. -/
theorem pumpInto_terminates_spool :
    CallsBounded 1 [5] [0, 0] ((eager [7]).since
      (pumpInto spoolLib ⟨1⟩ [5] 3 { world := eager [7], dst := [0, 0] }).state.world) ∧
    ((∃ m p, pumpInto spoolLib ⟨1⟩ [5] 3 { world := eager [7], dst := [0, 0] } = .ok m p) ∨
      ∃ x p, pumpInto spoolLib ⟨1⟩ [5] 3 { world := eager [7], dst := [0, 0] } =
        .threw x p) := by
  have h := pumpInto_terminates spoolLib ⟨1⟩ [5] [0, 0] (eager [7]) (spool_readsBlock 1 _) 3
  exact ⟨h.1, h.2 (by decide) (by decide)⟩

end ItbCpp
