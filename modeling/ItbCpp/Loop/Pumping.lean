/-
  ItbCpp.Loop.Pumping
  ───────────────────
  **THE HARNESS'S PUMP AND ITS SESSION.**

  `pump` of one worker among the others, over a session that serves what it
  made, whatever the schedule and whatever the worker's buffers held before.
  One assertion ties the session, the calls and the accumulator together
  (`Serving`, `Filled`); it is carried through the feed loop, the drain loop
  inside it and the drain loop after the end.

    • `wp_cipherCall` — a call of the worker, and what it leaves,
    • `wp_write`, `wp_end`, `wp_readChunk` — the calls on the session,
    • `wp_pump` — the accumulator holds what the session made, or the pump
      was dropped by an error.
-/
import ItbCpp.Loop.Delivery

namespace ItbCpp.Loop

open Thread

/-! ## §1. What the pump keeps. -/

/-- The accumulator a pump fills. -/
def Worker.acc (w : Worker) : Out → Bytes
  | .wire => w.wire
  | .plain => w.plain

/-- What a pump into `out` leaves alone. -/
def Worker.rest (w : Worker) (out : Out) : Worker :=
  { w.clear out with scratch := [], stage := "" }

/-- The worker's record in a pump into `out`, begun at `w₀`, that has been
given `d`. -/
structure Filled (out : Out) (w₀ : Worker) (d : Bytes) (w : Worker) : Prop where
  acc : w.acc out = d
  rest : w.rest out = w₀.rest out
  size : w.scratch.length = kPumpSlice

/-- The same with the next bytes in the drain slice. -/
structure Loaded (out : Out) (w₀ : Worker) (d chunk : Bytes) (w : Worker) : Prop extends
    Filled out w₀ d w where
  chunk : w.scratch.take chunk.length = chunk

section Record

variable {out : Out} {w₀ w : Worker} {d chunk : Bytes}

theorem filled_clear (h : w.scratch.length = kPumpSlice) : Filled out w [] (w.clear out) := by
  cases out <;> exact ⟨rfl, rfl, h⟩

theorem Filled.stage (h : Filled out w₀ d w) (stage : String) :
    Filled out w₀ d { w with stage := stage } := by
  obtain ⟨hacc, hrest, hsize⟩ := h
  cases out <;> exact ⟨hacc, hrest, hsize⟩

/-- A read has written the slice. -/
theorem Filled.load (h : Filled out w₀ d w) {buf b : Bytes} {n : Nat}
    (hbuf : buf.length = kPumpSlice) (hn : n ≤ b.length) (hroom : n ≤ kPumpSlice)
    (hchunk : b.take n = chunk) :
    Loaded out w₀ d chunk { w with scratch := Buffer.overlay buf b } := by
  obtain ⟨hacc, hrest, hsize⟩ := h
  have hlen : (Buffer.overlay buf b).length = kPumpSlice :=
    (Buffer.length_overlay ..).trans hbuf
  have hfront : (Buffer.overlay buf b).take chunk.length = chunk := by
    have hn' : chunk.length = n := by
      rw [← hchunk, List.length_take]
      omega
    rw [hn', Buffer.take_overlay hn (by omega), hchunk]
  cases out <;> exact ⟨⟨hacc, hrest, hlen⟩, hfront⟩

/-- The front of the slice goes to the accumulator. -/
theorem Loaded.insert (h : Loaded out w₀ d chunk w) :
    Filled out w₀ (d ++ chunk) (w.insert chunk.length out) := by
  obtain ⟨⟨hacc, hrest, hsize⟩, hchunk⟩ := h
  cases out
  · exact ⟨by show w.wire ++ _ = _; rw [hchunk, show w.wire = d from hacc], hrest, hsize⟩
  · exact ⟨by show w.plain ++ _ = _; rw [hchunk, show w.plain = d from hacc], hrest, hsize⟩

end Record

section Sharing

variable {σ K : Type} {N : Nat} {L : Lib σ} {key : σ → Handle → Option K}
  {decode : Bytes → Option K} {k : Fin N} {live : Prop} {h : Handle} {κ : K}
  {t : Seen σ K N}

/-- The worker holds the read side; the stream pipe has the handle `h`, live
with the keying `κ`. -/
structure Sharing (key : σ → Handle → Option K) (k : Fin N) (h : Handle) (κ : K)
    (t : Seen σ K N) : Prop where
  reader : t.state.readers (some k) = true
  pipe : t.state.pipes .stream = some h
  alive : key t.state.lib h = some κ

theorem Sharing.others (ht : Sharing key k h κ t) {s : Shared σ K N}
    (ho : Others L key decode k t.state s) : Sharing key k h κ { t with state := s } := by
  have hf := ho.rely.frozen (Or.inl ht.reader)
  refine ⟨ho.rely.own.readers.trans ht.reader, ?_, hf.keys h κ ht.alive⟩
  show s.pipes .stream = some h
  rw [hf.pipes]
  exact ht.pipe

theorem Sharing.called (hL : KeyedLib L key decode) (ht : Sharing key k h κ t) {c : FfiCall}
    (hc : c.mutates = none) : Sharing key k h κ (t.called L key k c) := by
  have hf := frozen_effect_of_not_mutates (s := t.state.toPipeState) (i := some k) hL hc
  exact ⟨ht.reader, ht.pipe, hf.keys h κ ht.alive⟩

/-- What is true as long as calls are apart from the sessions `ss`. -/
def Untouched (L : Lib σ) (ss : List (Handle × Handle)) (Φ : σ → Prop) : Prop :=
  ∀ s s', Apart L ss s s' → Φ s → Φ s'

/-- The worker with its sessions `ss`: `Φ` is true of the library, and `T` of
the calls since `pre`. -/
structure Engaged (key : σ → Handle → Option K) (k : Fin N) (h : Handle) (κ : K)
    (pre : List Event) (ss : List (Handle × Handle)) (Φ : σ → Prop) (T : List Event → Prop)
    (t : Seen σ K N) : Prop where
  sharing : Sharing key k h κ t
  sessions : t.state.sessions (some k) = ss
  phase : Φ t.state.lib
  trace : ∃ evs, t.calls = pre ++ evs ∧ T evs

variable {pre : List Event} {ss : List (Handle × Handle)} {Φ : σ → Prop}
  {T : List Event → Prop} {W : Worker → Prop}

/-- The others break none of it. -/
theorem lasts_engaged (hΦ : Untouched L ss Φ) : Lasts L key decode k fun t =>
    Engaged key k h κ pre ss Φ T t ∧ W (t.state.workers k) := by
  have hrun : ∀ s s', Relation.ReflTransGen (Apart L ss) s s' → Φ s → Φ s' := by
    intro s s' hs h₀
    induction hs with
    | refl => exact h₀
    | tail _ hstep ih => exact hΦ _ _ hstep ih
  constructor
  · intro t s ht ho
    obtain ⟨⟨hsharing, hsess, hphase, htrace⟩, hw⟩ := ht
    have hlib := ho.lib hsharing.reader
    rw [hsess] at hlib
    refine ⟨⟨hsharing.others ho, ho.rely.own.sessions.trans hsess, hrun _ _ hlib hphase,
      htrace⟩, ?_⟩
    show W (s.workers k)
    rw [ho.worker]
    exact hw
  · intro t v ht
    obtain ⟨⟨hsharing, hsess, hphase, htrace⟩, hw⟩ := ht
    exact ⟨⟨⟨hsharing.reader, hsharing.pipe, hsharing.alive⟩, hsess, hphase, htrace⟩, hw⟩

/-- A change of the own record. -/
theorem wp_record {f : Worker → Worker} {W' : Worker → Prop} (hΦ : Untouched L ss Φ)
    (ht : Engaged key k h κ pre ss Φ T t ∧ W (t.state.workers k)) (hW : ∀ w, W w → W' (f w))
    {R : Ends Exn (Seen σ K N) Unit}
    (hok : ∀ t', Engaged key k h κ pre ss Φ T t' ∧ W' (t'.state.workers k) → R.ok () t') :
    (ask (.setSelf f)).wp (among L key decode k live) R t := by
  refine wp_setSelf (lasts_engaged hΦ) ht fun t' ht' => hok _ ?_
  obtain ⟨⟨hsharing, hsess, hphase, htrace⟩, hw⟩ := ht'
  refine ⟨⟨⟨hsharing.reader, hsharing.pipe, hsharing.alive⟩, hsess, hphase, htrace⟩, ?_⟩
  show W' (Function.update t'.state.workers k (f (t'.state.workers k)) k)
  rw [Function.update_self]
  exact hW _ hw

/-- **A cipher call.** -/
theorem wp_cipherCall (hL : KeyedLib L key decode) (c : FfiCall) (hc : c.isCipher = true)
    (Φ' : Reply → σ → Prop) (T' : Reply → List Event → Prop) (hΦ : Untouched L ss Φ)
    (hΦ' : ∀ r, Untouched L (sessionsAfter ss c r) (Φ' r))
    (hstep : ∀ s, key s h = some κ → Φ s → Φ' (L c s).1 (L c s).2)
    (hT : ∀ r evs, T evs → T' r (evs ++ [.call c r]))
    (ht : Engaged key k h κ pre ss Φ T t ∧ W (t.state.workers k))
    {R : Ends Exn (Seen σ K N) Reply}
    (hok : ∀ r t', Engaged key k h κ pre (sessionsAfter ss c r) (Φ' r) (T' r) t' ∧
      W (t'.state.workers k) → R.ok r t') :
    (libraryCall c).wp (among L key decode k live) R t := by
  refine wp_libraryCall (lasts_engaged hΦ) (fun r => lasts_engaged (hΦ' r)) ht ?_ hok
  intro u hu
  obtain ⟨⟨hsharing, hsess, hphase, evs, hcalls, htrace⟩, hw⟩ := hu
  have hmut : c.mutates = none := FfiCall.not_mutates_of_isCipher hc
  refine ⟨⟨hsharing.called hL hmut, ?_, hstep _ hsharing.alive hphase,
    evs ++ [.call c (L c u.state.lib).1], ?_, hT _ evs htrace⟩, hw⟩
  · show Function.update u.state.sessions (some k) (sessionsAfter _ c _) (some k) = _
    rw [Function.update_self, hsess]
  · show u.calls ++ _ = _
    rw [hcalls, List.append_assoc]

/-! ## §2. Errors. -/

/-- A computation that an `itb::Error` has ended; a live one never is. -/
def Dropped (live : Prop) (e : Exn) (_ : Seen σ K N) : Prop := e.IsError ∧ ¬ live

/-- Where nothing is said of the state, an entry of the binding may do as it
likes. -/
theorem wp_anyhow {α : Type} (hlive : ¬ live) {m : Call α} (hm : m.Throws Exn.IsError)
    (t : Seen σ K N) :
    (lib m).wp (among L key decode k live) ⟨fun _ _ => True, Dropped live⟩ t := by
  have hcall : ∀ c, Remains (among L key decode k live) (fun _ => True)
      (fun e t => Exn.IsError e ∧ True) (libraryCall c) := by
    intro c t _
    exact wp_libraryCall lasts_true (fun _ => lasts_true) trivial (fun _ _ => trivial)
      fun _ _ _ => trivial
  have hall : Remains (among L key decode k live) (fun _ => True)
      (fun e t => Exn.IsError e ∧ True) (lib m) := by
    refine remains_translate hm (fun _ _ => hlive) fun q => ?_
    cases q with
    | ffi c => exact hcall c
    | emit e => exact remains_ret ()
  exact (hall t trivial).mono (fun _ _ h => h) fun _ _ h => ⟨h.1, hlive⟩

/-- `check`. -/
theorem wp_checked {rc : Int} {what : String} {R : Ends Exn (Seen σ K N) Unit}
    (hlive : live → rc = 0) (hok : rc = 0 → R.ok () t)
    (herr : ∀ e t', Dropped live e t' → R.threw e t') :
    (lib (Call.check rc what)).wp (among L key decode k live) R t := by
  by_cases hrc : rc = 0
  · have hpass : Call.check rc what = .ret () := if_neg (not_not.mpr hrc)
    rw [hpass]
    exact hok hrc
  · have hfail : Call.check rc what = Call.fail rc what := if_pos hrc
    have hdead : ¬ live := fun hl => hrc (hlive hl)
    rw [hfail]
    unfold Call.fail
    rw [lib_bind, wp_bind]
    refine (wp_anyhow hdead Call.throws_lastError t).mono (fun diag t' _ => ?_) herr
    exact herr _ t' ⟨⟨_, rfl⟩, hdead⟩

/-! ## §3. Calls on the session. -/

/-- What went into the session `x` and came out of it, at a course, since the
event `b` began it. -/
structure Exchanged (b : Event) (x : Handle) (src : Bytes) (p : Course) (evs : List Event) :
    Prop where
  first : evs.head? = some b
  got : delivered x evs = p.got
  fed : FedWith x (src.take p.written) p.ended evs

/-- The session `x` on `h` is the only one, and at the course `p`. -/
abbrev Serving (key : σ → Handle → Option K) (k : Fin N) (h : Handle) (κ : K) (b : Event)
    (x : Handle) (src : Bytes) (pre : List Event) (Φ : σ → Prop) (p : Course)
    (t : Seen σ K N) : Prop :=
  Engaged key k h κ pre [(x, h)] Φ (Exchanged b x src p) t

theorem first_snoc {b e : Event} {evs : List Event} (h : evs.head? = some b) :
    (evs ++ [e]).head? = some b := by
  rw [List.head?_append, h]
  rfl

/-- What a call that was granted leaves; a live session grants all. -/
structure Granted (live : Prop) (r : Reply) (Φ : σ → Prop) (s : σ) : Prop where
  live : live → r.rc = 0
  ok : r.rc = 0 → Φ s

variable {b : Event} {x : Handle} {src : Bytes} {n : Nat} {Made : Bytes → Prop}
  {At : σ → Course → Prop} {out : Out} {w₀ : Worker} {d : Bytes} {i : Nat} {e : Bool}
  {p : Course}

theorem Untouched.granted (hΦ : Untouched L ss Φ) (r : Reply) : Untouched L ss (Granted live r Φ) :=
  fun s s' hs hg => ⟨hg.live, fun hrc => hΦ s s' hs (hg.ok hrc)⟩

/-- The session's course is its worker's business. -/
theorem untouched_course (hS : Serves L x src Made At) (p : Course) :
    Untouched L [(x, h)] fun s => At s p := by
  intro s s' hs hat
  obtain ⟨c, hm, hc, rfl⟩ := hs
  refine hS.own p c s hm (fun hx => ?_) hat
  have hnone := hc x hx
  simp at hnone

/-- A call that takes nothing out of the session. -/
theorem delivered_quiet {e : Event} {evs : List Event} (he : e.output x = [])
    (hd : delivered x evs = d) : delivered x (evs ++ [e]) = d := by
  rw [delivered_snoc, hd, he]
  exact List.append_nil d

/-- A call on the session and its check: an error drops the pump. -/
theorem wp_checkedCall (hL : KeyedLib L key decode) (c : FfiCall) (what : String)
    (hc : c.isCipher = true) (hafter : ∀ r, sessionsAfter [(x, h)] c r = [(x, h)])
    (Φ' : σ → Prop) (p' : Course) (hΦ : Untouched L [(x, h)] Φ) (hΦ' : Untouched L [(x, h)] Φ')
    (hstep : ∀ s, Φ s → Granted live (L c s).1 Φ' (L c s).2)
    (hT : ∀ r evs, Exchanged b x src p evs → Exchanged b x src p' (evs ++ [.call c r]))
    (ht : Serving key k h κ b x src pre Φ p t ∧ W (t.state.workers k))
    {R : Ends Exn (Seen σ K N) Unit}
    (hok : ∀ t', Serving key k h κ b x src pre Φ' p' t' ∧ W (t'.state.workers k) → R.ok () t')
    (herr : ∀ e t', Dropped live e t' → R.threw e t') :
    (libraryCall c >>= fun r => lib (Call.check r.rc what)).wp (among L key decode k live)
      R t := by
  have hkept : ∀ r, Untouched L (sessionsAfter [(x, h)] c r) (Granted live r Φ') := by
    intro r
    rw [hafter]
    exact hΦ'.granted r
  rw [wp_bind]
  refine wp_cipherCall hL c hc (fun r => Granted live r Φ') (fun _ => Exchanged b x src p') hΦ
    hkept (fun s _ hs => hstep s hs) hT ht fun r t' ht' => ?_
  obtain ⟨⟨hsharing, hsess, hphase, htrace⟩, hw⟩ := ht'
  rw [hafter] at hsess
  exact wp_checked hphase.live
    (fun hrc => hok t' ⟨⟨hsharing, hsess, hphase.ok hrc, htrace⟩, hw⟩) herr

/-- `write`. -/
theorem wp_write (hL : KeyedLib L key decode) (hS : Serves L x src Made At)
    (hP : live → Prompt L x src n At) {m : Nat} (hm : 0 < m) (hi : i + m ≤ src.length)
    (ht : Serving key k h κ b x src pre (fun s => At s ⟨i, d, false⟩) ⟨i, d, false⟩ t ∧
      W (t.state.workers k)) {R : Ends Exn (Seen σ K N) Unit}
    (hok : ∀ t', Serving key k h κ b x src pre (fun s => At s ⟨i + m, d, false⟩)
      ⟨i + m, d, false⟩ t' ∧ W (t'.state.workers k) → R.ok () t')
    (herr : ∀ e t', Dropped live e t' → R.threw e t') :
    (lib (Call.write { handle := x } ((src.drop i).take m))).wp (among L key decode k live)
      R t := by
  unfold Call.write
  rw [lib_bind, lib_ffi]
  refine wp_checkedCall hL (.streamWrite x ((src.drop i).take m)) _ rfl (fun _ => rfl)
    (fun s => At s ⟨i + m, d, false⟩) ⟨i + m, d, false⟩ (untouched_course hS _)
    (untouched_course hS _) ?_ ?_ ht hok herr
  · exact fun s hat => ⟨fun hl => (hP hl).write s i d m hat hm hi, hS.write s i d m hat hm hi⟩
  · exact fun r evs hx => ⟨first_snoc hx.first, delivered_quiet rfl hx.got, fedWith_write hx.fed⟩

/-- `end`. -/
theorem wp_end (hL : KeyedLib L key decode) (hS : Serves L x src Made At)
    (hP : live → Prompt L x src n At)
    (ht : Serving key k h κ b x src pre (fun s => At s ⟨src.length, d, false⟩)
      ⟨src.length, d, false⟩ t ∧ W (t.state.workers k)) {R : Ends Exn (Seen σ K N) Unit}
    (hok : ∀ t', Serving key k h κ b x src pre (fun s => At s ⟨src.length, d, true⟩)
      ⟨src.length, d, true⟩ t' ∧ W (t'.state.workers k) → R.ok () t')
    (herr : ∀ e t', Dropped live e t' → R.threw e t') :
    (lib (Call.end_ { handle := x })).wp (among L key decode k live) R t := by
  unfold Call.end_
  rw [lib_bind, lib_ffi]
  refine wp_checkedCall hL (.streamEnd x) _ rfl (fun _ => rfl)
    (fun s => At s ⟨src.length, d, true⟩) ⟨src.length, d, true⟩ (untouched_course hS _)
    (untouched_course hS _) ?_ ?_ ht hok herr
  · exact fun s hat => ⟨fun hl => (hP hl).end_ s d hat, hS.end_ s d hat⟩
  · exact fun r evs hx => ⟨first_snoc hx.first, delivered_quiet rfl hx.got, fedWith_end hx.fed⟩

/-- What is known after a read: the output is whole once the end is reported
after `end`, and the session goes on otherwise. -/
structure Next (Made : Bytes → Prop) (At : σ → Course → Prop) (p : Course) (finished : Bool)
    (s : σ) : Prop where
  last : p.ended = true → finished = true → Made p.got
  more : (p.ended = true → finished = false) → At s p

/-- A read that was granted. -/
structure ReadOut (live : Prop) (Made : Bytes → Prop) (At : σ → Course → Prop) (i : Nat)
    (d : Bytes) (e : Bool) (r : Reply) (s : σ) : Prop where
  fits : r.len ≤ kPumpSlice
  written : r.len ≤ r.out.length
  gives : live → e = true → r.fin = 0 → 0 < r.len
  next : Next Made At ⟨i, d ++ r.out.take r.len, e⟩ (r.fin ≠ 0) s

theorem untouched_next (hS : Serves L x src Made At) (p : Course) (fin : Bool) :
    Untouched L [(x, h)] (Next Made At p fin) :=
  fun s s' hs hn => ⟨hn.last, fun hmore => untouched_course hS p s s' hs (hn.more hmore)⟩

theorem untouched_readOut (hS : Serves L x src Made At) (r : Reply) :
    Untouched L [(x, h)] (ReadOut live Made At i d e r) :=
  fun s s' hs hr => ⟨hr.fits, hr.written, hr.gives, untouched_next hS _ _ s s' hs hr.next⟩

theorem readOut_of_serves (hS : Serves L x src Made At) (hP : live → Prompt L x src n At)
    {s : σ} (hat : At s ⟨i, d, e⟩) (hrc : (L (.streamRead x kPumpSlice) s).1.rc = 0) :
    ReadOut live Made At i d e (L (.streamRead x kPumpSlice) s).1
      (L (.streamRead x kPumpSlice) s).2 := by
  have hslice : 0 < kPumpSlice := by decide
  obtain ⟨hfits, hwritten⟩ := hS.read s i d e _ hat hslice hrc
  refine ⟨hfits, hwritten, ?_, ?_, ?_⟩
  · intro hl he hfin
    subst he
    exact (hP hl).gives s i d _ hat hslice hfin
  · intro he hfin
    obtain rfl : e = true := he
    exact hS.last s i d _ hat hslice hrc (of_decide_eq_true hfin)
  · intro hmore
    refine hS.more s i d e _ hat hslice hrc fun he => ?_
    exact not_not.mp (of_decide_eq_false (hmore he))

/-- **A read into the drain slice.** -/
theorem wp_readChunk (hL : KeyedLib L key decode) (hS : Serves L x src Made At)
    (hP : live → Prompt L x src n At)
    (ht : Serving key k h κ b x src pre (fun s => At s ⟨i, d, e⟩) ⟨i, d, e⟩ t ∧
      Filled out w₀ d (t.state.workers k)) {R : Ends Exn (Seen σ K N) StreamRead}
    (hok : ∀ got chunk t', chunk.length = got.n →
      (live → e = true → got.finished = false → 0 < got.n) →
      Serving key k h κ b x src pre (Next Made At ⟨i, d ++ chunk, e⟩ got.finished)
        ⟨i, d ++ chunk, e⟩ t' ∧ Loaded out w₀ d chunk (t'.state.workers k) → R.ok got t')
    (herr : ∀ e t', Dropped live e t' → R.threw e t') :
    (readChunk { handle := x }).wp (among L key decode k live) R t := by
  have hkept : Untouched L [(x, h)] fun s => At s ⟨i, d, e⟩ := untouched_course hS _
  unfold readChunk setStage
  rw [wp_bind]
  refine wp_record hkept ht (fun w hw => hw.stage _) fun t₁ ht₁ => ?_
  show (ask .self >>= fun w => _).wp _ R t₁
  rw [wp_bind]
  refine wp_self (lasts_engaged hkept) ht₁ fun t₂ ht₂ => ?_
  -- the buffer of the call is the drain slice
  have hbuf : (t₂.state.workers k).scratch.length = kPumpSlice := ht₂.2.size
  show (lib (Call.read { handle := x } (t₂.state.workers k).scratch) >>= fun y => _).wp _ R t₂
  generalize (t₂.state.workers k).scratch = buf at hbuf ⊢
  unfold Call.read
  rw [wp_bind, lib_bind, lib_ffi, wp_bind, hbuf]
  refine wp_cipherCall hL (.streamRead x kPumpSlice) rfl
    (fun r => Granted live r (ReadOut live Made At i d e r))
    (fun r => Exchanged b x src ⟨i, d ++ r.out.take r.len, e⟩) hkept
    (fun r => (untouched_readOut hS r).granted r) ?_ ?_ ht₂ ?_
  · intro s _ hat
    exact ⟨fun hl => (hP hl).read s i d e _ hat (by decide), readOut_of_serves hS hP hat⟩
  · intro r evs hx
    refine ⟨first_snoc hx.first, ?_, fedWith_read hx.fed⟩
    rw [delivered_snoc, hx.got]
    simp [Event.output]
  · intro r t₃ ht₃
    obtain ⟨⟨hsharing, hsess, hphase, htrace⟩, hw⟩ := ht₃
    show (lib (Call.check r.rc "Stream::read" >>= fun _ => _)).wp _ _ t₃
    rw [lib_bind, wp_bind]
    refine wp_checked hphase.live (fun hrc => ?_) herr
    have hread := hphase.ok hrc
    have hlen : (r.out.take r.len).length = r.len := by
      rw [List.length_take, Nat.min_eq_left hread.written]
    show (ask (.setSelf fun w => { w with scratch := Buffer.overlay buf r.out }) >>=
      fun _ => .ret _).wp _ R t₃
    rw [wp_bind]
    refine wp_record (untouched_readOut hS r) ⟨⟨hsharing, hsess, hread, htrace⟩, hw⟩
      (fun w hw => hw.load hbuf hread.written hread.fits rfl) fun t₄ ht₄ => ?_
    obtain ⟨⟨hsharing, hsess, hread, htrace⟩, hw⟩ := ht₄
    refine hok _ (r.out.take r.len) _ hlen ?_ ⟨⟨hsharing, hsess, hread.next, htrace⟩, hw⟩
    intro hl he hfin
    exact hread.gives hl he (not_not.mp (of_decide_eq_false hfin))

/-! ## §4. The loops. -/

/-- The pump's assertion: the session at a course, and what was delivered in
the accumulator. -/
abbrev Drained (key : σ → Handle → Option K) (k : Fin N) (h : Handle) (κ : K) (b : Event)
    (x : Handle) (src : Bytes) (pre : List Event) (out : Out) (w₀ : Worker) (Φ : σ → Prop)
    (p : Course) (t : Seen σ K N) : Prop :=
  Serving key k h κ b x src pre Φ p t ∧ Filled out w₀ p.got (t.state.workers k)

/-- The drain loop after a write: the session goes on, with more of its
output in the accumulator. -/
theorem wp_drainAvailable (hL : KeyedLib L key decode) (hS : Serves L x src Made At)
    (hP : live → Prompt L x src n At) {fuel : Nat} (hfuel : live → n < fuel + d.length)
    (ht : Drained key k h κ b x src pre out w₀ (fun s => At s ⟨i, d, false⟩) ⟨i, d, false⟩ t)
    {R : Ends Exn (Seen σ K N) Unit}
    (hok : ∀ d' t', Drained key k h κ b x src pre out w₀ (fun s => At s ⟨i, d', false⟩)
      ⟨i, d', false⟩ t' → R.ok () t')
    (herr : ∀ e t', Dropped live e t' → R.threw e t') :
    (drainAvailable { handle := x } out fuel).wp (among L key decode k live) R t := by
  induction fuel generalizing d t with
  | zero =>
      -- a prompt session cannot deliver more than its output
      intro hl
      have hbound := (hP hl).bounded _ _ ht.1.phase
      have hroom := hfuel hl
      simp only at hbound
      omega
  | succ fuel ih =>
      unfold drainAvailable
      rw [wp_bind]
      refine wp_readChunk hL hS hP ht (fun got chunk t₁ hlen _ ht₁ => ?_) herr
      obtain ⟨hserving, hloaded⟩ := ht₁
      have hserving : Serving key k h κ b x src pre (fun s => At s ⟨i, d ++ chunk, false⟩)
          ⟨i, d ++ chunk, false⟩ t₁ := by
        obtain ⟨hsharing, hsess, hphase, htrace⟩ := hserving
        exact ⟨hsharing, hsess, hphase.more fun he => (Bool.false_ne_true he).elim, htrace⟩
      show (if got.n = 0 then _ else _ : Task Unit).wp _ R t₁
      by_cases hnone : got.n = 0
      · rw [if_pos hnone]
        have hempty : chunk = [] := List.eq_nil_of_length_eq_zero (hlen.trans hnone)
        rw [hempty] at hserving hloaded
        refine hok (d ++ []) t₁ ⟨hserving, ?_⟩
        show Filled out w₀ (d ++ []) _
        rw [List.append_nil]
        exact hloaded.toFilled
      · rw [if_neg hnone, wp_bind, ← hlen]
        refine wp_record (untouched_course hS _) ⟨hserving, hloaded⟩ (fun w hw => hw.insert)
          fun t₂ ht₂ => ih (fun hl => ?_) ht₂
        have hroom := hfuel hl
        rw [List.length_append]
        omega

/-- The feed loop: all of the source is in. -/
theorem wp_feed (hL : KeyedLib L key decode) (hS : Serves L x src Made At)
    (hP : live → Prompt L x src n At) {drainFuel fuel : Nat} (hdrain : live → n < drainFuel)
    (hfuel : live → src.length < fuel + i) (hi : i ≤ src.length)
    (ht : Drained key k h κ b x src pre out w₀ (fun s => At s ⟨i, d, false⟩) ⟨i, d, false⟩ t)
    {R : Ends Exn (Seen σ K N) Unit}
    (hok : ∀ d' t', Drained key k h κ b x src pre out w₀
      (fun s => At s ⟨src.length, d', false⟩) ⟨src.length, d', false⟩ t' → R.ok () t')
    (herr : ∀ e t', Dropped live e t' → R.threw e t') :
    (feed { handle := x } src out drainFuel fuel i).wp (among L key decode k live) R t := by
  induction fuel generalizing i d t with
  | zero =>
      intro hl
      have hmore := hfuel hl
      omega
  | succ fuel ih =>
      unfold feed
      by_cases hmore : i < src.length
      · rw [if_pos hmore]
        -- a slice is not empty, so a write makes progress
        have hslice : 0 < kPumpSlice := by decide
        obtain ⟨m, hm⟩ : ∃ m, m = if src.length - i < kPumpSlice then src.length - i
          else kPumpSlice := ⟨_, rfl⟩
        have hpos : 0 < m ∧ i + m ≤ src.length := by
          rw [hm]
          split <;> omega
        rw [← hm]
        unfold setStage
        rw [wp_bind]
        refine wp_record (untouched_course hS _) ht (fun w hw => hw.stage _) fun t₁ ht₁ => ?_
        show (lib (Call.write { handle := x } ((src.drop i).take m)) >>= fun _ => _).wp _ R t₁
        rw [wp_bind]
        refine wp_write hL hS hP hpos.1 hpos.2 ht₁ (fun t₂ ht₂ => ?_) herr
        show (drainAvailable _ out drainFuel >>= fun _ => _).wp _ R t₂
        rw [wp_bind]
        refine wp_drainAvailable hL hS hP (fun hl => Nat.lt_add_right _ (hdrain hl)) ht₂
          (fun d' t₃ ht₃ => ?_) herr
        exact ih (fun hl => by have := hfuel hl; omega) hpos.2 ht₃
      · rw [if_neg hmore]
        obtain rfl : i = src.length := by omega
        exact hok d t ht

/-- The drain loop after the end: the accumulator has what was made. -/
theorem wp_drainFinished (hL : KeyedLib L key decode) (hS : Serves L x src Made At)
    (hP : live → Prompt L x src n At) {fuel : Nat} (hfuel : live → n < fuel + d.length)
    (ht : Drained key k h κ b x src pre out w₀ (fun s => At s ⟨i, d, true⟩) ⟨i, d, true⟩ t)
    {R : Ends Exn (Seen σ K N) Unit}
    (hok : ∀ d' t', Drained key k h κ b x src pre out w₀ (fun _ => Made d') ⟨i, d', true⟩ t' →
      R.ok () t')
    (herr : ∀ e t', Dropped live e t' → R.threw e t') :
    (drainFinished { handle := x } out fuel).wp (among L key decode k live) R t := by
  induction fuel generalizing d t with
  | zero =>
      intro hl
      have hbound := (hP hl).bounded _ _ ht.1.phase
      have hroom := hfuel hl
      simp only at hbound
      omega
  | succ fuel ih =>
      unfold drainFinished
      rw [wp_bind]
      refine wp_readChunk hL hS hP ht (fun got chunk t₁ hlen hgives ht₁ => ?_) herr
      show (ask (.setSelf fun w => w.insert got.n out) >>= fun _ => _).wp _ R t₁
      rw [wp_bind, ← hlen]
      refine wp_record (untouched_next hS _ _) ht₁ (fun w hw => hw.insert) fun t₂ ht₂ => ?_
      obtain ⟨⟨hsharing, hsess, hphase, htrace⟩, hfilled⟩ := ht₂
      -- the flag ends the loop, and with it the last bytes are there
      show (if got.finished = true then _ else _ : Task Unit).wp _ R t₂
      by_cases hfin : got.finished = true
      · rw [if_pos hfin]
        exact hok _ t₂ ⟨⟨hsharing, hsess, hphase.last rfl hfin, htrace⟩, hfilled⟩
      · rw [if_neg hfin]
        have hgoes : got.finished = false := Bool.eq_false_iff.mpr hfin
        refine ih (fun hl => ?_) ⟨⟨hsharing, hsess, hphase.more fun _ => hgoes, htrace⟩, hfilled⟩
        have hroom := hfuel hl
        have hsome := hgives hl rfl hgoes
        rw [List.length_append]
        omega

/-- `pump_body`. -/
theorem wp_pumpBody (hL : KeyedLib L key decode) (hS : Serves L x src Made At)
    (hP : live → Prompt L x src n At) {fuel : Nat} (hn : live → n < fuel)
    (hsrc : live → src.length < fuel)
    (ht : Drained key k h κ b x src pre out w₀ (fun s => At s ⟨0, [], false⟩) ⟨0, [], false⟩ t)
    {R : Ends Exn (Seen σ K N) Unit}
    (hok : ∀ d t', Drained key k h κ b x src pre out w₀ (fun _ => Made d) ⟨src.length, d, true⟩ t' →
      R.ok () t')
    (herr : ∀ e t', Dropped live e t' → R.threw e t') :
    (pumpBody { handle := x } src out fuel).wp (among L key decode k live) R t := by
  unfold pumpBody setStage
  rw [wp_bind]
  refine wp_feed hL hS hP hn (fun hl => Nat.lt_add_right _ (hsrc hl)) (Nat.zero_le _) ht
    (fun d t₁ ht₁ => ?_) herr
  show (ask (.setSelf _) >>= fun _ => _).wp _ R t₁
  rw [wp_bind]
  refine wp_record (untouched_course hS _) ht₁ (fun w hw => hw.stage _) fun t₂ ht₂ => ?_
  show (lib (Call.end_ { handle := x }) >>= fun _ => _).wp _ R t₂
  rw [wp_bind]
  refine wp_end hL hS hP ht₂ (fun t₃ ht₃ => ?_) herr
  exact wp_drainFinished hL hS hP (fun hl => Nat.lt_add_right _ (hn hl)) ht₃ hok herr

/-! ## §5. The whole pump. -/

/-- The call that begins a session. -/
def beginCall (encrypt : Bool) (h : Handle) : FfiCall :=
  if encrypt then .encryptStreamBegin h else .decryptStreamBegin h

/-- A session that has just begun. -/
def Begun (L : Lib σ) (x : Handle) (src : Bytes) (Made : Bytes → Prop) (n : Nat)
    (live : Prop) (s : σ) : Prop :=
  x ≠ 0 ∧ ∃ At, Serves L x src Made At ∧ (live → Prompt L x src n At) ∧ At s ⟨0, [], false⟩

/-- Whenever `h` has the keying `κ`, a session begun on it in the state `s`
and fed `src` serves what it made. -/
def Opens (L : Lib σ) (key : σ → Handle → Option K) (encrypt : Bool) (h : Handle) (κ : K)
    (src : Bytes) (Made : σ → Bytes → Prop) (n : Nat) (live : Prop) : Prop :=
  ∀ s, key s h = some κ →
    Granted live (L (beginCall encrypt h) s).1
      (Begun L (L (beginCall encrypt h) s).1.handle src (Made s) n live)
      (L (beginCall encrypt h) s).2

/-- The answer to a begin call, in the state it took effect in. -/
structure BegunAt (L : Lib σ) (key : σ → Handle → Option K) (encrypt : Bool) (h : Handle)
    (κ : K) (s : σ) (r : Reply) : Prop where
  alive : key s h = some κ
  reply : r = (L (beginCall encrypt h) s).1

/-- No call since `pre`. -/
def NoCalls (evs : List Event) : Prop := evs = []

theorem untouched_true : Untouched L ss fun _ => True := fun _ _ _ _ => trivial

theorem untouched_begun : Untouched L [(x, h)] (Begun L x src Made n live) := by
  intro s s' hs hb
  obtain ⟨hz, At, hS, hP, hat⟩ := hb
  exact ⟨hz, At, hS, hP, untouched_course hS _ s s' hs hat⟩

/-- `encrypt_stream_begin` and `decrypt_stream_begin`. -/
theorem wp_begin (hL : KeyedLib L key decode) {encrypt : Bool}
    {Made : σ → Bytes → Prop} (hO : Opens L key encrypt h κ src Made n live)
    (ht : Engaged key k h κ pre [] (fun _ => True) NoCalls t ∧ W (t.state.workers k))
    {R : Ends Exn (Seen σ K N) Stream}
    (hok : ∀ s r At t', BegunAt L key encrypt h κ s r → r.handle ≠ 0 →
      Serves L r.handle src (Made s) At → (live → Prompt L r.handle src n At) →
      Serving key k h κ (.call (beginCall encrypt h) r) r.handle src pre
          (fun s => At s ⟨0, [], false⟩) ⟨0, [], false⟩ t' ∧ W (t'.state.workers k) →
      R.ok { handle := r.handle } t')
    (herr : ∀ e t', Dropped live e t' → R.threw e t') :
    (lib (if encrypt then Call.encryptStreamBegin { handle := h }
      else Call.decryptStreamBegin { handle := h })).wp (among L key decode k live) R t := by
  -- the two entries differ in the call and in the text of the error
  have hentry : ∀ (c : FfiCall) (what : String), beginCall encrypt h = c → c.isCipher = true →
      (∀ r, sessionsAfter [] c r = if r.rc = 0 ∧ r.handle ≠ 0 then [(r.handle, h)] else []) →
      (∀ x r, Event.input x (.call c r) = none ∧ Event.output x (.call c r) = []) →
      (libraryCall c >>= fun r => lib (Call.check r.rc what) >>= fun _ =>
        Thread.ret ({ handle := r.handle } : Stream)).wp (among L key decode k live) R t := by
    intro c what hbegin hc hafter hquiet
    have hopened : ∀ r, r.rc = 0 → r.handle ≠ 0 → sessionsAfter [] c r = [(r.handle, h)] :=
      fun r hrc hz => (hafter r).trans (if_pos ⟨hrc, hz⟩)
    have hkept : ∀ r, Untouched L (sessionsAfter [] c r)
        (Granted live r fun s' => ∃ s, BegunAt L key encrypt h κ s r ∧
          Begun L r.handle src (Made s) n live s') := by
      intro r s₁ s₂ hs hg
      refine ⟨hg.live, fun hrc => ?_⟩
      obtain ⟨s, hs₀, hb⟩ := hg.ok hrc
      rw [hopened r hrc hb.1] at hs
      exact ⟨s, hs₀, untouched_begun s₁ s₂ hs hb⟩
    rw [wp_bind]
    refine wp_cipherCall hL c hc
      (fun r => Granted live r fun s' => ∃ s, BegunAt L key encrypt h κ s r ∧
        Begun L r.handle src (Made s) n live s')
      (fun r => Exchanged (.call (beginCall encrypt h) r) r.handle src ⟨0, [], false⟩)
      untouched_true hkept ?_ ?_ ht ?_
    · intro s hκ _
      have hbegun := hO s hκ
      rw [hbegin] at hbegun
      exact ⟨hbegun.live, fun hrc => ⟨s, ⟨hκ, by rw [hbegin]⟩, hbegun.ok hrc⟩⟩
    · intro r evs hevs
      obtain rfl : evs = [] := hevs
      obtain ⟨hin, hout⟩ := hquiet r.handle r
      refine ⟨by rw [hbegin]; rfl, ?_, [], rfl, ?_⟩
      · rw [delivered_snoc, hout]
        rfl
      · rw [inputs_snoc, hin]
        rfl
    · intro r t' ht'
      obtain ⟨⟨hsharing, hsess, hphase, htrace⟩, hw⟩ := ht'
      show (lib (Call.check r.rc what) >>= fun _ => _).wp _ R t'
      rw [wp_bind]
      refine wp_checked hphase.live (fun hrc => ?_) herr
      obtain ⟨s, hs, hz, At, hS, hP, hat⟩ := hphase.ok hrc
      rw [hopened r hrc hz] at hsess
      exact hok s r At t' hs hz hS hP ⟨⟨hsharing, hsess, hat, htrace⟩, hw⟩
  cases encrypt with
  | true =>
      rw [if_pos rfl]
      unfold Call.encryptStreamBegin
      simp only [lib_bind, lib_ffi, lib_emit, Thread.pure_eq_ret, lib_ret, Thread.ret_bind]
      exact hentry (.encryptStreamBegin h) _ rfl rfl (fun _ => rfl) fun _ _ => ⟨rfl, rfl⟩
  | false =>
      rw [if_neg nofun]
      unfold Call.decryptStreamBegin
      simp only [lib_bind, lib_ffi, lib_emit, Thread.pure_eq_ret, lib_ret, Thread.ret_bind]
      exact hentry (.decryptStreamBegin h) _ rfl rfl (fun _ => rfl) fun _ _ => ⟨rfl, rfl⟩

/-- `~Stream` of a session that is there. -/
theorem wp_destroyStream (hL : KeyedLib L key decode) (hz : x ≠ 0)
    (hΦ : Untouched L [(x, h)] Φ)
    (ht : Serving key k h κ b x src pre Φ p t ∧ W (t.state.workers k))
    {R : Ends Exn (Seen σ K N) Unit}
    (hok : ∀ t', Engaged key k h κ pre [] (fun _ => True) (Exchanged b x src p) t' ∧
      W (t'.state.workers k) → R.ok () t') :
    (lib (Call.destroyStream { handle := x })).wp (among L key decode k live) R t := by
  have hclose : Call.destroyStream { handle := x } =
      (Call.ffi (.streamFree x) >>= fun _ => .ret ()) := by
    unfold Call.destroyStream Call.close
    rw [if_pos hz]
    rfl
  rw [hclose, lib_bind, lib_ffi, wp_bind]
  refine wp_cipherCall hL (.streamFree x) rfl (fun _ _ => True) (fun _ => Exchanged b x src p) hΦ
    (fun _ => untouched_true) (fun _ _ _ => trivial) ?_ ht ?_
  · intro r evs hx
    refine ⟨first_snoc hx.first, delivered_quiet rfl hx.got, ?_⟩
    obtain ⟨slices, hflat, hin⟩ := hx.fed
    refine ⟨slices, hflat, ?_⟩
    rw [inputs_snoc, hin]
    exact List.append_nil _
  · intro r t' ht'
    obtain ⟨⟨hsharing, hsess, hphase, htrace⟩, hw⟩ := ht'
    have hnone : sessionsAfter [(x, h)] (.streamFree x) r = [] := by simp [sessionsAfter]
    rw [hnone] at hsess
    exact hok t' ⟨⟨hsharing, hsess, hphase, htrace⟩, hw⟩

/-- How a pump ends: what the session made is in the accumulator, after
exactly the source and one end were put in and all of it was taken out; or
an error has dropped it. -/
def Pumped (L : Lib σ) (key : σ → Handle → Option K) (k : Fin N) (encrypt : Bool)
    (h : Handle) (κ : K) (src : Bytes) (Made : σ → Bytes → Prop) (live : Prop) (out : Out)
    (w₀ : Worker) (pre : List Event) : Except Error Unit → Seen σ K N → Prop
  | .ok _, t => ∃ s r d, BegunAt L key encrypt h κ s r ∧ Made s d ∧
      Engaged key k h κ pre [] (fun _ => True)
        (Exchanged (.call (beginCall encrypt h) r) r.handle src ⟨src.length, d, true⟩) t ∧
      Filled out w₀ d (t.state.workers k)
  | .error _, _ => ¬ live

/-- **The pump**, over whatever session it is given. -/
theorem wp_pump (hL : KeyedLib L key decode) {encrypt : Bool} {Made : σ → Bytes → Prop}
    (hO : Opens L key encrypt h κ src Made n live) {fuel : Nat} (hn : live → n < fuel)
    (hsrc : live → src.length < fuel) (hsize : w₀.scratch.length = kPumpSlice)
    (ht : Engaged key k h κ pre [] (fun _ => True) NoCalls t ∧ t.state.workers k = w₀) :
    (pump { handle := h } encrypt src out fuel).wp (among L key decode k live)
      ⟨Pumped L key k encrypt h κ src Made live out w₀ pre, fun _ _ => False⟩ t := by
  have hclear : ∀ w, w = w₀ → Filled out w₀ [] (w.clear out) := by
    intro w hw
    subst hw
    exact filled_clear hsize
  unfold pump attempt setStage
  rw [wp_bind]
  refine wp_record untouched_true ht hclear fun t₁ ht₁ => ?_
  show (Thread.handle _ _).wp _ _ t₁
  rw [wp_handle, wp_bind, wp_bind]
  refine wp_record untouched_true ht₁ (fun w hw => hw.stage _) fun t₂ ht₂ => ?_
  show (lib _ >>= fun session => _).wp _ _ t₂
  rw [wp_bind]
  refine wp_begin hL hO ht₂ (fun s r At t₃ hs hz hS hP ht₃ => ?_) ?_
  · show (Thread.ensuring _ _).wp _ _ t₃
    rw [wp_ensuring]
    refine wp_pumpBody hL hS hP hn hsrc ht₃ (fun d t₄ ht₄ => ?_) ?_
    · exact wp_destroyStream hL hz (fun _ _ _ hd => hd) ht₄ fun t₅ ht₅ =>
        ⟨s, r, d, hs, ht₄.1.phase, ht₅.1, ht₅.2⟩
    -- an error on its way: the session object goes with it
    · intro e t₄ hdrop
      refine (wp_anyhow hdrop.2 (Call.throws_destroyStream _) t₄).mono (fun _ _ _ => ?_) ?_
      · obtain ⟨⟨e, rfl⟩, hdead⟩ := hdrop
        exact hdead
      · intro e' t₅ hdrop'
        obtain ⟨⟨e', rfl⟩, hdead⟩ := hdrop'
        exact hdead
  -- no session was begun
  · intro e t₃ hdrop
    obtain ⟨⟨e, rfl⟩, hdead⟩ := hdrop
    exact hdead

end Sharing

end ItbCpp.Loop
