/-
  ItbCpp.Session
  ──────────────
  **WHAT A STREAM SESSION IS FOR.**

  The contract of `itb::Stream` as a client sees it: fed a source in order
  and then ended, a session produces one byte string `O` and gives it away
  in order, however it splits it over the reads.

    • `Conforming` — the contract, over an arbitrary machine,
    • `wp_write`, `wp_end`, `wp_read` — the calls of a conforming session,
    • `fedOut` — how much room a client has left when it ends the session,
    • `spool_conforming` — a machine for every output and every schedule.
-/
import ItbCpp.Stream

namespace ItbCpp

/-! ## §1. The contract. -/

/-- How far a session is: the bytes of the source written, the bytes of the
output delivered, and whether the input has ended. -/
structure Phase where
  written : Nat
  delivered : Nat
  ended : Bool
  deriving DecidableEq, Repr

/-- A read with room `cap` that gives the next bytes of `O` after the first
`d`, at most as many as asked for, and reports no error. -/
structure Delivers (O : Bytes) (d cap : Nat) (r : Reply) : Prop where
  ok : r.rc = 0
  fits : r.len ≤ cap
  within : d + r.len ≤ O.length
  bytes : r.out.take r.len = (O.drop d).take r.len

/-- **A conforming session** on the handle `h`, fed `src` and producing `O`.
`At s p` says that the library, in state `s`, has the session at phase `p`;
of the session's own workings nothing is said.  Nothing is asked of a read
that follows the one which reported the end. -/
structure Conforming {σ : Type} (L : Lib σ) (h : Handle) (src O : Bytes)
    (At : σ → Phase → Prop) : Prop where
  /-- any next slice of the source is accepted -/
  write : ∀ s i d n, At s ⟨i, d, false⟩ → 0 < n → i + n ≤ src.length →
    (L (.streamWrite h ((src.drop i).take n)) s).1.rc = 0 ∧
      At (L (.streamWrite h ((src.drop i).take n)) s).2 ⟨i + n, d, false⟩
  /-- the end is accepted once all of the source is in -/
  end_ : ∀ s d, At s ⟨src.length, d, false⟩ →
    (L (.streamEnd h) s).1.rc = 0 ∧ At (L (.streamEnd h) s).2 ⟨src.length, d, true⟩
  /-- every read gives the next bytes of the output -/
  read : ∀ s i d e cap, At s ⟨i, d, e⟩ → 0 < cap →
    Delivers O d cap (L (.streamRead h cap) s).1
  /-- before the end a read may give nothing, and reports no end -/
  readBefore : ∀ s i d cap, At s ⟨i, d, false⟩ → 0 < cap →
    (L (.streamRead h cap) s).1.fin = 0 ∧
      At (L (.streamRead h cap) s).2 ⟨i, d + (L (.streamRead h cap) s).1.len, false⟩
  /-- after the end a read reports the end exactly when it leaves nothing,
  and gives at least one byte otherwise -/
  readAfter : ∀ s i d cap, At s ⟨i, d, true⟩ → 0 < cap →
    ((L (.streamRead h cap) s).1.fin ≠ 0 ↔ d + (L (.streamRead h cap) s).1.len = O.length) ∧
      ((L (.streamRead h cap) s).1.fin = 0 → 0 < (L (.streamRead h cap) s).1.len ∧
        At (L (.streamRead h cap) s).2 ⟨i, d + (L (.streamRead h cap) s).1.len, true⟩)

/-! ## §2. What a session has been given and has given. -/

/-- What a client puts into a session. -/
inductive Input where
  | bytes (src : Bytes)
  | ended
  deriving DecidableEq, Repr

/-- The input an event gives to the session `h`. -/
def Event.input (h : Handle) : Event → Option Input
  | .call (.streamWrite g src) _ => if g = h then some (.bytes src) else none
  | .call (.streamEnd g) _ => if g = h then some .ended else none
  | _ => none

/-- The bytes an event took out of the session `h`. -/
def Event.output (h : Handle) : Event → Bytes
  | .call (.streamRead g _) r => if g = h then r.out.take r.len else []
  | _ => []

/-- The inputs given to the session, in order. -/
def inputs (h : Handle) (evs : List Event) : List Input := evs.filterMap (Event.input h)

/-- Everything the session has delivered, in order. -/
def delivered (h : Handle) (evs : List Event) : Bytes := evs.flatMap (Event.output h)

theorem inputs_snoc (h : Handle) (evs : List Event) (e : Event) :
    inputs h (evs ++ [e]) = inputs h evs ++ (e.input h).toList := by
  unfold inputs
  rw [List.filterMap_append]
  cases he : e.input h <;> simp [he]

theorem delivered_snoc (h : Handle) (evs : List Event) (e : Event) :
    delivered h (evs ++ [e]) = delivered h evs ++ e.output h := by
  simp [delivered]

/-! ## §3. The calls of a conforming session. -/

section Calls

variable {σ : Type} {L : Lib σ} {session : Stream} {src O : Bytes} {At : σ → Phase → Prop}
  {w : World σ}

theorem wp_write (hS : Conforming L session.handle src O At) {i d n : Nat} {c : FfiCall}
    (hc : c = .streamWrite session.handle ((src.drop i).take n))
    (hat : At w.lib ⟨i, d, false⟩) (hn : 0 < n) (hi : i + n ≤ src.length)
    {Q : Prog.Post Exn (World σ) Unit}
    (h : At (L c w.lib).2 ⟨i + n, d, false⟩ → Q.ok () (w.answered c (L c w.lib))) :
    Prog.wp (session.write L ((src.drop i).take n)) Q w := by
  subst hc
  obtain ⟨hrc, hat'⟩ := hS.write w.lib i d n hat hn hi
  unfold Stream.write
  rw [Prog.wp_bind, wp_ffi]
  apply wp_check
  · intro _
    exact h hat'
  · intro e w' hne
    exact absurd hrc hne

theorem wp_end (hS : Conforming L session.handle src O At) {d : Nat} {c : FfiCall}
    (hc : c = .streamEnd session.handle) (hat : At w.lib ⟨src.length, d, false⟩)
    {Q : Prog.Post Exn (World σ) Unit}
    (h : At (L c w.lib).2 ⟨src.length, d, true⟩ → Q.ok () (w.answered c (L c w.lib))) :
    Prog.wp (session.end_ L) Q w := by
  subst hc
  obtain ⟨hrc, hat'⟩ := hS.end_ w.lib d hat
  unfold Stream.end_
  rw [Prog.wp_bind, wp_ffi]
  apply wp_check
  · intro _
    exact h hat'
  · intro e w' hne
    exact absurd hrc hne

/-- A read that the library answers with success. -/
theorem wp_read {dst : Bytes} {c : FfiCall}
    (hc : c = .streamRead session.handle dst.length) (hrc : (L c w.lib).1.rc = 0)
    {Q : Prog.Post Exn (World σ) (StreamRead × Bytes)}
    (h : Q.ok ({ n := (L c w.lib).1.len, finished := (L c w.lib).1.fin ≠ 0 },
      Buffer.overlay dst (L c w.lib).1.out) (w.answered c (L c w.lib))) :
    Prog.wp (session.read L dst) Q w := by
  subst hc
  unfold Stream.read
  rw [Prog.wp_bind, wp_ffi]
  show Prog.wp _ _ _
  rw [Prog.wp_bind]
  apply wp_check
  · intro _
    exact h
  · intro e w' hne
    exact absurd hrc hne

end Calls

/-! ## §4. What is delivered before the end.

    A client with `room` bytes that reads until it is given nothing, and
    does so after every slice of at most `kPumpBuf` bytes that it writes. -/

section Early

variable {σ : Type} (L : Lib σ) (h : Handle)

/-- The room left, and the session, after reading until a read gives nothing
or there is no room left. -/
def readOut (room : Nat) (s : σ) : Nat × σ :=
  if room = 0 then (0, s)
  else if (L (.streamRead h room) s).1.len = 0 then (room, (L (.streamRead h room) s).2)
  else readOut (room - (L (.streamRead h room) s).1.len) (L (.streamRead h room) s).2
termination_by room

/-- The room left, and the session, after writing the source from `i` on. -/
def fedOut (src : Bytes) (i room : Nat) (s : σ) : Nat × σ :=
  if i < src.length then
    let slice := min (src.length - i) kPumpBuf
    let a := L (.streamWrite h ((src.drop i).take slice)) s
    -- the reads that follow this write
    let (room', s') := readOut L h room a.2
    if room' = 0 then (0, s') else fedOut src (i + slice) room' s'
  else (room, s)
termination_by src.length - i
decreasing_by
  have : 0 < kPumpBuf := by decide
  omega

variable {L} {h}

theorem readOut_full (s : σ) : readOut L h 0 s = (0, s) := by
  unfold readOut
  rw [if_pos rfl]

theorem readOut_step {room : Nat} {s : σ} {a : Reply × σ} (hroom : 0 < room)
    (ha : a = L (.streamRead h room) s) :
    readOut L h room s =
      if a.1.len = 0 then (room, a.2) else readOut L h (room - a.1.len) a.2 := by
  subst ha
  conv => lhs; unfold readOut
  rw [if_neg (by omega)]

theorem fedOut_done {src : Bytes} {i room : Nat} (s : σ) (hi : src.length ≤ i) :
    fedOut L h src i room s = (room, s) := by
  unfold fedOut
  rw [if_neg (by omega)]

theorem fedOut_step {src : Bytes} {i room k : Nat} {s : σ} {R : Nat × σ} (hi : i < src.length)
    (hk : k = min (src.length - i) kPumpBuf)
    (hR : R = readOut L h room (L (.streamWrite h ((src.drop i).take k)) s).2) :
    fedOut L h src i room s =
      if R.1 = 0 then (0, R.2) else fedOut L h src (i + k) R.1 R.2 := by
  subst hk hR
  conv => lhs; unfold fedOut
  rw [if_pos hi]

end Early

/-! ## §5. A session for every schedule. -/

/-- A session that has its whole output in a spool, and a plan of how many
bytes each read is given at most. -/
structure Spool where
  spool : Bytes
  plan : List Nat
  ended : Bool := false
  deriving DecidableEq, Repr

/-- How many bytes a read takes: after the end at least one is always
available. -/
def Spool.available (s : Spool) (cap : Nat) : Nat :=
  min (min cap s.spool.length) (if s.ended then max 1 (s.plan.headD 0) else s.plan.headD 0)

/-- The machine that serves the spool on every session handle. -/
def spoolLib : Lib Spool := fun c s =>
  match c with
  | .encryptStreamBegin _ | .decryptStreamBegin _ => ({ rc := 0, handle := 1 }, s)
  | .streamEnd _ => ({ rc := 0 }, { s with ended := true })
  | .streamRead _ cap =>
      let n := s.available cap
      ({ rc := 0, len := n, out := s.spool.take n
         fin := if s.ended ∧ n = s.spool.length then 1 else 0 },
       { s with spool := s.spool.drop n, plan := s.plan.tail })
  | _ => ({ rc := 0 }, s)

/-- The spool holds the rest of the output. -/
structure SpoolAt (O : Bytes) (s : Spool) (p : Phase) : Prop where
  spool : s.spool = O.drop p.delivered
  within : p.delivered ≤ O.length
  ended : s.ended = p.ended

/-- Whatever the output and whatever the plan, the spool is a conforming
session. -/
theorem spool_conforming (h : Handle) (src O : Bytes) :
    Conforming spoolLib h src O (SpoolAt O) := by
  have hlen : ∀ (s : Spool) d, s.spool = O.drop d → d ≤ O.length →
      s.spool.length = O.length - d := by
    intro s d hs hd
    rw [hs, List.length_drop]
  -- a read takes the front off the spool, whatever the phase
  have hnext : ∀ (s : Spool) i d e cap, SpoolAt O s ⟨i, d, e⟩ →
      SpoolAt O (spoolLib (.streamRead h cap) s).2
        ⟨i, d + (spoolLib (.streamRead h cap) s).1.len, e⟩ := by
    intro s i d e cap hat
    have hd := hlen s d hat.spool hat.within
    refine ⟨?_, ?_, hat.ended⟩
    · show s.spool.drop (s.available cap) = O.drop (d + s.available cap)
      rw [hat.spool, List.drop_drop]
    · show d + s.available cap ≤ O.length
      have : d ≤ O.length := hat.within
      unfold Spool.available
      omega
  constructor
  -- a write leaves the spool, the end only marks it
  · intro s i d n hat _ _
    exact ⟨rfl, hat.spool, hat.within, hat.ended⟩
  · intro s d hat
    exact ⟨rfl, hat.spool, hat.within, rfl⟩
  · intro s i d e cap hat _
    have hd := hlen s d hat.spool hat.within
    refine ⟨rfl, ?_, ?_, ?_⟩
    · show s.available cap ≤ cap
      unfold Spool.available
      omega
    · exact (hnext s i d e cap hat).within
    · show (s.spool.take (s.available cap)).take (s.available cap) = _
      rw [List.take_take, Nat.min_self, hat.spool]
      rfl
  · intro s i d cap hat _
    refine ⟨?_, hnext s i d false cap hat⟩
    have he : s.ended = false := hat.ended
    show (if s.ended = true ∧ _ then (1 : Int) else 0) = 0
    rw [he]
    simp
  · intro s i d cap hat hcap
    have hd := hlen s d hat.spool hat.within
    have he : s.ended = true := hat.ended
    have hle : d ≤ O.length := hat.within
    -- the flag is set exactly when the read empties the spool
    have hfin : (spoolLib (.streamRead h cap) s).1.fin ≠ 0 ↔
        d + (spoolLib (.streamRead h cap) s).1.len = O.length := by
      show (if s.ended = true ∧ s.available cap = s.spool.length then (1 : Int) else 0) ≠ 0 ↔
        d + s.available cap = O.length
      by_cases hall : s.available cap = s.spool.length
      · rw [if_pos ⟨he, hall⟩]
        omega
      · rw [if_neg (fun hc => hall hc.2)]
        omega
    refine ⟨hfin, ?_⟩
    intro hmore
    refine ⟨?_, hnext s i d true cap hat⟩
    -- no end reported: something is left, so a read that may take one byte does
    have hrest : d + s.available cap ≠ O.length := by
      intro hall
      exact hfin.mpr hall hmore
    show 0 < s.available cap
    unfold Spool.available at hrest ⊢
    rw [he] at hrest ⊢
    simp only [if_true] at hrest ⊢
    omega

end ItbCpp
