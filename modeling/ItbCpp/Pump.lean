/-
  ItbCpp.Pump
  ───────────
  **THE PUMP REFINES ITS SESSION.**

  `pump_into` over a conforming session, whatever the schedule.  One
  invariant (`Pumping`) ties the two cursors to what the session has been
  given and has given; it is carried through the feed loop, the drain loop
  inside it and the drain loop after the end.

    • `wp_pumpInto` — how every run ends,
    • `pumpInto_refines` — a destination of another size than the output,
    • `pumpInto_exact` — a destination of exactly that size.
-/
import ItbCpp.Session

namespace ItbCpp

/-! ## §1. The invariant. -/

/-- The inputs of a session that has been fed `fed`, and ended or not. -/
def FedWith (h : Handle) (fed : Bytes) (ended : Bool) (evs : List Event) : Prop :=
  ∃ slices : List Bytes, slices.flatten = fed ∧
    inputs h evs = slices.map Input.bytes ++ if ended then [.ended] else []

/-- The pump over a buffer of `n` bytes, at a point of its run from `w`: the
first `offset` bytes of the source are in and nothing else, the first `used`
bytes of the output are out and stand at the front of the buffer. -/
structure Pumping {σ : Type} (h : Handle) (src O : Bytes) (w : World σ) (n : Nat)
    (ended : Bool) (p : Pump σ) : Prop where
  size : p.dst.length = n
  room : p.used ≤ n
  within : p.used ≤ O.length
  offset : p.offset ≤ src.length
  filled : p.dst.take p.used = O.take p.used
  trace : ∃ evs, p.world.trace = w.trace ++ evs ∧ delivered h evs = O.take p.used ∧
    FedWith h (src.take p.offset) ended evs

theorem fedWith_write {h : Handle} {src : Bytes} {i n : Nat} {evs : List Event} {r : Reply}
    (hfed : FedWith h (src.take i) false evs) :
    FedWith h (src.take (i + n)) false
      (evs ++ [.call (.streamWrite h ((src.drop i).take n)) r]) := by
  obtain ⟨slices, hflat, hin⟩ := hfed
  refine ⟨slices ++ [(src.drop i).take n], ?_, ?_⟩
  · simp only [List.flatten_append, hflat, List.flatten_singleton]
    exact List.take_add.symm
  · rw [inputs_snoc, hin]
    simp [Event.input]

theorem fedWith_end {h : Handle} {fed : Bytes} {evs : List Event} {r : Reply}
    (hfed : FedWith h fed false evs) :
    FedWith h fed true (evs ++ [.call (.streamEnd h) r]) := by
  obtain ⟨slices, hflat, hin⟩ := hfed
  refine ⟨slices, hflat, ?_⟩
  rw [inputs_snoc, hin]
  simp [Event.input]

theorem fedWith_read {h g : Handle} {fed : Bytes} {e : Bool} {evs : List Event} {cap : Nat}
    {r : Reply} (hfed : FedWith h fed e evs) :
    FedWith h fed e (evs ++ [.call (.streamRead g cap) r]) := by
  obtain ⟨slices, hflat, hin⟩ := hfed
  refine ⟨slices, hflat, ?_⟩
  rw [inputs_snoc, hin]
  simp [Event.input]

section Steps

variable {σ : Type} {L : Lib σ} {session : Stream} {src O : Bytes} {At : σ → Phase → Prop}
  {w : World σ} {n : Nat} {p : Pump σ}

/-! ## §2. The steps. -/

/-- The length of the next slice. -/
def Pump.slice (p : Pump σ) (src : Bytes) : Nat := min (src.length - p.offset) kPumpBuf

/-- The pump after a call that was answered with `a`, with `k` more bytes
written. -/
def Pump.fed (p : Pump σ) (c : FfiCall) (a : Reply × σ) (k : Nat) : Pump σ :=
  { p with world := p.world.answered c a, offset := p.offset + k }

/-- The pump after a read that was answered with `a`. -/
def Pump.drained (p : Pump σ) (c : FfiCall) (a : Reply × σ) : Pump σ :=
  { p with
    world := p.world.answered c a
    dst := Buffer.overlayAt p.dst p.used a.1.out
    used := p.used + a.1.len }

@[simp] theorem Pump.fed_offset (c : FfiCall) (a : Reply × σ) (k : Nat) :
    (p.fed c a k).offset = p.offset + k := rfl

@[simp] theorem Pump.drained_used (c : FfiCall) (a : Reply × σ) :
    (p.drained c a).used = p.used + a.1.len := rfl

@[simp] theorem Pump.drained_offset (c : FfiCall) (a : Reply × σ) :
    (p.drained c a).offset = p.offset := rfl

@[simp] theorem Pump.drained_lib (c : FfiCall) (a : Reply × σ) :
    (p.drained c a).world.lib = a.2 := rfl

/-- What a write leaves of the invariant. -/
theorem Pumping.fed (hp : Pumping session.handle src O w n false p) {k : Nat} {a : Reply × σ}
    (hk : p.offset + k ≤ src.length) :
    Pumping session.handle src O w n false
      (p.fed (.streamWrite session.handle ((src.drop p.offset).take k)) a k) := by
  obtain ⟨evs, htrace, hout, hfed⟩ := hp.trace
  refine ⟨hp.size, hp.room, hp.within, hk, hp.filled,
    evs ++ [.call (.streamWrite session.handle ((src.drop p.offset).take k)) a.1], ?_, ?_, ?_⟩
  · show p.world.trace ++ _ = _
    rw [htrace, List.append_assoc]
  · rw [delivered_snoc, hout]
    exact List.append_nil _
  · rw [Pump.fed_offset]
    exact fedWith_write hfed

/-- What the end leaves of it. -/
theorem Pumping.ended (hp : Pumping session.handle src O w n false p) (a : Reply × σ) :
    Pumping session.handle src O w n true (p.fed (.streamEnd session.handle) a 0) := by
  obtain ⟨evs, htrace, hout, hfed⟩ := hp.trace
  refine ⟨hp.size, hp.room, hp.within, hp.offset, hp.filled,
    evs ++ [.call (.streamEnd session.handle) a.1], ?_, ?_, ?_⟩
  · show p.world.trace ++ _ = _
    rw [htrace, List.append_assoc]
  · rw [delivered_snoc, hout]
    exact List.append_nil _
  · rw [Pump.fed_offset]
    exact fedWith_end hfed

/-- What a read that delivers leaves of it. -/
theorem Pumping.drained {e : Bool} (hp : Pumping session.handle src O w n e p)
    {a : Reply × σ} (hd : Delivers O p.used (n - p.used) a.1) :
    Pumping session.handle src O w n e
      (p.drained (.streamRead session.handle (n - p.used)) a) := by
  have hsize := hp.size
  have hroom := hp.room
  have hfits := hd.fits
  have hwithin := hd.within
  obtain ⟨evs, htrace, hout, hfed⟩ := hp.trace
  -- a contract reply has the bytes it reports: the overlay writes them all
  have hlong : a.1.len ≤ a.1.out.length := by
    have hlen := congrArg List.length hd.bytes
    simp only [List.length_take, List.length_drop] at hlen
    omega
  have hnext : O.take (p.used + a.1.len) = O.take p.used ++ a.1.out.take a.1.len := by
    rw [hd.bytes, List.take_add]
  refine ⟨?_, ?_, hwithin, hp.offset, ?_,
    evs ++ [.call (.streamRead session.handle (n - p.used)) a.1], ?_, ?_, ?_⟩
  · rw [← hsize]
    exact Buffer.length_overlayAt ..
  · show p.used + a.1.len ≤ n
    omega
  · show (Buffer.overlayAt p.dst p.used a.1.out).take (p.used + a.1.len) =
      O.take (p.used + a.1.len)
    rw [Buffer.take_add_overlayAt (by omega) hlong, hp.filled, hnext]
  · show p.world.trace ++ _ = _
    rw [htrace, List.append_assoc]
  · show _ = O.take (p.used + a.1.len)
    rw [delivered_snoc, hout, hnext]
    simp [Event.output]
  · rw [Pump.drained_offset]
    exact fedWith_read hfed

/-- A slice is written: the offset moves on by its length. -/
theorem wp_feedOne (hS : Conforming L session.handle src O At)
    (hat : At p.world.lib ⟨p.offset, p.used, false⟩) (hmore : p.offset < src.length)
    {c : FfiCall} (hc : c = .streamWrite session.handle ((src.drop p.offset).take (p.slice src)))
    {Q : Prog.Post Exn (Pump σ) Unit}
    (h : At (L c p.world.lib).2 ⟨p.offset + p.slice src, p.used, false⟩ →
      Q.ok () (p.fed c (L c p.world.lib) (p.slice src))) :
    Prog.wp (feedOne L session src) Q p := by
  -- a slice of `kPumpBuf` is not empty, so a write makes progress
  have hbuf : 0 < kPumpBuf := by decide
  have hpos : 0 < p.slice src := by unfold Pump.slice; omega
  have hle : p.offset + p.slice src ≤ src.length := by unfold Pump.slice; omega
  subst hc
  unfold feedOne
  rw [Prog.wp_bind, Prog.wp_get]
  show Prog.wp _ _ _
  rw [Prog.wp_bind, wp_onWorld]
  apply wp_write hS rfl hat hpos hle
  intro hat'
  exact h hat'

/-- A read: an exception when the buffer is full, the next bytes of the
output otherwise. -/
theorem wp_drainOne {e : Bool} (hS : Conforming L session.handle src O At)
    (hp : Pumping session.handle src O w n e p) (hat : At p.world.lib ⟨p.offset, p.used, e⟩)
    {c : FfiCall} (hc : c = .streamRead session.handle (n - p.used))
    {Q : Prog.Post Exn (Pump σ) StreamRead}
    (hfull : p.used = n → Q.threw (.invalidArgument dstTooSmall) p)
    (hread : p.used < n → Delivers O p.used (n - p.used) (L c p.world.lib).1 →
      Q.ok { n := (L c p.world.lib).1.len, finished := (L c p.world.lib).1.fin ≠ 0 }
        (p.drained c (L c p.world.lib))) :
    Prog.wp (drainOne L session) Q p := by
  have hsize := hp.size
  have hroom := hp.room
  unfold drainOne
  rw [Prog.wp_bind, Prog.wp_get]
  show Prog.wp _ _ _
  -- the full buffer is noticed before the session is asked
  by_cases hf : p.used = p.dst.length
  · rw [if_pos hf]
    exact hfull (hf.trans hsize)
  · rw [if_neg hf]
    have hlt : p.used < n := by omega
    have hd : Delivers O p.used (n - p.used) (L c p.world.lib).1 := by
      rw [hc]
      exact hS.read p.world.lib p.offset p.used e (n - p.used) hat (by omega)
    have hcap : c = .streamRead session.handle (p.dst.drop p.used).length := by
      rw [hc, List.length_drop, hsize]
    rw [Prog.wp_bind, wp_onWorld]
    apply wp_read hcap hd.ok
    show Prog.wp _ _ _
    rw [Prog.wp_bind, Prog.wp_modify]
    -- the count is checked against the free tail before the cursor moves
    have hfits : ¬(L c p.world.lib).1.len > p.dst.length - p.used := by
      have := hd.fits
      omega
    show Prog.wp (if (L c p.world.lib).1.len > p.dst.length - p.used then _ else _) _ _
    rw [if_neg hfits]
    exact hread hlt hd

/-! ## §3. The loops. -/

/-- The drain loop after a write: it runs into the end of the buffer, or it
is given nothing while there is room. -/
theorem wp_drainAvailable (hS : Conforming L session.handle src O At)
    (hp : Pumping session.handle src O w n false p)
    (hat : At p.world.lib ⟨p.offset, p.used, false⟩) {fuel : Nat} (hfuel : n < fuel)
    {R : Nat × σ} (hR : R = readOut L session.handle (n - p.used) p.world.lib)
    {Q : Prog.Post Exn (Pump σ) Unit}
    (hfull : ∀ p', Pumping session.handle src O w n false p' → p'.used = n → R.1 = 0 →
      Q.threw (.invalidArgument dstTooSmall) p')
    (hempty : ∀ p', Pumping session.handle src O w n false p' →
      At p'.world.lib ⟨p'.offset, p'.used, false⟩ → p'.offset = p.offset → p'.used < n →
      R = (n - p'.used, p'.world.lib) → Q.ok () p') :
    Prog.wp (drainAvailable L session fuel) Q p := by
  -- what is still to be read out does not change from one pass to the next
  let I : Pump σ → Prop := fun q =>
    Pumping session.handle src O w n false q ∧ At q.world.lib ⟨q.offset, q.used, false⟩ ∧
      q.offset = p.offset ∧ R = readOut L session.handle (n - q.used) q.world.lib
  unfold drainAvailable
  refine Prog.wp_loop_variant I (fun q => n - q.used) ?_ fuel ⟨hp, hat, rfl, hR⟩ (by omega)
  intro q hq
  obtain ⟨hp', hat', hoff, hR'⟩ := hq
  have hroom := hp'.room
  rw [Prog.wp_bind]
  simp only [Prog.wp_pure]
  apply wp_drainOne hS hp' hat' rfl
  · intro hf
    refine hfull q hp' hf ?_
    rw [hR', hf, Nat.sub_self, readOut_full]
  · intro hlt hd
    have hfits := hd.fits
    have hnext := (hS.readBefore q.world.lib q.offset q.used (n - q.used) hat' (by omega)).2
    rw [readOut_step (by omega) rfl] at hR'
    dsimp only
    -- a read of nothing leaves the loop, any other makes the tail shorter
    by_cases hnone : (L (.streamRead session.handle (n - q.used)) q.world.lib).1.len = 0
    · rw [if_pos hnone] at hR'
      rw [if_neg (by simp [hnone])]
      refine hempty _ (hp'.drained hd) hnext hoff ?_ ?_
      · simp only [Pump.drained_used]
        omega
      · rw [hR', Pump.drained_used, Pump.drained_lib, hnone]
        rfl
    · rw [if_neg hnone] at hR'
      rw [if_pos (by simp [hnone])]
      refine ⟨⟨hp'.drained hd, hnext, hoff, ?_⟩, ?_⟩
      · rw [hR', Pump.drained_used, Pump.drained_lib, Nat.sub_add_eq]
      · simp only [Pump.drained_used]
        omega

/-- The feed loop: it runs into the end of the buffer, or all of the source
is in. -/
theorem wp_feed (hS : Conforming L session.handle src O At)
    (hp : Pumping session.handle src O w n false p)
    (hat : At p.world.lib ⟨p.offset, p.used, false⟩) {fuel : Nat} (hn : n < fuel)
    (hsrc : src.length < fuel) {F : Nat × σ}
    (hF : F = fedOut L session.handle src p.offset (n - p.used) p.world.lib)
    {Q : Prog.Post Exn (Pump σ) Unit}
    (hfull : ∀ p', Pumping session.handle src O w n false p' → p'.used = n → F.1 = 0 →
      Q.threw (.invalidArgument dstTooSmall) p')
    (hfed : ∀ p', Pumping session.handle src O w n false p' →
      At p'.world.lib ⟨src.length, p'.used, false⟩ → p'.offset = src.length →
      F.1 = n - p'.used → Q.ok () p') :
    Prog.wp (Prog.while_ fuel (fun p => p.offset < src.length) do
      feedOne L session src
      drainAvailable L session fuel) Q p := by
  have hbuf : 0 < kPumpBuf := by decide
  let I : Pump σ → Prop := fun q =>
    Pumping session.handle src O w n false q ∧ At q.world.lib ⟨q.offset, q.used, false⟩ ∧
      F = fedOut L session.handle src q.offset (n - q.used) q.world.lib
  refine Prog.wp_while_variant I (fun q => src.length - q.offset) ?_ ?_ fuel ⟨hp, hat, hF⟩
    (by omega)
  · intro q hq hcond
    obtain ⟨hp', hat', hF'⟩ := hq
    have hmore : q.offset < src.length := by simpa using hcond
    have hle : q.offset + q.slice src ≤ src.length := by unfold Pump.slice; omega
    have hpos : 0 < q.slice src := by unfold Pump.slice; omega
    -- what this pass reads out, so that `fedOut` unfolds once
    obtain ⟨R, hR⟩ : ∃ R, R = readOut L session.handle (n - q.used)
      (L (.streamWrite session.handle ((src.drop q.offset).take (q.slice src)))
        q.world.lib).2 := ⟨_, rfl⟩
    rw [fedOut_step hmore rfl hR] at hF'
    rw [Prog.wp_bind]
    apply wp_feedOne hS hat' hmore rfl
    intro hat₁
    apply wp_drainAvailable hS (hp'.fed hle) hat₁ hn hR
    · intro p' hp₂ hf hzero
      refine hfull p' hp₂ hf ?_
      rw [hF', if_pos hzero]
    · intro p' hp₂ hat₂ hoff hlt hleft
      rw [Pump.fed_offset] at hoff
      have hroom : ¬R.1 = 0 := by
        rw [hleft]
        show ¬n - p'.used = 0
        omega
      rw [if_neg hroom] at hF'
      refine ⟨⟨hp₂, hat₂, ?_⟩, ?_⟩
      · rw [hF', hoff, hleft]
        rfl
      · rw [hoff]
        omega
  -- the loop ends with the offset at the end of the source
  · intro q hq hcond
    obtain ⟨hp', hat', hF'⟩ := hq
    have hdone : q.offset = src.length := by
      have := hp'.offset
      simp at hcond
      omega
    rw [fedOut_done _ (by omega)] at hF'
    exact hfed q hp' (hdone ▸ hat') hdone (by rw [hF'])

/-- The drain loop after the end: it runs into the end of the buffer only
when the output does not fit, or when it had nothing left to read. -/
theorem wp_drainFinished (hS : Conforming L session.handle src O At)
    (hp : Pumping session.handle src O w n true p)
    (hat : At p.world.lib ⟨p.offset, p.used, true⟩) (hoff : p.offset = src.length)
    {fuel : Nat} (hfuel : n < fuel) {Q : Prog.Post Exn (Pump σ) Unit}
    (hfull : ∀ p', Pumping session.handle src O w n true p' → p'.used = n →
      p'.offset = src.length → (n = O.length → p.used = n) →
      Q.threw (.invalidArgument dstTooSmall) p')
    (hdone : ∀ p', Pumping session.handle src O w n true p' → p'.used = O.length →
      p'.offset = src.length → p.used < n → Q.ok () p') :
    Prog.wp (drainFinished L session fuel) Q p := by
  -- once a read has not reported the end, something is left to deliver
  let I : Pump σ → Prop := fun q =>
    Pumping session.handle src O w n true q ∧ At q.world.lib ⟨q.offset, q.used, true⟩ ∧
      q.offset = src.length ∧ p.used ≤ q.used ∧ (q.used = O.length → q.used = p.used)
  unfold drainFinished
  refine Prog.wp_loop_variant I (fun q => n - q.used) ?_ fuel
    ⟨hp, hat, hoff, Nat.le_refl _, fun _ => rfl⟩ (by omega)
  intro q hq
  obtain ⟨hp', hat', hoff', hmono, hleft⟩ := hq
  rw [Prog.wp_bind]
  simp only [Prog.wp_pure]
  apply wp_drainOne hS hp' hat' rfl
  · intro hf
    refine hfull q hp' hf hoff' ?_
    intro hexact
    have := hleft (hf.trans hexact)
    omega
  · intro hlt hd
    have hfits := hd.fits
    obtain ⟨hfin, hmore⟩ :=
      hS.readAfter q.world.lib q.offset q.used (n - q.used) hat' (by omega)
    dsimp only
    -- the flag comes exactly with the last byte of the output
    by_cases hend : (L (.streamRead session.handle (n - q.used)) q.world.lib).1.fin = 0
    · obtain ⟨hpos, hnext⟩ := hmore hend
      rw [if_pos (by simp [hend])]
      refine ⟨⟨hp'.drained hd, hnext, hoff', ?_, ?_⟩, ?_⟩
      · rw [Pump.drained_used]
        omega
      · intro hall
        rw [Pump.drained_used] at hall
        exact absurd hend (hfin.mpr hall)
      · simp only [Pump.drained_used]
        omega
    · rw [if_neg (by simp [hend])]
      refine hdone _ (hp'.drained hd) ?_ hoff' (by omega)
      rw [Pump.drained_used]
      exact hfin.mp hend

/-! ## §4. The whole run. -/

/-- How a run of the pump from `w` into `n` bytes ends. -/
def pumpPost (L : Lib σ) (session : Stream) (src O : Bytes) (w : World σ) (n : Nat) :
    Prog.Post Exn (Pump σ) Nat where
  ok m p := m = O.length ∧ Pumping session.handle src O w n true p ∧ p.used = O.length ∧
    p.offset = src.length ∧ 0 < (fedOut L session.handle src 0 n w.lib).1
  threw x p := x = .invalidArgument dstTooSmall ∧ p.used = n ∧
    (∃ ended, Pumping session.handle src O w n ended p ∧
      (ended = true → p.offset = src.length)) ∧
    (n = O.length → (fedOut L session.handle src 0 n w.lib).1 = 0)
  running _ := False

/-- **How every run ends.**  Over a conforming session the pump returns the
whole output, or throws with the buffer full. -/
theorem wp_pumpInto (hS : Conforming L session.handle src O At) (w : World σ) (dst : Bytes)
    (hat : At w.lib ⟨0, 0, false⟩) {fuel : Nat} (hsrc : src.length < fuel)
    (hdst : dst.length < fuel) :
    Prog.wp (pumpInto L session src fuel) (pumpPost L session src O w dst.length)
      { world := w, dst := dst } := by
  -- the three loops one after another, each from where the last one ended
  have hstart : Pumping session.handle src O w dst.length false
      { world := w, dst := dst, used := 0, offset := 0 } := by
    refine ⟨rfl, Nat.zero_le _, Nat.zero_le _, Nat.zero_le _, rfl, [], ?_, rfl, [], ?_, rfl⟩
    · exact (List.append_nil _).symm
    · rfl
  unfold pumpInto
  rw [Prog.wp_bind]
  apply wp_feed hS hstart hat hdst hsrc rfl
  · intro p' hp' hf hzero
    exact ⟨rfl, hf, ⟨false, hp', by simp⟩, fun _ => hzero⟩
  · intro p₁ hp₁ hat₁ hoff₁ hleft
    have hroom : (fedOut L session.handle src 0 dst.length w.lib).1 = dst.length - p₁.used :=
      hleft
    show Prog.wp _ _ _
    rw [Prog.wp_bind, wp_onWorld]
    apply wp_end hS rfl hat₁
    intro hat₂
    show Prog.wp _ _ _
    rw [Prog.wp_bind]
    have hp₂ := hp₁.ended (L (.streamEnd session.handle) p₁.world.lib)
    apply wp_drainFinished hS hp₂ (hoff₁ ▸ hat₂) hoff₁ hdst
    · intro p' hp' hf hoff' hexact
      refine ⟨rfl, hf, ⟨true, hp', fun _ => hoff'⟩, ?_⟩
      intro hn
      have hused : p₁.used = dst.length := hexact hn
      show (fedOut L session.handle src 0 dst.length w.lib).1 = 0
      omega
    · intro p' hp' hall hoff' hlt
      have hused : p₁.used < dst.length := hlt
      refine ⟨hall, hp', hall, hoff', ?_⟩
      show 0 < (fedOut L session.handle src 0 dst.length w.lib).1
      omega

/-- What the pump puts into its session and takes out of it, when it returns:
all of the source and one end; all of the output. -/
theorem Pumping.whole (hp : Pumping session.handle src O w n true p)
    (hused : p.used = O.length) (hoff : p.offset = src.length) :
    p.dst.take O.length = O ∧ FedWith session.handle src true (w.since p.world) ∧
      delivered session.handle (w.since p.world) = O := by
  obtain ⟨evs, htrace, hout, hfed⟩ := hp.trace
  have hfilled := hp.filled
  rw [hused, List.take_length] at hfilled hout
  rw [hoff, List.take_length] at hfed
  rw [World.since_of_append htrace]
  exact ⟨hfilled, hfed, hout⟩

/-- When it throws with the buffer full: the buffer holds the output as far
as it goes, and the session was fed a prefix of the source, all of it if the
end was sent. -/
theorem Pumping.cut {ended : Bool} (hp : Pumping session.handle src O w n ended p)
    (hused : p.used = n) (hoff : ended = true → p.offset = src.length) :
    p.dst = O.take n ∧ delivered session.handle (w.since p.world) = p.dst ∧
      ∃ i, FedWith session.handle (src.take i) ended (w.since p.world) ∧
        (ended = true → src.take i = src) := by
  obtain ⟨evs, htrace, hout, hfed⟩ := hp.trace
  have hfilled := hp.filled
  rw [hused] at hfilled hout
  rw [List.take_of_length_le (Nat.le_of_eq hp.size)] at hfilled
  rw [World.since_of_append htrace]
  refine ⟨hfilled, by rw [hout, hfilled], p.offset, hfed, ?_⟩
  intro he
  rw [hoff he, List.take_length]

end Steps

/-! ## §5. The contract. -/

/-- A session with the output `O` that gives one byte to its first read and
nothing to the others before the end. -/
def eager (O : Bytes) : World Spool := ⟨{ spool := O, plan := [1] }, []⟩

theorem eager_at (O : Bytes) : SpoolAt O (eager O).lib ⟨0, 0, false⟩ :=
  ⟨rfl, Nat.zero_le _, rfl⟩

section Contract

variable {σ : Type} {L : Lib σ} {session : Stream} {src O : Bytes} {At : σ → Phase → Prop}

/-- A larger destination receives the whole output, after exactly the source
and one end have been put in. -/
theorem pumpInto_whole (hS : Conforming L session.handle src O At) (w : World σ)
    (dst : Bytes) (hat : At w.lib ⟨0, 0, false⟩) {fuel : Nat} (hsrc : src.length < fuel)
    (hdst : dst.length < fuel) (hlarge : O.length < dst.length) :
    ∃ p, pumpInto L session src fuel { world := w, dst := dst } = .ok O.length p ∧
      p.dst.take O.length = O ∧ FedWith session.handle src true (w.since p.world) ∧
      delivered session.handle (w.since p.world) = O := by
  have hrun := wp_pumpInto hS w dst hat hsrc hdst
  unfold Prog.wp at hrun
  cases hres : pumpInto L session src fuel { world := w, dst := dst } with
  | ok m p =>
      rw [hres] at hrun
      obtain ⟨rfl, hp, hused, hoff, -⟩ := hrun
      exact ⟨p, rfl, hp.whole hused hoff⟩
  -- throwing means a full buffer, which is larger than the output
  | threw x p =>
      rw [hres] at hrun
      obtain ⟨-, hused, ⟨e, hp, -⟩, -⟩ := hrun
      have := hp.within
      omega
  | running p =>
      rw [hres] at hrun
      exact hrun.elim

/-- **THE PUMP REFINES ITS SESSION.**  For every source, every conforming
session and every destination of another size than the output: a larger one
receives the whole output, after exactly the source and one end have been put
in; a smaller one receives the front of it, and the pump throws as soon as it
is full.  What the session has delivered stands in the destination, in order
and without loss or repetition. -/
theorem pumpInto_refines (hS : Conforming L session.handle src O At) (w : World σ)
    (dst : Bytes) (hat : At w.lib ⟨0, 0, false⟩) (fuel : Nat) (hsrc : src.length < fuel)
    (hdst : dst.length < fuel) :
    (O.length < dst.length →
      ∃ p, pumpInto L session src fuel { world := w, dst := dst } = .ok O.length p ∧
        p.dst.take O.length = O ∧ FedWith session.handle src true (w.since p.world) ∧
        delivered session.handle (w.since p.world) = O) ∧
    (dst.length < O.length →
      ∃ p, pumpInto L session src fuel { world := w, dst := dst } =
          .threw (.invalidArgument dstTooSmall) p ∧
        p.dst = O.take dst.length ∧ delivered session.handle (w.since p.world) = p.dst ∧
        ∃ i ended, FedWith session.handle (src.take i) ended (w.since p.world) ∧
          (ended = true → src.take i = src)) := by
  refine ⟨pumpInto_whole hS w dst hat hsrc hdst, ?_⟩
  have hrun := wp_pumpInto hS w dst hat hsrc hdst
  unfold Prog.wp at hrun
  intro hsmall
  cases hres : pumpInto L session src fuel { world := w, dst := dst } with
  -- returning means a whole output, which does not fit
  | ok m p =>
      rw [hres] at hrun
      obtain ⟨-, hp, hused, -, -⟩ := hrun
      have := hp.room
      omega
  | threw x p =>
      rw [hres] at hrun
      obtain ⟨rfl, hused, ⟨e, hp, hoff⟩, -⟩ := hrun
      obtain ⟨hfilled, hout, i, hfed, hall⟩ := hp.cut hused hoff
      exact ⟨p, rfl, hfilled, hout, i, e, hfed, hall⟩
  | running p =>
      rw [hres] at hrun
      exact hrun.elim

/-- At an eager session: a larger destination receives all of the output. -/
theorem pumpInto_refines_eager :
    ∃ p, pumpInto spoolLib ⟨1⟩ [5] 4 { world := eager [7, 8], dst := [0, 0, 0] } = .ok 2 p ∧
      p.dst.take 2 = [7, 8] := by
  obtain ⟨p, hrun, hfilled, -⟩ :=
    (pumpInto_refines (spool_conforming 1 [5] [7, 8]) (eager [7, 8]) [0, 0, 0] (eager_at _) 4
      (by decide) (by decide)).1 (by decide)
  exact ⟨p, hrun, hfilled⟩

/-- A destination that is too small is noticed before the end is sent: the
eager session is fed its source and never ended. -/
theorem pumpInto_throws_before_end :
    Conforming spoolLib 1 [5] [7, 8] (SpoolAt [7, 8]) ∧
      SpoolAt [7, 8] (eager [7, 8]).lib ⟨0, 0, false⟩ ∧
      ¬FedWith 1 [5] true ((eager [7, 8]).since
        (pumpInto spoolLib ⟨1⟩ [5] 4 { world := eager [7, 8], dst := [0] }).state.world) := by
  refine ⟨spool_conforming 1 [5] [7, 8], eager_at _, ?_⟩
  intro h
  obtain ⟨slices, -, hin⟩ := h
  have hrun : inputs 1 ((eager [7, 8]).since
      (pumpInto spoolLib ⟨1⟩ [5] 4 { world := eager [7, 8], dst := [0] }).state.world) =
      [.bytes [5]] := by rfl
  rw [hrun] at hin
  have hlast := congrArg List.getLast? hin
  simp at hlast

/-- **A DESTINATION OF EXACTLY THE OUTPUT'S SIZE** is filled and returned
exactly when the session has not delivered everything before the end: fed in
slices of `kPumpBuf` and read out after each, it must leave room.  Otherwise
the pump finds the destination full and throws. -/
theorem pumpInto_exact (hS : Conforming L session.handle src O At) (w : World σ)
    (dst : Bytes) (hat : At w.lib ⟨0, 0, false⟩) (hexact : dst.length = O.length) (fuel : Nat)
    (hsrc : src.length < fuel) (hdst : dst.length < fuel) :
    ((∃ p, pumpInto L session src fuel { world := w, dst := dst } = .ok O.length p ∧
        p.dst = O) ↔
      0 < (fedOut L session.handle src 0 O.length w.lib).1) ∧
    ((∃ p, pumpInto L session src fuel { world := w, dst := dst } =
        .threw (.invalidArgument dstTooSmall) p) ↔
      (fedOut L session.handle src 0 O.length w.lib).1 = 0) := by
  have hrun := wp_pumpInto hS w dst hat hsrc hdst
  unfold Prog.wp at hrun
  rw [← hexact]
  cases hres : pumpInto L session src fuel { world := w, dst := dst } with
  | ok m p =>
      rw [hres] at hrun
      obtain ⟨rfl, hp, hused, hoff, hleft⟩ := hrun
      have hfilled := (hp.whole hused hoff).1
      rw [List.take_of_length_le (Nat.le_of_eq (hp.size.trans hexact))] at hfilled
      refine ⟨⟨fun _ => hleft, fun _ => ⟨p, by rw [hexact], hfilled⟩⟩, ?_, ?_⟩
      · intro h
        obtain ⟨p', h⟩ := h
        cases h
      · intro h
        omega
  | threw x p =>
      rw [hres] at hrun
      obtain ⟨rfl, hused, -, hzero⟩ := hrun
      have hleft := hzero hexact
      refine ⟨⟨?_, ?_⟩, fun _ => hleft, fun _ => ⟨p, rfl⟩⟩
      · intro h
        obtain ⟨p', h, -⟩ := h
        cases h
      · intro h
        omega
  | running p =>
      rw [hres] at hrun
      exact hrun.elim

/-- At an eager session with two bytes: one is left for the end. -/
theorem pumpInto_exact_eager :
    ∃ p, pumpInto spoolLib ⟨1⟩ [5] 3 { world := eager [7, 8], dst := [0, 0] } = .ok 2 p ∧
      p.dst = [7, 8] := by
  refine ((pumpInto_exact (spool_conforming 1 [5] [7, 8]) (eager [7, 8]) [0, 0] (eager_at _)
    rfl 3 (by decide) (by decide)).1).mpr ?_
  have hread : readOut spoolLib 1 2 (eager [7, 8]).lib = (1, { spool := [8], plan := [] }) := by
    rw [readOut_step (by decide) rfl, if_neg (by decide), readOut_step (by decide) rfl,
      if_pos (by decide)]
    rfl
  show 0 < (fedOut spoolLib 1 [5] 0 2 (eager [7, 8]).lib).1
  rw [fedOut_step (s := (eager [7, 8]).lib) (by decide) rfl hread.symm, if_neg (by decide),
    fedOut_done _ (by decide)]
  decide

/-- An eager session with a single byte delivers it before the end: the pump
throws, although the destination has exactly the output's size. -/
theorem pumpInto_exact_throws :
    Conforming spoolLib 1 [5] [7] (SpoolAt [7]) ∧ SpoolAt [7] (eager [7]).lib ⟨0, 0, false⟩ ∧
      ∃ p, pumpInto spoolLib ⟨1⟩ [5] 3 { world := eager [7], dst := [0] } =
        .threw (.invalidArgument dstTooSmall) p :=
  ⟨spool_conforming 1 [5] [7], eager_at _, _, rfl⟩

end Contract

end ItbCpp
