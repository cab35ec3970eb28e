/-
  ItbCpp.Eitb.Passes
  ──────────────────
  **WHAT THE CIPHER ENTRIES RETURN.**

  The entries of the binding that `eitb` calls, over a library whose calls
  may fail: the pumps, each pass of which drives a session of its own, and
  the message entries with their second attempt.  Whatever is refused on the
  way, what they return is all of what the library made of the source.

    • `wp_pumpInto_serves` — the pump over a session that may fail,
    • `served_restarts` — a pass too small, and another one after it,
    • `wp_cipherCall_delivers` — the message entries.
-/
import ItbCpp.PumpAlloc
import ItbCpp.Loop.Startup
import ItbCpp.Loop.Roundtrip

namespace ItbCpp.Eitb

open Loop (Kept allows_kept lenient_kept returning beginCall Opens Returns)

/-! ## §1. The pump. -/

section Pumping

variable {σ : Type} {L : Lib σ} {session : Stream} {src dst : Bytes} {Made : Bytes → Prop}
  {At : σ → Course → Prop} {w : World σ} {p : Pump σ}

/-- The pump at a point of its run, over a session that is where the two
cursors say. -/
structure Coursing (L : Lib σ) (h : Handle) (src dst : Bytes) (At : σ → Course → Prop)
    (w : World σ) (ended : Bool) (p : Pump σ) : Prop where
  driving : ∃ evs, Driving L h src dst w ended evs p
  course : At p.world.lib ⟨p.offset, p.dst.take p.used, ended⟩

theorem Coursing.start (hat : At w.lib ⟨0, [], false⟩) :
    Coursing L session.handle src dst At w false { world := w, dst := dst } :=
  ⟨⟨[], .start⟩, hat⟩

/-- What a read leaves: the session a piece further, or with the end reported,
all that it made. -/
structure Drained (L : Lib σ) (h : Handle) (src dst : Bytes) (Made : Bytes → Prop)
    (At : σ → Course → Prop) (w : World σ) (ended : Bool) (offset : Nat) (r : StreamRead)
    (p : Pump σ) : Prop where
  offset : p.offset = offset
  more : (ended = true → r.finished = false) → Coursing L h src dst At w ended p
  last : ended = true → r.finished = true → Made (p.dst.take p.used)

theorem wp_drainOne_serves (hS : Serves L session.handle src Made At) {e : Bool}
    (hp : Coursing L session.handle src dst At w e p) :
    Prog.wp (drainOne L session)
      ⟨Drained L session.handle src dst Made At w e p.offset, fun _ _ => True, fun _ => True⟩
      p := by
  obtain ⟨⟨evs, hdrive⟩, hat⟩ := hp
  refine wp_drainOne_any hdrive rfl (fun _ => trivial) (fun hlt hrc hnext => ?_)
    fun _ _ _ _ => trivial
  have hcap : 0 < dst.length - p.used := by omega
  obtain ⟨hfits, hlong⟩ := hS.read _ _ _ _ _ hat hcap hrc
  have hsize := hdrive.size
  -- the bytes land behind those that were there
  have htake : (p.drained (.streamRead session.handle (dst.length - p.used))
      (L (.streamRead session.handle (dst.length - p.used)) p.world.lib)).dst.take
        (p.used + (L (.streamRead session.handle (dst.length - p.used)) p.world.lib).1.len) =
      p.dst.take p.used ++ (L (.streamRead session.handle (dst.length - p.used))
        p.world.lib).1.out.take
        (L (.streamRead session.handle (dst.length - p.used)) p.world.lib).1.len :=
    Buffer.take_add_overlayAt (by omega) hlong
  refine ⟨rfl, fun hmore => ⟨⟨_, hnext⟩, ?_⟩, fun he hfin => ?_⟩
  · have hgoes : e = true →
        (L (.streamRead session.handle (dst.length - p.used)) p.world.lib).1.fin = 0 := by
      intro he
      simpa using hmore he
    have hmoved := hS.more _ _ _ _ _ hat hcap hrc hgoes
    rw [Pump.drained_offset, Pump.drained_used, htake]
    exact hmoved
  · subst he
    rw [Pump.drained_used, htake]
    exact hS.last _ _ _ _ hat hcap hrc (by simpa using hfin)

theorem wp_feedOne_serves (hS : Serves L session.handle src Made At)
    (hp : Coursing L session.handle src dst At w false p) (hmore : p.offset < src.length) :
    Prog.wp (feedOne L session src)
      ⟨fun _ q => Coursing L session.handle src dst At w false q, fun _ _ => True,
        fun _ => True⟩ p := by
  obtain ⟨⟨evs, hdrive⟩, hat⟩ := hp
  obtain ⟨hpos, hle, -, -⟩ := hdrive.nextSlice hmore
  refine wp_feedOne_any hdrive hmore rfl (fun hnext => ⟨⟨_, hnext⟩, ?_⟩) fun _ _ _ => trivial
  have hrc : (L (.streamWrite session.handle ((src.drop p.offset).take (p.slice src)))
      p.world.lib).1.rc = 0 :=
    hnext.steady _ (List.mem_append_right _ (List.mem_singleton.mpr rfl)) rfl
  exact hS.write _ _ _ _ hat hpos hle hrc

theorem wp_drainAvailable_serves (hS : Serves L session.handle src Made At)
    (hp : Coursing L session.handle src dst At w false p) (fuel : Nat) :
    Prog.wp (drainAvailable L session fuel)
      ⟨fun _ q => Coursing L session.handle src dst At w false q, fun _ _ => True,
        fun _ => True⟩ p := by
  unfold drainAvailable
  refine Prog.wp_loop_inv (Coursing L session.handle src dst At w false) (fun q hq => ?_)
    (fun _ _ => trivial) fuel hp
  rw [Prog.wp_bind]
  refine (wp_drainOne_serves hS hq).mono (fun r q' hq' => ?_) (fun _ _ h => h) fun _ h => h
  have hgoes := hq'.more nofun
  dsimp only
  rw [Prog.wp_pure]
  -- another pass, or the end of the loop
  cases decide (r.n ≠ 0) with
  | true => exact hgoes
  | false => exact hgoes

theorem wp_drainFinished_serves (hS : Serves L session.handle src Made At)
    (hp : Coursing L session.handle src dst At w true p) (fuel : Nat) :
    Prog.wp (drainFinished L session fuel)
      ⟨fun _ q => Made (q.dst.take q.used), fun _ _ => True, fun _ => True⟩ p := by
  unfold drainFinished
  refine Prog.wp_loop_inv (Coursing L session.handle src dst At w true) (fun q hq => ?_)
    (fun _ _ => trivial) fuel hp
  rw [Prog.wp_bind]
  refine (wp_drainOne_serves hS hq).mono (fun r q' hq' => ?_) (fun _ _ h => h) fun _ h => h
  dsimp only
  rw [Prog.wp_pure]
  -- the flag leaves the loop
  cases hfin : r.finished with
  | true => exact hq'.last rfl hfin
  | false => exact hq'.more fun _ => hfin

/-- **The pump over a session that may fail**: what it returns is all that the
session made. -/
theorem wp_pumpInto_serves (hS : Serves L session.handle src Made At)
    (hat : At w.lib ⟨0, [], false⟩) (dst : Bytes) (fuel : Nat) :
    Prog.wp (pumpInto L session src fuel)
      ⟨fun n p => Made (p.dst.take n), fun _ _ => True, fun _ => True⟩
      { world := w, dst := dst } := by
  unfold pumpInto
  rw [Prog.wp_bind]
  -- the feed loop leaves the session with all of the source
  refine Prog.wp.mono (Q := ⟨fun _ q => Coursing L session.handle src dst At w false q ∧
    q.offset = src.length, fun _ _ => True, fun _ => True⟩) ?_ (fun _ q hq => ?_)
    (fun _ _ h => h) fun _ h => h
  · refine Prog.wp_while_inv (Coursing L session.handle src dst At w false) (fun q hq hcond => ?_)
      (fun q hq hcond => ?_) (fun _ _ => trivial) fuel (Coursing.start hat)
    · rw [Prog.wp_bind]
      refine (wp_feedOne_serves hS hq (by simpa using hcond)).mono (fun _ q' hq' => ?_)
        (fun _ _ h => h) fun _ h => h
      exact wp_drainAvailable_serves hS hq' fuel
    · obtain ⟨evs, hdrive⟩ := hq.driving
      have hle := hdrive.offset
      refine ⟨hq, ?_⟩
      simp only [decide_eq_false_iff_not, Nat.not_lt] at hcond
      omega
  · obtain ⟨⟨⟨evs, hdrive⟩, hcourse⟩, hall⟩ := hq
    dsimp only
    rw [Prog.wp_bind]
    refine wp_end_any hdrive hall rfl (fun hnext => ?_) fun _ _ _ => trivial
    have hrc : (L (.streamEnd session.handle) q.world.lib).1.rc = 0 :=
      hnext.steady _ (List.mem_append_right _ (List.mem_singleton.mpr rfl)) rfl
    rw [hall] at hcourse
    have hended := hS.end_ _ _ hcourse hrc
    dsimp only
    rw [Prog.wp_bind]
    refine (wp_drainFinished_serves hS ⟨⟨_, hnext⟩, ?_⟩ fuel).mono (fun _ _ h => h)
      (fun _ _ h => h) fun _ h => h
    rw [Pump.fed_offset, hall]
    exact hended

end Pumping

/-! ## §2. The allocating pump. -/

/-- A preorder that allows all that an allocating pump asks of the library. -/
structure AllowsPumps {σ : Type} (L : Lib σ) (R : World σ → World σ → Prop) : Prop
    extends Lenient L R where
  begin_ : ∀ encrypt h, Allows L R (beginCall encrypt h)
  session : ∀ c x, FfiCall.session c = some x → Allows L R c
  adopt : ∀ h (w : World σ), R w (w.log (.adopt h))

/-- The begin of a pump on the Pipeline. -/
def beginOf (encrypt : Bool) (pipe : Pipeline) : BeginFn :=
  if encrypt then .encrypt pipe else .decrypt pipe

section Alloc

variable {σ : Type} {L : Lib σ} {junk : Nat → Nat → UInt8} {encrypt : Bool} {pipe : Pipeline}
  {src : Bytes} {fuel left cap : Nat} {w : World σ} {ts : List (Pass σ)} {t : Pass σ}
  {res : Prog.Result Exn (World σ) Bytes}

/-- A begin is one call, and its code decides. -/
theorem run_beginOf (encrypt : Bool) (pipe : Pipeline) : ∃ what : String,
    (beginOf encrypt pipe).run L = (do
      let r ← ffi L (beginCall encrypt pipe.handle)
      check L r.rc what
      emit (.adopt r.handle)
      pure ({ handle := r.handle } : Stream)) := by
  cases encrypt with
  | true => exact ⟨"Pipeline::encrypt_stream_begin", rfl⟩
  | false => exact ⟨"Pipeline::decrypt_stream_begin", rfl⟩

/-- A session that is begun is the one of the library's answer. -/
theorem begun_ok {session : Stream} {w₁ : World σ}
    (h : (beginOf encrypt pipe).run L w = .ok session w₁) :
    let a := L (beginCall encrypt pipe.handle) w.lib
    a.1.rc = 0 ∧ session.handle = a.1.handle ∧ w₁.lib = a.2 := by
  obtain ⟨what, hrun⟩ := run_beginOf (L := L) encrypt pipe
  have hwp : Prog.wp ((beginOf encrypt pipe).run L)
      ⟨fun session w₁ => (L (beginCall encrypt pipe.handle) w.lib).1.rc = 0 ∧
        session.handle = (L (beginCall encrypt pipe.handle) w.lib).1.handle ∧
        w₁.lib = (L (beginCall encrypt pipe.handle) w.lib).2,
        fun _ _ => True, fun _ => True⟩ w := by
    rw [hrun, Prog.wp_bind, wp_ffi]
    show Prog.wp _ _ _
    rw [Prog.wp_bind]
    refine wp_check _ _ (fun hrc => ?_) fun _ _ _ _ _ => trivial
    exact ⟨hrc, rfl, rfl⟩
  exact hwp.of_ok h

theorem AllowsPumps.onSession {R : World σ → World σ → Prop} (hR : AllowsPumps L R)
    (x : Handle) : AllowsSession L R x where
  toLenient := hR.toLenient
  write _ := hR.session _ x rfl
  end_ := hR.session _ x rfl
  read _ := hR.session _ x rfl

section Within

variable {R : World σ → World σ → Prop} [IsPreorder (World σ) R]

theorem within_begin (hR : AllowsPumps L R) (encrypt : Bool) (pipe : Pipeline) :
    Prog.Within R ((beginOf encrypt pipe).run L) := by
  obtain ⟨what, hrun⟩ := run_beginOf (L := L) encrypt pipe
  rw [hrun]
  refine .bind (within_ffi (hR.begin_ _ _)) fun r => ?_
  refine .bind (within_check hR.toLenient _ _) fun _ => ?_
  exact .bind (within_emit (hR.adopt _)) fun _ => .pure _

/-- What a pass does to the world: up to its begin, while it stands and once it
is left. -/
theorem within_pass (hR : AllowsPumps L R)
    (ht : t.MadeFrom L junk ((beginOf encrypt pipe).run L) src fuel w) :
    R w t.begun ∧ R w t.result.state.world ∧ R w (t.after L) := by
  obtain ⟨hb, hp⟩ := ht
  have hbegun : R w t.begun := by
    have hbegin := within_begin hR encrypt pipe w
    rw [hb] at hbegin
    exact hbegin
  have hpumped : R w t.result.state.world := by
    have hpump : R t.begun t.result.state.world := by
      rw [← hp]
      exact within_pumpInto (hR.onSession t.session.handle) src fuel
        { world := t.begun, dst := uninit junk t.cap }
    exact trans_of R hbegun hpump
  refine ⟨hbegun, hpumped, ?_⟩
  unfold Pass.after Pump.released
  by_cases hh : t.session.handle ≠ 0
  · rw [if_pos hh]
    have hfreed := hR.session (.streamFree t.session.handle) _ rfl t.result.state.world
    exact trans_of R hpumped (trans_of R hfreed (hR.dealloc _ _))
  · rw [if_neg hh]
    exact trans_of R hpumped (hR.dealloc _ _)

/-- So does the whole run. -/
theorem within_restarts (hR : AllowsPumps L R)
    (h : Restarts L junk ((beginOf encrypt pipe).run L) src fuel left cap w ts res) :
    R w res.state := by
  induction h with
  | @notBegun left cap w e w₁ hb =>
      have hbegin := within_begin hR encrypt pipe w
      rw [hb] at hbegin
      exact trans_of R hbegin (hR.dealloc _ _)
  | returned ht _ => exact (within_pass hR ht).2.2
  | failed ht _ => exact (within_pass hR ht).2.2
  | gaveUp ht _ _ => exact (within_pass hR ht).2.2
  | again ht _ _ _ ih => exact trans_of R (within_pass hR ht).2.2 ih
  | running ht hres =>
      have hstands := (within_pass hR ht).2.1
      rw [hres] at hstands
      exact hstands

end Within

variable {K : Type} {key : σ → Handle → Option K} {decode : Bytes → Option K} {κ : K}
  {Made : Bytes → Prop}

/-- The calls of a pump change no Pipeline. -/
theorem allowsPumps_kept (hL : KeyedLib L key decode) : AllowsPumps L (Kept key) where
  toLenient := lenient_kept hL
  begin_ encrypt h := by
    refine allows_kept hL ?_
    cases encrypt <;> rfl
  session c x hx := by
    refine allows_kept hL ?_
    cases c <;> first | rfl | cases hx
  adopt _ _ _ _ h := h

/-- **A run of passes over a Pipeline with the keying `κ`**: whatever was
refused on the way, what is returned is all that a session made of the
source. -/
theorem served_restarts (hL : KeyedLib L key decode)
    (hO : Opens L key encrypt pipe.handle κ src (fun _ => Made) 0 False)
    (h : Restarts L junk ((beginOf encrypt pipe).run L) src fuel left cap w ts res) :
    key w.lib pipe.handle = some κ → ∀ bytes w', res = .ok bytes w' → Made bytes := by
  induction h with
  | @returned left w n p t ht hres =>
      intro hκ bytes w' hok
      injection hok with hbytes
      obtain ⟨hrc, hsession, hlib⟩ := begun_ok ht.1
      obtain ⟨-, At, hS, -, hat⟩ := (hO w.lib hκ).ok hrc
      rw [← hsession] at hS
      rw [← hlib] at hat
      have hrun := wp_pumpInto_serves hS hat (uninit junk t.cap) fuel
      rw [← hbytes]
      exact hrun.of_ok (ht.2.trans hres)
  | again ht _ _ _ ih =>
      intro hκ
      exact ih ((within_pass (allowsPumps_kept hL) ht).2.2 _ _ hκ)
  | _ =>
      intro _ bytes w' hok
      cases hok

/-- **`encrypt_stream_pump` and `decrypt_stream_pump`.** -/
theorem wp_streamPump (encrypt : Bool) (hL : KeyedLib L key decode)
    (hO : Opens L key encrypt pipe.handle κ src (fun _ => Made) 0 False)
    (hκ : key w.lib pipe.handle = some κ) (fuel : Nat) :
    Prog.wp (pumpAlloc L junk ((beginOf encrypt pipe).run L) src fuel)
      ⟨fun bytes w' => Made bytes ∧ Kept key w w', fun _ w' => Kept key w w',
        fun w' => Kept key w w'⟩ w := by
  obtain ⟨ts, hts⟩ : ∃ ts, Restarts L junk ((beginOf encrypt pipe).run L) src fuel 2
      (outCap src.length) w ts
      (pumpAlloc L junk ((beginOf encrypt pipe).run L) src fuel w) :=
    pumpAttempts_restarts _ 2 _ w
  have hkept := within_restarts (allowsPumps_kept hL) hts
  have hmade := served_restarts hL hO hts hκ
  unfold Prog.wp
  cases hres : pumpAlloc L junk ((beginOf encrypt pipe).run L) src fuel w with
  | ok bytes w' =>
      rw [hres] at hkept hmade
      exact ⟨hmade bytes w' rfl, hkept⟩
  | threw e w' =>
      rw [hres] at hkept
      exact hkept
  | running w' =>
      rw [hres] at hkept
      exact hkept

end Alloc

/-! ## §3. The message entries. -/

section Whole

variable {σ K : Type} {L : Lib σ} {key : σ → Handle → Option K} {decode : Bytes → Option K}
  {κ : K} {w : World σ} {junk : Nat → Nat → UInt8}

/-- **`encrypt_message` and `decrypt_message`**: what they return was delivered
by a call that the library answered well, in a state where the handle has the
keying it had. -/
theorem wp_cipherCall_delivers (hL : KeyedLib L key decode) (Made : Bytes → Prop) {h : Handle}
    (fn : CipherFn) (src : Bytes) (what : String) (hκ : key w.lib h = some κ)
    (hdeliver : ∀ n s, key s h = some κ → (L (fn.call h src n) s).1.rc = 0 →
      ∃ out, Delivered (L (fn.call h src n) s).1 n out ∧ Made out) :
    Prog.wp (cipherCall L junk h fn src what)
      ⟨fun bytes w' => Made bytes ∧ Kept key w w', fun _ w' => Kept key w w',
        fun _ => False⟩ w := by
  have hmutates : ∀ n, (fn.call h src n).mutates = none := by
    intro n
    cases fn <;> rfl
  have hallows := fun n => allows_kept hL (hmutates n)
  have hkept := (within_cipherCall (lenient_kept hL) junk hallows what).wp w
  have hmade : Prog.wp (cipherCall L junk h fn src what)
      ⟨fun bytes _ => Made bytes, fun _ _ => True, fun _ => False⟩ w := by
    obtain ⟨w₁, hreached, hreply, -, hbuf⟩ := lastAttempt_call (lenient_kept hL) hallows
      (outCap src.length) (uninit junk) id w
    rw [cipherCall_eq_retryOnce, Prog.wp_bind]
    refine wp_retryOnce (length_uninit junk) rfl (fun hv => ?_) fun _ _ _ _ => trivial
    -- the last attempt is one call, and it was answered well
    generalize lastAttempt L (fn.call h src) (outCap src.length) (uninit junk) id w = a at *
    obtain ⟨hrc, hroom⟩ := verdict_eq_none.mp hv
    rw [hreply] at hrc
    obtain ⟨out, hd, hmade⟩ := hdeliver _ _ (hreached h κ hκ) hrc
    have hlong : a.reply.len ≤ a.reply.out.length := by
      rw [hreply]
      exact hd.written
    have hspan : a.reply.len ≤ (uninit junk a.cap).length := by
      rw [length_uninit]
      exact hroom
    dsimp only
    rw [Prog.wp_pure, hbuf, Buffer.take_overlay hlong hspan, hreply, ← hd.bytes]
    exact hmade
  exact (hkept.and hmade).mono (fun _ _ h => ⟨h.2, h.1⟩) (fun _ _ h => h.1) fun _ h => h.2

end Whole

end ItbCpp.Eitb
