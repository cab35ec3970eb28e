/-
  ItbCpp.PumpAlloc
  ────────────────
  **PUMPING AGAIN ON A FRESH SESSION** (`pump_alloc`).

  An allocating pump that finds its buffer too small starts over: another
  buffer, another session, all of the source.  A run is a derivation of
  `Restarts`, one constructor for each way a pass can end; what is said of
  it is read off the list of its passes.

    • `pumpAttempts_restarts` — every run is such a derivation,
    • `Restarts.lifecycle` — sessions are released before the next begins,
    • `pumpAlloc_restarts` — at most three passes, which capacities, what
      is returned, and when it does return.
-/
import ItbCpp.Adversary

namespace ItbCpp

/-! ## §1. One pass. -/

/-- What `pump_alloc` begins its sessions with. -/
inductive BeginFn where
  | encrypt (self : Pipeline)
  | decrypt (self : Pipeline)
  deriving DecidableEq, Repr

def BeginFn.run {σ : Type} (L : Lib σ) : BeginFn → Prog Exn (World σ) Stream
  | .encrypt self => self.encryptStreamBegin L
  | .decrypt self => self.decryptStreamBegin L

/-- A pass of the loop: its capacity, the session it began, the world it began
it in and how the pump over that session stands. -/
structure Pass (σ : Type) where
  cap : Nat
  session : Stream
  begun : World σ
  result : Prog.Result Exn (Pump σ) Nat

section Passes

variable {σ : Type} (L : Lib σ) (junk : Nat → Nat → UInt8)

/-- The session released, then the buffer given back. -/
def Pass.after (t : Pass σ) : World σ :=
  let p := t.result.state.released L t.session
  p.world.log (.dealloc p.dst)

/-- The pass was made from `w`: a session begun there and pumped all of the
source, into a fresh buffer. -/
def Pass.MadeFrom (begin_ : Prog Exn (World σ) Stream) (src : Bytes) (fuel : Nat) (w : World σ)
    (t : Pass σ) : Prop :=
  begin_ w = .ok t.session t.begun ∧
    pumpInto L t.session src fuel { world := t.begun, dst := uninit junk t.cap } = t.result

/-- **The passes of a run**, from the capacity `cap` on with `left` more passes
allowed after the first, and how the run stands. -/
inductive Restarts (begin_ : Prog Exn (World σ) Stream) (src : Bytes) (fuel : Nat) :
    Nat → Nat → World σ → List (Pass σ) → Prog.Result Exn (World σ) Bytes → Prop
  /-- no session: what the begin threw -/
  | notBegun {left cap w e w₁} (hb : begin_ w = .threw e w₁) :
      Restarts begin_ src fuel left cap w [] (.threw e (w₁.log (.dealloc (uninit junk cap))))
  /-- the output, cut out of the buffer -/
  | returned {left w n p} {t : Pass σ} (ht : t.MadeFrom L junk begin_ src fuel w)
      (hres : t.result = .ok n p) :
      Restarts begin_ src fuel left t.cap w [t] (.ok (p.dst.take n) (t.after L))
  /-- an `itb::Error` is not caught -/
  | failed {left w x p} {t : Pass σ} (ht : t.MadeFrom L junk begin_ src fuel w)
      (hres : t.result = .threw (.error x) p) :
      Restarts begin_ src fuel left t.cap w [t] (.threw (.error x) (t.after L))
  /-- the buffer was too small, and there is no larger one to try -/
  | gaveUp {left w m p} {t : Pass σ} (ht : t.MadeFrom L junk begin_ src fuel w)
      (hres : t.result = .threw (.invalidArgument m) p)
      (hlast : left = 0 ∨ t.cap > (sizeMod - 1) / 2) :
      Restarts begin_ src fuel left t.cap w [t] (.threw (.invalidArgument m) (t.after L))
  /-- the buffer was too small: once more with twice the capacity -/
  | again {left w m p ts res} {t : Pass σ} (ht : t.MadeFrom L junk begin_ src fuel w)
      (hres : t.result = .threw (.invalidArgument m) p) (hcap : t.cap ≤ (sizeMod - 1) / 2)
      (hrest : Restarts begin_ src fuel left (2 * t.cap) (t.after L) ts res) :
      Restarts begin_ src fuel (left + 1) t.cap w (t :: ts) res
  /-- the pump is still running -/
  | running {left w p} {t : Pass σ} (ht : t.MadeFrom L junk begin_ src fuel w)
      (hres : t.result = .running p) :
      Restarts begin_ src fuel left t.cap w [t] (.running p.world)

end Passes

section OnePass

variable {σ : Type} {L : Lib σ} {junk : Nat → Nat → UInt8} {begin_ : Prog Exn (World σ) Stream}
  {src : Bytes} {fuel : Nat} {last : Bool} {w : World σ} {t : Pass σ}

/-- Giving the buffer back is one event. -/
theorem release_buffer (p : Pump σ) :
    (do let p ← Prog.get
        Pump.onWorld (emit (.dealloc p.dst)) : Prog Exn (Pump σ) Unit) p =
      .ok () { p with world := p.world.log (.dealloc p.dst) } := rfl

/-- The scopes of a pass, left one after the other: the session, then the
buffer. -/
theorem scope_apply {session : Stream} {w₁ : World σ} (hb : begin_ w = .ok session w₁)
    (buf : Bytes) (f : Stream → Prog Exn (Pump σ) (Option Bytes))
    {res : Prog.Result Exn (Pump σ) (Option Bytes)}
    (hres : f session { world := w₁, dst := buf } = res) :
    Pump.withBuffer buf (do
        let session ← Pump.onWorld begin_
        Prog.ensuring (f session) (Pump.onWorld (session.destroy L))) w =
      ((res.leaving (Pump.released L session)).leaving
        fun p => { p with world := p.world.log (.dealloc p.dst) }).into Pump.world := by
  have hscope : ∀ g : Stream → Prog Exn (Pump σ) (Option Bytes),
      (Pump.onWorld begin_ >>= g) { world := w, dst := buf } =
        g session { world := w₁, dst := buf } := by
    intro g
    show Prog.bind (Pump.onWorld begin_) g _ = _
    unfold Prog.bind Pump.onWorld
    rw [Prog.zoom_apply, hb]
    rfl
  unfold Pump.withBuffer
  rw [Prog.zoom_apply, Prog.ensuring_apply release_buffer, hscope,
    Prog.ensuring_apply (destroy_apply L session), hres]

/-- A pump that returned: its output, cut out of the buffer. -/
theorem pumpAttempt_returned (ht : t.MadeFrom L junk begin_ src fuel w) {n : Nat} {p : Pump σ}
    (hres : t.result = .ok n p) :
    pumpAttempt L junk begin_ src fuel last t.cap w =
      .ok (some (p.dst.take n)) (t.after L) := by
  obtain ⟨hb, hp⟩ := ht
  rw [hres] at hp
  have hret : (do
      let n ← pumpInto L t.session src fuel
      let p ← Prog.get
      pure (some (p.dst.take n)) : Prog Exn (Pump σ) (Option Bytes))
      { world := t.begun, dst := uninit junk t.cap } = .ok (some (p.dst.take n)) p :=
    Prog.bind_ok hp
  unfold pumpAttempt Pass.after
  rw [scope_apply hb _ _ (Prog.handle_ok hret), hres]
  rfl

/-- An `itb::Error` of the pump goes through. -/
theorem pumpAttempt_failed (ht : t.MadeFrom L junk begin_ src fuel w) {x : Error} {p : Pump σ}
    (hres : t.result = .threw (.error x) p) :
    pumpAttempt L junk begin_ src fuel last t.cap w = .threw (.error x) (t.after L) := by
  obtain ⟨hb, hp⟩ := ht
  rw [hres] at hp
  unfold pumpAttempt Pass.after
  rw [scope_apply hb _ _ (Prog.handle_threw (Prog.bind_threw hp)), hres]
  rfl

/-- A full buffer goes through when there is no larger one to try. -/
theorem pumpAttempt_gaveUp (ht : t.MadeFrom L junk begin_ src fuel w) {msg : Bytes} {p : Pump σ}
    (hres : t.result = .threw (.invalidArgument msg) p)
    (hlast : last = true ∨ t.cap > (sizeMod - 1) / 2) :
    pumpAttempt L junk begin_ src fuel last t.cap w =
      .threw (.invalidArgument msg) (t.after L) := by
  obtain ⟨hb, hp⟩ := ht
  rw [hres] at hp
  unfold pumpAttempt Pass.after
  rw [scope_apply hb _ _ (Prog.handle_threw (Prog.bind_threw hp)), hres]
  simp only [if_pos hlast]
  rfl

/-- Otherwise it is swallowed, and nothing is returned. -/
theorem pumpAttempt_again (ht : t.MadeFrom L junk begin_ src fuel w) {msg : Bytes} {p : Pump σ}
    (hres : t.result = .threw (.invalidArgument msg) p)
    (hmore : ¬(last = true ∨ t.cap > (sizeMod - 1) / 2)) :
    pumpAttempt L junk begin_ src fuel last t.cap w = .ok none (t.after L) := by
  obtain ⟨hb, hp⟩ := ht
  rw [hres] at hp
  unfold pumpAttempt Pass.after
  rw [scope_apply hb _ _ (Prog.handle_threw (Prog.bind_threw hp)), hres]
  simp only [if_neg hmore]
  rfl

theorem pumpAttempt_running (ht : t.MadeFrom L junk begin_ src fuel w) {p : Pump σ}
    (hres : t.result = .running p) :
    pumpAttempt L junk begin_ src fuel last t.cap w = .running p.world := by
  obtain ⟨hb, hp⟩ := ht
  rw [hres] at hp
  unfold pumpAttempt
  rw [scope_apply hb _ _ (Prog.handle_running (Prog.bind_running hp))]
  rfl

/-- No session: the buffer is given back as it was. -/
theorem pumpAttempt_notBegun {cap : Nat} {e : Exn} {w₁ : World σ} (hb : begin_ w = .threw e w₁) :
    pumpAttempt L junk begin_ src fuel last cap w =
      .threw e (w₁.log (.dealloc (uninit junk cap))) := by
  have hnone : ∀ f : Stream → Prog Exn (Pump σ) (Option Bytes),
      (Pump.onWorld begin_ >>= f) { world := w, dst := uninit junk cap } =
        .threw e { world := w₁, dst := uninit junk cap } := by
    intro f
    apply Prog.bind_threw
    unfold Pump.onWorld
    rw [Prog.zoom_apply, hb]
    rfl
  unfold pumpAttempt Pump.withBuffer
  rw [Prog.zoom_apply, Prog.ensuring_apply release_buffer, hnone]
  rfl

end OnePass

/-! ## §2. The loop. -/

section Loop

variable {σ : Type} {L : Lib σ} {junk : Nat → Nat → UInt8} {begin_ : Prog Exn (World σ) Stream}
  {src : Bytes} {fuel : Nat}

/-- A begin answers: it gives a session or throws. -/
theorem BeginFn.answers (L : Lib σ) (f : BeginFn) (w : World σ) :
    (∃ session w₁, f.run L w = .ok session w₁) ∨ ∃ e w₁, f.run L w = .threw e w₁ := by
  have hrun : Prog.wp (f.run L) ⟨fun _ _ => True, fun _ _ => True, fun _ => False⟩ w := by
    have hbegin : ∀ c what, Prog.wp (do
        let r ← ffi L c
        check L r.rc what
        emit (.adopt r.handle)
        pure ({ handle := r.handle } : Stream))
        ⟨fun _ _ => True, fun _ _ => True, fun _ => False⟩ w := by
      intro c what
      rw [Prog.wp_bind, wp_ffi]
      show Prog.wp _ _ _
      rw [Prog.wp_bind]
      apply wp_check
      · intro _
        trivial
      · intro _ _ _ _ _
        trivial
    cases f with
    | encrypt self => exact hbegin _ _
    | decrypt self => exact hbegin _ _
  unfold Prog.wp at hrun
  cases hres : f.run L w with
  | ok session w₁ => exact .inl ⟨session, w₁, rfl⟩
  | threw e w₁ => exact .inr ⟨e, w₁, rfl⟩
  | running w₁ =>
      rw [hres] at hrun
      exact hrun.elim

/-- The loop goes on exactly when a pass leaves it nothing. -/
theorem pumpAttempts_some {left cap : Nat} {w w' : World σ} {bytes : Bytes}
    (h : pumpAttempt L junk begin_ src fuel (left = 0) cap w = .ok (some bytes) w') :
    pumpAttempts L junk begin_ src fuel left cap w = .ok bytes w' := by
  unfold pumpAttempts
  rw [Prog.bind_ok h]
  rfl

theorem pumpAttempts_none {left cap : Nat} {w w' : World σ}
    (h : pumpAttempt L junk begin_ src fuel (left + 1 = 0) cap w = .ok none w') :
    pumpAttempts L junk begin_ src fuel (left + 1) cap w =
      pumpAttempts L junk begin_ src fuel left (cap * 2 % sizeMod) w' := by
  conv => lhs; unfold pumpAttempts
  rw [Prog.bind_ok h]

theorem pumpAttempts_threw {left cap : Nat} {w w' : World σ} {e : Exn}
    (h : pumpAttempt L junk begin_ src fuel (left = 0) cap w = .threw e w') :
    pumpAttempts L junk begin_ src fuel left cap w = .threw e w' := by
  unfold pumpAttempts
  exact Prog.bind_threw h

theorem pumpAttempts_running {left cap : Nat} {w w' : World σ}
    (h : pumpAttempt L junk begin_ src fuel (left = 0) cap w = .running w') :
    pumpAttempts L junk begin_ src fuel left cap w = .running w' := by
  unfold pumpAttempts
  exact Prog.bind_running h

/-- **Every run of the loop is a derivation**, whatever the sessions do. -/
theorem pumpAttempts_restarts (begin_ : BeginFn) (left cap : Nat) (w : World σ) :
    ∃ ts, Restarts L junk (begin_.run L) src fuel left cap w ts
      (pumpAttempts L junk (begin_.run L) src fuel left cap w) := by
  induction left using Nat.strongRecOn generalizing cap w with
  | ind left ih =>
      rcases begin_.answers L w with hbegun | hnone
      · obtain ⟨session, w₁, hb⟩ := hbegun
        obtain ⟨t, rfl, ht⟩ : ∃ t : Pass σ, t.cap = cap ∧
            t.MadeFrom L junk (begin_.run L) src fuel w :=
          ⟨⟨cap, session, w₁, pumpInto L session src fuel
            { world := w₁, dst := uninit junk cap }⟩, rfl, hb, rfl⟩
        cases hres : t.result with
        | ok n p =>
            rw [pumpAttempts_some (pumpAttempt_returned ht hres)]
            exact ⟨[t], .returned ht hres⟩
        | running p =>
            rw [pumpAttempts_running (pumpAttempt_running ht hres)]
            exact ⟨[t], .running ht hres⟩
        | threw e p =>
            cases e with
            | error x =>
                rw [pumpAttempts_threw (pumpAttempt_failed ht hres)]
                exact ⟨[t], .failed ht hres⟩
            | invalidArgument msg =>
                by_cases hlast : left = 0 ∨ t.cap > (sizeMod - 1) / 2
                · rw [pumpAttempts_threw (pumpAttempt_gaveUp ht hres (by simpa using hlast))]
                  exact ⟨[t], .gaveUp ht hres hlast⟩
                -- the guard of the source: the doubled capacity does not wrap
                · obtain ⟨k, rfl⟩ : ∃ k, left = k + 1 := ⟨left - 1, by omega⟩
                  have hfits : t.cap * 2 % sizeMod = 2 * t.cap := by
                    have : sizeMod = 18446744073709551616 := rfl
                    rw [Nat.mod_eq_of_lt (by omega)]
                    omega
                  rw [pumpAttempts_none (pumpAttempt_again ht hres (by simpa using hlast)), hfits]
                  obtain ⟨ts, hts⟩ := ih k (by omega) (2 * t.cap) (t.after L)
                  exact ⟨t :: ts, .again ht hres (by omega) hts⟩
      · obtain ⟨e, w₁, hb⟩ := hnone
        rw [pumpAttempts_threw (pumpAttempt_notBegun hb)]
        exact ⟨[], .notBegun hb⟩

end Loop

/-! ## §3. Sessions are released. -/

/-- What an event says of the life of a session. -/
inductive Life where
  | begun (h : Handle)
  | released (h : Handle)
  deriving DecidableEq, Repr

def Event.life : Event → Option Life
  | .adopt h => some (.begun h)
  | .call (.streamFree h) _ => some (.released h)
  | _ => none

/-- The sessions begun and released, in order. -/
def lives (evs : List Event) : List Life := evs.filterMap Event.life

theorem lives_append (evs evs' : List Event) : lives (evs ++ evs') = lives evs ++ lives evs' :=
  List.filterMap_append

theorem lives_quiet {evs : List Event} (h : ∀ e ∈ evs, e.life = none) : lives evs = [] :=
  List.filterMap_eq_nil_iff.mpr h

/-- The whole life of the session of a pass; a zero handle is no session and
has nothing to release. -/
def Pass.lives {σ : Type} (t : Pass σ) : List Life :=
  .begun t.session.handle :: if t.session.handle ≠ 0 then [.released t.session.handle] else []

/-- The sessions of a run: each whole, save the last when it is still in
use. -/
def livesOf {σ : Type} (done : Bool) : List (Pass σ) → List Life
  | [] => []
  | [t] => if done then t.lives else [.begun t.session.handle]
  | t :: t' :: ts => t.lives ++ livesOf done (t' :: ts)

section Lifecycle

variable {σ : Type} {L : Lib σ} {junk : Nat → Nat → UInt8} {begin_ : BeginFn} {src : Bytes}
  {fuel : Nat}

theorem lastError_life {e : Event} (he : e.isLastError = true) : e.life = none := by
  unfold Event.isLastError at he
  split at he
  next => rfl
  next => cases he

/-- A begin that succeeds begins one session, one that fails none. -/
theorem BeginFn.lives (f : BeginFn) (w : World σ) :
    Prog.wp (f.run L)
      ⟨fun session w₁ => ∃ evs, w₁.trace = w.trace ++ evs ∧
          ItbCpp.lives evs = [.begun session.handle],
        fun _ w₁ => ∃ evs, w₁.trace = w.trace ++ evs ∧ ItbCpp.lives evs = [],
        fun _ => False⟩ w := by
  have hbegin : ∀ c what, (∀ r, (Event.call c r).life = none) → Prog.wp (do
      let r ← ffi L c
      check L r.rc what
      emit (.adopt r.handle)
      pure ({ handle := r.handle } : Stream))
      ⟨fun session w₁ => ∃ evs, w₁.trace = w.trace ++ evs ∧
          ItbCpp.lives evs = [.begun session.handle],
        fun _ w₁ => ∃ evs, w₁.trace = w.trace ++ evs ∧ ItbCpp.lives evs = [],
        fun _ => False⟩ w := by
    intro c what hquiet
    rw [Prog.wp_bind, wp_ffi]
    show Prog.wp _ _ _
    rw [Prog.wp_bind]
    apply wp_check
    · intro _
      refine ⟨[.call c (L c w.lib).1, .adopt (L c w.lib).1.handle], by simp, ?_⟩
      simp only [ItbCpp.lives, List.filterMap_cons, hquiet]
      rfl
    · intro x w' _ _ hw'
      obtain ⟨errs, herrs, hall⟩ := hw'
      refine ⟨[.call c (L c w.lib).1] ++ errs, by rw [herrs]; simp, ?_⟩
      rw [lives_append, lives_quiet fun e he => lastError_life (hall e he)]
      simp [ItbCpp.lives, hquiet]
  cases f with
  | encrypt self => exact hbegin _ _ fun _ => rfl
  | decrypt self => exact hbegin _ _ fun _ => rfl

/-- The pump neither begins nor releases a session. -/
theorem pumpInto_quiet (L : Lib σ) (session : Stream) (src : Bytes) (fuel : Nat) (p : Pump σ) :
    ∃ evs, (pumpInto L session src fuel p).state.world.trace = p.world.trace ++ evs ∧
      lives evs = [] := by
  have hR : AllowsSession L (Prog.Extends World.trace fun e => e.life = none) session.handle :=
    { toLenient := lenient_event (fun _ _ => rfl) (fun _ => rfl)
      write := fun _ => allows_event fun _ => rfl
      end_ := allows_event fun _ => rfl
      read := fun _ => allows_event fun _ => rfl }
  obtain ⟨evs, htrace, hall⟩ := within_pumpInto hR src fuel p
  exact ⟨evs, htrace, lives_quiet hall⟩

/-- A pass begins its session and, while it stands, has released none. -/
theorem Pass.MadeFrom.lives {w : World σ} {t : Pass σ}
    (ht : t.MadeFrom L junk (begin_.run L) src fuel w) :
    ∃ evs, t.result.state.world.trace = w.trace ++ evs ∧
      ItbCpp.lives evs = [.begun t.session.handle] := by
  obtain ⟨hb, hp⟩ := ht
  have hbegin := begin_.lives (L := L) w
  unfold Prog.wp at hbegin
  rw [hb] at hbegin
  obtain ⟨evs, htrace, hbegun⟩ := hbegin
  obtain ⟨evs', htrace', hquiet⟩ := pumpInto_quiet L t.session src fuel
    { world := t.begun, dst := uninit junk t.cap }
  refine ⟨evs ++ evs', ?_, ?_⟩
  · rw [← hp, htrace']
    show t.begun.trace ++ evs' = _
    rw [htrace, List.append_assoc]
  · rw [lives_append, hbegun, hquiet, List.append_nil]

/-- Once it is left, the session has been released and nothing else. -/
theorem Pass.MadeFrom.lives_after {w : World σ} {t : Pass σ}
    (ht : t.MadeFrom L junk (begin_.run L) src fuel w) :
    ∃ evs, (t.after L).trace = w.trace ++ evs ∧ ItbCpp.lives evs = t.lives := by
  obtain ⟨evs, htrace, hbegun⟩ := ht.lives
  unfold Pass.after Pass.lives Pump.released
  by_cases hh : t.session.handle ≠ 0
  · rw [if_pos hh, if_pos hh]
    refine ⟨evs ++ [.call (.streamFree t.session.handle)
      (L (.streamFree t.session.handle) t.result.state.world.lib).1,
      .dealloc t.result.state.dst], ?_, ?_⟩
    · show (t.result.state.world.trace ++ _) ++ _ = _
      rw [htrace]
      simp
    · rw [lives_append, hbegun]
      rfl
  · rw [if_neg hh, if_neg hh]
    refine ⟨evs ++ [.dealloc t.result.state.dst], ?_, ?_⟩
    · show t.result.state.world.trace ++ _ = _
      rw [htrace, List.append_assoc]
    · rw [lives_append, hbegun]
      rfl

/-- A run without a pass has ended: its begin failed. -/
theorem Restarts.done_of_nil {left cap : Nat} {w : World σ} {ts : List (Pass σ)}
    {res : Prog.Result Exn (World σ) Bytes}
    (h : Restarts L junk (begin_.run L) src fuel left cap w ts res) (hts : ts = []) :
    res.done = true := by
  cases h with
  | notBegun hb => rfl
  | returned | failed | gaveUp | again | running => cases hts

/-- **Every session is released once, before the next begins**, whichever way
the run ends. -/
theorem Restarts.lifecycle {left cap : Nat} {w : World σ} {ts : List (Pass σ)}
    {res : Prog.Result Exn (World σ) Bytes}
    (h : Restarts L junk (begin_.run L) src fuel left cap w ts res) :
    ∃ evs, res.state.trace = w.trace ++ evs ∧ lives evs = livesOf res.done ts := by
  induction h with
  | @notBegun left cap w e w₁ hb =>
      have hbegin := begin_.lives (L := L) w
      unfold Prog.wp at hbegin
      rw [hb] at hbegin
      obtain ⟨evs, htrace, hnone⟩ := hbegin
      refine ⟨evs ++ [.dealloc (uninit junk cap)], ?_, ?_⟩
      · show w₁.trace ++ _ = _
        rw [htrace, List.append_assoc]
      · rw [lives_append, hnone]
        rfl
  | returned ht _ => exact ht.lives_after
  | failed ht _ => exact ht.lives_after
  | gaveUp ht _ _ => exact ht.lives_after
  | running ht hres =>
      obtain ⟨evs, htrace, hbegun⟩ := ht.lives
      rw [hres] at htrace
      exact ⟨evs, htrace, hbegun⟩
  | @again left w m p ts res t ht hres hcap hrest ih =>
      obtain ⟨evs, htrace, hlives⟩ := ht.lives_after
      obtain ⟨evs', htrace', hlives'⟩ := ih
      refine ⟨evs ++ evs', by rw [htrace', htrace, List.append_assoc], ?_⟩
      rw [lives_append, hlives, hlives']
      cases ts with
      | nil =>
          -- a begin that failed: the run is over
          rw [hrest.done_of_nil rfl]
          exact List.append_nil _
      | cons t' ts => rfl

end Lifecycle

/-! ## §4. What a run amounts to. -/

section Outcome

variable {σ : Type} {L : Lib σ} {junk : Nat → Nat → UInt8} {begin_ : Prog Exn (World σ) Stream}
  {src : Bytes} {fuel left cap : Nat} {w : World σ} {ts : List (Pass σ)}
  {res : Prog.Result Exn (World σ) Bytes}

/-- `cap` and its doublings, `left` of them. -/
def doublings : Nat → Nat → List Nat
  | 0, cap => [cap]
  | left + 1, cap => cap :: doublings left (2 * cap)

theorem Restarts.caps (h : Restarts L junk begin_ src fuel left cap w ts res) :
    ts.map Pass.cap <+: doublings left cap := by
  have hone : ∀ left cap : Nat, [cap] <+: doublings left cap := by
    intro left cap
    cases left <;> simp [doublings]
  induction h with
  | notBegun _ => exact List.nil_prefix
  | returned _ _ => exact hone _ _
  | failed _ _ => exact hone _ _
  | gaveUp _ _ _ => exact hone _ _
  | running _ _ => exact hone _ _
  | again _ _ _ _ ih => exact List.prefix_cons_inj _ |>.mpr ih

/-- No doubling wraps. -/
theorem Restarts.fits (h : Restarts L junk begin_ src fuel left cap w ts res) :
    ∀ t ∈ ts.tail, t.cap < sizeMod := by
  have hsize : sizeMod = 18446744073709551616 := rfl
  induction h with
  | @again left w m p ts res t _ _ hcap hrest ih =>
      intro t' ht'
      cases ts with
      | nil => cases ht'
      | cons t₁ ts =>
          rcases List.mem_cons.mp ht' with ht' | ht'
          · obtain ⟨rest, hrest⟩ := hrest.caps
            have hfirst : t₁.cap = 2 * t.cap := by
              cases left <;> exact (List.cons.inj hrest).1
            rw [ht', hfirst]
            omega
          · exact ih t' ht'
  | _ =>
      intro t' ht'
      cases ht'

/-- Every pass was made, from the world the run had reached. -/
theorem Restarts.made (h : Restarts L junk begin_ src fuel left cap w ts res) :
    ∀ t ∈ ts, ∃ w', t.MadeFrom L junk begin_ src fuel w' := by
  induction h with
  | notBegun _ =>
      intro t ht
      cases ht
  | returned ht' _ | failed ht' _ | gaveUp ht' _ _ | running ht' _ =>
      intro t ht
      rw [List.mem_singleton.mp ht]
      exact ⟨_, ht'⟩
  | again ht' _ _ _ ih =>
      intro t ht
      rcases List.mem_cons.mp ht with ht | ht
      · rw [ht]
        exact ⟨_, ht'⟩
      · exact ih t ht

/-- Only a full buffer leads to another pass. -/
theorem Restarts.retried (h : Restarts L junk begin_ src fuel left cap w ts res) :
    ∀ t ∈ ts.dropLast, ∃ m p, t.result = .threw (.invalidArgument m) p := by
  induction h with
  | @again left w m p ts res t _ hres _ _ ih =>
      intro t' ht'
      cases ts with
      | nil => cases ht'
      | cons t₁ ts =>
          rw [List.dropLast_cons_cons] at ht'
          rcases List.mem_cons.mp ht' with ht' | ht'
          · rw [ht']
            exact ⟨m, p, hres⟩
          · exact ih t' ht'
  | _ =>
      intro t' ht'
      cases ht'

/-- An `itb::Error` of a pass, or of a begin, ends the run there. -/
theorem Restarts.errors (h : Restarts L junk begin_ src fuel left cap w ts res) :
    ∀ t ∈ ts, ∀ x p, t.result = .threw (.error x) p →
      ts.getLast? = some t ∧ ∃ w', res = .threw (.error x) w' := by
  induction h with
  | notBegun _ =>
      intro t ht
      cases ht
  | returned _ hres | gaveUp _ hres _ | running _ hres =>
      intro t ht x p hx
      rw [List.mem_singleton.mp ht, hres] at hx
      cases hx
  | failed _ hres =>
      intro t ht x p hx
      rw [List.mem_singleton.mp ht, hres] at hx
      injection hx with hx _
      injection hx with hx
      rw [List.mem_singleton.mp ht]
      exact ⟨rfl, _, by rw [hx]⟩
  | @again left w m p ts res t _ hres _ _ ih =>
      intro t' ht' x q hx
      rcases List.mem_cons.mp ht' with ht' | ht'
      · rw [ht', hres] at hx
        cases hx
      · obtain ⟨hlast, hthrew⟩ := ih t' ht' x q hx
        refine ⟨?_, hthrew⟩
        rw [List.getLast?_cons, hlast]
        rfl

/-- What is returned was cut out of the last pass's buffer. -/
theorem Restarts.returns (h : Restarts L junk begin_ src fuel left cap w ts res) :
    ∀ bytes w', res = .ok bytes w' → ∃ t n p, ts.getLast? = some t ∧ t.result = .ok n p ∧
      bytes = p.dst.take n := by
  induction h with
  | returned _ hres =>
      intro bytes w' hok
      injection hok with hbytes _
      exact ⟨_, _, _, rfl, hres, hbytes.symm⟩
  | again _ _ _ _ ih =>
      intro bytes w' hok
      obtain ⟨t', n, p, hlast, hres, hbytes⟩ := ih bytes w' hok
      refine ⟨t', n, p, ?_, hres, hbytes⟩
      rw [List.getLast?_cons, hlast]
      rfl
  | _ =>
      intro bytes w' hok
      cases hok

/-- A pass over a conforming session that returns has the whole output. -/
theorem Pass.MadeFrom.whole {t : Pass σ} {n : Nat} {p : Pump σ} {O : Bytes}
    {At : σ → Phase → Prop} (ht : t.MadeFrom L junk begin_ src fuel w)
    (hres : t.result = .ok n p) (hS : Conforming L t.session.handle src O At)
    (hat : At t.begun.lib ⟨0, 0, false⟩) (hsrc : src.length < fuel) (hcap : t.cap < fuel) :
    p.dst.take n = O := by
  have hrun := wp_pumpInto hS t.begun (uninit junk t.cap) hat hsrc
    (by rw [length_uninit]; exact hcap)
  unfold Prog.wp at hrun
  rw [ht.2, hres] at hrun
  obtain ⟨hn, hp, hused, hoff, -⟩ := hrun
  rw [hn]
  exact (hp.whole hused hoff).1

/-- A pass over a conforming session returns, or finds its buffer too small:
then the output is at least as long. -/
theorem Pass.MadeFrom.conforming {t : Pass σ} {O : Bytes} {At : σ → Phase → Prop}
    (ht : t.MadeFrom L junk begin_ src fuel w) (hS : Conforming L t.session.handle src O At)
    (hat : At t.begun.lib ⟨0, 0, false⟩) (hsrc : src.length < fuel) (hcap : t.cap < fuel) :
    (∃ n p, t.result = .ok n p) ∨
      ∃ p, t.result = .threw (.invalidArgument dstTooSmall) p ∧ t.cap ≤ O.length := by
  have hrun := wp_pumpInto hS t.begun (uninit junk t.cap) hat hsrc
    (by rw [length_uninit]; exact hcap)
  unfold Prog.wp at hrun
  rw [ht.2] at hrun
  cases hres : t.result with
  | ok n p => exact .inl ⟨n, p, rfl⟩
  | threw x p =>
      rw [hres] at hrun
      obtain ⟨hx, hused, ⟨ended, hp, -⟩, -⟩ := hrun
      have hwithin := hp.within
      rw [hused, length_uninit] at hwithin
      exact .inr ⟨p, by rw [hx], hwithin⟩
  | running p =>
      rw [hres] at hrun
      exact hrun.elim

/-- The worlds in which a run from `w` at the capacity `cap` begins its
sessions, with the capacity of the pass. -/
inductive BeginsAt (L : Lib σ) (junk : Nat → Nat → UInt8) (begin_ : Prog Exn (World σ) Stream)
    (src : Bytes) (fuel cap : Nat) (w : World σ) : Nat → World σ → Prop
  | first : BeginsAt L junk begin_ src fuel cap w cap w
  | next {w' : World σ} {t : Pass σ} {m : Bytes} {p : Pump σ}
      (h : BeginsAt L junk begin_ src fuel cap w t.cap w')
      (ht : t.MadeFrom L junk begin_ src fuel w')
      (hres : t.result = .threw (.invalidArgument m) p) :
      BeginsAt L junk begin_ src fuel cap w (2 * t.cap) (t.after L)

/-- A supply of conforming sessions, each with an output shorter than `n`:
wherever the run begins one, it is given one. -/
def Supply (L : Lib σ) (junk : Nat → Nat → UInt8) (begin_ : Prog Exn (World σ) Stream)
    (src : Bytes) (fuel cap : Nat) (w : World σ) (n : Nat) : Prop :=
  ∀ k w', BeginsAt L junk begin_ src fuel cap w k w' →
    ∃ session w₁ O, ∃ At : σ → Phase → Prop, begin_ w' = .ok session w₁ ∧
      Conforming L session.handle src O At ∧ At w₁.lib ⟨0, 0, false⟩ ∧ O.length < n

/-- What a run supplies from its second pass on. -/
theorem Supply.next {n : Nat} {t : Pass σ} {m : Bytes} {p : Pump σ}
    (hs : Supply L junk begin_ src fuel t.cap w n) (ht : t.MadeFrom L junk begin_ src fuel w)
    (hres : t.result = .threw (.invalidArgument m) p) :
    Supply L junk begin_ src fuel (2 * t.cap) (t.after L) n := by
  have hlift : ∀ k w', BeginsAt L junk begin_ src fuel (2 * t.cap) (t.after L) k w' →
      BeginsAt L junk begin_ src fuel t.cap w k w' := by
    intro k w' h
    induction h with
    | first => exact .next .first ht hres
    | next _ ht' hres' ih => exact .next ih ht' hres'
  intro k w' h
  exact hs k w' (hlift k w' h)

/-- The largest capacity that is tried. -/
def topCap : Nat → Nat → Nat
  | 0, cap => cap
  | left + 1, cap => topCap left (2 * cap)

theorem le_topCap (left cap : Nat) : cap ≤ topCap left cap := by
  induction left generalizing cap with
  | zero => exact Nat.le_refl _
  | succ left ih =>
      have := ih (2 * cap)
      show cap ≤ topCap left (2 * cap)
      omega

/-- **With a supply of sessions whose output the largest buffer holds, the run
returns.** -/
theorem Restarts.returns_of_supply (h : Restarts L junk begin_ src fuel left cap w ts res)
    (hsupply : Supply L junk begin_ src fuel cap w (topCap left cap))
    (hsize : topCap left cap < sizeMod) (hsrc : src.length < fuel)
    (hfuel : topCap left cap < fuel) : ∃ bytes w', res = .ok bytes w' := by
  -- the session of a pass is the one that was supplied
  have hpass : ∀ {w : World σ} {t : Pass σ} {n : Nat},
      t.MadeFrom L junk begin_ src fuel w → Supply L junk begin_ src fuel t.cap w n →
      t.cap < fuel → (∃ n p, t.result = .ok n p) ∨
        ∃ p, t.result = .threw (.invalidArgument dstTooSmall) p ∧ t.cap < n := by
    intro w t n ht hs hcap
    obtain ⟨session, w₁, O, At, hb, hS, hat, hO⟩ := hs t.cap w .first
    obtain ⟨rfl, rfl⟩ : session = t.session ∧ w₁ = t.begun := by
      have heq := hb.symm.trans ht.1
      injection heq with hsession hbegun
      exact ⟨hsession, hbegun⟩
    rcases ht.conforming hS hat hsrc hcap with hok | hfull
    · exact .inl hok
    · obtain ⟨p, hres, hle⟩ := hfull
      exact .inr ⟨p, hres, by omega⟩
  have hmod : sizeMod = 18446744073709551616 := rfl
  induction h with
  | @notBegun left cap w e w₁ hb =>
      obtain ⟨session, w₂, O, At, hb', -⟩ := hsupply cap w .first
      rw [hb] at hb'
      cases hb'
  | returned _ _ => exact ⟨_, _, rfl⟩
  | @failed left w x p t ht hres =>
      have hle := le_topCap left t.cap
      rcases hpass ht hsupply (by omega) with hok | hfull
      · obtain ⟨n, q, hok⟩ := hok
        rw [hres] at hok
        cases hok
      · obtain ⟨q, hfull, -⟩ := hfull
        rw [hres] at hfull
        cases hfull
  | @gaveUp left w m p t ht hres hlast =>
      have hle := le_topCap left t.cap
      rcases hpass ht hsupply (by omega) with hok | hfull
      · obtain ⟨n, q, hok⟩ := hok
        rw [hres] at hok
        cases hok
      -- a full buffer is shorter than the largest, so there is a larger one
      · obtain ⟨q, -, hlt⟩ := hfull
        cases left with
        | zero => exact absurd hlt (Nat.lt_irrefl _)
        | succ left =>
            have hdouble := le_topCap left (2 * t.cap)
            have htop : topCap (left + 1) t.cap = topCap left (2 * t.cap) := rfl
            omega
  | again ht hres _ _ ih => exact ih (hsupply.next ht hres) hsize hfuel
  | @running left w p t ht hres =>
      have hle := le_topCap left t.cap
      rcases hpass ht hsupply (by omega) with hok | hfull
      · obtain ⟨n, q, hok⟩ := hok
        rw [hres] at hok
        cases hok
      · obtain ⟨q, hfull, -⟩ := hfull
        rw [hres] at hfull
        cases hfull

end Outcome

/-! ## §5. `pump_alloc`. -/

section Alloc

variable {σ : Type}

/-- **How a run of `pump_alloc` went**: its passes, in order. -/
structure AllocRun (L : Lib σ) (junk : Nat → Nat → UInt8) (begin_ : BeginFn) (src : Bytes)
    (fuel : Nat) (w : World σ) (ts : List (Pass σ)) (res : Prog.Result Exn (World σ) Bytes) :
    Prop where
  /-- each pass is made from where the one before it was left -/
  derivation : Restarts L junk (begin_.run L) src fuel 2 (outCap src.length) w ts res
  /-- at most three passes, each with twice the capacity of the last -/
  caps : ts.map Pass.cap <+:
    [outCap src.length, 2 * outCap src.length, 4 * outCap src.length]
  atMostThree : ts.length ≤ 3
  /-- no doubling wraps -/
  fits : ∀ t ∈ ts.tail, t.cap < sizeMod
  /-- a pass begins a session of its own and pumps all of the source -/
  made : ∀ t ∈ ts, ∃ w', t.MadeFrom L junk (begin_.run L) src fuel w'
  /-- the sessions live one after the other; when the run has ended, each was
  released once -/
  lifecycle : lives (w.since res.state) = livesOf res.done ts
  /-- only `std::invalid_argument` leads to another pass -/
  retried : ∀ t ∈ ts.dropLast, ∃ m p, t.result = .threw (.invalidArgument m) p
  /-- an `itb::Error` of a pass ends the run -/
  errors : ∀ t ∈ ts, ∀ x p, t.result = .threw (.error x) p →
    ts.getLast? = some t ∧ ∃ w', res = .threw (.error x) w'
  /-- what is returned is of the last pass alone -/
  returns : ∀ bytes w', res = .ok bytes w' → ∃ t n p, ts.getLast? = some t ∧
    t.result = .ok n p ∧ bytes = p.dst.take n
  /-- and over a conforming session, its whole output -/
  whole : ∀ bytes w', res = .ok bytes w' → src.length < fuel →
    4 * outCap src.length < fuel → ∀ t, ts.getLast? = some t → ∀ O, ∀ At : σ → Phase → Prop,
    Conforming L t.session.handle src O At → At t.begun.lib ⟨0, 0, false⟩ → bytes = O

/-- **PUMPING AGAIN ON A FRESH SESSION.**  For every source and whatever the
sessions do, a run of `pump_alloc` is a list of passes as `AllocRun` says; and
with four times the first capacity below the bound of `size_t` and a supply of
conforming sessions whose outputs are shorter than that, it returns. -/
theorem pumpAlloc_restarts (L : Lib σ) (junk : Nat → Nat → UInt8) (begin_ : BeginFn)
    (src : Bytes) (fuel : Nat) (w : World σ) :
    (∃ ts, AllocRun L junk begin_ src fuel w ts
      (pumpAlloc L junk (begin_.run L) src fuel w)) ∧
    (4 * outCap src.length < sizeMod →
      Supply L junk (begin_.run L) src fuel (outCap src.length) w (4 * outCap src.length) →
      src.length < fuel → 4 * outCap src.length < fuel →
      ∃ bytes w', pumpAlloc L junk (begin_.run L) src fuel w = .ok bytes w') := by
  obtain ⟨ts, hts⟩ : ∃ ts, Restarts L junk (begin_.run L) src fuel 2 (outCap src.length) w ts
      (pumpAlloc L junk (begin_.run L) src fuel w) :=
    pumpAttempts_restarts begin_ 2 (outCap src.length) w
  have htop : topCap 2 (outCap src.length) = 4 * outCap src.length := by
    show 2 * (2 * outCap src.length) = _
    omega
  have hlist : doublings 2 (outCap src.length) =
      [outCap src.length, 2 * outCap src.length, 4 * outCap src.length] := by
    rw [show 4 * outCap src.length = 2 * (2 * outCap src.length) by omega]
    rfl
  have hcaps := hts.caps
  rw [hlist] at hcaps
  refine ⟨⟨ts, hts, hcaps, ?_, hts.fits, hts.made, ?_, hts.retried, hts.errors, hts.returns, ?_⟩,
    ?_⟩
  · have := hcaps.length_le
    rwa [List.length_map] at this
  · obtain ⟨evs, htrace, hlives⟩ := hts.lifecycle
    rw [World.since_of_append htrace]
    exact hlives
  · intro bytes w' hok hsrc hcap t hlast O At hS hat
    obtain ⟨t', n, p, hlast', hres, hbytes⟩ := hts.returns bytes w' hok
    obtain rfl : t' = t := Option.some.inj (hlast'.symm.trans hlast)
    have hmem : t' ∈ ts := List.mem_of_getLast? hlast
    obtain ⟨w₀, ht⟩ := hts.made t' hmem
    have hle : t'.cap ≤ 4 * outCap src.length := by
      have := hcaps.subset (List.mem_map_of_mem hmem)
      simp only [List.mem_cons, List.not_mem_nil, or_false] at this
      omega
    rw [hbytes]
    exact ht.whole hres hS hat hsrc (by omega)
  · intro hsize hsupply hsrc hfuel
    rw [← htop] at hsize hsupply hfuel
    exact hts.returns_of_supply hsupply hsize hsrc hfuel

end Alloc

/-- A spool that every begin fills anew. -/
def refilling (O : Bytes) : Lib Spool := fun c s =>
  match c with
  | .encryptStreamBegin _ => ({ rc := 0, handle := 1 }, { spool := O, plan := [1] })
  | _ => spoolLib c s

/-- Every session it begins conforms. -/
theorem refilling_supply (src O : Bytes) (junk : Nat → Nat → UInt8) (fuel cap : Nat)
    (w : World Spool) {n : Nat} (hn : O.length < n) :
    Supply (refilling O) junk ((BeginFn.encrypt ⟨1⟩).run (refilling O)) src fuel cap w n := by
  have hspool := spool_conforming 1 src O
  intro k w' _
  refine ⟨⟨1⟩, _, O, SpoolAt O, rfl, ?_, ⟨rfl, Nat.zero_le _, rfl⟩, hn⟩
  exact ⟨hspool.write, hspool.end_, hspool.read, hspool.readBefore, hspool.readAfter⟩

/-- Two bytes out of one: `pump_alloc` returns. -/
theorem pumpAlloc_restarts_refilling :
    ∃ bytes w', pumpAlloc (refilling [7, 8]) (fun _ _ => 0)
      ((BeginFn.encrypt ⟨1⟩).run (refilling [7, 8])) [5] 524293 ⟨⟨[], [], false⟩, []⟩ =
        .ok bytes w' := by
  have hcap : outCap [(5 : UInt8)].length = 131073 := by decide
  refine (pumpAlloc_restarts (refilling [7, 8]) (fun _ _ => 0) (.encrypt ⟨1⟩) [5] 524293 _).2
    ?_ ?_ ?_ ?_
  · rw [hcap]
    decide
  · rw [hcap]
    exact refilling_supply _ _ _ _ _ _ (by decide)
  · decide
  · rw [hcap]
    decide

end ItbCpp
