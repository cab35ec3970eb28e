/-
  ItbCpp.Footprint
  ────────────────
  **WHAT A FUNCTION OF THE BINDING CAN DO TO THE WORLD.**

  The helpers of `Ffi` and `BufCall` stay within any preorder on worlds
  that allows the library calls they are given, the reading of diagnostics
  and the return of buffers (`Lenient`).  They are settled here once; an
  entry's footprint follows from its text.

  `Emits P m` is the instance used most: every event a run of `m` adds to
  the trace satisfies `P`.
-/
import ItbCpp.Lib.Within
import ItbCpp.Stream

namespace ItbCpp

/-- The preorder `R` allows the library call `c`, whatever the answer. -/
def Allows {σ : Type} (L : Lib σ) (R : World σ → World σ → Prop) (c : FfiCall) : Prop :=
  ∀ w, R w (w.answered c (L c w.lib))

/-- A preorder that allows diagnostics and buffers given back. -/
structure Lenient {σ : Type} (L : Lib σ) (R : World σ → World σ → Prop) : Prop where
  lastError : ∀ n, Allows L R (.lastError n)
  dealloc : ∀ content (w : World σ), R w (w.log (.dealloc content))

section Rules

variable {σ α : Type} {L : Lib σ} {R : World σ → World σ → Prop}

/-- One call moves within `R` if `R` allows it. -/
theorem within_ffi {c : FfiCall} (h : Allows L R c) : Prog.Within R (ffi L c) := h

theorem within_emit {e : Event} (h : ∀ w : World σ, R w (w.log e)) :
    Prog.Within R (emit e : Prog Exn (World σ) Unit) := h

variable [IsPreorder (World σ) R]

/-- The diagnostics take at most two calls, both lenient. -/
theorem within_lastError (hR : Lenient L R) : Prog.Within R (lastError L) := by
  unfold lastError
  refine .bind (within_ffi (hR.lastError _)) fun r => ?_
  -- 2 KiB were enough, a second call fetches the rest, or there is no diagnostic
  refine .ite (.pure _) (.ite (.bind (within_ffi (hR.lastError _)) fun r' => ?_) (.pure _))
  exact .ite (.pure _) (.pure _)

/-- A failure reads the diagnostics and throws. -/
theorem within_fail (hR : Lenient L R) (rc : Int) (what : String) :
    Prog.Within R (fail L rc what : Prog Exn (World σ) α) := by
  unfold fail
  exact .bind (within_lastError hR) fun _ => .throw _

/-- A check fails or does nothing. -/
theorem within_check (hR : Lenient L R) (rc : Int) (what : String) :
    Prog.Within R (check L rc what) := by
  unfold check
  exact .ite (within_fail hR rc what) (.pure ())

theorem within_checkedPrefix (hR : Lenient L R) (buf : Bytes) (r : Reply) (what : String) :
    Prog.Within R (checkedPrefix L buf r what) := by
  unfold checkedPrefix
  refine .bind (within_check hR r.rc what) fun _ => ?_
  exact .ite (within_fail hR _ what) (.pure _)

/-- The end of the retry-once machine: the last answer is judged and the
buffer given back. -/
theorem within_judge (hR : Lenient L R) (scrub : Bytes → Bytes) (what : String) (buf : Bytes)
    (r : Reply) :
    Prog.Within R (Prog.ensuring (do
      let bytes ← checkedPrefix L buf r what
      pure (bytes, r)) (emit (.dealloc (scrub buf)))) := by
  refine .ensuring ?_ (within_emit (hR.dealloc _))
  exact .bind (within_checkedPrefix hR buf r what) fun _ => .pure _

/-- The retry-once machine makes the calls it is given and no others. -/
theorem within_retryOnce (hR : Lenient L R) {call : Nat → FfiCall}
    (hcall : ∀ n, Allows L R (call n)) (cap : Nat) (block : Nat → Bytes)
    (scrub : Bytes → Bytes) (what : String) :
    Prog.Within R (retryOnce L call cap block scrub what) := by
  unfold retryOnce
  refine .bind (within_ffi (hcall cap)) fun r₁ => .ite ?_ (within_judge hR scrub what _ _)
  refine .bind (within_emit (hR.dealloc _)) fun _ => ?_
  exact .bind (within_ffi (hcall _)) fun _ => within_judge hR scrub what _ _

/-- A helper is its call, at two capacities, and the release of its block. -/
theorem within_bufCall (hR : Lenient L R) {fn : BlobFn} (hfn : ∀ n, Allows L R (fn.call n))
    (what : String) : Prog.Within R (bufCall L fn what) := by
  rw [bufCall_eq_retryOnce]
  exact within_retryOnce hR hfn _ _ _ what

/-- So is a cipher entry that allocates. -/
theorem within_cipherCall (hR : Lenient L R) (junk : Nat → Nat → UInt8) {h : Handle}
    {fn : CipherFn} {src : Bytes} (hfn : ∀ n, Allows L R (fn.call h src n)) (what : String) :
    Prog.Within R (cipherCall L junk h fn src what) := by
  rw [cipherCall_eq_retryOnce]
  exact .bind (within_retryOnce hR hfn _ _ _ what) fun _ => .pure _

/-- One that fills the caller's memory is one call and a check. -/
theorem within_cipherCallInto (hR : Lenient L R) {h : Handle} {fn : CipherFn} {src : Bytes}
    (hfn : ∀ n, Allows L R (fn.call h src n)) (dst : Bytes) (what : String) :
    Prog.Within R (cipherCallInto L h fn src dst what) := by
  unfold cipherCallInto
  refine .bind (within_ffi (hfn _)) fun r => .bind (within_check hR r.rc what) fun _ => ?_
  exact .ite (within_fail hR _ what) (.pure _)

/-- The last attempt of the retry-once machine is one call, made in a world
that the machine has reached. -/
theorem lastAttempt_call (hR : Lenient L R) {call : Nat → FfiCall}
    (hcall : ∀ n, Allows L R (call n)) (cap : Nat) (block : Nat → Bytes)
    (scrub : Bytes → Bytes) (w : World σ) :
    ∃ w₁, R w w₁ ∧
      (lastAttempt L call cap block scrub w).reply =
        (L (call (lastAttempt L call cap block scrub w).cap) w₁.lib).1 ∧
      (lastAttempt L call cap block scrub w).world.lib =
        (L (call (lastAttempt L call cap block scrub w).cap) w₁.lib).2 ∧
      (lastAttempt L call cap block scrub w).buf =
        Buffer.overlay (block (lastAttempt L call cap block scrub w).cap)
          (lastAttempt L call cap block scrub w).reply.out := by
  simp only [lastAttempt]
  split
  · refine ⟨(w.answered (call cap) (L (call cap) w.lib)).log (.dealloc (scrub
      (Buffer.overlay (block cap) (L (call cap) w.lib).1.out))), ?_, rfl, rfl, rfl⟩
    exact trans_of R (hcall cap w) (hR.dealloc _ _)
  · exact ⟨w, refl_of R w, rfl, rfl, rfl⟩

end Rules

/-! ## The pump. -/

/-- A preorder on worlds, read off the world of a pump. -/
def OnWorld {σ : Type} (R : World σ → World σ → Prop) (p p' : Pump σ) : Prop :=
  R p.world p'.world

/-- A preorder on the world is one on a pump. -/
instance {σ : Type} (R : World σ → World σ → Prop) [IsPreorder (World σ) R] :
    IsPreorder (Pump σ) (OnWorld R) where
  refl p := refl_of R p.world
  trans _ _ _ h h' := trans_of R h h'

/-- A preorder that allows everything a client does with the session `h`. -/
structure AllowsSession {σ : Type} (L : Lib σ) (R : World σ → World σ → Prop) (h : Handle) :
    Prop extends Lenient L R where
  write : ∀ src, Allows L R (.streamWrite h src)
  end_ : Allows L R (.streamEnd h)
  read : ∀ cap, Allows L R (.streamRead h cap)

section Pumping

variable {σ α : Type} {L : Lib σ} {R : World σ → World σ → Prop} {session : Stream}

/-- What a pump does to the world alone. -/
theorem within_onWorld {m : Prog Exn (World σ) α} (hm : Prog.Within R m) :
    Prog.Within (OnWorld R) (Pump.onWorld m) :=
  hm.zoom fun _ _ h => h

variable [IsPreorder (World σ) R]

/-- A session call and its check. -/
theorem within_write (hR : AllowsSession L R session.handle) (src : Bytes) :
    Prog.Within R (session.write L src) := by
  unfold Stream.write
  exact .bind (within_ffi (hR.write src)) fun r => within_check hR.toLenient r.rc _

theorem within_end (hR : AllowsSession L R session.handle) :
    Prog.Within R (session.end_ L) := by
  unfold Stream.end_
  exact .bind (within_ffi hR.end_) fun r => within_check hR.toLenient r.rc _

theorem within_read (hR : AllowsSession L R session.handle) (dst : Bytes) :
    Prog.Within R (session.read L dst) := by
  unfold Stream.read
  refine .bind (within_ffi (hR.read _)) fun r => ?_
  exact .bind (within_check hR.toLenient r.rc _) fun _ => .pure _

/-- One read into what is left of the destination. -/
theorem within_drainOne (hR : AllowsSession L R session.handle) :
    Prog.Within (OnWorld R) (drainOne L session) := by
  -- buffer and cursors are the pump's own, not the world's
  have hcursor : ∀ f : Pump σ → Pump σ, (∀ p, (f p).world = p.world) →
      Prog.Within (OnWorld R) (Prog.modify f : Prog Exn (Pump σ) Unit) := by
    intro f hf
    refine .modify fun p => ?_
    show R p.world (f p).world
    rw [hf p]
    exact refl_of R p.world
  unfold drainOne
  -- full, refused by the library, over-reported, or a delivery
  refine .bind .get fun p => .ite (.throw _) ?_
  refine .bind (within_onWorld (within_read hR _)) fun rt => ?_
  refine .bind (hcursor _ fun _ => rfl) fun _ => .ite ?_ ?_
  · exact within_onWorld (within_fail hR.toLenient _ _)
  · exact .bind (hcursor _ fun _ => rfl) fun _ => .pure _

/-- One slice of the source, and one read after it. -/
theorem within_feedOne (hR : AllowsSession L R session.handle) (src : Bytes) :
    Prog.Within (OnWorld R) (feedOne L session src) := by
  unfold feedOne
  refine .bind .get fun p => .bind (within_onWorld (within_write hR _)) fun _ => ?_
  exact .modify fun p' => refl_of R p'.world

/-- The pump does to the world what its session's calls do. -/
theorem within_pumpInto (hR : AllowsSession L R session.handle) (src : Bytes) (fuel : Nat) :
    Prog.Within (OnWorld R) (pumpInto L session src fuel) := by
  have hdrain : ∀ stop : StreamRead → Bool,
      Prog.Within (OnWorld R) (Prog.loop fuel do
        let r ← drainOne L session
        pure (stop r)) := by
    intro stop
    exact .loop (.bind (within_drainOne hR) fun r => .pure _) fuel
  unfold pumpInto
  refine .bind (.while_ (.bind (within_feedOne hR src) fun _ => ?_) fuel) fun _ => ?_
  · exact hdrain fun r => r.n ≠ 0
  · refine .bind (within_onWorld (within_end hR)) fun _ => ?_
    refine .bind (hdrain fun r => !r.finished) fun _ => ?_
    exact .bind .get fun p => .pure _

end Pumping

/-! ## Events. -/

/-- Every event a run of `m` adds to the trace satisfies `P`. -/
abbrev Emits {σ α : Type} (P : Event → Prop) (m : Prog Exn (World σ) α) : Prop :=
  Prog.Within (Prog.Extends World.trace P) m

section Events

variable {σ α : Type} {L : Lib σ} {P : Event → Prop}

/-- Calls are allowed by their events. -/
theorem allows_event {c : FfiCall} (h : ∀ r, P (.call c r)) :
    Allows L (Prog.Extends World.trace P) c := by
  intro w
  exact ⟨[.call c (L c w.lib).1], rfl, by simpa using h _⟩

theorem emits_emit {e : Event} (h : P e) : Emits P (emit e : Prog Exn (World σ) Unit) := by
  intro w
  exact ⟨[e], rfl, by simpa using h⟩

/-- A trace may grow by the diagnostics and by released blocks. -/
theorem lenient_event (herr : ∀ n r, P (.call (.lastError n) r))
    (hbuf : ∀ content, P (.dealloc content)) : Lenient L (Prog.Extends World.trace P) :=
  ⟨fun n => allows_event (herr n), fun content => emits_emit (hbuf content)⟩

/-! ## First calls. -/

/-- Every run of `m` begins with the call `c`. -/
def Starts (c : FfiCall) (m : Prog Exn (World σ) α) : Prop :=
  ∀ w, ∃ r new, (m w).state.trace = w.trace ++ .call c r :: new

/-- Every event is accepted. -/
theorem lenient_true : Lenient L (Prog.Extends World.trace fun _ => True) :=
  lenient_event (fun _ _ => trivial) (fun _ => trivial)

/-- What begins with a call, whatever comes after it. -/
theorem starts_ffi {c : FfiCall} {f : Reply → Prog Exn (World σ) α}
    (hf : ∀ r, Emits (fun _ => True) (f r)) : Starts c (ffi L c >>= f) := by
  intro w
  obtain ⟨new, hnew, -⟩ := hf (L c w.lib).1 (w.answered c (L c w.lib))
  refine ⟨(L c w.lib).1, new, ?_⟩
  show (f (L c w.lib).1 (w.answered c (L c w.lib))).state.trace = _
  rw [hnew]
  simp

/-- What a run begins with stays at the beginning as it goes on. -/
theorem starts_trans {c : FfiCall} {w w' w'' : World σ}
    (h : ∃ r new, w'.trace = w.trace ++ .call c r :: new)
    (h' : Prog.Extends World.trace (fun _ => True) w' w'') :
    ∃ r new, w''.trace = w.trace ++ .call c r :: new := by
  obtain ⟨r, new, hnew⟩ := h
  obtain ⟨new', hnew', -⟩ := h'
  exact ⟨r, new ++ new', by rw [hnew', hnew]; simp⟩

/-- A computation begins as its first part does. -/
theorem Starts.bind {β : Type} {c : FfiCall} {m : Prog Exn (World σ) α}
    {f : α → Prog Exn (World σ) β} (hm : Starts c m) (hf : ∀ a, Emits (fun _ => True) (f a)) :
    Starts c (m >>= f) := by
  intro w
  have h := hm w
  show ∃ r new, (Prog.bind m f w).state.trace = w.trace ++ .call c r :: new
  unfold Prog.bind
  cases hmw : m w with
  | ok a w' =>
      rw [hmw] at h
      exact starts_trans h (hf a w')
  | threw e w' =>
      rw [hmw] at h
      exact h
  | running w' =>
      rw [hmw] at h
      exact h

/-- The destructor of a scope comes after what the scope begins with. -/
theorem Starts.ensuring {c : FfiCall} {m : Prog Exn (World σ) α}
    {d : Prog Exn (World σ) Unit} (hm : Starts c m) (hd : Emits (fun _ => True) d) :
    Starts c (Prog.ensuring m d) := by
  intro w
  have h := hm w
  unfold Prog.ensuring
  cases hmw : m w with
  | ok a w' =>
      rw [hmw] at h
      exact starts_trans h (Prog.Within.bind hd (fun _ => .pure a) w')
  | threw e w' =>
      rw [hmw] at h
      exact starts_trans h (Prog.Within.bind hd (fun _ => .throw e) w')
  | running w' =>
      rw [hmw] at h
      exact h

/-- A helper begins with its call at the first capacity. -/
theorem starts_bufCall (fn : BlobFn) (what : String) :
    Starts (fn.call kBlobCap) (bufCall L fn what) := by
  rw [bufCall_eq_retryOnce]
  unfold retryOnce
  refine starts_ffi fun r₁ => .ite ?_ (within_judge lenient_true _ _ _ _)
  refine .bind (emits_emit trivial) fun _ => ?_
  exact .bind (within_ffi (allows_event fun _ => trivial)) fun _ =>
    within_judge lenient_true _ _ _ _

end Events

end ItbCpp
