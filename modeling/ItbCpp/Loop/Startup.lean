/-
  ItbCpp.Loop.Startup
  ───────────────────
  **THE LOOP HARNESS: BUILDING THE PIPELINES** (`loop/main.cpp`).

  `build_pipeline` for every Pipeline the shape exercises, and the state
  the threads start from.

    • `wp_buildPipelines` — every Pipeline that was built owns a live handle
      of its own, and the retained blob encodes that handle's keying,
    • `returns_initAndSave` — the three calls that have to succeed,
    • `pipeInv_start` — the harness starts within its invariant.

  Log lines are left out; the library calls they need are not.
-/
import ItbCpp.Footprint
import ItbCpp.Loop.Iteration
import Mathlib.Data.List.Infix

namespace ItbCpp.Loop

/-! ## §1. `build_pipeline`. -/

/-- `kKeystreamFillCipher`. -/
def kKeystreamFillCipher : String := "aescmac"

/-- The overrides every Pipeline is built with. -/
def Config.overrides (cfg : Config) : Opts :=
  let onOff (b : Bool) : Bytes := text (if b then "true" else "false")
  Opts.ofPairs
    [(text "mode", text (toString cfg.blobMode)), (text "innerHash", cfg.hash),
      (text "macName", cfg.mac), (text "withParallax", onOff cfg.parallax),
      (text "withWrapper", onOff cfg.wrapper), (text "keyBits", text (toString cfg.keyBits)),
      (text "nonceBits", text (toString cfg.nonceBits)),
      (text "barrierFill", text (toString cfg.barrierFill)), (text "drbg", cfg.drbg),
      (text "interlock", cfg.interlock), (text "chunkSize", text (toString cfg.chunkSize))]

/-- `json.find(key) != npos`. -/
def mentions (json : Bytes) (key : String) : Bool := decide (text key <:+: json)

/-- The probes of `fill_keystream_layers`. -/
def lacksPalette (json : Bytes) : Bool := !mentions json "\"palette\":"

def lacksSegment (json : Bytes) : Bool := !mentions json "\"segment\":"

def lacksOuter (json : Bytes) : Bool := !mentions json "\"outer\":"

/-- `fill_keystream_layers`, once the record is there: whether a layer was
filled, and the opts. -/
def fillLayers (json : Bytes) (opts : Opts) (wantParallax wantWrapper : Bool) : Bool × Opts :=
  let palette := wantParallax && lacksPalette json
  let outer := wantWrapper && lacksOuter json
  let fill := text kKeystreamFillCipher
  let opts :=
    if palette then
      let opts := opts.set (text "parallaxPalette")
        (fill ++ text "," ++ fill ++ text "," ++ fill)
      -- a palette needs a segment size, unless the profile has one
      if lacksSegment json then opts.set (text "parallaxSegmentSize") (text "4093")
      else opts
    else opts
  let opts := if outer then opts.set (text "outerCipher") fill else opts
  (palette || outer, opts)

section Build

variable {σ α : Type} (L : Lib σ)

/-- `try { m } catch (const itb::Error &)`. -/
def caught (m : Prog Exn (World σ) α) : Prog Exn (World σ) (Except Error α) :=
  Prog.handle (do
      let a ← m
      pure (.ok a))
    fun e =>
      match e with
      | .error e => pure (.error e)
      | e => Prog.throw e

/-- `fill_keystream_layers`; nothing when the profile is not registered. -/
def fillKeystreamLayers (name : Bytes) (opts : Opts) (wantParallax wantWrapper : Bool) :
    Prog Exn (World σ) (Option (Bool × Opts)) := do
  match ← caught (lookup L name) with
  | .error _ => pure none
  | .ok json => pure (some (fillLayers json opts wantParallax wantWrapper))

/-- `log_pipeline_initialised`. -/
def logPipelineInitialised (blob : Bytes) : Prog Exn (World σ) Unit := do
  match ← caught (inspect L blob) with
  | .error _ => do
      let _ ← lastError L
      pure ()
  | .ok _ => pure ()

/-- `build_pipeline`, from `Pipeline::init` on. -/
def initAndSave (profile : Bytes) (opts : Opts) :
    Prog Exn (World σ) (Option (Pipeline × Bytes)) := do
  match ← caught (Pipeline.init L profile opts) with
  | .error _ => do
      let _ ← lastError L
      pure none
  | .ok pipe => do
      match ← caught (pipe.save L) with
      | .error _ => do
          let _ ← lastError L
          -- the local Pipeline goes out of scope
          pipe.destroy L
          pure none
      | .ok blob => do
          -- the blob to retain is the one `save` handed out
          logPipelineInitialised L blob
          pure (some (pipe, blob))

/-- `build_pipeline`. -/
def buildPipeline (cfg : Config) (p : Pipe) : Prog Exn (World σ) (Option (Pipeline × Bytes)) :=
  if cfg.profile ≠ [] then do
    match ← fillKeystreamLayers L cfg.profile cfg.overrides cfg.parallax cfg.wrapper with
    | none => pure none
    | some (_, opts) => initAndSave L (cfg.pipeProfile p) opts
  else initAndSave L (cfg.pipeProfile p) cfg.overrides

/-- The shapes that need a Pipeline. -/
def Shape.exercises : Shape → Pipe → Bool
  | .stream, .stream | .streamOneShot, .stream | .both, .stream => true
  | .message, .msg | .both, .msg => true
  | _, _ => false

/-- A Pipeline is built if the shape exercises it; nothing when that
failed. -/
def buildExercised (cfg : Config) (p : Pipe) :
    Prog Exn (World σ) (Option (Option (Pipeline × Bytes))) :=
  if cfg.shape.exercises p then do
    match ← buildPipeline L cfg p with
    | none => pure none
    | some built => pure (some (some built))
  else pure (some none)

/-- The Pipelines and retained blobs of a run. -/
def buildPipelines (cfg : Config) :
    Prog Exn (World σ) (Option (Pipe → Option (Pipeline × Bytes))) := do
  match ← buildExercised L cfg .stream with
  | none => pure none
  | some stream => do
      match ← buildExercised L cfg .msg with
      | none => pure none
      | some msg =>
          pure (some fun p =>
            match p with
            | .stream => stream
            | .msg => msg)

end Build

/-! ## §2. What was built. -/

section Built

variable {σ K : Type} {L : Lib σ} {key : σ → Handle → Option K} {decode : Bytes → Option K}

/-- Every live handle is still there, with its keying. -/
def Kept (key : σ → Handle → Option K) (w w' : World σ) : Prop :=
  ∀ h k, key w.lib h = some k → key w'.lib h = some k

instance (key : σ → Handle → Option K) : IsPreorder (World σ) (Kept key) where
  refl _ _ _ h := h
  trans _ _ _ h h' g k hk := h' g k (h g k hk)

theorem allows_kept (hL : KeyedLib L key decode) {c : FfiCall} (hc : c.mutates = none) :
    Allows L (Kept key) c := by
  intro w h k hk
  apply hL.frame c w.lib h k hk
  rw [FfiCall.changed_of_not_mutates hc]
  simp

theorem lenient_kept (hL : KeyedLib L key decode) : Lenient L (Kept key) :=
  ⟨fun _ => allows_kept hL rfl, fun _ _ _ _ h => h⟩

/-- A handle that is not live now was not live before. -/
theorem Kept.fresh {w w' : World σ} (hkept : Kept key w w') {h : Handle}
    (hnone : key w'.lib h = none) : key w.lib h = none := by
  cases hk : key w.lib h with
  | none => rfl
  | some k =>
      rw [hkept h k hk] at hnone
      cases hnone

/-- One more call that changes no handle. -/
theorem Kept.call (hL : KeyedLib L key decode) {w w₁ w' : World σ} (hkept : Kept key w w₁)
    {c : FfiCall} (hc : c.mutates = none) (hlib : w'.lib = (L c w₁.lib).2) :
    Kept key w w' := by
  intro h k hk
  rw [hlib]
  exact allows_kept hL hc w₁ h k (hkept h k hk)

/-- What is asked of a computation that may return something. -/
def returning {σ α : Type} (P : α → World σ → Prop) : Prog.Post Exn (World σ) α :=
  ⟨P, fun _ _ => True, fun _ => True⟩

theorem wp_caught {α : Type} {m : Prog Exn (World σ) α} {P : Except Error α → World σ → Prop}
    {w : World σ} (hm : Prog.wp m (returning fun a => P (.ok a)) w)
    (herr : ∀ e w', P (.error e) w') : Prog.wp (caught m) (returning P) w := by
  unfold caught
  rw [Prog.wp_handle, Prog.wp_bind]
  refine hm.mono (fun _ _ h => h) (fun e w' _ => ?_) fun _ h => h
  cases e with
  | error e => exact herr e w'
  | invalidArgument what => trivial

/-- The answer a blob helper returns is the one to its last call, made in a
state with all the handles there were. -/
theorem wp_bufCall_last (hL : KeyedLib L key decode) {fn : BlobFn}
    (hfn : ∀ n, (fn.call n).mutates = none) (what : String) (w : World σ) :
    Prog.wp (bufCall L fn what)
      (returning fun x w' => ∃ w₁ n, Kept key w w₁ ∧ Judged zeros n x ∧
        x.2 = (L (fn.call n) w₁.lib).1 ∧ w'.lib = (L (fn.call n) w₁.lib).2) w := by
  rw [bufCall_eq_retryOnce]
  refine wp_retryOnce length_zeros rfl (fun hv => ?_) fun _ _ _ _ => trivial
  obtain ⟨w₁, hkept, hreply, hlib, hbuf⟩ := lastAttempt_call (lenient_kept hL)
    (fun n => allows_kept hL (hfn n)) kBlobCap zeros wipeBytes w
  obtain ⟨hrc, hlen⟩ := verdict_eq_none.mp hv
  exact ⟨w₁, _, hkept, ⟨hrc, hlen, congrArg (List.take _) hbuf⟩, hreply, hlib⟩

/-- A new handle: it was not live before, and now it is. -/
structure NewHandle (key : σ → Handle → Option K) (w w' : World σ) (pipe : Pipeline) :
    Prop where
  nonzero : pipe.handle ≠ 0
  fresh : key w.lib pipe.handle = none
  live : ∃ k, key w'.lib pipe.handle = some k

/-- `Pipeline::init` opens a new handle and leaves the others alone. -/
theorem wp_init (hL : KeyedLib L key decode) (profile : Bytes) (opts : Opts) (w : World σ) :
    Prog.wp (Pipeline.init L profile opts)
      (returning fun pipe w' => NewHandle key w w' pipe ∧ Kept key w w') w := by
  unfold Pipeline.init
  rw [Prog.wp_bind]
  refine (wp_bufCall_last hL (fun _ => rfl) _ w).mono_ok ?_
  intro x w' hx
  obtain ⟨blob, r⟩ := x
  obtain ⟨w₁, n, hkept, hj, hr, hlib⟩ := hx
  have hrc : (L ((BlobFn.init (ffiStr profile) (ffiStr opts.query)).call n) w₁.lib).1.rc = 0 :=
    hr ▸ hj.good
  obtain ⟨hz, hnone, hlive⟩ := hL.opened _ w₁.lib rfl hrc
  rw [← hr] at hz hnone hlive
  rw [← hlib] at hlive
  exact ⟨⟨hz, hkept.fresh hnone, hlive⟩, hkept.call hL rfl hlib⟩

/-- `Pipeline::save` returns a blob of the handle's keying. -/
theorem wp_save (hL : KeyedLib L key decode) (pipe : Pipeline) {w : World σ} {k : K}
    (hk : key w.lib pipe.handle = some k) :
    Prog.wp (pipe.save L)
      (returning fun blob w' => decode blob = some k ∧ Kept key w w') w := by
  unfold Pipeline.save
  rw [Prog.wp_bind]
  refine (wp_bufCall_last hL (fun _ => rfl) _ w).mono_ok ?_
  intro x w' hx
  obtain ⟨w₁, n, hkept, hj, hr, hlib⟩ := hx
  have hanswer : x.2 = (L (.save pipe.handle n) w₁.lib).1 := hr
  obtain ⟨blob, hd, hb⟩ :=
    hL.save pipe.handle n w₁.lib k (hkept _ k hk) (hanswer ▸ hj.good)
  refine ⟨?_, hkept.call hL rfl hlib⟩
  show decode x.1 = some k
  rw [← hanswer] at hd
  rw [hj.eq_of_delivered hd]
  exact hb

/-- Steps that leave the handles alone, before anything else. -/
theorem wp_afterKept {α β : Type} {m : Prog Exn (World σ) α} {f : α → Prog Exn (World σ) β}
    (hm : Prog.Within (Kept key) m) {P : β → World σ → Prop} {w : World σ}
    (hf : ∀ a w', Kept key w w' → Prog.wp (f a) (returning P) w') :
    Prog.wp (m >>= f) (returning P) w := by
  rw [Prog.wp_bind]
  exact (hm.wp w).mono (fun a w' h => hf a w' h) (fun _ _ _ => trivial) fun _ _ => trivial

theorem within_caught {α : Type} {R : World σ → World σ → Prop} [IsPreorder (World σ) R]
    {m : Prog Exn (World σ) α} (hm : Prog.Within R m) : Prog.Within R (caught m) := by
  refine .handle (.bind hm fun a => .pure _) fun e => ?_
  cases e with
  | error e => exact .pure _
  | invalidArgument what => exact .throw _

theorem within_logPipelineInitialised (hL : KeyedLib L key decode) (blob : Bytes) :
    Prog.Within (Kept key) (logPipelineInitialised L blob) := by
  have hinspect : Prog.Within (Kept key) (inspect L blob) :=
    .bind (within_bufCall (lenient_kept hL) (fun n => allows_kept hL rfl) _) fun _ => .pure _
  refine .bind (within_caught hinspect) fun x => ?_
  cases x with
  | ok json => exact .pure _
  | error e => exact .bind (within_lastError (lenient_kept hL)) fun _ => .pure _

/-- A Pipeline as it was built: its handle is a new one, the blob encodes
its keying, and the handles there were are left alone. -/
structure Built (key : σ → Handle → Option K) (decode : Bytes → Option K) (w w' : World σ)
    (pipe : Pipeline) (blob : Bytes) : Prop where
  nonzero : pipe.handle ≠ 0
  fresh : key w.lib pipe.handle = none
  keying : ∃ k, key w'.lib pipe.handle = some k ∧ decode blob = some k
  kept : Kept key w w'

/-- What was built, if anything was. -/
def IfBuilt (key : σ → Handle → Option K) (decode : Bytes → Option K) (w : World σ)
    (x : Option (Pipeline × Bytes)) (w' : World σ) : Prop :=
  ∀ built, x = some built → Built key decode w w' built.1 built.2

theorem ifBuilt_none (w w' : World σ) : IfBuilt key decode w none w' := by
  intro built h
  cases h

/-- A failure builds nothing, whatever is done about it. -/
theorem wp_nothing {α : Type} (m : Prog Exn (World σ) α) (w w₁ : World σ) :
    Prog.wp (m >>= fun _ => pure none) (returning (IfBuilt key decode w)) w₁ := by
  rw [Prog.wp_bind]
  exact Prog.wp_of_forall (fun _ w' => ifBuilt_none w w') (fun _ _ => trivial) fun _ => trivial

theorem wp_initAndSave (hL : KeyedLib L key decode) (profile : Bytes) (opts : Opts)
    (w : World σ) :
    Prog.wp (initAndSave L profile opts) (returning (IfBuilt key decode w)) w := by
  unfold initAndSave
  rw [Prog.wp_bind]
  refine wp_caught ?_ fun e w' => wp_nothing _ w w'
  refine (wp_init hL profile opts w).mono_ok ?_
  intro pipe w₁ hinit
  obtain ⟨hnew, hkept₁⟩ := hinit
  obtain ⟨k, hk⟩ := hnew.live
  show Prog.wp _ (returning (IfBuilt key decode w)) w₁
  rw [Prog.wp_bind]
  refine wp_caught ?_ fun e w' => ?_
  · refine (wp_save hL pipe hk).mono_ok ?_
    intro blob w₂ hsave
    obtain ⟨hblob, hkept₂⟩ := hsave
    refine wp_afterKept (within_logPipelineInitialised hL blob) fun _ w₃ hkept₃ => ?_
    intro built hb
    cases hb
    exact ⟨hnew.nonzero, hnew.fresh, ⟨k, hkept₃ _ k (hkept₂ _ k hk), hblob⟩,
      trans_of (Kept key) (trans_of (Kept key) hkept₁ hkept₂) hkept₃⟩
  · show Prog.wp (lastError L >>= fun _ => pipe.destroy L >>= fun _ => pure none) _ w'
    rw [← Prog.bind_bind]
    exact wp_nothing _ w w'

/-- **`build_pipeline`.** -/
theorem wp_buildPipeline (hL : KeyedLib L key decode) (cfg : Config) (p : Pipe) (w : World σ) :
    Prog.wp (buildPipeline L cfg p) (returning (IfBuilt key decode w)) w := by
  have hlookup : Prog.Within (Kept key) (lookup L cfg.profile) :=
    .bind (within_bufCall (lenient_kept hL) (fun n => allows_kept hL rfl) _) fun _ => .pure _
  have hfill : Prog.Within (Kept key)
      (fillKeystreamLayers L cfg.profile cfg.overrides cfg.parallax cfg.wrapper) := by
    refine .bind (within_caught hlookup) fun x => ?_
    cases x with
    | ok json => exact .pure _
    | error e => exact .pure _
  unfold buildPipeline
  rw [Prog.wp_ite]
  split
  · refine wp_afterKept hfill fun x w₁ hkept => ?_
    cases x with
    | none => exact ifBuilt_none w w₁
    | some filled =>
        refine (wp_initAndSave hL (cfg.pipeProfile p) filled.2 w₁).mono_ok ?_
        intro x w₂ hx built hb
        obtain ⟨hz, hfresh, hkey, hkept₂⟩ := hx built hb
        exact ⟨hz, hkept.fresh hfresh, hkey, trans_of (Kept key) hkept hkept₂⟩
  · exact wp_initAndSave hL (cfg.pipeProfile p) cfg.overrides w

/-- The Pipelines of a run: each owns a live handle that its blob matches,
and no two own the same. -/
structure AllBuilt (key : σ → Handle → Option K) (decode : Bytes → Option K)
    (built : Pipe → Option (Pipeline × Bytes)) (w : World σ) : Prop where
  matched : ∀ p x, built p = some x → x.1.handle ≠ 0 ∧
    ∃ k, key w.lib x.1.handle = some k ∧ decode x.2 = some k
  distinct : ∀ p q x y, built p = some x → built q = some y → x.1.handle = y.1.handle → p = q

theorem wp_buildExercised (hL : KeyedLib L key decode) (cfg : Config) (p : Pipe)
    (w : World σ) :
    Prog.wp (buildExercised L cfg p) (returning fun x w' => ∀ built, x = some built →
      IfBuilt key decode w built w' ∧ Kept key w w') w := by
  unfold buildExercised
  rw [Prog.wp_ite]
  split
  · rw [Prog.wp_bind]
    refine (wp_buildPipeline hL cfg p w).mono_ok ?_
    intro x w' hx
    cases x with
    | none =>
        intro built hb
        cases hb
    | some b =>
        intro built hb
        cases hb
        exact ⟨hx, (hx b rfl).kept⟩
  · intro built hb
    cases hb
    exact ⟨ifBuilt_none w w, refl_of (Kept key) w⟩

/-- **Building the Pipelines**, for every shape. -/
theorem wp_buildPipelines (hL : KeyedLib L key decode) (cfg : Config) (w : World σ) :
    Prog.wp (buildPipelines L cfg) (returning fun x w' => ∀ built, x = some built →
      AllBuilt key decode built w') w := by
  unfold buildPipelines
  rw [Prog.wp_bind]
  refine (wp_buildExercised hL cfg .stream w).mono_ok ?_
  intro x w₁ hx
  cases x with
  | none =>
      intro built hb
      cases hb
  | some stream =>
      show Prog.wp _ (returning _) w₁
      rw [Prog.wp_bind]
      refine (wp_buildExercised hL cfg .msg w₁).mono_ok ?_
      intro y w₂ hy
      cases y with
      | none =>
          intro built hb
          cases hb
      | some msg =>
          intro built hb
          cases hb
          obtain ⟨hstream, -⟩ := hx stream rfl
          obtain ⟨hmsg, hkept⟩ := hy msg rfl
          have hne : ∀ a b, stream = some a → msg = some b → a.1.handle ≠ b.1.handle := by
            intro a b ha hb heq
            -- the first handle was live when the second was opened
            obtain ⟨k, hk, -⟩ := (hstream a ha).keying
            have hfresh := (hmsg b hb).fresh
            rw [← heq, hk] at hfresh
            cases hfresh
          constructor
          · intro p b hb
            cases p with
            | stream =>
                obtain ⟨k, hk, hdec⟩ := (hstream b hb).keying
                exact ⟨(hstream b hb).nonzero, k, hkept _ k hk, hdec⟩
            | msg => exact ⟨(hmsg b hb).nonzero, (hmsg b hb).keying⟩
          · intro p q a b ha hb heq
            cases p with
            | stream =>
                cases q with
                | stream => rfl
                | msg => exact (hne a b ha hb heq).elim
            | msg =>
                cases q with
                | stream => exact (hne b a hb ha heq.symm).elim
                | msg => rfl

end Built

/-! ## §3. When it succeeds. -/

section Completes

variable {σ α β : Type} {L : Lib σ}

/-- Run from `w`, the computation returns `a` and leaves the library in the
state `s`. -/
def Returns (m : Prog Exn (World σ) α) (w : World σ) (a : α) (s : σ) : Prop :=
  ∃ w', m w = .ok a w' ∧ w'.lib = s

theorem returns_pure (a : α) (w : World σ) : Returns (pure a) w a w.lib := ⟨w, rfl, rfl⟩

theorem returns_ffi {c : FfiCall} {w : World σ} {r : Reply} {s : σ} (h : L c w.lib = (r, s)) :
    Returns (ffi L c) w r s := by
  refine ⟨w.answered c (r, s), ?_, rfl⟩
  unfold ffi
  rw [h]

theorem Returns.bind {m : Prog Exn (World σ) α} {f : α → Prog Exn (World σ) β} {w : World σ}
    {a : α} {b : β} {s s' : σ} (hm : Returns m w a s)
    (hf : ∀ w', w'.lib = s → Returns (f a) w' b s') : Returns (m >>= f) w b s' := by
  obtain ⟨w₁, hrun, hlib⟩ := hm
  obtain ⟨w₂, hrun', hlib'⟩ := hf w₁ hlib
  -- the second computation starts where the first one ends
  refine ⟨w₂, ?_, hlib'⟩
  show Prog.bind m f w = _
  unfold Prog.bind
  rw [hrun]
  exact hrun'

theorem Returns.caught {m : Prog Exn (World σ) α} {w : World σ} {a : α} {s : σ}
    (hm : Returns m w a s) : Returns (caught m) w (.ok a) s := by
  have hok : Returns (m >>= fun a => pure (.ok a : Except Error α)) w (.ok a) s :=
    hm.bind fun w' h => ⟨w', rfl, h⟩
  obtain ⟨w', hrun, hlib⟩ := hok
  refine ⟨w', ?_, hlib⟩
  unfold Loop.caught Prog.handle
  rw [hrun]

/-- An answer that delivers into the first buffer. -/
structure Fits (r : Reply) : Prop where
  good : r.rc = 0
  len : r.len = r.out.length
  fits : r.len ≤ kBlobCap

theorem returns_bufCall {fn : BlobFn} (what : String) {w : World σ} {r : Reply} {s : σ}
    (hr : L (fn.call kBlobCap) w.lib = (r, s)) (hf : Fits r) :
    Returns (bufCall L fn what) w (r.out, r) s := by
  have hrun : Prog.wp (bufCall L fn what)
      ⟨fun x w' => x = (r.out, r) ∧ w'.lib = s, fun _ _ => False, fun _ => False⟩ w := by
    rw [bufCall_eq_retryOnce]
    refine wp_retryOnce length_zeros (lastAttempt_first hr hf.good).symm (fun _ => ⟨?_, rfl⟩) ?_
    · have hroom : r.len ≤ (zeros kBlobCap).length := by
        rw [length_zeros]
        exact hf.fits
      show ((Buffer.overlay (zeros kBlobCap) r.out).take r.len, r) = (r.out, r)
      rw [Buffer.take_overlay (Nat.le_of_eq hf.len) hroom, hf.len, List.take_length]
    · intro e w' hv _
      have hnone : verdict kBlobCap r = none := verdict_eq_none.mpr ⟨hf.good, hf.fits⟩
      cases hnone.symm.trans hv
  obtain ⟨x, w', hm, rfl, hl⟩ := hrun.returns
  exact ⟨w', hm, hl⟩

/-- A cipher call that is answered well at once. -/
theorem returns_cipherCall {junk : Nat → Nat → UInt8} {fn : CipherFn} {h : Handle}
    {src out : Bytes} {w : World σ} {r : Reply} {s : σ} (what : String)
    (hr : L (fn.call h src (outCap src.length)) w.lib = (r, s)) (hgood : r.rc = 0)
    (hd : Delivered r (outCap src.length) out) :
    Returns (cipherCall L junk h fn src what) w out s := by
  have hrun : Prog.wp (cipherCall L junk h fn src what)
      ⟨fun b w' => b = out ∧ w'.lib = s, fun _ _ => False, fun _ => False⟩ w := by
    rw [cipherCall_eq_retryOnce, Prog.wp_bind]
    refine wp_retryOnce (length_uninit junk) (lastAttempt_first hr hgood).symm
      (fun _ => ⟨?_, rfl⟩) fun e w' hv _ => ?_
    · have hroom : r.len ≤ (uninit junk (outCap src.length)).length := by
        rw [length_uninit]
        exact hd.fits
      show (Buffer.overlay (uninit junk (outCap src.length)) r.out).take r.len = out
      rw [Buffer.take_overlay hd.written hroom, hd.bytes]
    · have hnone : verdict (outCap src.length) r = none := verdict_eq_none.mpr ⟨hgood, hd.fits⟩
      cases hnone.symm.trans hv
  obtain ⟨b, w', hm, rfl, hl⟩ := hrun.returns
  exact ⟨w', hm, hl⟩

/-- `build_pipeline` succeeds when the three calls it needs deliver. -/
theorem returns_initAndSave {profile : Bytes} {opts : Opts} {w : World σ}
    {init save record : Reply} {s₁ s₂ s₃ : σ}
    (hinit : L (.init (ffiStr profile) (ffiStr opts.query) kBlobCap) w.lib = (init, s₁))
    (hsave : L (.save init.handle kBlobCap) s₁ = (save, s₂))
    (hinspect : L (.inspect save.out kBlobCap) s₂ = (record, s₃))
    (hfi : Fits init) (hfs : Fits save) (hfr : Fits record) :
    Returns (initAndSave L profile opts) w (some ({ handle := init.handle }, save.out)) s₃ := by
  have hopen : Returns (Pipeline.init L profile opts) w { handle := init.handle } s₁ :=
    (returns_bufCall _ hinit hfi).bind fun w' h => ⟨_, rfl, h⟩
  refine hopen.caught.bind fun w₁ h₁ => ?_
  have hblob : Returns (Pipeline.save L { handle := init.handle }) w₁ save.out s₂ :=
    (returns_bufCall _ (h₁ ▸ hsave) hfs).bind fun w' h => ⟨_, rfl, h⟩
  refine hblob.caught.bind fun w₂ h₂ => ?_
  have hrecord : Returns (inspect L save.out) w₂ record.out s₃ :=
    (returns_bufCall _ (h₂ ▸ hinspect) hfr).bind fun w' h => ⟨_, rfl, h⟩
  have hlog : Returns (logPipelineInitialised L save.out) w₂ () s₃ :=
    hrecord.caught.bind fun w' h => ⟨w', rfl, h⟩
  exact hlog.bind fun w₃ h₃ => ⟨w₃, rfl, h₃⟩

/-- The start-up of a run on the message Pipeline, when they do. -/
theorem returns_message {cfg : Config} (hshape : cfg.shape = .message) (hprofile : cfg.profile = [])
    {w : World σ} {init save record : Reply} {s₁ s₂ s₃ : σ}
    (hinit : L (.init (ffiStr (cfg.pipeProfile .msg)) (ffiStr cfg.overrides.query) kBlobCap) w.lib =
      (init, s₁))
    (hsave : L (.save init.handle kBlobCap) s₁ = (save, s₂))
    (hinspect : L (.inspect save.out kBlobCap) s₂ = (record, s₃))
    (hfi : Fits init) (hfs : Fits save) (hfr : Fits record)
    {built : Pipe → Option (Pipeline × Bytes)} (hstream : built .stream = none)
    (hmsg : built .msg = some ({ handle := init.handle }, save.out)) :
    Returns (buildPipelines L cfg) w (some built) s₃ := by
  have hnone : Returns (buildExercised L cfg .stream) w (some none) w.lib := by
    unfold buildExercised
    rw [hshape]
    exact returns_pure _ _
  have hone : ∀ w', w'.lib = w.lib →
      Returns (buildExercised L cfg .msg) w' (some (some ({ handle := init.handle }, save.out)))
        s₃ := by
    intro w' hw
    rw [← hw] at hinit
    have hbuild : Returns (buildPipeline L cfg .msg) w'
        (some ({ handle := init.handle }, save.out)) s₃ := by
      unfold buildPipeline
      rw [if_neg (not_not.mpr hprofile)]
      exact returns_initAndSave hinit hsave hinspect hfi hfs hfr
    unfold buildExercised
    rw [hshape]
    exact hbuild.bind fun w'' h => ⟨w'', rfl, h⟩
  refine hnone.bind fun w₁ h₁ => (hone w₁ h₁).bind fun w₂ h₂ => ⟨w₂, ?_, h₂⟩
  refine congrArg (fun b => Prog.Result.ok (some b) w₂) (funext fun p => ?_)
  cases p with
  | stream => exact hstream.symm
  | msg => exact hmsg.symm

end Completes

/-! ## §4. The start. -/

section Start

variable {σ K : Type} (N : Nat) (key : σ → Handle → Option K)

/-- A worker before its thread runs; `content` is what `fill_payload` put
into its buffer. -/
def Worker.start (cfg : Config) (content : Nat → UInt8) : Worker :=
  { plaintext := (List.range cfg.payload.toNat).map content
    scratch := zeros kPumpSlice }

/-- The state the threads start from. -/
def Shared.start (cfg : Config) (content : Fin N → Nat → UInt8)
    (built : Pipe → Option (Pipeline × Bytes)) (lib : σ) : Shared σ K N where
  lib := lib
  pipes p := (built p).map fun x => x.1.handle
  blobs p := ((built p).map fun x => x.2).getD []
  rotations p := ((built p).bind fun x => key lib x.1.handle).toList
  workers k := .start cfg (content k)

/-- The threads of the harness, main's `run` and `N` workers.  The memory
each worker's binding calls find is arbitrary. -/
def harness (junk : Fin N → Nat → Nat → UInt8) (cfg : Config) (fuel : Nat) :
    Tid N → Task Unit
  | none => mainThread cfg N fuel
  | some k => workerMain (junk k) cfg k fuel

/-- A state of a run: what is shared, and what is left of each thread. -/
abbrev Run (σ K : Type) (N : Nat) :=
  Interleave.Config (Tid N) Req Req.Answer Exn Unit (Shared σ K N)

/-- A run begins. -/
def Run.start (junk : Fin N → Nat → Nat → UInt8) (cfg : Config)
    (content : Fin N → Nat → UInt8) (built : Pipe → Option (Pipeline × Bytes)) (lib : σ)
    (fuel : Nat) : Run σ K N :=
  { state := .start N key cfg content built lib
    threads := harness N junk cfg fuel }

variable {N key} {decode : Bytes → Option K}

/-- **The harness starts within its invariant.** -/
theorem pipeInv_start (cfg : Config) (content : Fin N → Nat → UInt8)
    {built : Pipe → Option (Pipeline × Bytes)} {w : World σ}
    (hb : AllBuilt key decode built w) :
    PipeInv key decode (Shared.start N key cfg content built w.lib).toPipeState := by
  have hpipe : ∀ p h, (built p).map (fun x => x.1.handle) = some h →
      ∃ x, built p = some x ∧ x.1.handle = h := by
    intro p h hp
    exact Option.map_eq_some_iff.mp hp
  constructor
  · intro i hi
    cases hi
  · intro p q h hp hq
    obtain ⟨x, hx, hxh⟩ := hpipe p h hp
    obtain ⟨y, hy, hyh⟩ := hpipe q h hq
    exact hb.distinct p q x y hx hy (hxh.trans hyh.symm)
  · intro _ p h hp
    obtain ⟨x, hx, rfl⟩ := hpipe p h hp
    obtain ⟨hz, k, hk, hdec⟩ := hb.matched p x hx
    refine ⟨hz, k, hk, ?_, ?_⟩
    · show decode (((built p).map fun x => x.2).getD []) = some k
      rw [hx]
      exact hdec
    · show (((built p).bind fun x => key w.lib x.1.handle).toList).getLast? = some k
      simp [hx, hk]
  · intro i c a hi
    cases hi
  · exact fun i hi => (hi rfl).elim
  · exact fun i hi => (hi rfl).elim

theorem idle_start (cfg : Config) (content : Fin N → Nat → UInt8)
    (built : Pipe → Option (Pipeline × Bytes)) (lib : σ) (i : Tid N) :
    Outside i (Idle i) (Shared.start N key cfg content built lib) :=
  ⟨rfl, rfl, fun h => (by cases h), rfl⟩

end Start

end ItbCpp.Loop
