/-
  ItbCpp.Loop.Launch
  ──────────────────
  **FROM THE COMMAND LINE TO THE EXIT CODE** (`loop/main.cpp`, `run`).

  The command line is parsed, the Go runtime shaped, the Pipelines built and
  the workers' buffers filled; the threads run and are joined; the summary
  is made and the Pipelines go out of scope.  On every early return before
  the threads start, the Pipelines built so far are destroyed.

    • `wp_launch` — the start-up comes back: with everything the threads
      need, or with an exit code and the handles that there were,
    • `run_gives_back` — so does the whole process, unless a mismatch ends
      it on the spot.

  One answer of the library is the exception to both: a success of `init`
  that is longer than its buffer (`Strands`) is thrown at, and the handle it
  came with is left over.

  Log lines and the memory baselines are left out; the library calls made
  for them are not.
-/
import ItbCpp.Constructors
import ItbCpp.Loop.Accounting
import ItbCpp.Loop.Custody
import ItbCpp.Loop.Sanity

namespace ItbCpp

/-! ## §1. The code. -/

/-- `itb::drbg_auto_tier`. -/
def drbgAutoTier {σ : Type} (L : Lib σ) : Prog Exn (World σ) Bytes := do
  let r ← ffi L (.drbgAutoTier 64)
  check L r.rc "drbg_auto_tier"
  pure ((Buffer.overlay (zeros 64) r.out).takeWhile (· != 0))

namespace Loop

open CNumber (int64Max)
open Interleave (Reach Safe)

/-- What a setter of the Go runtime is given (`runtime.cpp`). -/
inductive Knob where
  | memoryLimit (bytes : Int)
  | gcPercent (pct : Int)
  | gomaxprocs (n : Int)

/-- `ITB_SetMemoryLimit`, `ITB_SetGCPercent` and `ITB_SetGOMAXPROCS`: they do
not fail, and answer with a number. -/
abbrev Knobs (σ : Type) := Knob → σ → Int × σ

/-- What else the start-up depends on. -/
structure Host where
  /-- there is memory for the buffers of a worker -/
  allocates : Nat → Bool
  /-- the calls of `getrandom` that fill a worker's plaintext -/
  getrandom : Nat → Nat → Bytes
  /-- `ITB_PoolStatsLen` -/
  poolStatsLen : Int

/-- How `run` returns before the threads start. -/
inductive Halt where
  | undefined
  | code (n : Nat)
  deriving DecidableEq

abbrev Launching (σ α : Type) := Early Halt Exn (World σ) α

/-- What `run` makes of the answer of `parse_flags`. -/
def Stop.halt : Stop → Halt
  | .undefined => .undefined
  | .exit rc _ => .code (if rc = 1 then 0 else 2)

/-- The threads' side of the start-up: the configuration, the Pipelines and
the workers' plaintexts. -/
structure Launched where
  cfg : Settings
  built : Pipe → Option (Pipeline × Bytes)
  plaintexts : List Bytes

section Code

variable {σ : Type} (L : Lib σ) (S : Knobs σ) (H : Host)

/-- A setter of the runtime. -/
def turn (k : Knob) : Prog Exn (World σ) Int := fun w =>
  .ok (S k w.lib).1 { w with lib := (S k w.lib).2 }

/-- `--memlimit`: auto leaves a limit that is already there. -/
def setMemlimit (cfg : Settings) : Prog Exn (World σ) Unit :=
  if cfg.memlimitAuto then do
    let limit ← turn S (.memoryLimit (-1))
    if limit = int64Max then do
      let _ ← turn S (.memoryLimit cfg.memlimit)
      pure ()
    else pure ()
  else do
    let _ ← turn S (.memoryLimit cfg.memlimit)
    pure ()

/-- A zero flag skips its setter. -/
def setIfPositive (knob : Int → Knob) (n : Int) : Prog Exn (World σ) Unit :=
  if 0 < n then do
    let _ ← turn S (knob n)
    pure ()
  else pure ()

/-- The runtime is shaped before any Pipeline exists. -/
def shapeRuntime (cfg : Settings) : Prog Exn (World σ) Settings := do
  setMemlimit S cfg
  let memlimit ← turn S (.memoryLimit (-1))
  setIfPositive S .gcPercent cfg.gogc
  setIfPositive S .gomaxprocs cfg.gomaxprocs
  pure { cfg with memlimit }

/-- `build_pipeline` for a pipe that the shape exercises, or `return 1`. -/
def openPipe (cfg : Settings) (p : Pipe) : Launching σ (Option (Pipeline × Bytes)) := do
  match ← (liftM (buildExercised L cfg.toConfig p) :
      Launching σ (Option (Option (Pipeline × Bytes)))) with
  | none => Early.leave (.code 1)
  | some x => pure x

/-- The destructor of a `std::optional<Pipeline>`. -/
def release (pipe : Option Pipeline) : Prog Exn (World σ) Unit :=
  match pipe with
  | none => pure ()
  | some pipe => pipe.destroy L

/-- The plaintext of worker `i`, or `return 1`. -/
def readyWorker (cfg : Settings) (i : Nat) : Launching σ Bytes :=
  if H.allocates i then
    match fillPayload (H.getrandom i) cfg.payloadMode (decide (cfg.seed ≠ 0))
        (seedWorker (.ofNat cfg.seed) i) (zeros cfg.payload.toNat) with
    | (true, _, plaintext) => pure plaintext
    | (false, _, _) => Early.leave (.code 1)
  else Early.leave (.code 1)

/-- Those of `n` workers, from `i` on. -/
def readyWorkers (cfg : Settings) (i : Nat) : Nat → Launching σ (List Bytes)
  | 0 => pure []
  | n + 1 => do
      let plaintext ← readyWorker H cfg i
      let rest ← readyWorkers cfg (i + 1) n
      pure (plaintext :: rest)

/-- `pool_stats_len`. -/
def poolSlots : Nat := if 0 < H.poolStatsLen then H.poolStatsLen.toNat else 0

/-- `run`, from the Pipelines to where the threads start. -/
def prepare (cfg : Settings) : Launching σ Launched := do
  let stream ← openPipe L cfg .stream
  -- the members of `r` are destroyed in the reverse order
  Early.unwinding (release L (stream.map Prod.fst)) do
    let msg ← openPipe L cfg .msg
    Early.unwinding (release L (msg.map Prod.fst)) do
      let plaintexts ← readyWorkers H cfg 0 cfg.workers.toNat
      -- `pool_snapshot_alloc`
      Early.require (0 < poolSlots H) (.code 1)
      pure
        { cfg := { cfg with poolSlots := poolSlots H }
          built := fun p =>
            match p with
            | .stream => stream
            | .msg => msg
          plaintexts }

/-- `run`, up to where the threads start. -/
def launch (argv : List Bytes) : Launching σ Launched := do
  let cfg ← ExceptT.adapt Stop.halt (parseFlags L argv)
  let cfg ← (liftM (shapeRuntime S cfg) : Launching σ Settings)
  prepare L H cfg

end Code

/-! ## §2. Calls that end. -/

/-- A preorder that allows the calls which make and end no handle, and what the
binding does around them. -/
structure Tolerant {σ : Type} (L : Lib σ) (R : World σ → World σ → Prop) : Prop where
  call : ∀ c : FfiCall, c.tame → Allows L R c
  dealloc : ∀ content (w : World σ), R w (w.log (.dealloc content))

theorem Tolerant.lenient {σ : Type} {L : Lib σ} {R : World σ → World σ → Prop}
    (h : Tolerant L R) : Lenient L R :=
  ⟨fun _ => h.call _ ⟨rfl, rfl⟩, h.dealloc⟩

/-- A preorder that allows every call, and all that the binding does around
them. -/
structure Permissive {σ : Type} (L : Lib σ) (R : World σ → World σ → Prop) : Prop where
  call : ∀ c, Allows L R c
  event : ∀ e (w : World σ), R w (w.log e)

theorem Permissive.tolerant {σ : Type} {L : Lib σ} {R : World σ → World σ → Prop}
    (h : Permissive L R) : Tolerant L R :=
  ⟨fun c _ => h.call c, fun _ => h.event _⟩

/-- The record of the run goes on. -/
def Grown {σ : Type} (w w' : World σ) : Prop := w.trace <+: w'.trace

instance {σ : Type} : IsPreorder (World σ) Grown where
  refl _ := List.prefix_rfl
  trans _ _ _ h h' := List.IsPrefix.trans h h'

theorem permissive_grown {σ : Type} (L : Lib σ) : Permissive L Grown :=
  ⟨fun _ _ => List.prefix_append _ _, fun _ _ => List.prefix_append _ _⟩

section Ends

variable {σ α : Type} {L : Lib σ} {R : World σ → World σ → Prop} [IsPreorder (World σ) R]

theorem settles_lastError {X : Exn → Prop} (hR : Lenient L R) :
    Prog.Settles R X (lastError L) := by
  refine .of_within (within_lastError hR) fun w => ?_
  exact wp_lastError.mono (fun _ _ _ => trivial) (fun _ _ h => h.elim) fun _ h => h

/-- `buf_call` ends, with its bytes or with an error. -/
theorem settles_bufCall (hR : Lenient L R) {fn : BlobFn} (hfn : ∀ n, Allows L R (fn.call n))
    (what : String) : Prog.Settles R Exn.IsError (bufCall L fn what) := by
  refine .of_within (within_bufCall hR hfn what) fun w => ?_
  rw [bufCall_eq_retryOnce]
  exact wp_retryOnce length_zeros rfl (fun _ => trivial) fun e _ _ _ => ⟨e, rfl⟩

/-- What throws nothing but errors throws nothing when they are caught. -/
theorem settles_caught {m : Prog Exn (World σ) α} (hm : Prog.Settles R Exn.IsError m) :
    Prog.Settles R NoExn (caught m) := by
  have hok : Prog.Settles R Exn.IsError (do
      let a ← m
      pure (.ok a : Except Error α)) := .bind hm fun _ => .pure _
  refine .handle hok fun e he => ?_
  obtain ⟨x, rfl⟩ := he
  exact .pure _

omit [IsPreorder (World σ) R] in
/-- As a total postcondition. -/
theorem returns_of_settles {m : Prog Exn (World σ) α} (hm : Prog.Settles R NoExn m)
    (w : World σ) : Prog.wp m ⟨fun _ w' => R w w', fun _ _ => False, fun _ => False⟩ w :=
  (hm w).mono (fun _ _ h => h) (fun _ _ h => h.1) fun _ h => h

end Ends

/-! ## §3. The command line. -/

/-- What every accepted command line says. -/
structure Runnable (cfg : Settings) : Prop where
  duration : 0 < cfg.durationNs
  workers : 1 ≤ cfg.workers ∧ cfg.workers ≤ kMaxWorkers
  payload : 1 ≤ cfg.payload

/-- The limit that `--memlimit` names. -/
def RawFlags.Limits (f : RawFlags) (n : Int) : Prop :=
  if f.memlimit = text "auto" then n = autoMemlimit f.goroutines
  else ∃ size : Nat, SizeText f.memlimit size ∧ n = size

/-- A configuration that such flags give. -/
structure Accepted (f : RawFlags) (cfg : Settings) : Prop extends Runnable cfg where
  memlimit : f.Limits cfg.memlimit
  memlimitAuto : cfg.memlimitAuto = true ↔ f.memlimit = text "auto"

/-- The flags of the command line give the configuration. -/
def AcceptedLine (argv : List Bytes) (cfg : Settings) : Prop :=
  ∃ p, parseArgv (flagTable {}) argv {} = some p ∧ Accepted p.flags cfg

/-- It is defined how `parse_flags` stops, and with a code. -/
def Stop.Coded (x : Stop) : Prop := ∃ rc err, x = .exit rc err

theorem Stop.Coded.halt {x : Stop} (h : x.Coded) : ∃ n, x.halt = .code n ∧ n ≤ 2 := by
  obtain ⟨rc, err, rfl⟩ := h
  refine ⟨_, rfl, ?_⟩
  split <;> omega

theorem coded_refuse (msg : Bytes) : (refuse msg).Coded := ⟨_, _, rfl⟩

section Line

variable {σ : Type} {L : Lib σ} {R : World σ → World σ → Prop} [IsPreorder (World σ) R]

theorem comes_size (s msg : Bytes) :
    Early.Comes R (fun n : Int => ∃ size : Nat, SizeText s size ∧ n = size) Stop.Coded
      (landed (parseSize s 0) msg : Validated σ Int) := by
  by_cases h : ∃ n, SizeText s n
  · obtain ⟨n, hn⟩ := h
    rw [parseSize_sizeText hn]
    exact .pure ⟨n, hn, rfl⟩
  · rw [parseSize_other fun n hn => h ⟨n, hn⟩]
    exact .leave (coded_refuse msg)

theorem comes_duration {s : Bytes} (hs : 0 ∉ s) (msg : Bytes) :
    Early.Comes R (fun n => 0 < n) Stop.Coded
      (landed ((parseDuration s 0).map fun r => (r.1 && decide (0 < r.2), r.2)) msg :
        Validated σ Int) := by
  obtain ⟨hyes, hno⟩ := parseDuration_times hs 0
  by_cases h : ∃ n, Times s n
  · obtain ⟨n, hn⟩ := h
    rw [hyes n hn]
    by_cases hpos : 0 < n
    · simp only [Option.map_some, Bool.true_and, decide_eq_true hpos]
      exact .pure hpos
    · simp only [Option.map_some, Bool.true_and, decide_eq_false hpos]
      exact .leave (coded_refuse msg)
  · rw [hno h]
    exact .leave (coded_refuse msg)

theorem comes_chosen {α : Type} (r : Option α) (msg : Bytes) :
    Early.Comes R (fun _ => True) Stop.Coded (chosen r msg : Validated σ α) := by
  cases r with
  | none => exact .leave (coded_refuse msg)
  | some a => exact .pure trivial

omit [IsPreorder (World σ) R] in
/-- A question to the library, on the way. -/
theorem comes_settled {α : Type} {m : Prog Exn (World σ) α} (hm : Prog.Settles R NoExn m) :
    Early.Comes R (fun _ => True) Stop.Coded (liftM m : Validated σ α) :=
  .lift fun w => (returns_of_settles hm w).mono_ok fun _ _ h => ⟨h, trivial⟩

variable (hR : Tolerant L R)
include hR

theorem settles_ask {fn : BlobFn} (hfn : ∀ n, (fn.call n).tame) (what : String) :
    Prog.Settles R NoExn (caught (bufCall L fn what >>= fun p => pure p.1)) :=
  settles_caught (.bind (settles_bufCall hR.lenient (fun n => hR.call _ (hfn n)) what)
    fun _ => .pure _)

theorem settles_hashRegistered (name : Bytes) :
    Prog.Settles R NoExn (hashRegistered L name) := by
  unfold hashRegistered
  refine .bind (settles_ask hR (fun _ => ⟨rfl, rfl⟩) _) fun x => ?_
  cases x with
  | error e => exact .pure _
  | ok json => exact .pure _

theorem comes_profileSurface (name : Bytes) :
    Early.Comes R (fun _ => True) Stop.Coded (profileSurface L name) := by
  refine .bind (comes_settled (settles_ask hR (fun _ => ⟨rfl, rfl⟩) _)) fun x _ => ?_
  cases x with
  | error e => exact .leave (coded_refuse _)
  | ok json => exact comes_chosen _ _

theorem comes_shapeOf (f : RawFlags) (asked : Shape) :
    Early.Comes R (fun _ => True) Stop.Coded (shapeOf L f asked) := by
  unfold shapeOf
  split
  · exact .pure trivial
  · exact .bind (comes_profileSurface hR f.profile) fun x _ => .pure trivial

omit hR in
theorem comes_memlimitOf (f : RawFlags) :
    Early.Comes R f.Limits Stop.Coded (memlimitOf f : Validated σ Int) := by
  unfold memlimitOf RawFlags.Limits
  by_cases hauto : f.memlimit = text "auto"
  · simp only [if_pos hauto]
    exact .pure rfl
  · simp only [if_neg hauto]
    exact comes_size _ _

omit hR in
theorem comes_require (c : Prop) [Decidable c] (msg : Bytes) :
    Early.Comes R (fun _ => c) Stop.Coded (Early.require c (refuse msg) : Validated σ Unit) :=
  .require (coded_refuse msg)

/-- The checks of the flags. -/
theorem comes_validate {f : RawFlags} (hf : f.Typed) :
    Early.Comes R (Accepted f) Stop.Coded (validate L f) := by
  unfold validate
  refine .bind (comes_duration hf.duration _) fun durationNs hduration => ?_
  refine .bind (comes_require _ _) fun _ _ => ?_
  refine .bind (comes_require _ _) fun _ hworkers => ?_
  refine .bind (comes_chosen _ _) fun asked _ => ?_
  refine .bind (comes_settled (settles_hashRegistered hR f.hash)) fun known _ => ?_
  refine .bind (comes_require _ _) fun _ _ => ?_
  refine .bind (comes_size _ _) fun payload _ => ?_
  refine .bind (comes_require _ _) fun _ hpayload => ?_
  refine .bind (comes_memlimitOf f) fun memlimit hmemlimit => ?_
  refine .bind (comes_require _ _) fun _ _ => ?_
  refine .bind (comes_chosen _ _) fun parallax _ => ?_
  refine .bind (comes_chosen _ _) fun wrapper _ => ?_
  refine .bind (comes_shapeOf hR f asked) fun shape _ => ?_
  refine .bind (comes_require _ _) fun _ _ => ?_
  refine .bind (comes_require _ _) fun _ _ => ?_
  refine .bind (comes_require _ _) fun _ _ => ?_
  refine .bind (comes_require _ _) fun _ _ => ?_
  refine .bind (comes_require _ _) fun _ _ => ?_
  refine .bind (comes_size _ _) fun chunkSize _ => ?_
  refine .bind (comes_require _ _) fun _ _ => ?_
  refine .bind (comes_require _ _) fun _ _ => ?_
  refine .bind (comes_require _ _) fun _ _ => ?_
  refine .bind (comes_chosen _ _) fun payloadMode _ => ?_
  exact .pure ⟨⟨hduration, hworkers, hpayload⟩, hmemlimit, decide_eq_true_iff⟩

/-- **`parse_flags` comes back**, whatever the library answers. -/
theorem comes_parseFlags {argv : List Bytes} (hargv : ∀ a ∈ argv, 0 ∉ a) :
    Early.Comes R (AcceptedLine argv) Stop.Coded (parseFlags L argv) := by
  obtain ⟨p, hp, htyped⟩ : ∃ p, parseArgv (flagTable {}) argv {} = some p ∧ p.flags.Typed :=
    parseArgv_typed hargv typed_defaults
  by_cases hrc : p.rc = 0
  · rw [parseFlags_parsed hp hrc]
    refine fun w => (comes_validate hR htyped w).mono (fun cfg w' h => ?_) fun _ _ h => h
    exact ⟨h.1, p, hp, h.2⟩
  · rw [parseFlags_stops hp hrc]
    exact .leave ⟨_, _, rfl⟩

end Line

/-! ## §4. Opening and releasing. -/

section Within

variable {σ : Type} {L : Lib σ} {R : World σ → World σ → Prop} [IsPreorder (World σ) R]

theorem settles_destroy {X : Exn → Prop} (hR : Permissive L R) (pipe : Pipeline) :
    Prog.Settles R X (pipe.destroy L) :=
  .ite (.bind (hR.call _) fun _ => .pure ()) (.pure ())

/-- Building a Pipeline comes back, within all that allows it. -/
theorem settles_buildExercised (hR : Permissive L R) (cfg : Config) (p : Pipe) :
    Prog.Settles R NoExn (buildExercised L cfg p) := by
  have hT := hR.tolerant
  have hlast : Prog.Settles R NoExn (lastError L) := settles_lastError hT.lenient
  have hinit : ∀ opts, Prog.Settles R Exn.IsError
      (Pipeline.init L (cfg.pipeProfile p) opts) := fun opts =>
    .bind (settles_bufCall hT.lenient (fun n => hR.call _) _) fun _ =>
      .bind (.modify (hR.event _)) fun _ => .bind (.modify (hR.event _)) fun _ => .pure _
  have hlog : ∀ blob, Prog.Settles R NoExn (logPipelineInitialised L blob) := by
    intro blob
    refine .bind (settles_ask hT (fun _ => ⟨rfl, rfl⟩) _) fun x => ?_
    cases x with
    | ok json => exact .pure _
    | error e => exact .bind hlast fun _ => .pure _
  have hbuild : ∀ opts, Prog.Settles R NoExn
      (initAndSave L (cfg.pipeProfile p) opts) := by
    intro opts
    refine .bind (settles_caught (hinit opts)) fun x => ?_
    cases x with
    | error e => exact .bind hlast fun _ => .pure _
    | ok pipe =>
        refine .bind (settles_ask hT (fun _ => ⟨rfl, rfl⟩) _) fun x => ?_
        cases x with
        | error e => exact .bind hlast fun _ => .bind (settles_destroy hR pipe) fun _ => .pure _
        | ok blob => exact .bind (hlog blob) fun _ => .pure _
  have hpipe : Prog.Settles R NoExn (buildPipeline L cfg p) := by
    refine .ite (.bind (.bind (settles_ask hT (fun _ => ⟨rfl, rfl⟩) _) fun x => ?_) fun x => ?_)
      (hbuild _)
    · cases x with
      | ok json => exact .pure _
      | error e => exact .pure _
    · cases x with
      | none => exact .pure _
      | some filled => exact hbuild filled.2
  refine .ite (.bind hpipe fun x => ?_) (.pure _)
  cases x with
  | none => exact .pure _
  | some b => exact .pure _

end Within

section Handles

variable {σ K : Type} {L : Lib σ} {key : σ → Handle → Option K} {decode : Bytes → Option K}
  {w w₁ w₂ w' : World σ}

/-- The record of the run goes on, and the same handles live. -/
def Resting (key : σ → Handle → Option K) (w w' : World σ) : Prop :=
  SameLive key w w' ∧ Grown w w'

instance (key : σ → Handle → Option K) : IsPreorder (World σ) (Resting key) where
  refl w := ⟨refl_of (SameLive key) w, refl_of Grown w⟩
  trans _ _ _ h h' := ⟨trans_of (SameLive key) h.1 h'.1, trans_of Grown h.2 h'.2⟩

/-- An `init` on the record was answered with a success longer than the room it
was given, and with the handle `g`: `buf_call` throws, and nobody owns `g`. -/
def StrandedIn (L : Lib σ) (evs : List Event) (g : Handle) : Prop :=
  ∃ profile opts s, Strands L (.init profile opts) s ∧
    let t := lastTry L (BlobFn.init profile opts).call kBlobCap s
    t.2.handle = g ∧ Event.call (.init profile opts t.1) t.2 ∈ evs

/-- Of the handles that live now, `g` is new, and it was stranded on the way. -/
structure Stranded (L : Lib σ) (key : σ → Handle → Option K) (w w' : World σ) (g : Handle) :
    Prop where
  gained : Gained key w.lib w'.lib g
  recorded : ∃ evs, w'.trace = w.trace ++ evs ∧ StrandedIn L evs g

/-- **What a start that failed leaves**: the handles that there were, and at most
one that was stranded. -/
def Spared (L : Lib σ) (key : σ → Handle → Option K) (w w' : World σ) : Prop :=
  SameLive key w w' ∨ ∃ g, Stranded L key w w' g

theorem StrandedIn.mono {evs evs' : List Event} {g : Handle} (h : StrandedIn L evs g)
    (hsub : evs ⊆ evs') : StrandedIn L evs' g := by
  obtain ⟨profile, opts, s, hs, hg, hmem⟩ := h
  exact ⟨profile, opts, s, hs, hg, hsub hmem⟩

/-- What is on the record stays there. -/
theorem recorded_between {g : Handle}
    (h : ∃ evs, w₂.trace = w₁.trace ++ evs ∧ StrandedIn L evs g) (hbefore : Grown w w₁)
    (hafter : Grown w₂ w') : ∃ evs, w'.trace = w.trace ++ evs ∧ StrandedIn L evs g := by
  obtain ⟨evs, htrace, hin⟩ := h
  obtain ⟨pre, hpre⟩ := hbefore
  obtain ⟨post, hpost⟩ := hafter
  refine ⟨pre ++ evs ++ post, ?_, hin.mono ?_⟩
  · rw [← hpost, htrace, ← hpre]
    simp only [List.append_assoc]
  · exact List.subset_append_of_subset_left _ (List.subset_append_right _ _)

theorem Stranded.between {g : Handle} (h : Stranded L key w₁ w₂ g) (hbefore : Resting key w w₁)
    (hafter : Resting key w₂ w') : Stranded L key w w' g :=
  ⟨h.gained.between hbefore.1 hafter.1, recorded_between h.recorded hbefore.2 hafter.2⟩

theorem Spared.between (h : Spared L key w₁ w₂) (hbefore : Resting key w w₁)
    (hafter : Resting key w₂ w') : Spared L key w w' := by
  rcases h with hsame | ⟨g, hg⟩
  · exact Or.inl (trans_of (SameLive key) (trans_of (SameLive key) hbefore.1 hsame) hafter.1)
  · exact Or.inr ⟨g, hg.between hbefore hafter⟩

/-- A computation that ends without an exception, in such a state. -/
abbrev ending {α : Type} (P : α → World σ → Prop) : Prog.Post Exn (World σ) α :=
  ⟨P, fun _ _ => False, fun _ => False⟩

/-- A handle that was made and freed leaves the live ones as they were. -/
theorem Gained.freed (hL : AccountedLib L key decode) {g : Handle}
    (h : Gained key w.lib w₁.lib g) (hsame : SameLive key w₁ w') (x : Handle) :
    Live key (L (.free g) w'.lib).2 x ↔ Live key w.lib x := by
  rw [live_freed hL, hsame x, h.live x]
  constructor
  · rintro ⟨hold | hx, hne⟩
    · exact hold
    · exact (hne hx).elim
  · intro hold
    refine ⟨Or.inl hold, ?_⟩
    rintro rfl
    exact h.fresh hold

theorem wp_destroy (hL : AccountedLib L key decode) {pipe : Pipeline}
    (h : Gained key w.lib w₁.lib pipe.handle) (hsame : SameLive key w₁ w') :
    Prog.wp (pipe.destroy L) (ending fun _ => SameLive key w) w' := by
  unfold Pipeline.destroy
  rw [if_pos h.nonzero]
  exact h.freed hL hsame

/-- **Destroying a Pipeline** takes back what opening it did. -/
theorem Opened.release (hL : AccountedLib L key decode) {x : Option (Pipeline × Bytes)}
    (h : Opened key w w₁ x) (hsame : SameLive key w₁ w') :
    Prog.wp (release L (x.map Prod.fst)) (ending fun _ => SameLive key w) w' := by
  cases x with
  | none => exact trans_of (SameLive key) (h.same rfl) hsame
  | some b => exact wp_destroy hL (h.gains b rfl) hsame

/-- Destroying a Pipeline leaves alone what was stranded since. -/
theorem Stranded.release (hL : AccountedLib L key decode) {x : Option (Pipeline × Bytes)}
    {g : Handle} (h : Stranded L key w₁ w₂ g) (hopened : Opened key w w₁ x)
    (hgrown : Grown w w₁) :
    Prog.wp (release L (x.map Prod.fst)) (ending fun _ w' => Stranded L key w w' g) w₂ := by
  cases x with
  | none => exact h.between ⟨hopened.same rfl, hgrown⟩ (refl_of (Resting key) w₂)
  | some b =>
      have hown : Gained key w.lib w₁.lib b.1.handle := hopened.gains b rfl
      -- the Pipeline was there before `g`, which is fresh
      have hne : g ≠ b.1.handle := by
        intro heq
        exact h.gained.fresh ((hown.live g).mpr (Or.inr heq))
      have hold : ∀ x, Live key w.lib x → Live key w₁.lib x := fun x hx =>
        (hown.live x).mpr (Or.inl hx)
      show Prog.wp (b.1.destroy L) _ w₂
      unfold Pipeline.destroy
      rw [if_pos hown.nonzero]
      refine ⟨⟨h.gained.nonzero, fun hg => h.gained.fresh (hold g hg), fun x => ?_⟩,
        recorded_between h.recorded hgrown ((permissive_grown L).call _ w₂)⟩
      show Live key (L (.free b.1.handle) w₂.lib).2 x ↔ _
      rw [live_freed hL, h.gained.live x, hown.live x]
      constructor
      · rintro ⟨(hx | hx) | hx, hxne⟩
        · exact Or.inl hx
        · exact (hxne hx).elim
        · exact Or.inr hx
      · rintro (hx | rfl)
        · exact ⟨Or.inl (Or.inl hx), fun heq => hown.fresh (heq ▸ hx)⟩
        · exact ⟨Or.inr rfl, hne⟩

/-- Destroying a Pipeline spares what opening it did. -/
theorem Spared.release (hL : AccountedLib L key decode) {x : Option (Pipeline × Bytes)}
    (h : Spared L key w₁ w₂) (hopened : Opened key w w₁ x) (hgrown : Grown w w₁) :
    Prog.wp (release L (x.map Prod.fst)) (ending fun _ w' => Spared L key w w') w₂ := by
  rcases h with hsame | ⟨g, hg⟩
  · exact (hopened.release hL hsame).mono_ok fun _ _ h => Or.inl h
  · exact (hg.release hL hopened hgrown).mono_ok fun _ _ h => Or.inr ⟨g, h⟩

end Handles

/-! ## §5. The start-up. -/

/-- The setters of the runtime touch no Pipeline. -/
def SparesHandles {σ K : Type} (S : Knobs σ) (key : σ → Handle → Option K) : Prop :=
  ∀ k s h, key (S k s).2 h = key s h

section Startup

variable {σ K : Type} {L : Lib σ} {S : Knobs σ} {key : σ → Handle → Option K}
  {decode : Bytes → Option K} {w w₁ w₂ w' : World σ} {cfg : Settings}

theorem settles_turn (hS : SparesHandles S key) (k : Knob) :
    Prog.Settles (Resting key) NoExn (turn S k) := by
  intro w
  refine ⟨fun h => ?_, refl_of Grown w⟩
  show (key (S k w.lib).2 h).isSome = true ↔ (key w.lib h).isSome = true
  rw [hS]

theorem settles_setMemlimit (hS : SparesHandles S key) (cfg : Settings) :
    Prog.Settles (Resting key) NoExn (setMemlimit S cfg) := by
  refine .ite (.bind (settles_turn hS _) fun limit => .ite ?_ (.pure ())) ?_
  · exact .bind (settles_turn hS _) fun _ => .pure ()
  · exact .bind (settles_turn hS _) fun _ => .pure ()

theorem settles_setIfPositive (hS : SparesHandles S key) (knob : Int → Knob) (n : Int) :
    Prog.Settles (Resting key) NoExn (setIfPositive S knob n) :=
  .ite (.bind (settles_turn hS _) fun _ => .pure ()) (.pure ())

/-- Shaping the runtime changes nothing of the configuration but the limit it
reports. -/
theorem wp_shapeRuntime (hS : SparesHandles S key) (cfg : Settings) (w : World σ) :
    Prog.wp (shapeRuntime S cfg)
      (ending fun cfg' w' => Resting key w w' ∧ ∃ m, cfg' = { cfg with memlimit := m }) w := by
  have hafter : Prog.Settles (Resting key) NoExn (do
      setIfPositive S .gcPercent cfg.gogc
      setIfPositive S .gomaxprocs cfg.gomaxprocs : Prog Exn (World σ) Unit) :=
    .bind (settles_setIfPositive hS _ _) fun _ => settles_setIfPositive hS _ _
  unfold shapeRuntime
  rw [Prog.wp_bind]
  refine (returns_of_settles (settles_setMemlimit hS cfg) w).mono_ok fun _ w₁ h₁ => ?_
  show Prog.wp _ (ending _) w₁
  rw [Prog.wp_bind]
  refine (returns_of_settles (settles_turn hS _) w₁).mono_ok fun m w₂ h₂ => ?_
  show Prog.wp _ (ending _) w₂
  rw [← Prog.bind_bind, Prog.wp_bind]
  refine (returns_of_settles hafter w₂).mono_ok fun _ w₃ h₃ => ?_
  exact ⟨trans_of (Resting key) (trans_of (Resting key) h₁ h₂) h₃, m, rfl⟩

/-- The workers' plaintexts, of the size asked for. -/
theorem wp_readyWorkers (H : Host) (cfg : Settings) (n i : Nat) (w : World σ) :
    Early.wp (readyWorkers H cfg i n : Launching σ (List Bytes))
      (fun ps w' => w' = w ∧ ps.length = n ∧ ∀ p ∈ ps, p.length = cfg.payload.toNat)
      (fun r w' => r = .code 1 ∧ w' = w) w := by
  have hone : ∀ i, Early.wp (readyWorker H cfg i : Launching σ Bytes)
      (fun p w' => w' = w ∧ p.length = cfg.payload.toNat) (fun r w' => r = .code 1 ∧ w' = w) w := by
    intro i
    have hlen := length_fillPayload (H.getrandom i) cfg.payloadMode (decide (cfg.seed ≠ 0))
      (seedWorker (.ofNat cfg.seed) i) (zeros cfg.payload.toNat)
    unfold readyWorker
    split
    · split
      · rename_i heq
        rw [heq, length_zeros] at hlen
        exact Early.wp_pure ⟨rfl, hlen⟩
      · exact Early.wp_leave ⟨rfl, rfl⟩
    · exact Early.wp_leave ⟨rfl, rfl⟩
  induction n generalizing i with
  | zero => exact Early.wp_pure ⟨rfl, rfl, fun p hp => (by cases hp)⟩
  | succ n ih =>
      refine Early.wp_bind ((hone i).mono (fun p w₁ hp => ?_) fun _ _ h => h)
      obtain ⟨rfl, hlen⟩ := hp
      refine Early.wp_bind ((ih (i + 1)).mono (fun ps w₂ hps => ?_) fun _ _ h => h)
      obtain ⟨rfl, hcount, hall⟩ := hps
      refine Early.wp_pure ⟨rfl, congrArg (· + 1) hcount, fun q hq => ?_⟩
      rcases List.mem_cons.mp hq with rfl | hq
      · exact hlen
      · exact hall q hq

end Startup

section Launching

variable {σ K : Type} {L : Lib σ} {S : Knobs σ} {H : Host} {key : σ → Handle → Option K}
  {decode : Bytes → Option K} {w w₁ w' : World σ}

/-- A handle more or less while the same ones live. -/
theorem OpenedAll.after {s s₁ s' : σ} {built : Pipe → Option (Pipeline × Bytes)}
    (h : OpenedAll key s₁ s' built) (hsame : ∀ g, Live key s₁ g ↔ Live key s g) :
    OpenedAll key s s' built := by
  refine ⟨fun p b hb => ?_, fun g => ?_⟩
  · rw [← hsame]
    exact h.fresh p b hb
  · rw [← hsame]
    exact h.live g

end Launching

/-! ## §6. The memory limit. -/

/-- What the documentation of the Go runtime says of its soft limit: a setter
answers with the limit there was, a negative one only asks, and nothing else
moves it. -/
structure Paced {σ : Type} (L : Lib σ) (S : Knobs σ) (limit : σ → Int) : Prop where
  answers : ∀ b s, (S (.memoryLimit b) s).1 = limit s
  sets : ∀ b s, limit (S (.memoryLimit b) s).2 = if 0 ≤ b then b else limit s
  gcPercent : ∀ n s, limit (S (.gcPercent n) s).2 = limit s
  gomaxprocs : ∀ n s, limit (S (.gomaxprocs n) s).2 = limit s
  calls : ∀ c s, limit (L c s).2 = limit s

/-- The same limit is in force. -/
def SameLimit {σ : Type} (limit : σ → Int) (w w' : World σ) : Prop := limit w'.lib = limit w.lib

instance {σ : Type} (limit : σ → Int) : IsPreorder (World σ) (SameLimit limit) where
  refl _ := rfl
  trans _ _ _ h h' := h'.trans h

section Limit

variable {σ : Type} {L : Lib σ} {S : Knobs σ} {H : Host} {limit : σ → Int} {w w' : World σ}

theorem Paced.permissive (hS : Paced L S limit) : Permissive L (SameLimit limit) :=
  ⟨fun c w => hS.calls c w.lib, fun _ _ => rfl⟩


/-- The limit that is left in force: an automatic one gives way to one that is
already there. -/
def Settings.leaves (cfg : Settings) (there : Int) : Int :=
  if cfg.memlimitAuto ∧ there ≠ int64Max then there else cfg.memlimit

theorem wp_turn (k : Knob) {Q : Prog.Post Exn (World σ) Int} :
    Prog.wp (turn S k) Q w ↔ Q.ok (S k w.lib).1 { w with lib := (S k w.lib).2 } := Iff.rfl

theorem wp_setMemlimit (hS : Paced L S limit) {cfg : Settings} (hcfg : 0 ≤ cfg.memlimit)
    (w : World σ) :
    Prog.wp (setMemlimit S cfg) (ending fun _ w' => limit w'.lib = cfg.leaves (limit w.lib)) w := by
  have hset : ∀ s, limit (S (.memoryLimit cfg.memlimit) s).2 = cfg.memlimit := fun s =>
    (hS.sets _ s).trans (if_pos hcfg)
  have hask : ∀ s, limit (S (.memoryLimit (-1)) s).2 = limit s := fun s =>
    (hS.sets _ s).trans (if_neg (by decide))
  unfold setMemlimit Settings.leaves
  cases hauto : cfg.memlimitAuto with
  | true =>
      show Prog.wp (if (S (.memoryLimit (-1)) w.lib).1 = int64Max then _ else _) _ _
      rw [hS.answers]
      by_cases hmax : limit w.lib = int64Max
      · rw [if_pos hmax, if_neg fun h => h.2 hmax]
        exact hset _
      · rw [if_neg hmax, if_pos ⟨rfl, hmax⟩]
        exact hask _
  | false =>
      simp only [Bool.false_eq_true, if_false, false_and]
      exact hset _

/-- **Shaping the runtime** leaves that limit in force, and reports it. -/
theorem wp_shapeRuntime_limit (hS : Paced L S limit) {cfg : Settings} (hcfg : 0 ≤ cfg.memlimit)
    (w : World σ) :
    Prog.wp (shapeRuntime S cfg) (ending fun cfg' w' => cfg'.memlimit = limit w'.lib ∧
      limit w'.lib = cfg.leaves (limit w.lib)) w := by
  have hskip : ∀ (knob : Int → Knob) (n : Int), (∀ n s, limit (S (knob n) s).2 = limit s) →
      Prog.Settles (SameLimit limit) NoExn (setIfPositive S knob n) := fun knob n hknob =>
    .ite (.bind (fun w => hknob n w.lib) fun _ => .pure ()) (.pure ())
  have hafter : Prog.Settles (SameLimit limit) NoExn (do
      setIfPositive S .gcPercent cfg.gogc
      setIfPositive S .gomaxprocs cfg.gomaxprocs : Prog Exn (World σ) Unit) :=
    .bind (hskip _ _ hS.gcPercent) fun _ => hskip _ _ hS.gomaxprocs
  unfold shapeRuntime
  rw [Prog.wp_bind]
  refine (wp_setMemlimit hS hcfg w).mono_ok fun _ w₁ h₁ => ?_
  show Prog.wp _ (ending _) w₁
  rw [Prog.wp_bind, wp_turn, hS.answers]
  show Prog.wp (setIfPositive S .gcPercent cfg.gogc >>= fun _ =>
    setIfPositive S .gomaxprocs cfg.gomaxprocs >>= fun _ => pure _) (ending _) _
  rw [← Prog.bind_bind, Prog.wp_bind]
  refine (returns_of_settles hafter _).mono_ok fun _ w₂ h₂ => ?_
  -- asking leaves the limit as it is
  have hsame : limit w₂.lib = limit w₁.lib :=
    h₂.trans ((hS.sets _ _).trans (if_neg (by decide)))
  exact ⟨hsame.symm, hsame.trans h₁⟩

/-- What `--memlimit` makes of the limit that was there. -/
def RawFlags.InForce (f : RawFlags) (there now : Int) : Prop :=
  if f.memlimit = text "auto" then
    now = if there = int64Max then autoMemlimit f.goroutines else there
  else ∃ size : Nat, SizeText f.memlimit size ∧ now = size

theorem autoMemlimit_bounds (workers : Int) :
    0 ≤ autoMemlimit workers ∧ autoMemlimit workers < int64Max := by
  unfold autoMemlimit
  split <;> decide

/-- `--memlimit` names no negative limit. -/
theorem Accepted.memlimit_nonneg {f : RawFlags} {cfg : Settings} (h : Accepted f cfg) :
    0 ≤ cfg.memlimit := by
  have hlimit := h.memlimit
  unfold RawFlags.Limits at hlimit
  split at hlimit
  · rw [hlimit]
    exact (autoMemlimit_bounds _).1
  · obtain ⟨size, -, hsize⟩ := hlimit
    omega

theorem Accepted.inForce {f : RawFlags} {cfg : Settings} (h : Accepted f cfg) (there : Int) :
    f.InForce there (cfg.leaves there) := by
  have hlimit := h.memlimit
  unfold RawFlags.Limits at hlimit
  unfold RawFlags.InForce Settings.leaves
  by_cases hauto : f.memlimit = text "auto"
  · rw [if_pos hauto] at hlimit ⊢
    rw [h.memlimitAuto.mpr hauto, hlimit]
    by_cases hmax : there = int64Max
    · rw [if_neg fun hno => hno.2 hmax, if_pos hmax]
    · rw [if_pos ⟨rfl, hmax⟩, if_neg hmax]
  · rw [if_neg hauto] at hlimit ⊢
    rw [if_neg fun hyes => hauto (h.memlimitAuto.mp hyes.1)]
    exact hlimit

/-- Building the Pipelines and destroying them leaves the limit alone. -/
theorem comes_prepare (hS : Paced L S limit) (cfg : Settings) :
    Early.Comes (SameLimit limit) (fun l => l.cfg.memlimit = cfg.memlimit) (fun _ => True)
      (prepare L H cfg) := by
  have hrelease : ∀ x : Option (Pipeline × Bytes),
      Prog.Settles (SameLimit limit) (fun _ => False) (release L (x.map Prod.fst)) := by
    intro x
    cases x with
    | none => exact .pure ()
    | some b => exact settles_destroy hS.permissive b.1
  have hopen : ∀ p, Early.Comes (SameLimit limit) (fun _ => True) (fun _ => True)
      (openPipe L cfg p) := by
    intro p
    have hbuilt : Early.Comes (SameLimit limit) (fun _ => True) (fun _ => True)
        (liftM (buildExercised L cfg.toConfig p) :
          Launching σ (Option (Option (Pipeline × Bytes)))) :=
      .lift fun w => (returns_of_settles (settles_buildExercised hS.permissive _ p) w).mono_ok
        fun _ _ h => ⟨h, trivial⟩
    refine .bind hbuilt fun x _ => ?_
    cases x with
    | none => exact .leave trivial
    | some x => exact .pure trivial
  have hready : Early.Comes (SameLimit limit) (fun _ => True) (fun _ => True)
      (readyWorkers H cfg 0 cfg.workers.toNat : Launching σ (List Bytes)) := by
    refine fun w => (wp_readyWorkers H cfg _ 0 w).mono (fun _ w' h => ?_) fun _ w' h => ?_
    · exact ⟨congrArg (fun x : World σ => limit x.lib) h.1, trivial⟩
    · exact ⟨congrArg (fun x : World σ => limit x.lib) h.2, trivial⟩
  refine .bind (hopen .stream) fun stream _ => .unwinding (hrelease stream) ?_
  refine .bind (hopen .msg) fun msg _ => .unwinding (hrelease msg) ?_
  exact .bind hready fun plaintexts _ => .bind (.require trivial) fun _ _ => .pure rfl

end Limit

/-! ## §7. The threads, and the end. -/

/-- The content of the plaintexts, by worker and index. -/
def Launched.content (l : Launched) (k : Fin l.plaintexts.length) (i : Nat) : UInt8 :=
  (l.plaintexts.get k).getD i 0

/-- The threads start, one for every plaintext. -/
def Launched.start {σ K : Type} (l : Launched) (key : σ → Handle → Option K)
    (junk : Nat → Nat → Nat → UInt8) (lib : σ) (fuel : Nat) : Run σ K l.plaintexts.length :=
  .start l.plaintexts.length key (fun k => junk k) l.cfg.toConfig l.content l.built lib fuel

section Threads

variable {σ K : Type} {N : Nat} {L : Lib σ} {key : σ → Handle → Option K}
  {decode : Bytes → Option K} {cfg : Config} {r : Run σ K N}

end Threads

/-! ## §8. The end of `run`. -/

section Scope

variable {σ K : Type} {L : Lib σ} {S : Knobs σ} {key : σ → Handle → Option K}
  {decode : Bytes → Option K}

end Scope

/-! ## §9. A rig. -/

/-- A ratchet that lists its hash names, and a limit. -/
def rig : Lib (Ratchet × Int) := fun c s =>
  match c with
  | .hashNames cap => ((Outcome.output (renderWords twoNames.names)).reply cap, s)
  | .lookup _ cap => ((Outcome.output []).reply cap, s)
  | c => ((ratchet c s.1).1, (ratchet c s.1).2, s.2)

/-- Its handles are the ratchet's. -/
def rigKey (s : Ratchet × Int) (h : Handle) : Option UInt8 := s.1.key h

/-- The setters of its runtime. -/
def rigKnobs : Knobs (Ratchet × Int) := fun k s =>
  match k with
  | .memoryLimit b => (s.2, s.1, if 0 ≤ b then b else s.2)
  | .gcPercent _ => (100, s)
  | .gomaxprocs _ => (1, s)

/-- A ratchet answers, or the handles have no part in it. -/
theorem rig_cases (c : FfiCall) (s : Ratchet × Int) :
    rig c s = ((ratchet c s.1).1, (ratchet c s.1).2, s.2) ∨ (c.tame ∧ (rig c s).2 = s) := by
  cases c with
  | hashNames cap => exact Or.inr ⟨⟨rfl, rfl⟩, rfl⟩
  | lookup name cap => exact Or.inr ⟨⟨rfl, rfl⟩, rfl⟩
  | _ => exact Or.inl rfl

theorem rig_offers : Offers rig twoNamesCatalogue where
  hashes := answersExactly_of_reply fun _ _ => rfl
  record _ := answersExactly_of_reply fun _ _ => rfl

theorem rig_spares : SparesHandles rigKnobs rigKey := by
  intro k s h
  cases k <;> rfl

theorem rig_paced : Paced rig rigKnobs Prod.snd where
  answers _ _ := rfl
  sets _ _ := rfl
  gcPercent _ _ := rfl
  gomaxprocs _ _ := rfl
  calls c s := by
    rcases rig_cases c s with heq | ⟨-, hsame⟩
    · rw [heq]
    · rw [hsame]

/-- From every state, the rig builds a message Pipeline. -/
theorem rig_builds {cfg : Config} (hshape : cfg.shape = .message) (hprofile : cfg.profile = [])
    (w : World (Ratchet × Int)) :
    ∃ x w', buildExercised rig cfg .msg w = .ok (some x) w' := by
  have hone : ∀ b : UInt8, deliver [b] kBlobCap = { rc := 0, len := 1, out := [b] } := fun _ => rfl
  have hcap : 1 ≤ kBlobCap := Nat.le_of_ble_eq_true rfl
  obtain ⟨s, hs⟩ : ∃ s, s = w.lib.1.opened 0 := ⟨_, rfl⟩
  have hinit : rig (.init (ffiStr (cfg.pipeProfile .msg)) (ffiStr cfg.overrides.query) kBlobCap)
      w.lib = ({ rc := 0, len := 1, out := [0], handle := w.lib.1.next + 1 }, s, w.lib.2) := by
    show ((ratchet (.init _ _ kBlobCap) w.lib.1).1, (ratchet (.init _ _ kBlobCap) w.lib.1).2,
      w.lib.2) = _
    simp only [ratchet, if_pos hcap, hone, hs]
  have hkey : s.key (w.lib.1.next + 1) = some 0 := hs ▸ key_opened_next w.lib.1 0
  have hsave : rig (.save (w.lib.1.next + 1) kBlobCap) (s, w.lib.2) =
      ({ rc := 0, len := 1, out := [0] }, s, w.lib.2) := by
    show ((ratchet (.save _ kBlobCap) s).1, (ratchet (.save _ kBlobCap) s).2, w.lib.2) = _
    rw [ratchet_save hkey, hone]
  obtain ⟨w', hrun, -⟩ := returns_initAndSave hinit hsave rfl ⟨rfl, rfl, hcap⟩ ⟨rfl, rfl, hcap⟩
    ⟨rfl, rfl, Nat.zero_le kBlobCap⟩
  have hbuild : buildPipeline rig cfg .msg w =
      .ok (some ({ handle := w.lib.1.next + 1 }, [0])) w' := by
    unfold buildPipeline
    rw [if_neg (not_not.mpr hprofile)]
    exact hrun
  refine ⟨some ({ handle := w.lib.1.next + 1 }, [0]), w', ?_⟩
  unfold buildExercised
  rw [hshape, show Shape.exercises .message .msg = true from rfl, if_pos rfl, Prog.bind_ok hbuild]
  rfl

/-- What a sound command line comes to is what comes of the second part of the
start-up. -/
theorem launch_line {σ K : Type} {L : Lib σ} {S : Knobs σ} (H : Host)
    {key : σ → Handle → Option K} (hS : SparesHandles S key) {cat : Catalogue} (hO : Offers L cat)
    {cfg : Settings} (hcfg : Sane cat cfg) (w : World σ) :
    ∃ m w₁, (launch L S H cfg.flags.line).run w =
      (prepare L H { cfg with memlimit := m }).run w₁ := by
  obtain ⟨w₁, hparse⟩ : ∃ w₁, (parseFlags L cfg.flags.line).run w = .ok (.ok cfg) w₁ := by
    rw [parseFlags_parsed (line_parsed hcfg.typed) rfl]
    exact ((judged_validate hO hcfg.typed).goes_iff (fun _ _ h h' => h.unique h') w).mpr
      ⟨hcfg.allHold, hcfg.resolves⟩
  have hadapt : (ExceptT.adapt Stop.halt (parseFlags L cfg.flags.line)).run w =
      .ok (.ok cfg) w₁ := Prog.bind_ok hparse
  obtain ⟨cfg', w₂, hshape, -, m, rfl⟩ := (wp_shapeRuntime hS cfg w₁).returns
  refine ⟨m, w₂, ?_⟩
  unfold launch
  rw [Early.run_bind_ok hadapt, Early.run_bind_ok (Early.run_lift hshape)]

/-- A host with memory, whose library has that many pool figures. -/
def rigHost (figures : Int) : Host where
  allocates _ := true
  getrandom _ _ := []
  poolStatsLen := figures

/-- With some, the threads start. -/
theorem rig_launches {cfg : Settings} (hshape : cfg.shape = .message) (hprofile : cfg.profile = [])
    (hmode : cfg.payloadMode = .patternZero) (w : World (Ratchet × Int)) :
    ∃ l w', (prepare rig (rigHost 1) cfg).run w = .ok (.ok l) w' := by
  have hstream : (openPipe rig cfg .stream).run w = .ok (.ok none) w := by
    have hnone : buildExercised rig cfg.toConfig .stream w = .ok (some none) w := by
      unfold buildExercised
      rw [hshape]
      rfl
    exact Early.run_bind_ok (Early.run_lift hnone)
  obtain ⟨x, w₁, hbuilt⟩ := rig_builds hshape hprofile w
  have hmsg : (openPipe rig cfg .msg).run w = .ok (.ok x) w₁ :=
    Early.run_bind_ok (Early.run_lift hbuilt)
  have hworkers : ∀ n i, ∃ ps, (readyWorkers (rigHost 1) cfg i n :
      Launching (Ratchet × Int) (List Bytes)).run w₁ = .ok (.ok ps) w₁ := by
    intro n
    induction n with
    | zero => exact fun i => ⟨[], rfl⟩
    | succ n ih =>
        intro i
        obtain ⟨ps, hps⟩ := ih (i + 1)
        have hone : (readyWorker (rigHost 1) cfg i : Launching (Ratchet × Int) Bytes).run w₁ =
            .ok (.ok ((zeros cfg.payload.toNat).map fun _ => 0)) w₁ := by
          unfold readyWorker
          rw [hmode]
          rfl
        refine ⟨(zeros cfg.payload.toNat).map (fun _ => 0) :: ps, ?_⟩
        show (readyWorker (rigHost 1) cfg i >>= _).run w₁ = _
        rw [Early.run_bind_ok hone, Early.run_bind_ok hps]
        rfl
  obtain ⟨ps, hps⟩ := hworkers cfg.workers.toNat 0
  refine ⟨{ cfg := { cfg with poolSlots := poolSlots (rigHost 1) }
            built := fun p =>
              match p with
              | .stream => none
              | .msg => x
            plaintexts := ps }, w₁, ?_⟩
  unfold prepare
  rw [Early.run_bind_ok hstream]
  refine Early.run_unwinding_ok ?_
  rw [Early.run_bind_ok hmsg]
  refine Early.run_unwinding_ok ?_
  rw [Early.run_bind_ok hps]
  rfl

/-- One worker on one message Pipeline. -/
def lone : Settings :=
  { durationNs := 1, workers := 1, workersRequested := 1, shape := .message,
    hash := text "blake3", payload := 1, payloadMode := .patternZero }

theorem lone_sane : Sane twoNamesCatalogue lone := by
  have hdouble : Binary64.IsDouble (((1 : ℕ) : ℚ) * 2 ^ (0 : ℤ)) :=
    Binary64.isDouble_of_lt (by decide) (by decide) (lt_of_eq_of_lt (by simp)
      (one_lt_pow₀ one_lt_two (by decide)))
  exact
    { duration := by decide, whole := by simpa [lone] using hdouble, iterations := by decide,
      workers := by decide, workersRequested := rfl, shape := Or.inl rfl,
      hash := ⟨_, rfl, by decide⟩, payload := by decide, memlimit := by decide,
      memlimitAuto := nofun, gogc := by decide, gomaxprocs := by decide, keyBits := by decide,
      nonceBits := by decide, blobMode := by decide, barrierFill := by decide,
      interlock := by decide, chunkSize := by decide, rekeyEvery := by decide,
      blobCycleEvery := by decide, seed := by decide, hashText := by decide,
      macText := by decide, drbgText := by decide, profileText := by decide,
      memprofileText := by decide, poolSlots := rfl }

theorem lone_zero_free : ∀ a ∈ lone.flags.line, 0 ∉ a := line_zero_free lone_sane.typed

/-- The rig, before it is started, without a limit. -/
def rigWorld : World (Ratchet × Int) := ⟨({}, int64Max), []⟩

theorem lone_launches : ∃ l w', (launch rig rigKnobs (rigHost 1) lone.flags.line).run rigWorld =
    .ok (.ok l) w' := by
  obtain ⟨m, w, hrun⟩ := launch_line (rigHost 1) rig_spares rig_offers lone_sane rigWorld
  rw [hrun]
  exact rig_launches rfl rfl rfl w

/-! ## §10. The results. -/

section Results

variable {σ K : Type} {L : Lib σ} {S : Knobs σ} {H : Host} {key : σ → Handle → Option K}
  {decode : Bytes → Option K} {limit : σ → Int} {argv : List Bytes} {s s' : σ}
  {w w' : World σ} {code : Nat}

/-- **The limit in force when the threads start** is the one the configuration
reports: the one of the command line, or under `auto` the one that was there
already, and some limit in any case. -/
theorem limit_in_force (hS : Paced L S limit) {argv : List Bytes} (hargv : ∀ a ∈ argv, 0 ∉ a)
    {l : Launched} (hrun : (launch L S H argv).run w = .ok (.ok l) w') :
    l.cfg.memlimit = limit w'.lib ∧
      ∃ p, parseArgv (flagTable {}) argv {} = some p ∧
        p.flags.InForce (limit w.lib) (limit w'.lib) ∧
        (p.flags.memlimit = text "auto" → limit w'.lib ≠ int64Max) := by
  have hlaunch : Early.wp (launch L S H argv)
      (fun l w' => l.cfg.memlimit = limit w'.lib ∧
        ∃ p, parseArgv (flagTable {}) argv {} = some p ∧
          p.flags.InForce (limit w.lib) (limit w'.lib)) (fun _ _ => True) w := by
    refine Early.wp_bind (Early.wp_adapt ((comes_parseFlags hS.permissive.tolerant hargv w).mono
      (fun cfg w₁ hcfg => ?_) fun _ _ _ => trivial))
    obtain ⟨hsame, p, hp, hcfg⟩ := hcfg
    refine Early.wp_bind (Early.wp_lift
      ((wp_shapeRuntime_limit hS hcfg.memlimit_nonneg w₁).mono_ok fun cfg' w₂ h => ?_))
    obtain ⟨hreport, hlimit⟩ := h
    refine (comes_prepare hS cfg' w₂).mono (fun l w₃ hl => ?_) fun _ _ _ => trivial
    have hkept : limit w₃.lib = limit w₂.lib := hl.1
    refine ⟨hl.2.trans (hreport.trans hkept.symm), p, hp, ?_⟩
    rw [hkept, hlimit, show limit w₁.lib = limit w.lib from hsame]
    exact hcfg.inForce _
  obtain ⟨hreport, p, hp, hforce⟩ := hlaunch.goes hrun
  refine ⟨hreport, p, hp, hforce, fun hauto hmax => ?_⟩
  unfold RawFlags.InForce at hforce
  rw [if_pos hauto, hmax] at hforce
  split at hforce
  · exact absurd hforce.symm (ne_of_lt (autoMemlimit_bounds _).2)
  · rename_i hthere
    exact hthere hforce.symm

/-- On the rig, none that was there, and none asked for. -/
theorem limit_in_force_rig :
    ∃ l w', (launch rig rigKnobs (rigHost 1) lone.flags.line).run rigWorld = .ok (.ok l) w' ∧
      l.cfg.memlimit = w'.lib.2 := by
  obtain ⟨l, w', hrun⟩ := lone_launches
  exact ⟨l, w', hrun, (limit_in_force rig_paced lone_zero_free hrun).1⟩

end Results

end Loop

end ItbCpp
