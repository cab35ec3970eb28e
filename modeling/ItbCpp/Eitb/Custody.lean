/-
  ItbCpp.Eitb.Custody
  ───────────────────
  **WHAT `eitb` TAKES OVER IT GIVES BACK** (`eitb/eitb.cpp`).

  A Pipeline is opened by `init` or `load` and freed by the end of its scope;
  a pump begins and frees one session a pass, inside that scope.  On every
  command line, over any library and any system, the handles nest: each is
  freed once, before those taken over earlier, and no call is made on one that
  is not held at that moment.

    • `Nests` — the handles held before and after a stretch of the trace,
    • `nests_restarts` — the passes of a pump,
    • `wp_command_nests` — the scope of a Pipeline,
    • `handles_nest` — the whole program.
-/
import ItbCpp.Lib.Nesting
import ItbCpp.Handles
import ItbCpp.Eitb.Roundtrip

namespace ItbCpp.Eitb

open Nesting (follow follow_append)

/-! ## §1. What is held. -/

section Worlds

variable {σ : Type} {L : Lib σ} {held held' held'' : List Handle} {w w' w'' : World σ}

/-- From one world to the other the handles were in order: `held` were held
before, and `held'` are after. -/
def Nests (held held' : List Handle) (w w' : World σ) : Prop :=
  ∃ evs, w'.trace = w.trace ++ evs ∧ follow held (moves evs) = some held'

/-- What was taken in one stretch and not given back is held in the next. -/
theorem Nests.trans (h : Nests held held' w w') (h' : Nests held' held'' w' w'') :
    Nests held held'' w w'' := by
  obtain ⟨evs, htrace, hfollow⟩ := h
  obtain ⟨evs', htrace', hfollow'⟩ := h'
  refine ⟨evs ++ evs', ?_, ?_⟩
  · rw [htrace', htrace, List.append_assoc]
  · rw [moves_append, follow_append, hfollow]
    exact hfollow'

instance (held : List Handle) : IsPreorder (World σ) (Nests held held) where
  refl _ := ⟨[], (List.append_nil _).symm, rfl⟩
  trans _ _ _ h h' := h.trans h'

/-- One event more. -/
theorem nests_log {e : Event} (he : follow held (moves [e]) = some held') :
    Nests held held' w (w.log e) :=
  ⟨[e], rfl, he⟩

/-- One handle more, unless it is none. -/
def push (h : Handle) (held : List Handle) : List Handle := if h = 0 then held else h :: held

/-- A handle taken is the innermost. -/
theorem nests_adopt (h : Handle) : Nests held (push h held) w (w.log (.adopt h)) := by
  have hmove : (Event.adopt h).move = if h = 0 then none else some (.acquire h) := rfl
  refine nests_log ?_
  rw [moves_singleton, hmove]
  unfold push
  by_cases hz : h = 0
  · rw [if_pos hz, if_pos hz]
    rfl
  · rw [if_neg hz, if_neg hz]
    rfl

/-- A call that frees nothing, on a handle that is held or on none. -/
def InOrder (held : List Handle) (c : FfiCall) : Prop :=
  c.releases = false ∧ ∀ h, c.handle? = some h → h = 0 ∨ h ∈ held

/-- A call within the order leaves what is held as it is. -/
theorem allows_nests {c : FfiCall} (hc : InOrder held c) : Allows L (Nests held held) c := by
  intro w
  refine nests_log ?_
  rw [moves_singleton]
  simp only [Event.move]
  cases hh : c.handle? with
  | none => rfl
  | some h =>
      rw [Option.bind_some, hc.1]
      by_cases hz : h = 0
      · rw [if_pos hz]
        rfl
      · rw [if_neg hz]
        exact if_pos ((hc.2 h hh).resolve_left hz)

/-- The diagnostics and the trace leave it, too. -/
theorem lenient_nests (held : List Handle) : Lenient L (Nests held held) where
  lastError _ := allows_nests ⟨rfl, nofun⟩
  dealloc _ _ := nests_log rfl

/-- A handle is freed. -/
theorem nests_free {c : FfiCall} {h : Handle} (hc : c.releases = true) (hh : c.handle? = some h)
    (hz : h ≠ 0) (a : Reply × σ) : Nests (push h held) held w (w.answered c a) := by
  refine ⟨[.call c a.1], rfl, ?_⟩
  rw [moves_singleton]
  simp only [Event.move, hh, Option.bind_some, if_neg hz, hc, if_true]
  unfold push
  rw [if_neg hz]
  exact if_pos rfl

/-- A handle that was given out is held, unless it is the empty one. -/
theorem mem_push (h : Handle) (held : List Handle) : h = 0 ∨ h ∈ push h held := by
  unfold push
  by_cases hz : h = 0
  · exact Or.inl hz
  · rw [if_neg hz]
    exact Or.inr List.mem_cons_self

/-! ## §2. The scope of a Pipeline. -/

/-- What opening a Pipeline leaves: its handle is held, or nothing more than
before. -/
abbrev opening (held : List Handle) (w : World σ) : Prog.Post Exn (World σ) Pipeline where
  ok pipe w' := Nests held (push pipe.handle held) w w'
  threw _ w' := Nests held held w w'
  running _ := True

/-- `init` takes one handle, or none when it fails. -/
theorem wp_init_nests (held : List Handle) (profile : Bytes) (opts : Opts) (w : World σ) :
    Prog.wp (Pipeline.init L profile opts) (opening held w) w := by
  have hcall : ∀ n, Allows L (Nests held held)
      (BlobFn.call (.init (ffiStr profile) (ffiStr opts.query)) n) :=
    fun n => allows_nests ⟨rfl, nofun⟩
  unfold Pipeline.init
  rw [Prog.wp_bind]
  refine ((within_bufCall (lenient_nests held) hcall "Pipeline::init").wp w).mono
    (fun x w₁ h => ?_) (fun _ _ h => h) fun _ _ => trivial
  show Nests held _ w ((w₁.log (.adopt x.2.handle)).log _)
  exact h.trans ((nests_adopt x.2.handle).trans (nests_log rfl))

/-- So does `load`. -/
theorem wp_load_nests (held : List Handle) (blob perm wrap : Bytes) (w : World σ) :
    Prog.wp (Pipeline.load L blob perm wrap) (opening held w) w := by
  unfold Pipeline.load
  rw [Prog.wp_bind, wp_ffi]
  generalize hc : FfiCall.load blob perm wrap (mastersCount perm wrap) = c
  have hcall : Nests held held w (w.answered c (L c w.lib)) := by
    subst hc
    exact allows_nests ⟨rfl, fun h hh => by cases hh⟩ w
  show Prog.wp _ _ _
  rw [Prog.wp_bind]
  refine ((within_check (lenient_nests held) _ "Pipeline::load").wp _).mono (fun _ w₁ h => ?_)
    (fun _ _ h => hcall.trans h) fun _ _ => trivial
  show Nests held _ w (w₁.log (.adopt _))
  exact hcall.trans (h.trans (nests_adopt _))

/-- A destructor gives back the handle taken last. -/
theorem wp_destroy_nests (held : List Handle) (pipe : Pipeline) (w : World σ) :
    Prog.wp (pipe.destroy L)
      ⟨fun _ w' => Nests (push pipe.handle held) held w w', fun _ _ => False, fun _ => False⟩
      w := by
  unfold Pipeline.destroy
  rw [Prog.wp_ite]
  split
  · rename_i hz
    exact nests_free rfl rfl hz _
  · rename_i hz
    have hzero : pipe.handle = 0 := not_not.mp hz
    unfold push
    rw [if_pos hzero]
    exact refl_of (Nests held held) w

/-! ## §3. The entries. -/

/-- A session is begun on a handle that is held, and is the innermost from
then on. -/
theorem wp_begin_nests (encrypt : Bool) {pipe : Pipeline}
    (hpipe : pipe.handle = 0 ∨ pipe.handle ∈ held) (w : World σ) :
    Prog.wp ((beginOf encrypt pipe).run L)
      ⟨fun session w' => Nests held (push session.handle held) w w',
        fun _ w' => Nests held held w w', fun _ => True⟩ w := by
  obtain ⟨what, hrun⟩ := run_beginOf (L := L) encrypt pipe
  have horder : InOrder held (Loop.beginCall encrypt pipe.handle) := by
    cases encrypt with
    | true => exact ⟨rfl, fun h hh => Option.some.inj hh ▸ hpipe⟩
    | false => exact ⟨rfl, fun h hh => Option.some.inj hh ▸ hpipe⟩
  have hcall := allows_nests (L := L) horder w
  rw [hrun, Prog.wp_bind, wp_ffi]
  show Prog.wp _ _ _
  rw [Prog.wp_bind]
  refine ((within_check (lenient_nests held) _ what).wp _).mono (fun _ w₁ h => ?_)
    (fun _ _ h => hcall.trans h) fun _ _ => trivial
  show Nests held _ w (w₁.log (.adopt _))
  exact hcall.trans (h.trans (nests_adopt _))

/-- Calls on the innermost session are in order. -/
theorem allowsSession_nests (h : Handle) (held : List Handle) :
    AllowsSession L (Nests (push h held) (push h held)) h where
  toLenient := lenient_nests _
  write _ := allows_nests ⟨rfl, fun _ hh => Option.some.inj hh ▸ mem_push h held⟩
  end_ := allows_nests ⟨rfl, fun _ hh => Option.some.inj hh ▸ mem_push h held⟩
  read _ := allows_nests ⟨rfl, fun _ hh => Option.some.inj hh ▸ mem_push h held⟩

section Passes

variable {junk : Nat → Nat → UInt8} {encrypt : Bool} {pipe : Pipeline} {src : Bytes}
  {fuel left cap : Nat} {ts : List (Pass σ)} {t : Pass σ}
  {res : Prog.Result Exn (World σ) Bytes}

/-- A pass frees the session that it began. -/
theorem nests_pass (hpipe : pipe.handle = 0 ∨ pipe.handle ∈ held)
    (ht : t.MadeFrom L junk ((beginOf encrypt pipe).run L) src fuel w) :
    Nests held held w (t.after L) := by
  obtain ⟨hb, hp⟩ := ht
  have hbegun : Nests held (push t.session.handle held) w t.begun :=
    (wp_begin_nests encrypt hpipe w).of_ok hb
  have hpumped : Nests (push t.session.handle held) (push t.session.handle held) t.begun
      t.result.state.world := by
    rw [← hp]
    exact within_pumpInto (allowsSession_nests t.session.handle held) src fuel
      { world := t.begun, dst := uninit junk t.cap }
  have hstands := hbegun.trans hpumped
  unfold Pass.after Pump.released
  by_cases hz : t.session.handle ≠ 0
  · rw [if_pos hz]
    exact hstands.trans ((nests_free rfl rfl hz _).trans (nests_log rfl))
  · rw [if_neg hz]
    have hzero : push t.session.handle held = held := if_pos (not_not.mp hz)
    rw [hzero] at hstands
    exact hstands.trans (nests_log rfl)

/-- So do all of them, once they have ended. -/
theorem nests_restarts (hpipe : pipe.handle = 0 ∨ pipe.handle ∈ held)
    (h : Restarts L junk ((beginOf encrypt pipe).run L) src fuel left cap w ts res) :
    res.done = true → Nests held held w res.state := by
  induction h with
  | @notBegun left cap w e w₁ hb =>
      intro _
      have hbegin := wp_begin_nests (L := L) encrypt hpipe w
      unfold Prog.wp at hbegin
      rw [hb] at hbegin
      exact hbegin.trans (nests_log rfl)
  | returned ht _ => exact fun _ => nests_pass hpipe ht
  | failed ht _ => exact fun _ => nests_pass hpipe ht
  | gaveUp ht _ _ => exact fun _ => nests_pass hpipe ht
  | again ht _ _ _ ih => exact fun hdone => (nests_pass hpipe ht).trans (ih hdone)
  | running ht hres =>
      intro hdone
      cases hdone

end Passes

/-- What a cipher entry leaves: what was held is held. -/
abbrev keeping {α : Type} (held : List Handle) (w : World σ) : Prog.Post Exn (World σ) α where
  ok _ w' := Nests held held w w'
  threw _ w' := Nests held held w w'
  running _ := True

variable {junk : Nat → Nat → UInt8} {pipe : Pipeline}

/-- Each pass of a pump gives its session back before the next is begun. -/
theorem wp_streamPump_nests (encrypt : Bool) (hpipe : pipe.handle = 0 ∨ pipe.handle ∈ held)
    (src : Bytes) (fuel : Nat) (w : World σ) :
    Prog.wp (pumpAlloc L junk ((beginOf encrypt pipe).run L) src fuel) (keeping held w) w := by
  obtain ⟨ts, hts⟩ : ∃ ts, Restarts L junk ((beginOf encrypt pipe).run L) src fuel 2
      (outCap src.length) w ts
      (pumpAlloc L junk ((beginOf encrypt pipe).run L) src fuel w) :=
    pumpAttempts_restarts _ 2 _ w
  have hends := nests_restarts hpipe hts
  unfold Prog.wp
  cases hres : pumpAlloc L junk ((beginOf encrypt pipe).run L) src fuel w with
  | ok bytes w' =>
      rw [hres] at hends
      exact hends rfl
  | threw e w' =>
      rw [hres] at hends
      exact hends rfl
  | running w' => exact trivial

/-- A message entry takes no handle. -/
theorem wp_cipherCall_nests (fn : CipherFn) (hpipe : pipe.handle = 0 ∨ pipe.handle ∈ held)
    (src : Bytes) (what : String) (w : World σ) :
    Prog.wp (cipherCall L junk pipe.handle fn src what) (keeping held w) w := by
  have hcall : ∀ n, Allows L (Nests held held) (fn.call pipe.handle src n) := by
    intro n
    refine allows_nests ?_
    cases fn with
    | _ => exact ⟨rfl, fun h hh => Option.some.inj hh ▸ hpipe⟩
  exact ((within_cipherCall (lenient_nests held) junk hcall what).wp w).mono (fun _ _ h => h)
    (fun _ _ h => h) fun _ _ => trivial

theorem wp_encryptPair_nests (hpipe : pipe.handle = 0 ∨ pipe.handle ∈ held)
    (profile : Bytes) (fuel : Nat) (plain : Bytes) (w : World σ) :
    Prog.wp (encryptPair L junk profile fuel pipe plain) (keeping held w) w := by
  unfold encryptPair
  rw [Prog.wp_ite]
  split
  · exact wp_streamPump_nests true hpipe plain fuel w
  · exact wp_cipherCall_nests .encryptMessage hpipe plain _ w

theorem wp_decryptPair_nests (hpipe : pipe.handle = 0 ∨ pipe.handle ∈ held)
    (profile : Bytes) (fuel : Nat) (wire : Bytes) (w : World σ) :
    Prog.wp (decryptPair L junk profile fuel pipe wire) (keeping held w) w := by
  unfold decryptPair
  rw [Prog.wp_ite]
  split
  · exact wp_streamPump_nests false hpipe wire fuel w
  · exact wp_cipherCall_nests .decryptMessage hpipe wire _ w

end Worlds

/-! ## §4. The process. -/

/-- A relation of worlds, of processes. -/
def OnLibrary {σ φ : Type} (R : World σ → World σ → Prop) (p q : Proc σ φ) : Prop :=
  R p.world q.world

instance {σ φ : Type} (R : World σ → World σ → Prop) [IsPreorder (World σ) R] :
    IsPreorder (Proc σ φ) (OnLibrary R) where
  refl p := refl_of R p.world
  trans _ _ _ h h' := trans_of R h h'

section Processes

variable {σ φ : Type} {L : Lib σ} {S : Sys φ} {R : World σ → World σ → Prop}
  [IsPreorder (World σ) R]

/-- The system is not the library. -/
theorem enduring_library : Enduring S (OnLibrary R : Proc σ φ → Proc σ φ → Prop) :=
  fun _ p => refl_of R p.world

/-- A system call leaves the library alone. -/
theorem quiet_library : Quiet S (OnLibrary R : Proc σ φ → Proc σ φ → Prop) :=
  enduring_library.quiet

omit [IsPreorder (World σ) R] in
/-- An entry of the binding. -/
theorem within_entry {α : Type} {m : Prog Exn (World σ) α} (hm : Prog.Within R m) :
    Prog.Within (OnLibrary R) (onWorld m : Prog Exn (Proc σ φ) α) :=
  hm.zoom fun _ _ h => h

end Processes

section Program

variable {σ φ : Type} {L : Lib σ} {S : Sys φ} {junk : Nat → Nat → UInt8} {held : List Handle}
  {p : Proc σ φ}

/-- What a stretch of the program leaves once it has ended. -/
abbrev evenly {α : Type} (held : List Handle) (p : Proc σ φ) : Prog.Post Exn (Proc σ φ) α where
  ok _ q := Nests held held p.world q.world
  threw _ q := Nests held held p.world q.world
  running _ := True

/-- A step within the nesting ends on the handles it began on. -/
theorem evenly_of_within (held : List Handle) {α : Type} {m : Prog Exn (Proc σ φ) α}
    (hm : Prog.Within (OnLibrary (Nests held held)) m) (p : Proc σ φ) :
    Prog.wp m (evenly held p) p :=
  (hm.wp p).mono (fun _ _ h => h) (fun _ _ h => h) fun _ _ => trivial

/-- **The scope of a Pipeline**: whichever way it is left, the handle is
freed. -/
theorem wp_command_nests {infile outfile : Bytes} {fuel : Nat}
    {open_ : Prog Exn (World σ) Pipeline} {cipher : Pipeline → Bytes → Prog Exn (World σ) Bytes}
    {after : Pipeline → Bytes → Bytes → Prog Exn (Proc σ φ) Unit}
    (hopen : ∀ w, Prog.wp open_ (opening held w) w)
    (hcipher : ∀ pipe src w, Prog.wp (cipher pipe src) (keeping (push pipe.handle held) w) w)
    (hafter : ∀ pipe src out, Prog.Within
      (OnLibrary (Nests (push pipe.handle held) (push pipe.handle held))) (after pipe src out))
    (p : Proc σ φ) :
    Prog.wp (command L S infile outfile fuel open_ cipher after) (evenly held p) p := by
  unfold command
  rw [Prog.wp_bind]
  refine (evenly_of_within held (within_readFile enduring_library infile fuel) p).mono (fun r p₁ h₁ => ?_)
    (fun _ _ h => h) fun _ h => h
  cases r with
  | none => exact h₁
  | some src =>
      dsimp only
      rw [Prog.wp_bind, wp_onWorld_iff]
      refine (hopen p₁.world).mono (fun pipe w h => ?_) (fun _ _ h => h₁.trans h) fun _ h => h
      dsimp only
      generalize hp₂ : ({ p₁ with world := w } : Proc σ φ) = p₂
      have hopened : Nests held (push pipe.handle held) p.world p₂.world := by
        rw [← hp₂]
        exact h₁.trans h
      -- inside the scope
      have hinner : Prog.wp (do
          let out ← onWorld (cipher pipe src)
          let rc ← writeFile S outfile out
          if rc = 0 then do
            after pipe src out
            pure rc
          else pure rc) (evenly (push pipe.handle held) p₂) p₂ := by
        rw [Prog.wp_bind, wp_onWorld_iff]
        refine (hcipher pipe src p₂.world).mono (fun out w₃ h₃ => ?_) (fun _ _ h => h) fun _ h => h
        refine (evenly_of_within (push pipe.handle held) ?_ { p₂ with world := w₃ }).mono
          (fun _ _ h => h₃.trans h) (fun _ _ h => h₃.trans h) fun _ h => h
        refine .bind (within_writeFile enduring_library outfile out) fun rc => .ite ?_ (.pure rc)
        exact .bind (hafter pipe src out) fun _ => .pure rc
      -- and out of it
      have hfreed : ∀ q : Proc σ φ,
          Nests (push pipe.handle held) (push pipe.handle held) p₂.world q.world →
          Prog.wp (onWorld (pipe.destroy L))
            ⟨fun _ q' => Nests held held p.world q'.world, fun _ _ => False, fun _ => False⟩ q := by
        intro q hq
        rw [wp_onWorld_iff]
        exact (wp_destroy_nests held pipe q.world).mono
          (fun _ _ h => hopened.trans (hq.trans h)) (fun _ _ h => h) fun _ h => h
      unfold transcode
      rw [Prog.wp_ensuring]
      refine hinner.mono (fun _ q h => ?_) (fun _ q h => ?_) fun _ h => h
      · exact (hfreed q h).mono (fun _ _ h => h) (fun _ _ h => h.elim) fun _ h => h.elim
      · exact (hfreed q h).mono (fun _ _ h => h) (fun _ _ h => h.elim) fun _ h => h.elim

/-- **`encrypt`**: the Pipeline goes when its scope ends. -/
theorem wp_cmdEncrypt_nests (profile infile outfile : Bytes) (fuel : Nat) (p : Proc σ φ) :
    Prog.wp (cmdEncrypt L S junk profile infile outfile fuel) (evenly held p) p := by
  rw [cmdEncrypt_eq, Prog.wp_bind]
  refine (evenly_of_within held (within_capGoRuntime quiet_library) p).mono (fun _ p₁ h₁ => ?_)
    (fun _ _ h => h) fun _ h => h
  refine (wp_command_nests (wp_init_nests held profile {})
    (fun pipe plain w => wp_encryptPair_nests (mem_push _ _) profile fuel plain w)
    (fun pipe plain wire => ?_) p₁).mono (fun _ _ h => h₁.trans h) (fun _ _ h => h₁.trans h)
    fun _ h => h
  have hsave : ∀ n, Allows L (Nests (push pipe.handle held) (push pipe.handle held))
      (BlobFn.call (.save pipe.handle) n) :=
    fun n => allows_nests ⟨rfl, fun h hh => Option.some.inj hh ▸ mem_push _ _⟩
  refine .bind (within_entry (.bind (within_bufCall (lenient_nests _) hsave _) fun x => .pure _))
    fun blob => ?_
  refine .bind (within_printBlob quiet_library blob) fun _ => ?_
  exact .bind (within_printErr quiet_library _) fun _ => within_print quiet_library _

/-- **`decrypt`**: the same, after the blob was read. -/
theorem wp_cmdDecrypt_nests (profile hex infile outfile : Bytes) (fuel : Nat) (p : Proc σ φ) :
    Prog.wp (cmdDecrypt L S junk profile hex infile outfile fuel) (evenly held p) p := by
  unfold cmdDecrypt
  rw [Prog.wp_bind]
  refine (evenly_of_within held (within_capGoRuntime quiet_library) p).mono (fun _ p₁ h₁ => ?_)
    (fun _ _ h => h) fun _ h => h
  cases blobOfHex hex with
  | error msg =>
      show Prog.wp (do printErr S msg; pure 1) (evenly held p) p₁
      have hfailed : Prog.Within (OnLibrary (Nests held held))
          (do printErr S msg; pure 1 : Prog Exn (Proc σ φ) Nat) :=
        .bind (within_printErr quiet_library msg) fun _ => .pure 1
      exact (evenly_of_within held hfailed p₁).mono (fun _ _ h => h₁.trans h)
        (fun _ _ h => h₁.trans h) fun _ h => h
  | ok blob =>
      show Prog.wp (decryptWith L S junk blob profile infile outfile fuel) _ p₁
      rw [decryptWith_eq]
      exact (wp_command_nests (wp_load_nests held blob [] [])
        (fun pipe wire w => wp_decryptPair_nests (mem_push _ _) profile fuel wire w)
        (fun pipe wire plain => within_print quiet_library _) p₁).mono (fun _ _ h => h₁.trans h)
        (fun _ _ h => h₁.trans h) fun _ h => h

/-- Every command line, the ones that open no Pipeline included. -/
theorem wp_dispatch_nests (argv : List Bytes) (fuel : Nat) (p : Proc σ φ) :
    Prog.wp (dispatch L S junk argv fuel) (evenly held p) p := by
  have husage : Prog.wp (usage S : Prog Exn (Proc σ φ) Nat) (evenly held p) p :=
    evenly_of_within held (.bind (within_printErr quiet_library _) fun _ => .pure 2) p
  have hversion : Prog.wp (cmdVersion L S) (evenly held p) p := by
    refine evenly_of_within held (.bind (within_entry ?_) fun v => ?_) p
    · refine .bind (within_ffi (allows_nests ⟨rfl, nofun⟩)) fun r => ?_
      exact .bind (within_check (lenient_nests held) _ _) fun _ => .pure _
    · refine .bind (within_print quiet_library _) fun _ => ?_
      exact .bind (within_print quiet_library _) fun _ => .pure 0
  have hprofiles : Prog.wp (cmdProfiles L S) (evenly held p) p := by
    have hcall : ∀ n, Allows L (Nests held held) (BlobFn.call .profiles n) :=
      fun n => allows_nests ⟨rfl, nofun⟩
    refine evenly_of_within held (.bind (within_entry ?_) fun json => ?_) p
    · exact .bind (within_bufCall (lenient_nests held) hcall _) fun x => .pure _
    · exact .bind (within_printLines quiet_library _) fun _ => .pure 0
  unfold dispatch
  split
  · rw [Prog.wp_ite]
    split
    · exact hversion
    · rw [Prog.wp_ite]
      split
      · exact hprofiles
      · exact husage
  · rw [Prog.wp_ite]
    split
    · exact wp_cmdEncrypt_nests _ _ _ fuel p
    · exact husage
  · rw [Prog.wp_ite]
    split
    · exact wp_cmdDecrypt_nests _ _ _ _ fuel p
    · exact husage
  · exact husage

/-- **The handles nest.**  On every command line, over any library and any
system, from a process that holds nothing: once `eitb` has ended, and it never
ends by an exception, each handle that it took over was freed once, the last
taken over first, and in between no call was made on a handle that was not held
at that moment. -/
theorem handles_nest (L : Lib σ) (S : Sys φ) (junk : Nat → Nat → UInt8) (argv : List Bytes)
    (fuel : Nat) (p : Proc σ φ) :
    Prog.wp (main L S junk argv fuel)
      ⟨fun _ q => ∃ evs, q.world.trace = p.world.trace ++ evs ∧
          follow [] (moves evs) = some [] ∧
          (Ownership.acquired (moves evs)).Perm (Ownership.released (moves evs)),
        fun _ _ => False, fun _ => True⟩ p := by
  have hends : ∀ q : Proc σ φ, Nests [] [] p.world q.world →
      ∃ evs, q.world.trace = p.world.trace ++ evs ∧ follow [] (moves evs) = some [] ∧
        (Ownership.acquired (moves evs)).Perm (Ownership.released (moves evs)) := by
    intro q h
    obtain ⟨evs, htrace, hfollow⟩ := h
    have hperm := Nesting.perm_of_follow _ _ hfollow
    rw [List.append_nil, List.append_nil] at hperm
    exact ⟨evs, htrace, hfollow, hperm⟩
  unfold main
  rw [Prog.wp_handle]
  refine (wp_dispatch_nests argv fuel p).mono (fun _ q h => hends q h) (fun e q h => ?_)
    fun _ h => h
  exact hends _ h

end Program

end ItbCpp.Eitb
