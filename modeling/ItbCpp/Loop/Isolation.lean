/-
  ItbCpp.Loop.Isolation
  ─────────────────────
  **BLOBS MATCH HANDLES, AND ITERATIONS ARE LEFT ALONE.**

  What the discipline comes to, in every state the harness reaches from a
  start-up that succeeded, for any number of workers and in any order of
  their steps.

    • `retained_blob_matches` — whenever nobody writes, each retained blob
      encodes the keying of the handle of its pipe, the last it was rotated
      to; only a rekey adds a rotation and none is ever taken back,
    • `iterations_isolated` — no handle is rekeyed or freed while a cipher
      call is in flight or a session open, and an iteration uses one handle
      with one keying throughout.
-/
import ItbCpp.Loop.Drill

namespace ItbCpp.Loop

open Interleave

/-! ## §1. Runs of the harness. -/

section Runs

variable {σ K : Type} {N : Nat} {L : Lib σ} {key : σ → Handle → Option K}
  {decode : Bytes → Option K}

/-- Each thread keeps to the discipline. -/
theorem safe_start (hL : KeyedLib L key decode) (junk : Fin N → Nat → Nat → UInt8)
    (cfg : Config) (content : Fin N → Nat → UInt8)
    {built : Pipe → Option (Pipeline × Bytes)} {w : World σ} (hb : AllBuilt key decode built w)
    (fuel : Nat) (i : Tid N) :
    Safe (machine L key) (discipline N key decode) i (fun _ => Outside i (Idle i))
      (fun _ => Outside i (Idle i)) (harness N junk cfg fuel i)
      (Shared.start N key cfg content built w.lib) := by
  have hi : PipeInv key decode (Shared.start N key cfg content built w.lib).toPipeState :=
    pipeInv_start cfg content hb
  have hidle : Outside i (Idle i) (Shared.start N key cfg content built w.lib) :=
    idle_start cfg content built w.lib i
  cases i with
  | none => exact spec_mainThread cfg hL N fuel _ hi hidle
  | some k => exact spec_workerMain (junk k) cfg hL k fuel _ hi hidle

/-- **The invariant holds in every state reached.** -/
theorem pipeInv_reach (hL : KeyedLib L key decode) (junk : Fin N → Nat → Nat → UInt8)
    (cfg : Config) (content : Fin N → Nat → UInt8)
    {built : Pipe → Option (Pipeline × Bytes)} {w : World σ} (hb : AllBuilt key decode built w)
    (fuel : Nat) {r : Run σ K N}
    (h : Reach (machine L key) (Run.start N key junk cfg content built w.lib fuel) r) :
    PipeInv key decode r.state.toPipeState :=
  (Safe.reach (pipeInv_start cfg content hb)
    (safe_start hL junk cfg content hb fuel) h).1

/-- What a start-up that succeeded has built. -/
theorem allBuilt_of_run (hL : KeyedLib L key decode) {cfg : Config} {w w' : World σ}
    {built : Pipe → Option (Pipeline × Bytes)}
    (h : buildPipelines L cfg w = .ok (some built) w') : AllBuilt key decode built w' := by
  have hrun := wp_buildPipelines hL cfg w
  unfold Prog.wp at hrun
  rw [h] at hrun
  exact hrun built rfl

/-! ## §2. Rotations. -/

/-- A step adds a rotation to a pipe only by a rekey of its handle that
succeeds. -/
def RotatesByRekey (L : Lib σ) (key : σ → Handle → Option K) (p : Pipe)
    (s s' : PipeState σ K N) : Prop :=
  s'.rotations p = s.rotations p ∨
    ∃ i h perm wrap n k, s.calls i = some (.rekey h perm wrap n, none) ∧ s.pipes p = some h ∧
      (L (.rekey h perm wrap n) s.lib).1.rc = 0 ∧ key s'.lib h = some k ∧
      s'.rotations p = s.rotations p ++ [k]

theorem rotates_effect (hL : KeyedLib L key decode) {s : PipeState σ K N} {i : Tid N}
    {c : FfiCall} (hcall : s.calls i = some (c, none)) (p : Pipe) :
    RotatesByRekey L key p s (s.effect L key i c) := by
  cases c with
  | rekey h perm wrap n =>
      by_cases hok : (L (.rekey h perm wrap n) s.lib).1.rc = 0 ∧ s.pipes p = some h
      · obtain ⟨k, -, -, hk, -⟩ := hL.rekey h perm wrap n s.lib hok.1
        refine Or.inr ⟨i, h, perm, wrap, n, k, hcall, hok.2, hok.1, hk, ?_⟩
        refine (if_pos hok).trans ?_
        rw [hk]
        rfl
      -- refused, or not the handle of `p`
      · exact Or.inl (if_neg hok)
  | _ => exact Or.inl rfl

/-- One step of any thread. -/
theorem rotates_step (hL : KeyedLib L key decode) {r r' : Run σ K N}
    (h : Step (machine L key) r r') (p : Pipe) :
    RotatesByRekey L key p r.state.toPipeState r'.state.toPipeState := by
  cases h with
  | @answer i q k a s' asks served =>
      obtain ⟨-, hs⟩ := served
      -- only a call that takes effect can rotate
      by_cases hq : q.quiet = true
      · have hsame : s'.toPipeState = r.state.toPipeState := toPipeState_of_quiet hq hs
        exact Or.inl (congrArg (fun s => s.rotations p) hsame)
      · cases q with
        | effect =>
            obtain ⟨c, hcall, rfl⟩ := hs
            exact rotates_effect hL hcall p
        | leave =>
            obtain ⟨c, -, rfl⟩ := hs
            exact Or.inl rfl
        | lock =>
            obtain ⟨-, -, rfl⟩ := hs
            exact Or.inl rfl
        | enter | lockShared =>
            obtain ⟨-, rfl⟩ := hs
            exact Or.inl rfl
        | unlockShared | unlock | setPipe | setBlob =>
            obtain rfl := hs
            exact Or.inl rfl
        | _ => exact (hq rfl).elim

/-- Over any number of steps, no rotation is taken back. -/
theorem rotations_prefix (hL : KeyedLib L key decode) {r r' : Run σ K N}
    (h : Reach (machine L key) r r') (p : Pipe) :
    r.state.rotations p <+: r'.state.rotations p := by
  induction h with
  | refl => exact List.prefix_refl _
  | tail _ hstep ih =>
      refine ih.trans ?_
      rcases rotates_step hL hstep p with hsame | ⟨i, h, perm, wrap, n, k, -, -, -, -, hnew⟩
      · exact hsame ▸ List.prefix_refl _
      · rw [hnew]
        exact List.prefix_append _ _

end Runs

/-! ## §3. The results. -/

section Results

variable {σ K : Type} {N : Nat} {L : Lib σ} {key : σ → Handle → Option K}
  {decode : Bytes → Option K}

/-- While nobody writes, each set pipe owns a live handle, and the retained
blob encodes its keying, which is the last rotation. -/
def BlobsMatch (key : σ → Handle → Option K) (decode : Bytes → Option K)
    (s : PipeState σ K N) : Prop :=
  s.writer = none → ∀ p h, s.pipes p = some h → h ≠ 0 ∧
    ∃ k, key s.lib h = some k ∧ decode (s.blobs p) = some k ∧
      (s.rotations p).getLast? = some k

/-- **Retained blobs match the live handles**, in every state reached; and
from there on no rotation is lost, and none is made but by a rekey. -/
theorem retained_blob_matches (hL : KeyedLib L key decode) {cfg : Config} {w w' : World σ}
    {built : Pipe → Option (Pipeline × Bytes)}
    (hbuilt : buildPipelines L cfg w = .ok (some built) w')
    (junk : Fin N → Nat → Nat → UInt8) (content : Fin N → Nat → UInt8) (fuel : Nat)
    {r : Run σ K N}
    (hreach : Reach (machine L key) (Run.start N key junk cfg content built w'.lib fuel) r) :
    BlobsMatch key decode r.state.toPipeState ∧
      (∀ r', Reach (machine L key) r r' → ∀ p,
        r.state.rotations p <+: r'.state.rotations p) ∧
      ∀ r', Step (machine L key) r r' → ∀ p,
        RotatesByRekey L key p r.state.toPipeState r'.state.toPipeState := by
  have hi : PipeInv key decode r.state.toPipeState :=
    pipeInv_reach hL junk cfg content (allBuilt_of_run hL hbuilt) fuel hreach
  exact ⟨hi.matched, fun r' h p => rotations_prefix hL h p, fun r' h p => rotates_step hL h p⟩

theorem retained_blob_matches_drill :
    ∃ r, Reach (machine ratchet Ratchet.key) Run.drill r ∧
      Drilled r.state ∧
      BlobsMatch Ratchet.key List.head? r.state.toPipeState ∧
      (∀ r', Reach (machine ratchet Ratchet.key) r r' → ∀ p,
        r.state.rotations p <+: r'.state.rotations p) ∧
      ∀ r', Step (machine ratchet Ratchet.key) r r' → ∀ p,
        RotatesByRekey ratchet Ratchet.key p r.state.toPipeState r'.state.toPipeState := by
  obtain ⟨r, hreach, hdrilled⟩ := drill_reaches
  obtain ⟨w', hbuilt, hlib⟩ := drill_builds
  have hrun : Reach (machine ratchet Ratchet.key)
      (Run.start 2 Ratchet.key (fun _ _ _ => 0) drill (fun _ _ => 0) drillBuilt w'.lib 1) r :=
    hlib ▸ hreach
  exact ⟨r, hreach, hdrilled, retained_blob_matches ratchet_keyedLib hbuilt _ _ 1 hrun⟩

/-- While a call that changes or frees a handle is inside the library, no
thread has a session open or a cipher call inside. -/
def Isolated (s : PipeState σ K N) : Prop :=
  ∀ i c a h, s.calls i = some (c, a) → c.mutates = some h →
    ∀ j, s.sessions j = [] ∧ ∀ c' a', s.calls j = some (c', a') → c'.isCipher = false

/-- The cipher calls of an iteration all worked on one handle with one
keying. -/
def Uniform (s : PipeState σ K N) : Prop :=
  ∀ j, ∀ e ∈ s.used j, ∀ e' ∈ s.used j, e.handle = e'.handle ∧
    ∃ k, e.keying = some k ∧ e'.keying = some k

theorem PipeInv.isolated {s : PipeState σ K N} (hi : PipeInv key decode s) : Isolated s := by
  intro i c a h hcall hm j
  have hw : s.writer = some i := (hi.calls i c a hcall).1 (by simp [hm])
  -- the call has the write side, so `j` does not have the read side
  have hfree : s.readers j = false := hi.lock i hw j
  constructor
  · by_contra hs
    rw [hi.sessions j hs] at hfree
    cases hfree
  · intro c' a' hj
    by_contra hc
    rw [Bool.not_eq_false] at hc
    rw [(hi.calls j c' a' hj).2 hc] at hfree
    cases hfree

theorem PipeInv.isUniform {s : PipeState σ K N} (hi : PipeInv key decode s) : Uniform s := by
  intro j e he e' he'
  obtain ⟨h, k, hall⟩ := hi.uniform j (List.ne_nil_of_mem he)
  obtain ⟨rfl, hk⟩ := hall e he
  obtain ⟨hh, hk'⟩ := hall e' he'
  exact ⟨hh.symm, k, hk, hk'⟩

/-- **Iterations are isolated from handle mutation**, in every state
reached. -/
theorem iterations_isolated (hL : KeyedLib L key decode) {cfg : Config} {w w' : World σ}
    {built : Pipe → Option (Pipeline × Bytes)}
    (hbuilt : buildPipelines L cfg w = .ok (some built) w')
    (junk : Fin N → Nat → Nat → UInt8) (content : Fin N → Nat → UInt8) (fuel : Nat)
    {r : Run σ K N}
    (hreach : Reach (machine L key) (Run.start N key junk cfg content built w'.lib fuel) r) :
    Isolated r.state.toPipeState ∧ Uniform r.state.toPipeState := by
  have hi : PipeInv key decode r.state.toPipeState :=
    pipeInv_reach hL junk cfg content (allBuilt_of_run hL hbuilt) fuel hreach
  exact ⟨hi.isolated, hi.isUniform⟩

theorem iterations_isolated_drill :
    ∃ r, Reach (machine ratchet Ratchet.key) Run.drill r ∧
      Drilled r.state ∧
      Isolated r.state.toPipeState ∧ Uniform r.state.toPipeState := by
  obtain ⟨r, hreach, hdrilled⟩ := drill_reaches
  obtain ⟨w', hbuilt, hlib⟩ := drill_builds
  have hrun : Reach (machine ratchet Ratchet.key)
      (Run.start 2 Ratchet.key (fun _ _ _ => 0) drill (fun _ _ => 0) drillBuilt w'.lib 1) r :=
    hlib ▸ hreach
  exact ⟨r, hreach, hdrilled, iterations_isolated ratchet_keyedLib hbuilt _ _ 1 hrun⟩

end Results

end ItbCpp.Loop
