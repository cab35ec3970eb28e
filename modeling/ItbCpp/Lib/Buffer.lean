/-
  ItbCpp.Lib.Buffer
  ─────────────────
  **CALLER-OWNED BUFFERS.**

  A callee that is handed a buffer and its size may write anywhere inside
  it and nowhere else.  `overlay` is a write at the front, `overlayAt i` a
  write into the tail that starts at `i`; both cut what does not fit, so a
  buffer never changes its length.
-/
import Mathlib.Data.List.Basic
import Mathlib.Data.List.TakeDrop

namespace Buffer

variable {α : Type}

/-- `buf` after a write of `out` at its front, cut at its end. -/
def overlay (buf out : List α) : List α := out.take buf.length ++ buf.drop out.length

/-- `buf` after a write of `out` into the tail that starts at `i`. -/
def overlayAt (buf : List α) (i : Nat) (out : List α) : List α :=
  buf.take i ++ overlay (buf.drop i) out

@[simp] theorem length_overlay (buf out : List α) : (overlay buf out).length = buf.length := by
  simp only [overlay, List.length_append, List.length_take, List.length_drop]
  omega

@[simp] theorem length_overlayAt (buf : List α) (i : Nat) (out : List α) :
    (overlayAt buf i out).length = buf.length := by
  simp only [overlayAt, List.length_append, length_overlay, List.length_take, List.length_drop]
  omega

/-- What was written and fits can be read back. -/
theorem take_overlay {buf out : List α} {n : Nat} (hout : n ≤ out.length)
    (hbuf : n ≤ buf.length) : (overlay buf out).take n = out.take n := by
  have hn : n ≤ (out.take buf.length).length := by
    rw [List.length_take]
    omega
  rw [overlay, List.take_append_of_le_length hn, List.take_take, Nat.min_eq_left hbuf]

/-- Front and freshly written bytes are consecutive. -/
theorem take_add_overlayAt {buf out : List α} {i n : Nat} (hi : i + n ≤ buf.length)
    (hout : n ≤ out.length) :
    (overlayAt buf i out).take (i + n) = buf.take i ++ out.take n := by
  have hlen : (buf.take i).length = i := by rw [List.length_take]; omega
  have hdrop : n ≤ (buf.drop i).length := by rw [List.length_drop]; omega
  rw [overlayAt, List.take_append, hlen, Nat.add_sub_cancel_left, take_overlay hout hdrop,
    List.take_of_length_le (by omega)]

/-! ## Copies that tile a buffer. -/

/-- Each copy begins where the one before it ended; the first begins at `i`
and the last ends at `n`. -/
def Tiles : Nat → Nat → List (Nat × List α) → Prop
  | i, n, [] => i = n
  | i, n, c :: cs => c.1 = i ∧ Tiles (i + c.2.length) n cs

theorem Tiles.le {cs : List (Nat × List α)} {i n : Nat} (h : Tiles i n cs) : i ≤ n := by
  induction cs generalizing i with
  | nil => exact Nat.le_of_eq h
  | cons c cs ih =>
      have := ih h.2
      omega

/-- No copy leaves the buffer. -/
theorem Tiles.inside {cs : List (Nat × List α)} {i n : Nat} (h : Tiles i n cs) :
    ∀ c ∈ cs, c.1 + c.2.length ≤ n := by
  induction cs generalizing i with
  | nil => simp
  | cons c cs ih =>
      obtain ⟨hfirst, hrest⟩ := h
      intro c' hc'
      rcases List.mem_cons.mp hc' with hc' | hc'
      · rw [hc', hfirst]
        exact hrest.le
      · exact ih hrest c' hc'

/-- **The copies fill the buffer** from `i` on, one after the other. -/
theorem Tiles.fill {cs : List (Nat × List α)} {i : Nat} {buf : List α}
    (h : Tiles i buf.length cs) :
    cs.foldl (fun b c => overlayAt b c.1 c.2) buf =
      buf.take i ++ (cs.map Prod.snd).flatten := by
  induction cs generalizing i buf with
  | nil =>
      have hend : i = buf.length := h
      simp [hend]
  | cons c cs ih =>
      obtain ⟨rfl, hrest⟩ := h
      have hle := hrest.le
      have hnext : Tiles (c.1 + c.2.length) (overlayAt buf c.1 c.2).length cs := by
        rw [length_overlayAt]
        exact hrest
      rw [List.foldl_cons, ih hnext, take_add_overlayAt hle (Nat.le_refl _),
        List.take_length]
      simp

end Buffer
