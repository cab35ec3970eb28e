/-
  ItbCpp.Lib.Nesting
  ──────────────────
  **TOKENS THAT NEST.**

  An owner that takes tokens over and gives each back before those that it
  took over earlier holds them as a stack.  A history is followed move by
  move: what is used must be held, and what is released must be the last that
  was acquired.

    • `follow` — what is held after a history, if it is in order,
    • `follow_append` — histories compose,
    • `perm_of_follow` — nothing is lost.

  Nothing here is about a particular program.
-/
import ItbCpp.Lib.Ownership
import Mathlib.Data.List.Perm.Basic

namespace Nesting

open Ownership (Move acquired released)

variable {H : Type} [DecidableEq H] {held held' : List H}

/-- What is held after the moves, the last acquired first. -/
def follow (held : List H) : List (Move H) → Option (List H)
  | [] => some held
  | .acquire h :: ms => follow (h :: held) ms
  | .use h :: ms => if h ∈ held then follow held ms else none
  | .release h :: ms => if held.head? = some h then follow held.tail ms else none

/-- **Histories compose.** -/
theorem follow_append (ms ms' : List (Move H)) (held : List H) :
    follow held (ms ++ ms') = (follow held ms).bind fun held' => follow held' ms' := by
  induction ms generalizing held with
  | nil => rfl
  | cons m ms ih =>
      cases m with
      | acquire h => exact ih (h :: held)
      | use h =>
          show (if h ∈ held then follow held (ms ++ ms') else none) = _
          simp only [follow]
          split
          · exact ih held
          · rfl
      | release h =>
          show (if held.head? = some h then follow held.tail (ms ++ ms') else none) = _
          simp only [follow]
          split
          · exact ih held.tail
          · rfl

/-- **Nothing is lost**: what was held and what was acquired is released or
held. -/
theorem perm_of_follow (ms : List (Move H)) (held : List H)
    (h : follow held ms = some held') :
    (acquired ms ++ held).Perm (released ms ++ held') := by
  induction ms generalizing held with
  | nil =>
      cases h
      exact .refl _
  | cons m ms ih =>
      cases m with
      | acquire t =>
          have hrest := ih (t :: held) h
          show (t :: (acquired ms ++ held)).Perm (released ms ++ held')
          exact List.perm_middle.symm.trans hrest
      | use t =>
          simp only [follow] at h
          split at h
          · exact ih held h
          · cases h
      | release t =>
          simp only [follow] at h
          split at h
          · rename_i hhead
            obtain ⟨rest, rfl⟩ : ∃ rest, held = t :: rest := by
              cases held with
              | nil => cases hhead
              | cons x rest =>
                  cases hhead
                  exact ⟨rest, rfl⟩
            have hrest := ih rest h
            show (acquired ms ++ t :: rest).Perm (t :: (released ms ++ held'))
            exact List.perm_middle.trans (hrest.cons t)
          · cases h

end Nesting
