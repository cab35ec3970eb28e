/-
  ItbCpp.Handles
  ──────────────
  **HANDLES IN A TRACE.**

  Which handle a call is given, which one it is answered with, and what an
  event means for the handle it is about: an object adopts it, a call uses
  it, a free releases it.
-/
import ItbCpp.Ffi
import ItbCpp.Lib.Ownership

namespace ItbCpp

open Ownership (Move acquired released)

/-! ## §1. Calls. -/

/-- The handle a call is given. -/
def FfiCall.handle? : FfiCall → Option Handle
  | .free h | .close h | .save h _ | .saveF h _ | .maxWorkers h _ | .rekey h _ _ _
  | .encryptMessage h _ _ | .decryptMessage h _ _ | .encryptStream h _ _
  | .decryptStream h _ _ | .encryptStreamBegin h | .decryptStreamBegin h | .streamWrite h _
  | .streamEnd h | .streamRead h _ | .streamFree h => some h
  | _ => none

/-- The calls that are answered with a handle. -/
def FfiCall.issues : FfiCall → Bool
  | .init _ _ _ | .initKeys _ _ _ _ _ | .load _ _ _ _ | .loadF _ _ _ _
  | .encryptStreamBegin _ | .decryptStreamBegin _ => true
  | _ => false

/-- The calls that release the handle they are given. -/
def FfiCall.releases : FfiCall → Bool
  | .free _ | .streamFree _ => true
  | _ => false

/-! ## §2. Events. -/

/-- The handle a call was answered with, when it succeeded. -/
def Event.success : Event → Option Handle
  | .call c r => if c.issues = true ∧ r.rc = 0 then some r.handle else none
  | _ => none

/-- The handle a call released. -/
def Event.freed : Event → Option Handle
  | .call c _ => if c.releases = true then c.handle? else none
  | _ => none

/-- What an event means for the handle it is about; zero is no handle. -/
def Event.move : Event → Option (Move Handle)
  | .adopt h => if h = 0 then none else some (.acquire h)
  | .call c _ =>
      c.handle?.bind fun h =>
        if h = 0 then none else some (if c.releases = true then .release h else .use h)
  | .dealloc _ => none

/-- The handles issued with a success code, in order. -/
def successes (evs : List Event) : List Handle := evs.filterMap Event.success

/-- The history of the handles in a trace. -/
def moves (evs : List Event) : List (Move Handle) := evs.filterMap Event.move

@[simp] theorem successes_nil : successes [] = [] := rfl

@[simp] theorem moves_nil : moves [] = [] := rfl

@[simp] theorem successes_append (evs evs' : List Event) :
    successes (evs ++ evs') = successes evs ++ successes evs' := List.filterMap_append

@[simp] theorem moves_append (evs evs' : List Event) :
    moves (evs ++ evs') = moves evs ++ moves evs' := List.filterMap_append

theorem successes_singleton (e : Event) : successes [e] = e.success.toList := by
  unfold successes
  cases he : e.success <;> simp [he]

theorem moves_singleton (e : Event) : moves [e] = e.move.toList := by
  unfold moves
  cases he : e.move <;> simp [he]

/-- Zero never moves. -/
theorem Event.move_token_ne_zero {e : Event} {m : Move Handle} (h : e.move = some m) :
    m.token ≠ 0 := by
  cases e with
  | adopt h' =>
      simp only [Event.move] at h
      split at h
      · cases h
      · next hne =>
        injection h with h
        subst h
        exact hne
  | dealloc content => cases h
  | call c r =>
      obtain ⟨h', -, hm⟩ := Option.bind_eq_some_iff.mp h
      by_cases hz : h' = 0
      · rw [if_pos hz] at hm
        cases hm
      · rw [if_neg hz] at hm
        injection hm with hm
        subst hm
        split <;> exact hz

/-- The handles released. -/
def freed (evs : List Event) : List Handle := evs.filterMap Event.freed

end ItbCpp
