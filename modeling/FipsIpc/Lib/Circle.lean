import Mathlib.Data.List.Iterate
import Mathlib.Data.List.Rotate

/-!
Contract: a cursor that goes round a list.

Owns: functions that lead from every entry of a list to the one behind it and
from the last to the first, and the entries that a number of rounds visits.

A cursor may be left behind the last entry it has visited; it is corrected
before the next visit.  A whole round from any entry on visits every entry once.

Does not own: what is done at a visit, or when a round ends early.
-/

set_option autoImplicit false

namespace FipsIpc.Lib

variable {α : Type*}

/-- `step` leads round the list. -/
def Circles (step : α → α) (order : List α) : Prop :=
  ∀ position entry, order[position]? = some entry →
    order[(position + 1) % order.length]? = some (step entry)

/-- The entries a cursor visits: it is corrected, and after the visit moved on. -/
def visits (correct move : α → α) : (tries : Nat) → (cursor : α) → List α
  | 0, _ => []
  | tries + 1, cursor => correct cursor :: visits correct move tries (move (correct cursor))

theorem visits_eq_iterate (correct move : α → α) (tries : Nat) (cursor : α) :
    visits correct move tries cursor =
      List.iterate (fun entry => correct (move entry)) (correct cursor) tries := by
  induction tries generalizing cursor with
  | zero => rfl
  | succ tries inductionHypothesis =>
      rw [visits, List.iterate, inductionHypothesis]

namespace Circles

variable {step : α → α} {order : List α} {entry : α}

theorem getElem?_iterate (circles : Circles step order) {start : Nat}
    (found : order[start]? = some entry) (count : Nat) :
    order[(start + count) % order.length]? = some (step^[count] entry) := by
  obtain ⟨inside, _⟩ := List.getElem?_eq_some_iff.mp found
  induction count with
  | zero => rw [Nat.add_zero, Nat.mod_eq_of_lt inside, Function.iterate_zero_apply, found]
  | succ count inductionHypothesis =>
      have next := circles _ _ inductionHypothesis
      rw [Nat.mod_add_mod] at next
      rw [Function.iterate_succ_apply', ← Nat.add_assoc, next]

/-- A whole round is the list, rotated. -/
theorem iterate_eq_rotate (circles : Circles step order) {start : Nat}
    (found : order[start]? = some entry) :
    List.iterate step entry order.length = order.rotate start := by
  apply List.ext_getElem?
  intro position
  by_cases inside : position < order.length
  · rw [List.getElem?_iterate step entry order.length position inside,
      List.getElem?_rotate inside, Nat.add_comm, circles.getElem?_iterate found]
  · rw [List.getElem?_eq_none (by rw [List.length_iterate]; omega),
      List.getElem?_eq_none (by rw [List.length_rotate]; omega)]

theorem iterate_perm (circles : Circles step order) (member : entry ∈ order) :
    (List.iterate step entry order.length).Perm order := by
  obtain ⟨start, found⟩ := List.mem_iff_getElem?.mp member
  rw [circles.iterate_eq_rotate found]
  exact List.rotate_perm order start

theorem iterate_mem (circles : Circles step order) (member : entry ∈ order) (count : Nat) :
    step^[count] entry ∈ order := by
  obtain ⟨start, found⟩ := List.mem_iff_getElem?.mp member
  exact List.mem_iff_getElem?.mpr ⟨_, circles.getElem?_iterate found count⟩

end Circles

/-- The corrected cursor is an entry, if there is one. -/
def Rests (correct : α → α) (order : List α) (cursor : α) : Prop :=
  order ≠ [] → correct cursor ∈ order

section Cursor

variable {correct move : α → α} {order : List α} {cursor : α}

/-- A whole round visits every entry once. -/
theorem visits_perm (circles : Circles (fun entry => correct (move entry)) order)
    (rests : Rests correct order cursor) :
    (visits correct move order.length cursor).Perm order := by
  by_cases none : order = []
  · rw [none]
    exact List.Perm.refl []
  · rw [visits_eq_iterate]
    exact circles.iterate_perm (rests none)

/-- Behind an entry the cursor comes to rest. -/
theorem rests_move (circles : Circles (fun entry => correct (move entry)) order) {entry : α}
    (member : entry ∈ order) : Rests correct order (move entry) :=
  fun _ => circles.iterate_mem member 1

end Cursor

end FipsIpc.Lib
