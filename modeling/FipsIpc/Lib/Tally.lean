import Mathlib.Algebra.BigOperators.Group.Finset.Piecewise
import Mathlib.Algebra.BigOperators.Group.List.Basic
import Mathlib.Algebra.GroupWithZero.Nat
import Mathlib.Algebra.Order.BigOperators.Group.Finset

/-!
Contract: the total weight of items that are kept in lists and in numbered places.

Owns: the tally of a list of items, what it is after an item is added, taken out or
exchanged, and the sum over numbered places after one of them has changed.

Does not own: what the items are and what they weigh.
-/

set_option autoImplicit false

namespace FipsIpc.Lib

universe u v

variable {Item : Type u}

/-- The weights of the items of a list together. -/
def tally (weight : Item → Nat) (items : List Item) : Nat := (items.map weight).sum

section Lists

variable {weight : Item → Nat} {items others : List Item} {item later : Item} {index : Nat}

@[simp] theorem tally_nil : tally weight [] = 0 := rfl

@[simp] theorem tally_cons :
    tally weight (item :: items) = weight item + tally weight items := List.sum_cons

@[simp] theorem tally_append :
    tally weight (items ++ others) = tally weight items + tally weight others := by
  unfold tally
  rw [List.map_append, List.sum_append]

/-- An item is taken out. -/
theorem tally_eraseIdx (present : items[index]? = some item) :
    tally weight (items.eraseIdx index) + weight item = tally weight items := by
  induction items generalizing index with
  | nil => cases present
  | cons head rest inductionHypothesis =>
      cases index with
      | zero =>
          obtain rfl := Option.some.inj present
          show tally weight rest + weight head = tally weight (head :: rest)
          rw [tally_cons, Nat.add_comm]
      | succ index =>
          have tail := inductionHypothesis (List.getElem?_cons_succ.symm.trans present)
          show tally weight (head :: rest.eraseIdx index) + weight item =
            tally weight (head :: rest)
          rw [tally_cons, tally_cons, Nat.add_assoc, tail]

/-- An item is exchanged. -/
theorem tally_set (present : items[index]? = some item) :
    tally weight (items.set index later) + weight item = tally weight items + weight later := by
  induction items generalizing index with
  | nil => cases present
  | cons head rest inductionHypothesis =>
      cases index with
      | zero =>
          obtain rfl := Option.some.inj present
          show tally weight (later :: rest) + weight head = tally weight (head :: rest) + _
          rw [tally_cons, tally_cons]
          omega
      | succ index =>
          have tail := inductionHypothesis (List.getElem?_cons_succ.symm.trans present)
          show tally weight (head :: rest.set index later) + _ = tally weight (head :: rest) + _
          rw [tally_cons, tally_cons]
          omega

end Lists

/-- One of the places changes. -/
theorem sum_update {Place : Type v} [Fintype Place] [DecidableEq Place] (weight : Item → Nat)
    (items : Place → Item) (place : Place) (later : Item) :
    ∑ other, weight (Function.update items place later other) + weight (items place) =
      ∑ other, weight (items other) + weight later := by
  have updated : (fun other => weight (Function.update items place later other)) =
      Function.update (fun other => weight (items other)) place (weight later) := by
    funext other
    exact Function.apply_update (fun _ => weight) items place later other
  have whole := Finset.sum_eq_add_sum_sdiff_singleton_of_mem (Finset.mem_univ place)
    (fun other => weight (items other))
  rw [updated, Finset.sum_update_of_mem (Finset.mem_univ place)]
  omega

end FipsIpc.Lib
