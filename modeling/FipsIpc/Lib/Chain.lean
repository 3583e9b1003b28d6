import Mathlib.Data.List.Nodup
import Mathlib.Logic.Function.Basic

/-!
Contract: singly linked lists in a heap of cells.

Owns: the relation between a head pointer, a successor function and the list of
cells it links; that such a chain is determined by its head and never visits a
cell twice; and what the pointer updates of insertion and removal make of it.

Pointers are optional cells; `none` ends a chain.  Cells outside the chain are
never mentioned, so every update elsewhere is covered by `Chain.frame`.

Does not own: cell contents, allocation, and any traversal.
-/

set_option autoImplicit false

namespace FipsIpc.Lib

universe u

variable {Cell : Type u}

/-- `Chain next first cells`: from `first` on, `next` links exactly `cells`. -/
def Chain (next : Cell → Option Cell) : Option Cell → List Cell → Prop
  | first, [] => first = none
  | first, cell :: rest => first = some cell ∧ Chain next (next cell) rest

namespace Chain

variable {next : Cell → Option Cell} {first : Option Cell} {cells : List Cell}

/-- The head pointer names the first cell. -/
theorem first_eq (chain : Chain next first cells) : first = cells.head? := by
  cases cells with
  | nil => exact chain
  | cons cell rest => exact chain.1

/-- The tail of a chain is the chain from any of its cells. -/
theorem suffix {left right : List Cell} (chain : Chain next first (left ++ right)) :
    Chain next right.head? right := by
  induction left generalizing first with
  | nil =>
      rw [List.nil_append] at chain
      rw [← chain.first_eq]
      exact chain
  | cons cell left inductionHypothesis => exact inductionHypothesis chain.2

/-- Cells in the middle point to the cell after them. -/
theorem next_eq {left right : List Cell} {cell : Cell}
    (chain : Chain next first (left ++ cell :: right)) : next cell = right.head? :=
  chain.suffix.2.first_eq

/-- A chain is determined by its head pointer. -/
theorem unique {other : List Cell} (chain : Chain next first cells)
    (otherChain : Chain next first other) : cells = other := by
  induction cells generalizing first other with
  | nil =>
      obtain rfl : first = none := chain
      cases other with
      | nil => rfl
      | cons cell rest => exact absurd otherChain.1 (by simp)
  | cons cell rest inductionHypothesis =>
      obtain ⟨rfl, tail⟩ := chain
      cases other with
      | nil => exact absurd otherChain (by simp [Chain])
      | cons otherCell otherRest =>
          obtain rfl : cell = otherCell := Option.some.inj otherChain.1
          rw [inductionHypothesis tail otherChain.2]

/-- Following a pointer stays in the chain. -/
theorem next_mem {cell target : Cell} (chain : Chain next first cells) (member : cell ∈ cells)
    (follows : next cell = some target) : target ∈ cells := by
  obtain ⟨left, right, rfl⟩ := List.append_of_mem member
  rw [chain.next_eq] at follows
  have later : target ∈ right := List.mem_of_mem_head? follows
  simp [later]

theorem first_mem {cell : Cell} (chain : Chain next (some cell) cells) : cell ∈ cells :=
  List.mem_of_mem_head? chain.first_eq.symm

/-- A finite chain has no cycle. -/
theorem nodup (chain : Chain next first cells) : cells.Nodup := by
  induction cells generalizing first with
  | nil => exact List.nodup_nil
  | cons cell rest inductionHypothesis =>
      rw [List.nodup_cons]
      refine ⟨fun member => ?_, inductionHypothesis chain.2⟩
      -- A second visit would start the same chain with a shorter list.
      obtain ⟨left, right, rfl⟩ := List.append_of_mem member
      have outer : Chain next (some cell) (cell :: (left ++ cell :: right)) := ⟨rfl, chain.2⟩
      have inner : Chain next (some cell) (cell :: right) := chain.2.suffix
      have same := congrArg List.length (outer.unique inner)
      simp at same
      omega

/-- Only the successors of the linked cells matter. -/
theorem frame {other : Cell → Option Cell} (chain : Chain next first cells)
    (unchanged : ∀ cell ∈ cells, other cell = next cell) : Chain other first cells := by
  induction cells generalizing first with
  | nil => exact chain
  | cons cell rest inductionHypothesis =>
      refine ⟨chain.1, ?_⟩
      rw [unchanged cell (by simp)]
      exact inductionHypothesis chain.2 fun later member => unchanged later (by simp [member])

variable [DecidableEq Cell]

/-- Updating a cell outside the chain leaves the chain. -/
theorem update_of_not_mem {cell : Cell} {target : Option Cell} (chain : Chain next first cells)
    (outside : cell ∉ cells) : Chain (Function.update next cell target) first cells :=
  chain.frame fun _ member => Function.update_of_ne (ne_of_mem_of_not_mem member outside) _ _

/-- Redirecting the last cell before `right` replaces the rest of the chain. -/
theorem redirect {left right replacement : List Cell} {cell : Cell} {target : Option Cell}
    (chain : Chain next first (left ++ cell :: right))
    (replaced : Chain (Function.update next cell target) target replacement) :
    Chain (Function.update next cell target) first (left ++ cell :: replacement) := by
  induction left generalizing first with
  | nil =>
      refine ⟨chain.1, ?_⟩
      rw [Function.update_self]
      exact replaced
  | cons head left inductionHypothesis =>
      have different : head ≠ cell := by
        intro same
        have nodup := chain.nodup
        rw [same] at nodup
        simp at nodup
      refine ⟨chain.1, ?_⟩
      rw [Function.update_of_ne different]
      exact inductionHypothesis chain.2

/-- A new cell in front of a chain. -/
theorem push {cell : Cell} (chain : Chain next first cells) (fresh : cell ∉ cells) :
    Chain (Function.update next cell first) (some cell) (cell :: cells) := by
  refine ⟨rfl, ?_⟩
  rw [Function.update_self]
  exact chain.update_of_not_mem fresh

/-- A new cell between two neighbours. -/
theorem insertAfter {left right : List Cell} {cell fresh : Cell}
    (chain : Chain next first (left ++ cell :: right)) (outside : fresh ∉ left ++ cell :: right) :
    Chain (Function.update (Function.update next fresh right.head?) cell (some fresh)) first
      (left ++ cell :: fresh :: right) := by
  have notCell : fresh ≠ cell := fun same => outside (by simp [same])
  have later : fresh ∉ right := fun member => outside (by simp [member])
  have cellOutside : cell ∉ right := by
    have nodup := chain.suffix.nodup
    exact (List.nodup_cons.mp nodup).1
  have tail : Chain next right.head? right := by
    have step := chain.suffix.2
    rwa [chain.next_eq] at step
  apply redirect (chain.update_of_not_mem outside)
  refine ⟨rfl, ?_⟩
  rw [Function.update_of_ne notCell, Function.update_self]
  exact (tail.update_of_not_mem later).update_of_not_mem cellOutside

/-- Unlinking the cell after `cell`. -/
theorem removeAfter {left right : List Cell} {cell removed : Cell}
    (chain : Chain next first (left ++ cell :: removed :: right)) :
    Chain (Function.update next cell right.head?) first (left ++ cell :: right) := by
  have nodup := chain.suffix.nodup
  have cellOutside : cell ∉ right := by
    intro member
    simp [member] at nodup
  have tail : Chain next right.head? right := by
    have step := chain.suffix.2.2
    rwa [step.first_eq] at step
  exact chain.redirect (tail.update_of_not_mem cellOutside)

end Chain

end FipsIpc.Lib
