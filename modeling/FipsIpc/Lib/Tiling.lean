import Mathlib.Data.List.Basic
import Mathlib.Data.List.Pairwise

/-!
Contract: regions that lie one behind the other without a gap.

Owns: regions of an address space, lists of regions that tile an interval, and
the rules to build such lists: append, and blocks of one size.

Does not own: what lies in a region.
-/

set_option autoImplicit false

namespace FipsIpc.Lib

/-- A piece of an address space. -/
structure Region where
  offset : Nat
  size : Nat
deriving DecidableEq, Repr

namespace Region

/-- The first address behind the region. -/
def stop (region : Region) : Nat := region.offset + region.size

def Disjoint (left right : Region) : Prop :=
  left.stop ≤ right.offset ∨ right.stop ≤ left.offset

def Contains (region : Region) (address : Nat) : Prop :=
  region.offset ≤ address ∧ address < region.stop

end Region

/-- The regions follow each other from `low` to `high`. -/
def Tiles : (low : Nat) → List Region → (high : Nat) → Prop
  | low, [], high => low = high
  | low, region :: rest, high => region.offset = low ∧ Tiles region.stop rest high

namespace Tiles

variable {low middle high : Nat} {regions : List Region}

theorem append {left right : List Region} (first : Tiles low left middle)
    (second : Tiles middle right high) : Tiles low (left ++ right) high := by
  induction left generalizing low with
  | nil =>
      cases first
      exact second
  | cons region rest inductionHypothesis =>
      exact ⟨first.1, inductionHypothesis first.2⟩

theorem low_le_high (tiles : Tiles low regions high) : low ≤ high := by
  induction regions generalizing low with
  | nil => exact Nat.le_of_eq tiles
  | cons region rest inductionHypothesis =>
      have starts : region.offset = low := tiles.1
      have continues : region.offset + region.size ≤ high := inductionHypothesis tiles.2
      omega

/-- A tile lies in the tiled interval. -/
theorem bounds (tiles : Tiles low regions high) {region : Region} (member : region ∈ regions) :
    low ≤ region.offset ∧ region.stop ≤ high := by
  induction regions generalizing low with
  | nil => cases member
  | cons first rest inductionHypothesis =>
      have starts : first.offset = low := tiles.1
      cases List.mem_cons.mp member with
      | inl same =>
          subst same
          exact ⟨Nat.le_of_eq starts.symm, tiles.2.low_le_high⟩
      | inr later =>
          have bounded := inductionHypothesis tiles.2 later
          have grows : first.offset ≤ first.stop := Nat.le_add_right _ _
          exact ⟨by omega, bounded.2⟩

/-- Different tiles do not overlap. -/
theorem disjoint (tiles : Tiles low regions high) : regions.Pairwise Region.Disjoint := by
  induction regions generalizing low with
  | nil => exact .nil
  | cons first rest inductionHypothesis =>
      apply List.Pairwise.cons
      · intro later member
        exact Or.inl (tiles.2.bounds member).1
      · exact inductionHypothesis tiles.2

/-- Every address of the interval lies in a tile. -/
theorem covers (tiles : Tiles low regions high) {address : Nat} (above : low ≤ address)
    (below : address < high) : ∃ region ∈ regions, region.Contains address := by
  induction regions generalizing low with
  | nil =>
      have same : low = high := tiles
      omega
  | cons first rest inductionHypothesis =>
      have starts : first.offset = low := tiles.1
      by_cases inside : address < first.stop
      · exact ⟨first, List.mem_cons_self, by omega, inside⟩
      · obtain ⟨region, member, contains⟩ :=
          inductionHypothesis tiles.2 (Nat.le_of_not_lt inside)
        exact ⟨region, List.mem_cons_of_mem _ member, contains⟩

/-- The last tile ends where the interval ends. -/
theorem stop_getLast (tiles : Tiles low regions high) (nonempty : regions ≠ []) :
    (regions.getLast nonempty).stop = high := by
  induction regions generalizing low with
  | nil => exact absurd rfl nonempty
  | cons first rest inductionHypothesis =>
      cases rest with
      | nil => exact tiles.2
      | cons second others =>
          rw [List.getLast_cons (List.cons_ne_nil second others)]
          exact inductionHypothesis tiles.2 (List.cons_ne_nil second others)

/-- Blocks of one stride, each tiled for itself. -/
theorem blocks {base stride : Nat} {block : Nat → List Region} (count : Nat)
    (tiled : ∀ index < count,
      Tiles (base + index * stride) (block index) (base + (index + 1) * stride)) :
    Tiles base ((List.range count).flatMap block) (base + count * stride) := by
  induction count with
  | zero =>
      show base = base + 0 * stride
      omega
  | succ count inductionHypothesis =>
      rw [List.range_succ, List.flatMap_append, List.flatMap_singleton]
      apply append (inductionHypothesis fun index before => tiled index (Nat.lt_succ_of_lt before))
      exact tiled count (Nat.lt_succ_self count)

/-- Regions of one size. -/
theorem uniform (base size count : Nat) :
    Tiles base ((List.range count).map fun index => ⟨base + index * size, size⟩)
      (base + count * size) := by
  rw [List.map_eq_flatMap]
  apply blocks
  intro index _
  refine ⟨rfl, ?_⟩
  show base + index * size + size = base + (index + 1) * size
  rw [Nat.succ_mul]
  omega

end Tiles

end FipsIpc.Lib
