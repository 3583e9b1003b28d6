import Mathlib.Data.List.Perm.Basic
import Mathlib.Logic.Function.Basic

/-!
Contract: a pool of numbered items in one array.

Owns: the items in the upper part of the array as the free ones, and that taking
the item at the border and putting any taken item back there keep every item
either free or taken, once.

The lower part of the array is never read: items are put back in any order, and
what stands below the border is outdated.

Does not own: what an item is used for while it is taken.
-/

set_option autoImplicit false

namespace FipsIpc.Lib.Pool

/-- The free items: `position[idx..size)`. -/
def free (position : Nat → Nat) (idx size : Nat) : List Nat :=
  (List.range' idx (size - idx)).map position

/-- Every item is free or taken, once, and `idx` counts the taken ones. -/
structure Splits (position : Nat → Nat) (idx size : Nat) (taken : List Nat) : Prop where
  all : (free position idx size ++ taken).Perm (List.range size)
  count : idx = taken.length

variable {position : Nat → Nat} {idx size : Nat}

/-- The item at the border is the first free one. -/
theorem free_eq_cons (room : idx < size) :
    free position idx size = position idx :: free position (idx + 1) size := by
  have ahead : size - idx = size - (idx + 1) + 1 := by omega
  unfold free
  rw [ahead, List.range'_succ, List.map_cons]

/-- Writing below the border. -/
theorem free_update {index item : Nat} (below : index < idx) :
    free (Function.update position index item) idx size = free position idx size := by
  apply List.map_congr_left
  intro place member
  rw [List.mem_range'_1] at member
  apply Function.update_of_ne
  omega

namespace Splits

variable {taken rest : List Nat} {item : Nat}

theorem le_size (splits : Splits position idx size taken) : idx ≤ size := by
  have lengths := splits.all.length_eq
  have count := splits.count
  simp only [free, List.length_append, List.length_map, List.length_range',
    List.length_range] at lengths
  omega

theorem nodup (splits : Splits position idx size taken) :
    (free position idx size ++ taken).Nodup :=
  splits.all.nodup_iff.mpr List.nodup_range

/-- What is free and what is not. -/
theorem mem_free_iff (splits : Splits position idx size taken) :
    item ∈ free position idx size ↔ item < size ∧ item ∉ taken := by
  have member : item ∈ free position idx size ++ taken ↔ item < size := by
    rw [splits.all.mem_iff, List.mem_range]
  have apart := (List.nodup_append.mp splits.nodup).2.2
  rw [List.mem_append] at member
  constructor
  · intro isFree
    exact ⟨member.mp (Or.inl isFree), fun isTaken => apart _ isFree _ isTaken rfl⟩
  · rintro ⟨inside, notTaken⟩
    rcases member.mpr inside with isFree | isTaken
    · exact isFree
    · exact absurd isTaken notTaken

/-- The item that is taken next. -/
theorem next_not_mem (splits : Splits position idx size taken) (room : idx < size) :
    position idx ∉ taken := by
  have isFree : position idx ∈ free position idx size := by
    rw [free_eq_cons room]
    exact List.mem_cons_self
  exact (splits.mem_free_iff.mp isFree).2

/-- Before anything is taken. -/
theorem start (filled : ∀ index < size, position index = index) :
    Splits position 0 size [] where
  all := by
    have same : free position 0 size = List.range size := by
      unfold free
      rw [Nat.sub_zero, ← List.range_eq_range']
      calc (List.range size).map position
        _ = (List.range size).map id :=
          List.map_congr_left fun index member => filled index (List.mem_range.mp member)
        _ = List.range size := List.map_id _
    rw [same, List.append_nil]
  count := rfl

theorem perm {other : List Nat} (splits : Splits position idx size taken)
    (same : other.Perm taken) : Splits position idx size other where
  all := (same.append_left _).trans splits.all
  count := splits.count.trans same.length_eq.symm

theorem take (splits : Splits position idx size taken) (room : idx < size) :
    Splits position (idx + 1) size (position idx :: taken) where
  all := by
    have all := splits.all
    rw [free_eq_cons room, List.cons_append] at all
    exact List.perm_middle.trans all
  count := congrArg (· + 1) splits.count

/-- Any taken item is put back at the border. -/
theorem put (splits : Splits position idx size (item :: rest)) :
    Splits (Function.update position (idx - 1) item) (idx - 1) size rest where
  all := by
    have within := splits.le_size
    have count := splits.count
    rw [List.length_cons] at count
    have back : idx - 1 + 1 = idx := by omega
    rw [free_eq_cons (by omega), Function.update_self, back, free_update (by omega)]
    exact List.perm_middle.symm.trans splits.all
  count := by
    rw [splits.count]
    rfl

end Splits

end FipsIpc.Lib.Pool
