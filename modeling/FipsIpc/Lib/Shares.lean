import Mathlib.Data.List.Basic
import Mathlib.Data.List.Nodup
import Mathlib.Data.List.Range
import Mathlib.Data.List.Sort

/-!
Contract: even shares of a range of items, and windows of an increasing list.

Owns: the division of `total` items into `parts` consecutive shares whose sizes
differ by at most one, the part of an item, counting over a range, and what is
left of an increasing list from one of its elements on.

Does not own: what the items or the parts are.
-/

set_option autoImplicit false

namespace FipsIpc.Lib

/-! ### Shares -/

/-- The size of share `part`: the first shares take the remainder. -/
def share (total parts part : Nat) : Nat :=
  total / parts + if part < total % parts then 1 else 0

/-- The first item of share `part`. -/
def cut (total parts part : Nat) : Nat :=
  part * (total / parts) + min part (total % parts)

section Shares

variable (total parts : Nat)

@[simp] theorem cut_zero : cut total parts 0 = 0 := by simp [cut]

theorem cut_succ (part : Nat) :
    cut total parts (part + 1) = cut total parts part + share total parts part := by
  unfold cut share
  rw [Nat.succ_mul]
  split <;> omega

/-- The shares are used up together with the items. -/
theorem cut_parts {parts : Nat} (positive : 0 < parts) : cut total parts parts = total := by
  unfold cut
  rw [Nat.min_eq_right (Nat.le_of_lt (Nat.mod_lt _ positive))]
  exact Nat.div_add_mod total parts

theorem cut_mono {left right : Nat} (ordered : left ≤ right) :
    cut total parts left ≤ cut total parts right := by
  induction ordered with
  | refl => exact Nat.le_refl _
  | step _ inductionHypothesis =>
      rw [cut_succ]
      exact inductionHypothesis.trans (Nat.le_add_right _ _)

theorem div_le_share (part : Nat) : total / parts ≤ share total parts part :=
  Nat.le_add_right _ _

theorem share_le_div_succ (part : Nat) : share total parts part ≤ total / parts + 1 := by
  unfold share
  split <;> omega

/-- The last share takes nothing of the remainder. -/
theorem cut_last {parts : Nat} (positive : 0 < parts) :
    cut total parts (parts - 1) = total - total / parts := by
  have last : share total parts (parts - 1) = total / parts := by
    have remainder := Nat.mod_lt total positive
    unfold share
    rw [if_neg (by omega)]
    rfl
  have whole := cut_succ total parts (parts - 1)
  rw [Nat.sub_add_cancel positive, cut_parts total positive, last] at whole
  omega

/-- Every item lies in one share. -/
theorem exists_part {total parts : Nat} (positive : 0 < parts) {item : Nat}
    (inside : item < total) :
    ∃ part < parts, cut total parts part ≤ item ∧ item < cut total parts (part + 1) := by
  have reached : ∀ bound, item < cut total parts bound →
      ∃ part < bound, cut total parts part ≤ item ∧ item < cut total parts (part + 1) := by
    intro bound below
    induction bound with
    | zero =>
        rw [cut_zero] at below
        exact absurd below (Nat.not_lt_zero _)
    | succ bound inductionHypothesis =>
        by_cases earlier : item < cut total parts bound
        · obtain ⟨part, partBound, window⟩ := inductionHypothesis earlier
          exact ⟨part, partBound.trans (Nat.lt_succ_self _), window⟩
        · exact ⟨bound, Nat.lt_succ_self _, Nat.le_of_not_lt earlier, below⟩
  exact reached parts (by rwa [cut_parts total positive])

/-- Shares do not overlap. -/
theorem part_unique {total parts item left right : Nat}
    (leftLow : cut total parts left ≤ item) (leftHigh : item < cut total parts (left + 1))
    (rightLow : cut total parts right ≤ item) (rightHigh : item < cut total parts (right + 1)) :
    left = right := by
  rcases Nat.lt_trichotomy left right with below | same | above
  · have apart : cut total parts (left + 1) ≤ cut total parts right := cut_mono total parts below
    omega
  · exact same
  · have apart : cut total parts (right + 1) ≤ cut total parts left := cut_mono total parts above
    omega

end Shares

/-! ### Counting over a range -/

/-- The numbers of an interval. -/
theorem countP_range_interval (bound low high : Nat) :
    (List.range bound).countP (fun item => decide (low ≤ item ∧ item < high)) =
      min high bound - min low bound := by
  induction bound with
  | zero => simp
  | succ bound inductionHypothesis =>
      rw [List.range_succ, List.countP_append, inductionHypothesis, List.countP_singleton]
      by_cases inside : low ≤ bound ∧ bound < high
      · simp only [inside, and_self, decide_true, if_true]
        omega
      · simp only [inside, decide_false, Bool.false_eq_true, if_false]
        omega

/-! ### Windows of an increasing list -/

section Windows

variable {items : List Nat}

/-- The kept elements behind `position`. -/
theorem filter_drop (keep : Nat → Bool) (position : Nat) :
    (items.drop position).filter keep =
      (items.filter keep).drop ((items.take position).countP keep) := by
  have parts : items.filter keep =
      (items.take position).filter keep ++ (items.drop position).filter keep := by
    rw [← List.filter_append, List.take_append_drop]
  rw [parts, List.countP_eq_length_filter, List.drop_left]

/-- The kept elements of an increasing list from one of its elements on. -/
theorem filter_from_getElem (increasing : items.Pairwise (· < ·)) (keep : Nat → Bool)
    {position : Nat} (inside : position < items.length) :
    items.filter (fun item => decide (items[position] ≤ item) && keep item) =
      (items.filter keep).drop ((items.take position).countP keep) := by
  have ordered := List.pairwise_iff_getElem.mp increasing
  generalize value : items[position] = start
  have before : (items.take position).filter (fun item => decide (start ≤ item) && keep item) =
      [] := by
    apply List.filter_eq_nil_iff.mpr
    intro item member
    obtain ⟨index, bound, rfl⟩ := List.mem_take_iff_getElem.mp member
    have smaller := ordered index position (by omega) inside (by omega)
    simp only [Bool.and_eq_true, decide_eq_true_eq, not_and]
    omega
  have after : (items.drop position).filter (fun item => decide (start ≤ item) && keep item) =
      (items.drop position).filter keep := by
    apply List.filter_congr
    intro item member
    obtain ⟨index, bound, rfl⟩ := List.mem_drop_iff_getElem.mp member
    have larger : start ≤ items[position + index] := by
      rcases Nat.eq_zero_or_pos index with rfl | later
      · exact Nat.le_of_eq value.symm
      · rw [← value]
        exact Nat.le_of_lt (ordered position (position + index) inside (by omega) (by omega))
    rw [decide_eq_true larger, Bool.true_and]
  calc items.filter (fun item => decide (start ≤ item) && keep item)
      = (items.take position ++ items.drop position).filter
          (fun item => decide (start ≤ item) && keep item) := by rw [List.take_append_drop]
    _ = (items.drop position).filter keep := by
        rw [List.filter_append, before, after, List.nil_append]
    _ = (items.filter keep).drop ((items.take position).countP keep) := filter_drop keep position

/-- The elements of a window are those with an index in it. -/
theorem getElem_mem_window (distinct : items.Nodup) {low size index : Nat}
    (inside : index < items.length) :
    items[index] ∈ (items.drop low).take size ↔ low ≤ index ∧ index < low + size := by
  constructor
  · intro member
    obtain ⟨place, bound, equal⟩ := List.mem_iff_getElem.mp member
    rw [List.getElem_take, List.getElem_drop] at equal
    rw [List.length_take, List.length_drop] at bound
    have same : low + place = index := (distinct.getElem_inj_iff).mp equal
    omega
  · rintro ⟨lower, upper⟩
    refine List.mem_iff_getElem.mpr ⟨index - low, ?_, ?_⟩
    · rw [List.length_take, List.length_drop]
      omega
    · rw [List.getElem_take, List.getElem_drop]
      congr 1
      omega

end Windows

end FipsIpc.Lib
