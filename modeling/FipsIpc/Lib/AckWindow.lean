import Mathlib.Data.List.Sort

/-!
Contract: a cumulative acknowledgement window.

Owns: the window over consecutively numbered items of which everything below
`low` is acknowledged and the items above it only as listed in `pending`; the
acknowledgement of one more item; and that `low` is always the least item not
yet acknowledged.

Does not own: how a program stores `pending`.
-/

set_option autoImplicit false

namespace FipsIpc.Lib

/-- Everything below `low` is acknowledged, and the `pending` items above it. -/
structure AckWindow where
  low : Nat
  pending : List Nat
  sorted : pending.Pairwise (· < ·)
  above : ∀ item ∈ pending, low < item

namespace AckWindow

def Acked (window : AckWindow) (item : Nat) : Prop :=
  item < window.low ∨ item ∈ window.pending

/-- Nothing acknowledged yet. -/
def start : AckWindow := ⟨0, [], .nil, by simp⟩

/-- Close the gap below `low`: pending items that continue it are absorbed. -/
def absorb : (low : Nat) → (pending : List Nat) → Nat × List Nat
  | low, [] => (low, [])
  | low, item :: rest => if item = low then absorb (low + 1) rest else (low, item :: rest)

/-- Insert an item before the first larger one. -/
def insertItem (item : Nat) : List Nat → List Nat
  | [] => [item]
  | other :: rest => if item < other then item :: other :: rest else other :: insertItem item rest

theorem mem_insertItem {item other : Nat} {pending : List Nat} :
    other ∈ insertItem item pending ↔ other = item ∨ other ∈ pending := by
  induction pending with
  | nil => simp [insertItem]
  | cons head rest inductionHypothesis =>
      unfold insertItem
      split
      · simp
      · simp only [List.mem_cons, inductionHypothesis]
        tauto

theorem sorted_insertItem {item : Nat} {pending : List Nat} (sorted : pending.Pairwise (· < ·))
    (fresh : item ∉ pending) : (insertItem item pending).Pairwise (· < ·) := by
  induction pending with
  | nil => simp [insertItem]
  | cons head rest inductionHypothesis =>
      obtain ⟨smaller, tail⟩ := List.pairwise_cons.mp sorted
      unfold insertItem
      split
      case isTrue before =>
        refine List.pairwise_cons.mpr ⟨fun other member => ?_, sorted⟩
        rcases List.mem_cons.mp member with rfl | later
        · exact before
        · exact before.trans (smaller other later)
      case isFalse notBefore =>
        have different : item ≠ head := fun same => fresh (by simp [same])
        refine List.pairwise_cons.mpr
          ⟨fun other member => ?_, inductionHypothesis tail fun member => fresh (by simp [member])⟩
        rcases mem_insertItem.mp member with rfl | later
        · omega
        · exact smaller other later

/-- Nothing is absorbed when every pending item lies above the gap. -/
theorem absorb_of_above {low : Nat} {pending : List Nat} (above : ∀ item ∈ pending, low < item) :
    absorb low pending = (low, pending) := by
  cases pending with
  | nil => rfl
  | cons item rest => rw [absorb, if_neg (Nat.ne_of_gt (above item (by simp)))]

/-- Absorbing keeps the acknowledged items and leaves a gap at the new `low`. -/
theorem absorb_spec (low : Nat) {pending : List Nat} (sorted : pending.Pairwise (· < ·))
    (above : ∀ item ∈ pending, low ≤ item) :
    (absorb low pending).2.Pairwise (· < ·) ∧
      (∀ item ∈ (absorb low pending).2, (absorb low pending).1 < item) ∧
      ∀ item, item < (absorb low pending).1 ∨ item ∈ (absorb low pending).2 ↔
        item < low ∨ item ∈ pending := by
  induction pending generalizing low with
  | nil => simp [absorb]
  | cons head rest inductionHypothesis =>
      obtain ⟨smaller, tail⟩ := List.pairwise_cons.mp sorted
      have headAbove := above head (by simp)
      unfold absorb
      split
      case isTrue atLow =>
        obtain ⟨restSorted, restAbove, same⟩ := inductionHypothesis (low + 1) tail
          fun item member => atLow ▸ smaller item member
        refine ⟨restSorted, restAbove, fun item => ?_⟩
        have atMost : item < low + 1 ↔ item < low ∨ item = head := by omega
        rw [same, List.mem_cons, atMost, or_assoc]
      case isFalse notLow =>
        refine ⟨sorted, fun item member => ?_, fun item => Iff.rfl⟩
        rcases List.mem_cons.mp member with rfl | later
        · omega
        · have := smaller item later
          omega

/-- Acknowledge the item at the gap. -/
def ackLow (window : AckWindow) : AckWindow :=
  have spec := absorb_spec (window.low + 1) window.sorted window.above
  ⟨(absorb (window.low + 1) window.pending).1, (absorb (window.low + 1) window.pending).2,
    spec.1, spec.2.1⟩

/-- Acknowledge an item above the gap. -/
def ackLater (window : AckWindow) (item : Nat) (later : window.low < item)
    (fresh : item ∉ window.pending) : AckWindow :=
  ⟨window.low, insertItem item window.pending, sorted_insertItem window.sorted fresh, by
    intro other member
    rcases mem_insertItem.mp member with rfl | old
    · exact later
    · exact window.above other old⟩

theorem acked_ackLow (window : AckWindow) (item : Nat) :
    window.ackLow.Acked item ↔ item = window.low ∨ window.Acked item := by
  have spec := (absorb_spec (window.low + 1) window.sorted window.above).2.2 item
  have atMost : item < window.low + 1 ↔ item = window.low ∨ item < window.low := by omega
  unfold Acked ackLow
  rw [spec, atMost, or_assoc]

theorem acked_ackLater (window : AckWindow) (item : Nat) (later : window.low < item)
    (fresh : item ∉ window.pending) (other : Nat) :
    (window.ackLater item later fresh).Acked other ↔ other = item ∨ window.Acked other := by
  unfold Acked ackLater
  rw [mem_insertItem]
  tauto

/-- `low` is the least item not acknowledged. -/
theorem not_acked_low (window : AckWindow) : ¬ window.Acked window.low := by
  rintro (below | pending)
  · exact Nat.lt_irrefl _ below
  · exact Nat.lt_irrefl _ (window.above _ pending)

theorem low_le_of_not_acked (window : AckWindow) {item : Nat} (missing : ¬ window.Acked item) :
    window.low ≤ item := by
  by_contra below
  exact missing (Or.inl (by omega))

end AckWindow

end FipsIpc.Lib
