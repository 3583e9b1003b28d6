import Mathlib.Algebra.Order.Group.Defs
import Mathlib.Algebra.Order.Monoid.Defs
import Mathlib.Combinatorics.Pigeonhole
import Mathlib.Order.Interval.Finset.Nat

/-!
Contract: a counter that is reset when its window has passed.

Owns: the windows such a counter sees in a sequence of events, the position of
an event in its window, and which sets of events lie in one window.

A window starts with its first event; the next one starts with the first event
that is more than `width` later than that.

Does not own: what happens to the counts.
-/

set_option autoImplicit false

namespace FipsIpc.Lib

namespace ResetWindow

section Windows

variable {Time : Type} [AddCommGroup Time] [LinearOrder Time]

/-- The start of the window of an event and its number in it, from 1. -/
def window (width : Time) (times : Nat → Time) : Nat → Time × Nat
  | 0 => (times 0, 1)
  | index + 1 =>
      let previous := window width times index
      if previous.1 + width < times (index + 1) then (times (index + 1), 1)
      else (previous.1, previous.2 + 1)

variable {width : Time} {times : Nat → Time}

theorem window_reset {index : Nat}
    (passed : (window width times index).1 + width < times (index + 1)) :
    window width times (index + 1) = (times (index + 1), 1) :=
  if_pos passed

theorem window_counts {index : Nat}
    (inside : ¬(window width times index).1 + width < times (index + 1)) :
    window width times (index + 1) =
      ((window width times index).1, (window width times index).2 + 1) :=
  if_neg inside

/-- Later events do not change a window. -/
theorem window_congr {others : Nat → Time} {index : Nat}
    (same : ∀ event ≤ index, times event = others event) :
    window width times index = window width others index := by
  induction index with
  | zero => rw [window, window, same 0 (Nat.le_refl 0)]
  | succ index inductionHypothesis =>
      have earlier := inductionHypothesis fun event bound => same event (Nat.le_succ_of_le bound)
      unfold window
      rw [earlier, same (index + 1) (Nat.le_refl _)]

theorem position_pos (width : Time) (times : Nat → Time) (index : Nat) :
    1 ≤ (window width times index).2 := by
  cases index with
  | zero => exact Nat.le_refl 1
  | succ index =>
      by_cases passed : (window width times index).1 + width < times (index + 1)
      · rw [window_reset passed]
      · rw [window_counts passed]
        exact Nat.succ_le_succ (Nat.zero_le _)

/-- The events of a window before an event have the numbers below its own. -/
theorem window_back {index back : Nat} (inside : back < (window width times index).2) :
    back ≤ index ∧ window width times (index - back) =
      ((window width times index).1, (window width times index).2 - back) := by
  induction index generalizing back with
  | zero =>
      have first : back = 0 := Nat.lt_one_iff.mp inside
      subst first
      exact ⟨Nat.le_refl 0, rfl⟩
  | succ index inductionHypothesis =>
      cases back with
      | zero => exact ⟨Nat.zero_le _, rfl⟩
      | succ back =>
          by_cases passed : (window width times index).1 + width < times (index + 1)
          · rw [window_reset passed] at inside
            exact absurd inside (by omega)
          · rw [window_counts passed] at inside ⊢
            obtain ⟨bound, earlier⟩ := inductionHypothesis (Nat.lt_of_succ_lt_succ inside)
            refine ⟨Nat.succ_le_succ bound, ?_⟩
            rw [Nat.add_sub_add_right, earlier, Nat.add_sub_add_right]

/-- A window that got to a number has been at every number before it. -/
theorem exists_position {index number : Nat} (positive : 1 ≤ number)
    (bound : number ≤ (window width times index).2) :
    ∃ earlier ≤ index, (window width times earlier).2 = number := by
  have inside : (window width times index).2 - number < (window width times index).2 := by omega
  obtain ⟨_, earlier⟩ := window_back inside
  refine ⟨index - ((window width times index).2 - number), Nat.sub_le _ _, ?_⟩
  rw [earlier]
  exact Nat.sub_sub_self bound

/-- The first `count` events come in order. -/
def OrderedBelow (times : Nat → Time) (count : Nat) : Prop :=
  ∀ first last, first ≤ last → last < count → times first ≤ times last

theorem start_le {count index : Nat} (ordered : OrderedBelow times count)
    (bound : index < count) : (window width times index).1 ≤ times index := by
  induction index with
  | zero => exact le_refl _
  | succ index inductionHypothesis =>
      by_cases passed : (window width times index).1 + width < times (index + 1)
      · rw [window_reset passed]
      · rw [window_counts passed]
        exact (inductionHypothesis (Nat.lt_of_succ_lt bound)).trans
          (ordered index (index + 1) (Nat.le_succ index) bound)

variable [IsOrderedAddMonoid Time]

/-- Two events are in one window, or the window of the later one starts more
than `width` after that of the other, and behind its event. -/
theorem window_cases {count first last : Nat} (wide : 0 ≤ width)
    (ordered : OrderedBelow times count) (order : first ≤ last) (bound : last < count) :
    ((window width times last).1 = (window width times first).1 ∧
        (window width times last).2 = (window width times first).2 + (last - first)) ∨
      ((window width times first).1 + width < (window width times last).1 ∧
        times first ≤ (window width times last).1) := by
  induction last, order using Nat.le_induction with
  | base => exact Or.inl ⟨rfl, by omega⟩
  | succ last order inductionHypothesis =>
      have earlier := inductionHypothesis (Nat.lt_of_succ_lt bound)
      by_cases passed : (window width times last).1 + width < times (last + 1)
      · rw [window_reset passed]
        refine Or.inr ⟨?_, ordered first (last + 1) (Nat.le_succ_of_le order) bound⟩
        rcases earlier with ⟨same, _⟩ | ⟨apart, _⟩
        · rw [← same]
          exact passed
        · exact apart.trans ((le_add_of_nonneg_right wide).trans_lt passed)
      · rw [window_counts passed]
        rcases earlier with ⟨same, number⟩ | apart
        · exact Or.inl ⟨same, by rw [number]; omega⟩
        · exact Or.inr apart

/-- Events of one window are not more than the number of the last one. -/
theorem card_le_position {count : Nat} (wide : 0 ≤ width) (ordered : OrderedBelow times count)
    {events : Finset Nat} {last : Nat} (bound : last < count) (member : last ∈ events)
    (latest : ∀ event ∈ events, event ≤ last)
    (same : ∀ event ∈ events, (window width times event).1 = (window width times last).1) :
    events.card ≤ (window width times last).2 := by
  have nonempty : events.Nonempty := ⟨last, member⟩
  let first := events.min' nonempty
  have firstMember : first ∈ events := events.min'_mem nonempty
  have order : first ≤ last := latest first firstMember
  have between : events ⊆ Finset.Icc first last := fun event inside =>
    Finset.mem_Icc.mpr ⟨events.min'_le event inside, latest event inside⟩
  have count := Finset.card_le_card between
  rw [Nat.card_Icc] at count
  have positive := position_pos width times first
  rcases window_cases wide ordered order bound with ⟨_, number⟩ | ⟨apart, _⟩
  · omega
  · rw [← same first firstMember] at apart
    exact absurd apart (not_lt.mpr (le_add_of_nonneg_right wide))

/-- Of events within `width` of each other every one is in the window of the
first or in that of the last. -/
theorem start_first_or_last {count : Nat} (wide : 0 ≤ width) (ordered : OrderedBelow times count)
    {first event last : Nat} (after : first ≤ event) (before : event ≤ last)
    (bound : last < count) (close : times last - times first ≤ width) :
    (window width times event).1 = (window width times first).1 ∨
      (window width times event).1 = (window width times last).1 := by
  rcases window_cases wide ordered after (before.trans_lt bound) with ⟨same, _⟩ | ⟨_, behind⟩
  · exact Or.inl same
  · rcases window_cases wide ordered before bound with ⟨same, _⟩ | ⟨apart, _⟩
    · exact Or.inr same.symm
    · have far : times first + width < times last :=
        ((add_le_add_left behind width).trans_lt apart).trans_le (start_le ordered bound)
      exact absurd (sub_le_iff_le_add'.mp close) (not_le.mpr far)

/-- More than `2 * size` events within `width` have more than `size` of them in
one window. -/
theorem exists_window_of_close {count size : Nat} (wide : 0 ≤ width)
    (ordered : OrderedBelow times count) {events : Finset Nat}
    (bound : ∀ event ∈ events, event < count)
    (close : ∀ first ∈ events, ∀ last ∈ events, times last - times first ≤ width)
    (many : 2 * size < events.card) :
    ∃ start, size < (events.filter fun event => (window width times event).1 = start).card := by
  have nonempty : events.Nonempty := Finset.card_pos.mp (by omega)
  let first := events.min' nonempty
  let last := events.max' nonempty
  have firstMember : first ∈ events := events.min'_mem nonempty
  have lastMember : last ∈ events := events.max'_mem nonempty
  have two : ∀ event ∈ events, (window width times event).1 ∈
      ({(window width times first).1, (window width times last).1} : Finset Time) := by
    intro event member
    rw [Finset.mem_insert, Finset.mem_singleton]
    exact start_first_or_last wide ordered (events.min'_le event member)
      (events.le_max' event member) (bound last lastMember)
      (close first firstMember last lastMember)
  have room : ({(window width times first).1, (window width times last).1} : Finset Time).card *
      size < events.card :=
    (Nat.mul_le_mul_right size Finset.card_le_two).trans_lt many
  obtain ⟨start, _, fiber⟩ := Finset.exists_lt_card_fiber_of_mul_lt_card_of_maps_to two room
  exact ⟨start, fiber⟩

end Windows

end ResetWindow

end FipsIpc.Lib
