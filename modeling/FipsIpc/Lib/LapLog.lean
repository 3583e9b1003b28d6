import FipsIpc.Lib.RingLog
import Mathlib.Algebra.Group.Nat.Defs
import Mathlib.Data.List.Forall2
import Mathlib.Data.List.Range

/-!
Contract: readers of a ring of `size` cells whose writer waits for nobody.

Owns:
- the batches of log positions such a reader gets, which go on where the last one
  ended or a whole number of laps later;
- that no position is given twice, and that the order of the log is kept;
- where the reader stands after it has been lapped, and what it finds there.

A reader keeps its cursor modulo `size`, so it cannot see how often it was lapped.
Positions are unwrapped here.

Does not own: any concrete cell contents, writer or reader.
-/

set_option autoImplicit false

namespace FipsIpc.Lib.LapLog

open FipsIpc.Lib.RingLog

universe u

/-! ### Batches -/

/-- `Laps size batches cursor`: a reader got the batches, given by their first
position and their number of entries, and stands at `cursor`.  Before each batch
it was carried forward a whole number of laps. -/
inductive Laps (size : Nat) : List (Nat × Nat) → Nat → Prop where
  | start : Laps size [] 0
  | take {batches : List (Nat × Nat)} {cursor : Nat} (before : Laps size batches cursor)
      (skipped count : Nat) :
      Laps size (batches ++ [(cursor + skipped * size, count)]) (cursor + skipped * size + count)

/-- The positions of the batches, in the order they were given. -/
def positionsOf (batches : List (Nat × Nat)) : List Nat :=
  batches.flatMap fun batch => List.range' batch.1 batch.2

@[simp] theorem positionsOf_nil : positionsOf [] = [] := rfl

theorem positionsOf_append (left right : List (Nat × Nat)) :
    positionsOf (left ++ right) = positionsOf left ++ positionsOf right :=
  List.flatMap_append

theorem positionsOf_singleton (start count : Nat) :
    positionsOf [(start, count)] = List.range' start count := by
  simp [positionsOf]

namespace Laps

variable {size cursor : Nat} {batches : List (Nat × Nat)}

/-- Everything given lies behind the cursor. -/
theorem position_lt (laps : Laps size batches cursor) :
    ∀ position ∈ positionsOf batches, position < cursor := by
  induction laps with
  | start => simp
  | take _ skipped count inductionHypothesis =>
      intro position member
      rw [positionsOf_append, positionsOf_singleton, List.mem_append, List.mem_range'_1] at member
      rcases member with earlier | inBatch
      · have := inductionHypothesis position earlier
        omega
      · exact inBatch.2

/-- The positions come in the order of the log, and none comes twice. -/
theorem increasing (laps : Laps size batches cursor) :
    (positionsOf batches).Pairwise (· < ·) := by
  induction laps with
  | start => exact .nil
  | take before skipped count inductionHypothesis =>
      rw [positionsOf_append, positionsOf_singleton, List.pairwise_append]
      refine ⟨inductionHypothesis, List.pairwise_lt_range',
        fun earlier isEarlier later isLater => ?_⟩
      have low := before.position_lt earlier isEarlier
      have high := (List.mem_range'_1.mp isLater).1
      omega

/-- What the reader missed are whole laps. -/
theorem cursor_eq (laps : Laps size batches cursor) :
    ∃ missed, cursor = (positionsOf batches).length + missed * size := by
  induction laps with
  | start => exact ⟨0, by simp⟩
  | take _ skipped count inductionHypothesis =>
      obtain ⟨missed, equal⟩ := inductionHypothesis
      refine ⟨missed + skipped, ?_⟩
      rw [positionsOf_append, positionsOf_singleton, List.length_append, List.length_range',
        Nat.add_mul, equal]
      omega

/-- The entry a reader gets as number `index` lies in the cell of that number. -/
theorem aligned (laps : Laps size batches cursor) {index position : Nat}
    (present : (positionsOf batches)[index]? = some position) :
    position % size = index % size := by
  induction laps with
  | start => simp at present
  | @take batches cursor before skipped count inductionHypothesis =>
      rw [positionsOf_append, positionsOf_singleton] at present
      by_cases earlier : index < (positionsOf batches).length
      · rw [List.getElem?_append_left earlier] at present
        exact inductionHypothesis present
      · rw [List.getElem?_append_right (by omega)] at present
        obtain ⟨inBatch, isPosition⟩ := List.getElem?_eq_some_iff.mp present
        obtain ⟨missed, equal⟩ := before.cursor_eq
        rw [List.getElem_range'] at isPosition
        have whole : position = index + (missed + skipped) * size := by
          rw [Nat.add_mul]
          omega
        rw [whole, Nat.add_mul_mod_self_right]

end Laps

/-! ### Catching up -/

/-- The first entry of the current lap that a reader at `cursor` has not got, when
the log has `length` entries. -/
def catchUp (size cursor length : Nat) : Nat := length - (length - cursor) % size

section CatchUp

variable {size cursor length : Nat}

theorem catchUp_add (size cursor length : Nat) :
    catchUp size cursor length + (length - cursor) % size = length := by
  have := Nat.mod_le (length - cursor) size
  unfold catchUp
  omega

theorem catchUp_eq (notAhead : cursor ≤ length) :
    catchUp size cursor length = cursor + (length - cursor) / size * size := by
  have split := Nat.div_add_mod (length - cursor) size
  rw [Nat.mul_comm] at split
  unfold catchUp
  omega

theorem catchUp_mod (notAhead : cursor ≤ length) :
    catchUp size cursor length % size = cursor % size := by
  rw [catchUp_eq notAhead, Nat.add_mul_mod_self_right]

/-- After catching up the reader is less than a lap behind. -/
theorem length_lt_catchUp (positive : 0 < size) :
    length < catchUp size cursor length + size := by
  have := Nat.mod_lt (length - cursor) positive
  have := catchUp_add size cursor length
  omega

theorem catchUp_le : catchUp size cursor length ≤ length := Nat.sub_le _ _

end CatchUp

/-- A batch taken after catching up. -/
theorem Laps.caughtUp {size cursor length : Nat} {batches : List (Nat × Nat)}
    (laps : Laps size batches cursor) (notAhead : cursor ≤ length) (count : Nat) :
    Laps size (batches ++ [(catchUp size cursor length, count)])
      (catchUp size cursor length + count) := by
  rw [catchUp_eq notAhead]
  exact laps.take _ count

/-! ### Entries -/

section Entries

variable {Entry : Type u} {log : List Entry} {positions : List Nat} {entries : List Entry}

/-- The entries are those of the log at the positions. -/
def EntriesAt (log : List Entry) (positions : List Nat) (entries : List Entry) : Prop :=
  entries.map some = positions.map fun position => log[position]?

/-- A growing log keeps the entries at its old positions. -/
theorem EntriesAt.grow (found : EntriesAt log positions entries)
    (inside : ∀ position ∈ positions, position < log.length) (more : List Entry) :
    EntriesAt (log ++ more) positions entries := by
  unfold EntriesAt at found ⊢
  rw [found]
  apply List.map_congr_left
  intro position member
  rw [List.getElem?_append_left (inside position member)]

/-- A stretch of the log stands behind the entries found so far. -/
theorem EntriesAt.stretch (found : EntriesAt log positions entries) {start count : Nat}
    (written : start + count ≤ log.length) :
    EntriesAt log (positions ++ List.range' start count)
      (entries ++ (log.drop start).take count) := by
  unfold EntriesAt at found ⊢
  rw [List.map_append, List.map_append, found, List.append_cancel_left_eq]
  apply List.ext_getElem?
  intro offset
  by_cases inside : offset < count
  · have inLog : start + offset < log.length := by omega
    simp [inside, List.getElem?_take_of_lt, inLog]
  · rw [List.getElem?_eq_none (by simp; omega), List.getElem?_eq_none (by simp; omega)]

end Entries

end FipsIpc.Lib.LapLog
