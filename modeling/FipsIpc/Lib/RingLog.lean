import Mathlib.Data.List.Basic
import Mathlib.Data.Nat.ModEq
import Mathlib.Tactic.Ring

/-!
Contract: a ring of `size` cells that retains the end of an unbounded log.

Owns:
- which unwrapped counters never share a cell;
- the retention relation: which log entries the cells still hold after a given
  number of cells has been claimed, and how claiming, writing, appending and
  reading keep or use it.

Counters are unwrapped natural numbers here; entry number `index` lives in cell
`index % size`.  A cell is overwritten by entry `index + size`, so entry `index`
survives exactly while at most `index + size` cells have been claimed.

Does not own: any concrete cell contents, writer or reader.
-/

set_option autoImplicit false

namespace FipsIpc.Lib.RingLog

universe u

/-! ### Positions -/

/-- Two counters less than a lap apart never share a cell. -/
theorem mod_ne_of_lt_of_lt_add {size low high : Nat} (ordered : low < high)
    (withinLap : high < low + size) : low % size ≠ high % size := by
  intro same
  have congruent : low ≡ high [MOD size] := same
  have divides : size ∣ high - low := (Nat.modEq_iff_dvd' ordered.le).mp congruent
  have atLeast := Nat.le_of_dvd (by omega) divides
  omega

/-- Distinct cells of one width do not overlap. -/
theorem cells_disjoint {width left right : Nat} (different : left ≠ right) :
    left * width + width ≤ right * width ∨
      right * width + width ≤ left * width := by
  rcases Nat.lt_or_gt_of_ne different with before | after
  · left
    calc left * width + width = (left + 1) * width := by rw [Nat.add_mul, Nat.one_mul]
      _ ≤ right * width := Nat.mul_le_mul_right _ before
  · right
    calc right * width + width = (right + 1) * width := by rw [Nat.add_mul, Nat.one_mul]
      _ ≤ left * width := Nat.mul_le_mul_right _ after

/-! ### Retention -/

variable {Entry : Type u}

/-- `Retains size cell log claimed`: with `claimed` cells claimed so far, every
log entry not yet overwritten is in its cell. -/
def Retains (size : Nat) (cell : Nat → Entry) (log : List Entry) (claimed : Nat) : Prop :=
  ∀ index entry, log[index]? = some entry → claimed ≤ index + size →
    cell (index % size) = entry

namespace Retains

variable {size claimed : Nat} {cell : Nat → Entry} {log : List Entry}

theorem nil : Retains size cell [] claimed := by
  intro index entry present
  simp at present

/-- Claiming more cells only forgets entries. -/
theorem claim {more : Nat} (retained : Retains size cell log claimed)
    (grows : claimed ≤ more) : Retains size cell log more := by
  intro index entry present recent
  exact retained index entry present (by omega)

/-- Writing claimed cells past the end of the log disturbs no retained entry. -/
theorem write {other : Nat → Entry} (retained : Retains size cell log claimed)
    (unchanged : ∀ position, position < size → cell position ∈ log →
      (∀ index, log.length ≤ index → index < claimed → position ≠ index % size) →
      other position = cell position)
    (positive : 0 < size) : Retains size other log claimed := by
  intro index entry present recent
  have inLog : index < log.length := by
    by_contra outside
    rw [List.getElem?_eq_none (by omega)] at present
    simp at present
  have stored := retained index entry present recent
  rw [unchanged _ (Nat.mod_lt _ positive) (stored ▸ List.mem_of_getElem? present)]
  · exact stored
  · intro claimedIndex pastEnd below
    exact mod_ne_of_lt_of_lt_add (by omega) (by omega)

/-- Entries found in the cells after the end of the log may be appended. -/
theorem append {entries : List Entry} (retained : Retains size cell log claimed)
    (stored : ∀ offset entry, entries[offset]? = some entry →
      cell ((log.length + offset) % size) = entry) :
    Retains size cell (log ++ entries) claimed := by
  intro index entry present recent
  by_cases inLog : index < log.length
  · rw [List.getElem?_append_left inLog] at present
    exact retained index entry present recent
  · rw [List.getElem?_append_right (by omega)] at present
    have found := stored (index - log.length) entry present
    rwa [Nat.add_sub_cancel' (by omega)] at found

/-- Reading consecutive cells yields the log entries they were claimed for. -/
theorem read (retained : Retains size cell log claimed) {start count : Nat}
    (written : start + count ≤ log.length) (recent : claimed ≤ start + size) :
    (List.range count).map (fun offset => cell ((start + offset) % size)) =
      (log.drop start).take count := by
  apply List.ext_getElem?
  intro offset
  by_cases inside : offset < count
  · have inLog : start + offset < log.length := by omega
    rw [List.getElem?_map, List.getElem?_range inside, List.getElem?_take_of_lt inside,
      List.getElem?_drop, List.getElem?_eq_getElem inLog]
    simp only [Option.map_some, Option.some.injEq]
    exact retained _ _ (List.getElem?_eq_getElem inLog) (by omega)
  · rw [List.getElem?_eq_none (by simpa using inside),
      List.getElem?_eq_none (by simp; omega)]

end Retains

end FipsIpc.Lib.RingLog
