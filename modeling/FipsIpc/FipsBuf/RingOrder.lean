import FipsIpc.FipsBuf.Pending
import FipsIpc.Lib.Run

/-!
Contract: the order of pending returns on the ring.

Owns: ranges handed out across the end of the ring, the order of the pending
list in terms of the distance from `commit_offset`, and which calls of
`fips_buf_list_add_sqe` keep that order.

The insertion compares start indices as numbers, the drain follows them round
the ring.  For a pending list seen as a list of ranges the two orders agree
while the compared ranges are on one side of the wrap.  The end of a nonempty
list is another matter: there the insertion drops the last entry.

Does not own: the list as a list of ranges, `FipsBuf.SqeList`, `commit_offset`
within one lap, `FipsBuf.Returns`, and the slots of the list, `FipsBuf.Pending`.
-/

set_option autoImplicit false

namespace FipsIpc.FipsBuf

open FipsIpc.Lib

/-! ### Ranges across the end of the ring -/

/-- Consecutive ranges handed out by `fips_buf_read` to one process on one
segment, from `commit_offset` on and fewer lines than the ring has. -/
structure Outstanding (hdr : Header) where
  first : Nat
  counts : List Nat
  segmentIndex : Nat
  readerIndex : Nat
  first_lt : first < hdr.lineCount
  counts_pos : ∀ count ∈ counts, 1 ≤ count
  notFull : counts.sum < hdr.lineCount

/-- `(start_index - commit_offset)` modulo the number of lines. -/
def ringDistance (hdr : Header) (commitOffset startIndex : Nat) : Nat :=
  (startIndex + hdr.lineCount - commitOffset) % hdr.lineCount

/-- The reader, and the numbers of the ranges whose return succeeded. -/
structure RingReturns where
  reader : ReaderPointer
  returned : List Nat

namespace Outstanding

variable {hdr : Header} (ranges : Outstanding hdr)

/-- The lines in front of range number `index`. -/
def offset (index : Nat) : Nat := (ranges.counts.take index).sum

def start (index : Nat) : Nat := hdr.wrapLine (ranges.first + ranges.offset index)

/-- The tag of range number `index`. -/
def range (index : Nat) : Range :=
  ⟨ranges.start index, ranges.counts.getD index 0, ranges.segmentIndex, ranges.readerIndex⟩

/-- The last line of the ring and the first one are handed out. -/
def Straddles : Prop := hdr.lineCount < ranges.first + ranges.counts.sum

/-- No range is pending, and `commit_offset` is the start of the first one. -/
structure Idle (reader : ReaderPointer) : Prop where
  empty : reader.list.first = none
  commit : reader.commitOffset = ranges.first
  write_lt : reader.list.capacity ≠ 0 → reader.list.writeIndex < reader.list.capacity

/-- The return of a range: `fips_buf_return` is `fips_buf_list_add_sqe` on the
reader that the tag names. -/
def step (state : RingReturns) (index : Nat) : Option RingReturns :=
  (fipsBufListAddSqe hdr state.reader (ranges.range index)).map fun (code, reader) =>
    ⟨reader, if code = fipsBufSuccess then index :: state.returned else state.returned⟩

/-- The range was returned, and `commit_offset` has not passed it. -/
def Pending (state : RingReturns) (index : Nat) : Prop :=
  index ∈ state.returned ∧
    ringDistance hdr ranges.first state.reader.commitOffset ≤ ranges.offset index

instance (state : RingReturns) (index : Nat) : Decidable (ranges.Pending state index) :=
  inferInstanceAs (Decidable (_ ∧ _))

def pendingCount (state : RingReturns) : Nat :=
  (List.range ranges.counts.length).countP fun index => ranges.Pending state index

/-- The linked list holds the pending ranges in the order in which they follow
`commit_offset`, and none of them starts there. -/
structure RingOrdered (state : RingReturns) : Prop where
  listed : ∃ cells, Chain state.reader.list.next state.reader.list.first cells ∧
    (∀ range, range ∈ state.reader.list.rangesOf cells ↔
      ∃ index, ranges.Pending state index ∧ range = ranges.range index) ∧
    (state.reader.list.rangesOf cells).Pairwise fun left right =>
      ringDistance hdr state.reader.commitOffset left.startIndex <
        ringDistance hdr state.reader.commitOffset right.startIndex
  drained : ∀ index, ranges.Pending state index →
    ranges.start index ≠ state.reader.commitOffset

/-- The call returns one of the ranges that are still out. -/
def Returns (state : RingReturns) (index : Nat) : Prop :=
  index < ranges.counts.length ∧ index ∉ state.returned

instance (state : RingReturns) (index : Nat) : Decidable (ranges.Returns state index) :=
  inferInstanceAs (Decidable (_ ∧ _))

end Outstanding

/-- The call needs no slot or finds none in a list that has slots; or its slot
is not linked, and the list is empty or has an entry that starts later, where
every entry starts later as a number exactly if it does so on the ring. -/
def KeepsOrder (hdr : Header) (reader : ReaderPointer) (tag : Range) : Prop :=
  reader.commitOffset = tag.startIndex ∨ reader.list.capacity ≠ 0 ∧
    (reader.list.readIndex = (reader.list.writeIndex + 1) % reader.list.capacity ∨
      (reader.list.writeIndex ∉ reader.list.linked ∧
        (reader.list.first = none ∨ ∃ cell ∈ reader.list.linked,
          tag.startIndex < (reader.list.data cell).range.startIndex) ∧
        ∀ cell ∈ reader.list.linked,
          (tag.startIndex < (reader.list.data cell).range.startIndex ↔
            ringDistance hdr reader.commitOffset tag.startIndex <
              ringDistance hdr reader.commitOffset (reader.list.data cell).range.startIndex)))

instance (hdr : Header) (reader : ReaderPointer) (tag : Range) :
    Decidable (KeepsOrder hdr reader tag) := inferInstanceAs (Decidable (_ ∨ _))

/-! ### Distances -/

/-- Less than a lap ahead. -/
theorem ringDistance_add (hdr : Header) (base : Nat) {distance : Nat}
    (inside : distance < hdr.lineCount) :
    ringDistance hdr (hdr.wrapLine base) (hdr.wrapLine (base + distance)) = distance := by
  have below := Nat.mod_lt base hdr.lineCount_pos
  unfold ringDistance
  rw [hdr.wrapLine_eq_mod, hdr.wrapLine_eq_mod]
  rcases mod_add_cases base hdr.lineCount_pos inside with ⟨_, straight⟩ | ⟨long, wrapped⟩
  · have ahead : base % hdr.lineCount + distance + hdr.lineCount - base % hdr.lineCount =
        distance + hdr.lineCount := by omega
    rw [straight, ahead, Nat.add_mod_right, Nat.mod_eq_of_lt inside]
  · have ahead : base % hdr.lineCount + distance - hdr.lineCount + hdr.lineCount -
        base % hdr.lineCount = distance := by omega
    rw [wrapped, ahead, Nat.mod_eq_of_lt inside]

namespace Outstanding

variable {hdr : Header} (ranges : Outstanding hdr) {low high index : Nat}

theorem offset_succ (below : index < ranges.counts.length) :
    ranges.offset (index + 1) = ranges.offset index + (ranges.range index).count := by
  unfold offset range
  rw [sum_take_succ below]

theorem offset_lt_offset (ordered : low < high) (below : high ≤ ranges.counts.length) :
    ranges.offset low < ranges.offset high :=
  sum_take_lt ranges.counts_pos ordered below

theorem offset_le_offset (ordered : low ≤ high) (below : high ≤ ranges.counts.length) :
    ranges.offset low ≤ ranges.offset high := by
  rcases Nat.lt_or_eq_of_le ordered with before | rfl
  · exact (ranges.offset_lt_offset before below).le
  · exact Nat.le_refl _

/-- Offsets order the ranges as their numbers do. -/
theorem offset_lt_iff (lowBelow : low ≤ ranges.counts.length)
    (highBelow : high ≤ ranges.counts.length) :
    ranges.offset low < ranges.offset high ↔ low < high := by
  constructor
  · intro ahead
    by_contra notBefore
    exact absurd ahead (Nat.not_lt.mpr (ranges.offset_le_offset (Nat.not_lt.mp notBefore) lowBelow))
  · intro before
    exact ranges.offset_lt_offset before highBelow

theorem offset_lt (below : index ≤ ranges.counts.length) :
    ranges.offset index < hdr.lineCount := by
  have last := ranges.offset_le_offset below (Nat.le_refl _)
  have all : ranges.offset ranges.counts.length = ranges.counts.sum := by
    rw [offset, List.take_length]
  have notFull := ranges.notFull
  omega

/-- The distance between two ranges is the number of lines between them. -/
theorem ringDistance_start (ordered : low ≤ high) (below : high ≤ ranges.counts.length) :
    ringDistance hdr (ranges.start low) (ranges.start high) =
      ranges.offset high - ranges.offset low := by
  have monotone := ranges.offset_le_offset ordered below
  have inside := ranges.offset_lt below
  have ahead : ranges.first + ranges.offset high =
      ranges.first + ranges.offset low + (ranges.offset high - ranges.offset low) := by omega
  unfold start
  rw [ahead]
  exact ringDistance_add hdr _ (by omega)

theorem first_eq : ranges.first = ranges.start 0 := by
  unfold start
  rw [hdr.wrapLine_eq_mod]
  exact (Nat.mod_eq_of_lt ranges.first_lt).symm

theorem ringDistance_first (below : index ≤ ranges.counts.length) :
    ringDistance hdr ranges.first (ranges.start index) = ranges.offset index := by
  rw [ranges.first_eq, ranges.ringDistance_start (Nat.zero_le _) below]
  exact Nat.sub_zero _

theorem start_inj (lowBelow : low ≤ ranges.counts.length)
    (highBelow : high ≤ ranges.counts.length) (same : ranges.start low = ranges.start high) :
    low = high := by
  have offsets : ranges.offset low = ranges.offset high := by
    rw [← ranges.ringDistance_first lowBelow, same, ranges.ringDistance_first highBelow]
  rcases Nat.lt_trichotomy low high with before | equal | after
  · have ahead := ranges.offset_lt_offset before highBelow
    omega
  · exact equal
  · have ahead := ranges.offset_lt_offset after lowBelow
    omega

theorem start_succ (below : index < ranges.counts.length) :
    hdr.wrapLine (ranges.start index + (ranges.range index).count) = ranges.start (index + 1) := by
  unfold start
  rw [ranges.offset_succ below, hdr.wrapLine_eq_mod, hdr.wrapLine_eq_mod, hdr.wrapLine_eq_mod,
    Nat.mod_add_mod, Nat.add_assoc]

/-- The ranges as a sequence on the ring. -/
def sequence : RangeSeq hdr where
  bound := ranges.counts.length
  range := ranges.range
  place := ranges.start
  starts _ _ := rfl
  apart _ below _ low_le same := ranges.start_inj below.le low_le same
  advances _ below := ranges.start_succ below

/-! ### Runs -/

/-- The reader holds an acknowledgement window of the returned ranges. -/
structure Follows (state : RingReturns) (window : AckWindow) (cells : List Nat) : Prop where
  holds : ranges.sequence.Holds state.reader window cells
  returned : ∀ item, item ∈ state.returned ↔ window.Acked item

variable {ranges} {state next : RingReturns} {window : AckWindow} {cells : List Nat}

theorem Follows.commit (follows : ranges.Follows state window cells) :
    state.reader.commitOffset = ranges.start window.low := follows.holds.commit

theorem Follows.low_le (follows : ranges.Follows state window cells) :
    window.low ≤ ranges.counts.length := follows.holds.low_le

theorem Follows.pending_lt (follows : ranges.Follows state window cells) :
    ∀ item ∈ window.pending, item < ranges.counts.length := follows.holds.pending_lt

theorem Follows.held (follows : ranges.Follows state window cells) :
    state.reader.list.rangesOf cells = window.pending.map ranges.range := follows.holds.held

theorem Follows.pending_iff (follows : ranges.Follows state window cells) (item : Nat) :
    ranges.Pending state item ↔ item ∈ window.pending := by
  unfold Pending
  rw [follows.returned, follows.commit, ranges.ringDistance_first follows.low_le]
  constructor
  · rintro ⟨before | pending, ahead⟩
    · have behind := ranges.offset_lt_offset before follows.low_le
      omega
    · exact pending
  · intro pending
    refine ⟨Or.inr pending, ?_⟩
    exact ranges.offset_le_offset (window.above item pending).le
      (follows.pending_lt item pending).le

theorem Follows.ringOrdered (follows : ranges.Follows state window cells) :
    ranges.RingOrdered state := by
  refine ⟨⟨cells, follows.holds.linked.chain, ?_, ?_⟩, ?_⟩
  · intro range
    rw [follows.held, List.mem_map]
    simp only [follows.pending_iff, eq_comm]
  · rw [follows.held, List.pairwise_map]
    apply window.sorted.imp_of_mem
    intro left right isLeft isRight before
    have leftBelow := (follows.pending_lt left isLeft).le
    have rightBelow := (follows.pending_lt right isRight).le
    have ahead := ranges.offset_lt_offset before rightBelow
    have aboveLow := ranges.offset_le_offset (window.above left isLeft).le leftBelow
    have leftDistance := ranges.ringDistance_start (window.above left isLeft).le leftBelow
    have rightDistance := ranges.ringDistance_start (window.above right isRight).le rightBelow
    rw [follows.commit]
    show ringDistance hdr _ (ranges.start left) < ringDistance hdr _ (ranges.start right)
    omega
  · intro item isPending atCommit
    rw [follows.pending_iff] at isPending
    rw [follows.commit] at atCommit
    have same := ranges.start_inj (follows.pending_lt item isPending).le follows.low_le atCommit
    exact Nat.lt_irrefl _ (same ▸ window.above item isPending)

theorem step_eq_some {index : Nat} {reader : ReaderPointer}
    (result : fipsBufListAddSqe hdr state.reader (ranges.range index) =
      some (fipsBufSuccess, reader)) :
    ranges.step state index = some ⟨reader, index :: state.returned⟩ := by
  unfold step
  rw [result]
  rfl

theorem Follows.start {reader : ReaderPointer} (idle : ranges.Idle reader) :
    ranges.Follows ⟨reader, []⟩ .start [] where
  holds :=
    { commit := idle.commit.trans ranges.first_eq
      low_le := Nat.zero_le _
      pending_lt := by simp [AckWindow.start]
      linked := ⟨idle.empty, by simp⟩
      held := rfl
      write_lt := idle.write_lt }
  returned := by simp [AckWindow.Acked, AckWindow.start]

/-- The next range in order, and the pending ones behind it. -/
theorem Follows.inOrder (follows : ranges.Follows state window cells)
    (below : window.low < ranges.counts.length) :
    ∃ next nextWindow nextCells, ranges.step state window.low = some next ∧
      ranges.Follows next nextWindow nextCells := by
  rcases follows.holds.inOrder below with ⟨drained, rest, result, holds⟩
  refine ⟨_, window.ackLow, rest, step_eq_some result, holds, ?_⟩
  intro item
  rw [window.acked_ackLow, ← follows.returned, List.mem_cons]

/-- A full list changes nothing. -/
theorem step_full {index : Nat}
    (outOfOrder : state.reader.commitOffset ≠ (ranges.range index).startIndex)
    (positive : state.reader.list.capacity ≠ 0)
    (full : state.reader.list.readIndex =
      (state.reader.list.writeIndex + 1) % state.reader.list.capacity) :
    ranges.step state index = some state := by
  unfold step fipsBufListAddSqe
  rw [acceptRange_full hdr outOfOrder positive full]
  simp only [Option.bind_some, Option.map_some, if_neg success_ne_noSpace.symm]

/-- Where the order of the start indices is that of the ring, it is the order of
the numbers of the ranges. -/
theorem Follows.agree (follows : ranges.Follows state window cells) {index : Nat}
    (returns : ranges.Returns state index)
    (agree : ∀ cell ∈ cells,
      ((ranges.range index).startIndex < (state.reader.list.data cell).range.startIndex ↔
        ringDistance hdr state.reader.commitOffset (ranges.range index).startIndex <
          ringDistance hdr state.reader.commitOffset
            (state.reader.list.data cell).range.startIndex)) :
    ∀ item ∈ window.pending, ranges.start index < ranges.start item ↔ index < item := by
  intro item member
  have outstanding := returns.2
  rw [follows.returned] at outstanding
  have held : ranges.range item ∈ state.reader.list.rangesOf cells := by
    rw [follows.held]
    exact List.mem_map_of_mem member
  rcases List.mem_map.mp held with ⟨cell, isCell, isRange⟩
  have compare := agree cell isCell
  have above := (window.above item member).le
  have itemBelow := (follows.pending_lt item member).le
  have fromLow := window.low_le_of_not_acked outstanding
  have lowest := ranges.offset_le_offset fromLow returns.1.le
  have highest := ranges.offset_le_offset above itemBelow
  rw [isRange, follows.commit] at compare
  have here : ringDistance hdr (ranges.start window.low) (ranges.range index).startIndex =
      ranges.offset index - ranges.offset window.low :=
    ranges.ringDistance_start fromLow returns.1.le
  have there : ringDistance hdr (ranges.start window.low) (ranges.range item).startIndex =
      ranges.offset item - ranges.offset window.low :=
    ranges.ringDistance_start above itemBelow
  rw [here, there] at compare
  rw [← ranges.offset_lt_iff returns.1.le itemBelow]
  show (ranges.range index).startIndex < (ranges.range item).startIndex ↔ _
  rw [compare]
  omega

/-- A call that keeps the order. -/
theorem Follows.step (follows : ranges.Follows state window cells) {index : Nat}
    (returns : ranges.Returns state index)
    (keeps : KeepsOrder hdr state.reader (ranges.range index)) :
    ∃ next nextWindow nextCells, ranges.step state index = some next ∧
      ranges.Follows next nextWindow nextCells := by
  have outstanding := returns.2
  rw [follows.returned] at outstanding
  by_cases inOrder : state.reader.commitOffset = (ranges.range index).startIndex
  · obtain rfl : index = window.low :=
      ranges.start_inj returns.1.le follows.low_le (inOrder.symm.trans follows.commit)
    exact follows.inOrder returns.1
  rcases keeps with isInOrder | ⟨positive, keeps⟩
  · exact absurd isInOrder inOrder
  by_cases full : state.reader.list.readIndex =
      (state.reader.list.writeIndex + 1) % state.reader.list.capacity
  · exact ⟨state, window, cells, step_full inOrder positive full, follows⟩
  rcases keeps with isFull | ⟨unlinked, notLast, agree⟩
  · exact absurd isFull full
  rw [follows.holds.linked.linked_eq] at unlinked notLast agree
  have notLow : index ≠ window.low := by
    rintro rfl
    exact inOrder follows.commit
  have later : window.low < index :=
    Nat.lt_of_le_of_ne (window.low_le_of_not_acked outstanding) notLow.symm
  have fresh : index ∉ window.pending := fun member => outstanding (Or.inr member)
  rcases follows.holds.queued returns.1 later fresh positive full unlinked notLast
      (follows.agree returns agree) with ⟨drained, rest, result, holds⟩
  refine ⟨_, window.ackLater index later fresh, rest, step_eq_some result, holds, ?_⟩
  intro item
  rw [window.acked_ackLater, ← follows.returned, List.mem_cons]

end Outstanding

/-- Eight lines. -/
def eightLines : Header := .ofFields 1 1 1 1 3 8 4 false (by decide)

theorem lastTwoLines_lt : 6 < eightLines.lineCount := by decide

theorem singleLines_pos : ∀ count ∈ [1, 1, 1, 1], 1 ≤ count := by decide

theorem singleLines_notFull : [1, 1, 1, 1].sum < eightLines.lineCount := by decide

/-- The last two lines of the ring and the first two, one by one. -/
def aroundTheEnd : Outstanding eightLines :=
  ⟨6, [1, 1, 1, 1], 0, 0, lastTwoLines_lt, singleLines_pos, singleLines_notFull⟩

/-- A reader with four slots that expects line 6. -/
def expectsLineSix : ReaderPointer := ⟨2, 6, ⟨4, 0, 0, none, fun _ => ⟨⟨0, 0, 0, 0⟩, none⟩⟩⟩

theorem aroundTheEnd_idle : aroundTheEnd.Idle expectsLineSix :=
  ⟨rfl, rfl, fun _ => by decide⟩

end FipsIpc.FipsBuf
