import FipsIpc.FipsBuf.SqeList

/-!
Contract: returning the ranges of one lap in any order.

Owns: a batch of consecutive ranges handed out to one reader process, the
progress of `commit_offset` while they are returned in some order, and the exact
condition on the single calls under which `commit_offset` always is the start of
the oldest range not yet returned.

A call is safe when it is in order, or when the pending list has room, the entry
it is about to use is not linked, and the range does not go to the end of a
nonempty list.  While all calls are safe the reader refines the acknowledgement
window of `Lib.AckWindow`: the linked entries hold the pending ranges in order.
An unsafe call loses a range, and `commit_offset` never passes a lost range.

Does not own: ranges that wrap past the end of the ring.
-/

set_option autoImplicit false

namespace FipsIpc.FipsBuf

open FipsIpc.Lib

/-! ### The ranges of a lap -/

/-- Consecutive ranges handed out by `fips_buf_read` to one process on one
segment, none of which wraps past the end of the ring.  At most
`line_count - 1` lines are ever handed out and not returned. -/
structure HandedOut (hdr : Header) where
  first : Nat
  counts : List Nat
  segmentIndex : Nat
  readerIndex : Nat
  counts_pos : ∀ count ∈ counts, 1 ≤ count
  insideLap : first + counts.sum ≤ hdr.lineCount
  notFull : counts.sum < hdr.lineCount

namespace HandedOut

variable {hdr : Header} (ranges : HandedOut hdr)

def start (index : Nat) : Nat := ranges.first + (ranges.counts.take index).sum

/-- The tag of range number `index`. -/
def range (index : Nat) : Range :=
  ⟨ranges.start index, ranges.counts.getD index 0, ranges.segmentIndex, ranges.readerIndex⟩

/-- `head_offset` after the ranges were handed out. -/
def head : Nat := hdr.wrapLine (ranges.first + ranges.counts.sum)

/-- The start of the oldest range not yet returned, or the head. -/
def oldest (returned : List Nat) : Nat :=
  match (List.range ranges.counts.length).find? fun index => index ∉ returned with
  | some index => ranges.start index
  | none => ranges.head

def reader (segments : Nat → Segment) : ReaderPointer :=
  (segments ranges.segmentIndex).readers ranges.readerIndex

/-- `commit_offset` follows the oldest range not yet returned after every one of
the calls, all of which return. -/
def CommitFollows : (returned order : List Nat) → (Nat → Segment) → Prop
  | _, [], _ => True
  | returned, index :: rest, segments =>
      ∃ code next, fipsBufReturn hdr segments (ranges.range index) = some (code, next) ∧
        (ranges.reader next).commitOffset = ranges.oldest (index :: returned) ∧
        CommitFollows (index :: returned) rest next

end HandedOut

/-- The call neither meets a full list, nor reuses a linked entry, nor goes to
the end of a nonempty list. -/
def SafeReturn (reader : ReaderPointer) (tag : Range) : Prop :=
  reader.commitOffset = tag.startIndex ∨
    (reader.list.capacity ≠ 0 ∧
      reader.list.readIndex ≠ (reader.list.writeIndex + 1) % reader.list.capacity ∧
      reader.list.writeIndex ∉ reader.list.linked ∧
      (reader.list.first = none ∨
        ∃ cell ∈ reader.list.linked, tag.startIndex < (reader.list.data cell).range.startIndex))

instance (reader : ReaderPointer) (tag : Range) : Decidable (SafeReturn reader tag) :=
  inferInstanceAs (Decidable (_ ∨ _))

/-- Every call of the order is safe in the state where it is made. -/
def HandedOut.AllSafe {hdr : Header} (ranges : HandedOut hdr) :
    (order : List Nat) → (Nat → Segment) → Prop
  | [], _ => True
  | index :: rest, segments =>
      SafeReturn (ranges.reader segments) (ranges.range index) ∧
        ∀ code next, fipsBufReturn hdr segments (ranges.range index) = some (code, next) →
          AllSafe ranges rest next

/-- The lines in front of the next range. -/
theorem sum_take_succ {counts : List Nat} {index : Nat} (below : index < counts.length) :
    (counts.take (index + 1)).sum = (counts.take index).sum + counts.getD index 0 := by
  rw [List.take_succ_eq_append_getElem below, List.sum_append, List.sum_singleton,
    List.getD_eq_getElem _ _ below]

/-- More lines are in front of later ranges. -/
theorem sum_take_lt {counts : List Nat} (counts_pos : ∀ count ∈ counts, 1 ≤ count)
    {low high : Nat} (ordered : low < high) (below : high ≤ counts.length) :
    (counts.take low).sum < (counts.take high).sum := by
  induction high with
  | zero => omega
  | succ high inductionHypothesis =>
      have step := sum_take_succ (Nat.lt_of_succ_le below)
      have positive : 1 ≤ counts.getD high 0 := by
        rw [List.getD_eq_getElem _ _ (Nat.lt_of_succ_le below)]
        exact counts_pos _ (List.getElem_mem _)
      rcases Nat.lt_succ_iff_lt_or_eq.mp ordered with before | rfl
      · have earlier := inductionHypothesis before (by omega)
        omega
      · omega

namespace HandedOut

variable {hdr : Header} (ranges : HandedOut hdr)

theorem start_succ {index : Nat} (below : index < ranges.counts.length) :
    ranges.start (index + 1) = ranges.start index + (ranges.range index).count := by
  unfold start range
  rw [sum_take_succ below, Nat.add_assoc]

theorem start_lt_start {low high : Nat} (ordered : low < high)
    (below : high ≤ ranges.counts.length) : ranges.start low < ranges.start high :=
  Nat.add_lt_add_left (sum_take_lt ranges.counts_pos ordered below) _

/-- A range that starts later was handed out later. -/
theorem lt_of_start_lt {index item : Nat} (below : index < ranges.counts.length)
    (isLater : ranges.start index < ranges.start item) : index < item := by
  by_contra notLarger
  rcases Nat.lt_or_eq_of_le (Nat.not_lt.mp notLarger) with smaller | rfl
  · have ordered := ranges.start_lt_start smaller below.le
    exact absurd isLater (Nat.not_lt.mpr ordered.le)
  · exact Nat.lt_irrefl _ isLater

theorem start_length : ranges.start ranges.counts.length = ranges.first + ranges.counts.sum := by
  rw [start, List.take_length]

/-- The start of a range is a line number. -/
theorem start_lt {index : Nat} (below : index < ranges.counts.length) :
    ranges.start index < hdr.lineCount := by
  have before := ranges.start_lt_start below le_rfl
  have lap := ranges.insideLap
  rw [start_length] at before
  omega

theorem wrap_start {index : Nat} (below : index < ranges.counts.length) :
    hdr.wrapLine (ranges.start index) = ranges.start index := by
  rw [hdr.wrapLine_eq_mod, Nat.mod_eq_of_lt (ranges.start_lt below)]

theorem start_inj {left right : Nat} (leftBelow : left < ranges.counts.length)
    (rightBelow : right < ranges.counts.length) (same : ranges.start left = ranges.start right) :
    left = right := by
  rcases Nat.lt_trichotomy left right with before | equal | after
  · have := ranges.start_lt_start before rightBelow.le
    omega
  · exact equal
  · have := ranges.start_lt_start after leftBelow.le
    omega

/-- No range starts at the head: fewer lines than a whole ring are out. -/
theorem start_ne_head {index : Nat} (below : index < ranges.counts.length) :
    ranges.start index ≠ ranges.head := by
  have before := ranges.start_lt_start below le_rfl
  have lap := ranges.insideLap
  have notFull := ranges.notFull
  have atLeast : ranges.first ≤ ranges.start index := Nat.le_add_right _ _
  rw [start_length] at before
  rw [head, hdr.wrapLine_eq_mod]
  rcases Nat.lt_or_eq_of_le lap with inside | whole
  · rw [Nat.mod_eq_of_lt inside]
    omega
  · rw [whole, Nat.mod_self]
    omega

/-- The ranges as a sequence on the ring. -/
def sequence : RangeSeq hdr where
  bound := ranges.counts.length
  range := ranges.range
  place index := hdr.wrapLine (ranges.start index)
  starts index below := (ranges.wrap_start below).symm
  apart index below low low_le same := by
    rw [ranges.wrap_start below] at same
    rcases Nat.lt_or_eq_of_le low_le with lowBelow | rfl
    · rw [ranges.wrap_start lowBelow] at same
      exact ranges.start_inj below lowBelow same
    · rw [start_length] at same
      exact absurd same (ranges.start_ne_head below)
  advances index below := by
    rw [ranges.wrap_start below, ranges.start_succ below]

/-- The oldest outstanding range of an acknowledgement window. -/
theorem oldest_eq {returned : List Nat} {window : AckWindow}
    (inRange : window.low ≤ ranges.counts.length)
    (same : ∀ index < ranges.counts.length, index ∈ returned ↔ window.Acked index) :
    ranges.oldest returned = hdr.wrapLine (ranges.start window.low) := by
  unfold oldest
  rcases Nat.lt_or_eq_of_le inRange with below | all
  · have found : (List.range ranges.counts.length).find? (fun index => index ∉ returned) =
        some window.low := by
      rw [List.find?_range_eq_some]
      refine ⟨?_, by simpa using below, fun index before => ?_⟩
      · simpa [same _ below] using window.not_acked_low
      · have acked : window.Acked index := Or.inl before
        simpa [same index (by omega)] using acked
    rw [found, ranges.wrap_start below]
  · have none : (List.range ranges.counts.length).find? (fun index => index ∉ returned) =
        none := by
      rw [List.find?_range_eq_none]
      intro index below
      have acked : window.Acked index := Or.inl (by omega)
      simpa [same index below] using acked
    rw [none, all, start_length]
    rfl

end HandedOut

/-! ### Safe calls -/

/-- The reader holds an acknowledgement window: the linked entries are its
pending ranges in order, and `commit_offset` is the start of range `low`. -/
structure Represents {hdr : Header} (ranges : HandedOut hdr) (reader : ReaderPointer)
    (window : AckWindow) (cells : List Nat) : Prop where
  commit : reader.commitOffset = hdr.wrapLine (ranges.start window.low)
  low_le : window.low ≤ ranges.counts.length
  pending_lt : ∀ index ∈ window.pending, index < ranges.counts.length
  chain : Chain reader.list.next reader.list.first cells
  held : reader.list.rangesOf cells = window.pending.map ranges.range
  cells_lt : ∀ cell ∈ cells, cell < reader.list.capacity
  write_lt : reader.list.capacity ≠ 0 → reader.list.writeIndex < reader.list.capacity

namespace Represents

variable {hdr : Header} {ranges : HandedOut hdr} {reader : ReaderPointer} {window : AckWindow}
  {cells : List Nat}

theorem linked_eq (represents : Represents ranges reader window cells) :
    reader.list.linked = cells :=
  SqeList.linked_eq represents.chain represents.cells_lt

theorem holds (represents : Represents ranges reader window cells) :
    ranges.sequence.Holds reader window cells where
  commit := represents.commit
  low_le := represents.low_le
  pending_lt := represents.pending_lt
  linked := ⟨represents.chain, represents.cells_lt⟩
  held := represents.held
  write_lt := represents.write_lt

theorem of_holds (holds : ranges.sequence.Holds reader window cells) :
    Represents ranges reader window cells where
  commit := holds.commit
  low_le := holds.low_le
  pending_lt := holds.pending_lt
  chain := holds.linked.chain
  held := holds.held
  cells_lt := holds.linked.below
  write_lt := holds.write_lt

/-- An entry holds the range of the pending item at its position. -/
theorem range_mem (represents : Represents ranges reader window cells) {cell : Nat}
    (member : cell ∈ cells) :
    ∃ index ∈ window.pending, (reader.list.data cell).range = ranges.range index := by
  have held : (reader.list.data cell).range ∈ window.pending.map ranges.range := by
    rw [← represents.held]
    exact List.mem_map_of_mem member
  obtain ⟨index, pending, same⟩ := List.mem_map.mp held
  exact ⟨index, pending, same.symm⟩

/-- In order means: the range at the gap. -/
theorem inOrder_iff (represents : Represents ranges reader window cells) {index : Nat}
    (below : index < ranges.counts.length) (outstanding : ¬ window.Acked index) :
    reader.commitOffset = (ranges.range index).startIndex ↔ index = window.low := by
  have lowBelow : window.low < ranges.counts.length :=
    Nat.lt_of_le_of_lt (window.low_le_of_not_acked outstanding) below
  rw [represents.commit, ranges.wrap_start lowBelow]
  exact ⟨fun same => (ranges.start_inj lowBelow below same).symm, fun same => by rw [same]; rfl⟩

/-- A safe call acknowledges its range. -/
theorem step (represents : Represents ranges reader window cells) {index : Nat}
    (below : index < ranges.counts.length) (outstanding : ¬ window.Acked index)
    (safe : SafeReturn reader (ranges.range index)) :
    ∃ next newWindow newCells,
      fipsBufListAddSqe hdr reader (ranges.range index) = some (fipsBufSuccess, next) ∧
      Represents ranges next newWindow newCells ∧
      ∀ other, newWindow.Acked other ↔ other = index ∨ window.Acked other := by
  have inOrder := represents.inOrder_iff below outstanding
  by_cases atGap : index = window.low
  · subst atGap
    rcases represents.holds.inOrder below with ⟨drained, rest, result, drainedHolds⟩
    exact ⟨drained, window.ackLow, rest, result, of_holds drainedHolds, window.acked_ackLow⟩
  · have notInOrder := mt inOrder.mp atGap
    have later : window.low < index := by
      have fromLow := window.low_le_of_not_acked outstanding
      omega
    have fresh : index ∉ window.pending := fun member => outstanding (Or.inr member)
    rcases safe with inOrder | ⟨capacity, room, unlinked, notLast⟩
    · exact absurd inOrder notInOrder
    rw [represents.linked_eq] at unlinked notLast
    have agree : ∀ item ∈ window.pending,
        ranges.start index < ranges.start item ↔ index < item := by
      intro item member
      constructor
      · exact ranges.lt_of_start_lt below
      · intro before
        exact ranges.start_lt_start before (represents.pending_lt item member).le
    rcases represents.holds.queued below later fresh capacity room unlinked notLast agree with
      ⟨drained, rest, result, drainedHolds⟩
    exact ⟨drained, window.ackLater index later fresh, rest, result, of_holds drainedHolds,
      window.acked_ackLater index later fresh⟩

end Represents

/-! ### Lost ranges -/

/-- `reachable` is closed under the pointers of the list, and all its entries
hold acceptable ranges. -/
structure SqeList.Within (list : SqeList) (reachable : Nat → Prop) (accept : Range → Prop) :
    Prop where
  first : ∀ cell, list.first = some cell → reachable cell
  next : ∀ cell target, reachable cell → list.next cell = some target → reachable target
  range : ∀ cell, reachable cell → accept (list.data cell).range

namespace SqeList.Within

variable {list : SqeList} {reachable : Nat → Prop} {accept : Range → Prop}

theorem link (within : list.Within reachable accept) {prev : Option Nat} {index : Nat}
    (prevIn : ∀ cell, prev = some cell → reachable cell) (indexIn : reachable index) :
    (list.link prev index).Within reachable accept where
  first := by
    intro cell isFirst
    cases prev with
    | none => exact Option.some.inj isFirst ▸ indexIn
    | some prev => exact within.first cell isFirst
  next := by
    intro cell target cellIn follows
    cases prev with
    | none => exact within.next cell target cellIn follows
    | some prev =>
        rw [next_link_some] at follows
        by_cases same : cell = prev
        · rw [same, Function.update_self] at follows
          exact Option.some.inj follows ▸ indexIn
        · rw [Function.update_of_ne same] at follows
          exact within.next cell target cellIn follows
  range := by
    intro cell cellIn
    rw [range_link]
    exact within.range cell cellIn

theorem putBefore (within : list.Within reachable accept) {prev : Option Nat}
    {index current : Nat} (prevIn : ∀ cell, prev = some cell → reachable cell)
    (indexIn : reachable index) (currentIn : reachable current) :
    (list.putBefore prev index current).Within reachable accept where
  first := (within.link prevIn indexIn).first
  next := by
    intro cell target cellIn follows
    rw [next_putBefore] at follows
    by_cases same : cell = index
    · rw [same, Function.update_self] at follows
      exact Option.some.inj follows ▸ currentIn
    · rw [Function.update_of_ne same] at follows
      exact (within.link prevIn indexIn).next cell target cellIn follows
  range := by
    intro cell cellIn
    rw [range_putBefore]
    exact within.range cell cellIn

/-- The search links only entries it has reached. -/
theorem insertSqe {index startIndex fuel current : Nat} {prev : Option Nat} {result : SqeList}
    (within : list.Within reachable accept)
    (prevIn : ∀ cell, prev = some cell → reachable cell) (indexIn : reachable index)
    (currentIn : reachable current)
    (inserted : list.insertSqe index startIndex fuel prev current = some result) :
    result.Within reachable accept := by
  induction fuel generalizing prev current with
  | zero => simp [SqeList.insertSqe] at inserted
  | succ fuel inductionHypothesis =>
      unfold SqeList.insertSqe at inserted
      split at inserted
      · exact Option.some.inj inserted ▸ within.putBefore prevIn indexIn currentIn
      · split at inserted
        · have currentLinked : (list.link (some current) index).Within reachable accept :=
            within.link (fun cell same => Option.some.inj same ▸ currentIn) indexIn
          exact Option.some.inj inserted ▸ currentLinked.link prevIn indexIn
        · rename_i following follows
          exact inductionHypothesis (fun cell same => Option.some.inj same ▸ currentIn)
            (within.next current following currentIn follows) inserted

/-- A filled entry joins the reachable ones. -/
theorem stage (within : list.Within reachable accept) {tag : Range} (accepted : accept tag) :
    (list.stage tag).Within (fun cell => reachable cell ∨ cell = list.writeIndex) accept where
  first := fun cell isFirst => Or.inl (within.first cell isFirst)
  next := by
    intro cell target cellIn follows
    rw [SqeList.stage_next] at follows
    by_cases same : cell = list.writeIndex
    · rw [same, Function.update_self] at follows
      cases follows
    · rw [Function.update_of_ne same] at follows
      exact Or.inl (within.next cell target (cellIn.resolve_right same) follows)
  range := by
    intro cell cellIn
    by_cases same : cell = list.writeIndex
    · rw [same, SqeList.stage_range_self]
      exact accepted
    · rw [SqeList.stage_range_of_ne _ _ same]
      exact within.range cell (cellIn.resolve_right same)

/-- Linking the staged entry keeps all linked ranges acceptable. -/
theorem enqueueSqe {reader queued : ReaderPointer} {tag : Range}
    (within : (reader.list.stage tag).Within reachable accept)
    (indexIn : reachable reader.list.writeIndex)
    (result : FipsBuf.enqueueSqe reader tag = some (.ok queued)) :
    queued.commitOffset = reader.commitOffset ∧ queued.list.Within reachable accept := by
  unfold FipsBuf.enqueueSqe at result
  dsimp only at result
  split at result
  · cases result
  split at result
  · cases result
  split at result
  · cases result
    exact ⟨rfl, fun cell same => Option.some.inj same ▸ indexIn, within.next, within.range⟩
  · rename_i current isFirst
    obtain ⟨linked, inserted, same⟩ := Option.map_eq_some_iff.mp result
    cases same
    exact ⟨rfl, within.insertSqe (fun _ absurd => by cases absurd) indexIn
      (within.first current isFirst) inserted⟩

end SqeList.Within

/-- A range that can no longer bring back range `lost`: a cleared entry, or
another range of the lap. -/
def HandedOut.Other {hdr : Header} (ranges : HandedOut hdr) (lost : Nat) (range : Range) : Prop :=
  range = .zero ∨ ∃ index < ranges.counts.length, index ≠ lost ∧ range = ranges.range index

/-- Range `lost` has been returned, is not linked, and `commit_offset` has not
passed it. -/
structure Lost {hdr : Header} (ranges : HandedOut hdr) (reader : ReaderPointer) (lost : Nat) :
    Prop where
  lost_lt : lost < ranges.counts.length
  commit : ∃ low ≤ lost, reader.commitOffset = ranges.start low
  within : ∃ reachable, reader.list.Within reachable (ranges.Other lost)

namespace Lost

variable {hdr : Header} {ranges : HandedOut hdr} {reader : ReaderPointer} {lost : Nat}

theorem commit_ne_head (isLost : Lost ranges reader lost) : reader.commitOffset ≠ ranges.head := by
  obtain ⟨low, low_le, commit⟩ := isLost.commit
  rw [commit]
  exact ranges.start_ne_head (Nat.lt_of_le_of_lt low_le isLost.lost_lt)

/-- Merging a range that starts at `commit_offset` does not pass the lost one. -/
theorem merge {low : Nat} {range : Range} (lost_lt : lost < ranges.counts.length)
    (low_le : low ≤ lost) (other : ranges.Other lost range)
    (atCommit : range.startIndex = ranges.start low) :
    ∃ next ≤ lost, hdr.wrapLine (ranges.start low + range.count) = ranges.start next := by
  have lowBelow := Nat.lt_of_le_of_lt low_le lost_lt
  rcases other with rfl | ⟨index, below, different, rfl⟩
  · exact ⟨low, low_le, ranges.wrap_start lowBelow⟩
  · obtain rfl : index = low := ranges.start_inj below lowBelow atCommit
    refine ⟨index + 1, by omega, ?_⟩
    rw [← ranges.start_succ below, ranges.wrap_start (by omega)]

/-- Draining does not bring a lost range back. -/
theorem drain {fuel : Nat} {drained : ReaderPointer} (isLost : Lost ranges reader lost)
    (result : drainSqe hdr fuel reader = some drained) : Lost ranges drained lost := by
  induction fuel generalizing reader with
  | zero => simp [drainSqe] at result
  | succ fuel inductionHypothesis =>
      unfold drainSqe at result
      split at result
      · exact Option.some.inj result ▸ isLost
      · rename_i current isFirst
        split at result
        · rename_i atCommit
          refine inductionHypothesis ⟨isLost.lost_lt, ?_, ?_⟩ result
          · obtain ⟨low, low_le, commit⟩ := isLost.commit
            obtain ⟨reachable, within⟩ := isLost.within
            have other := within.range current (within.first current isFirst)
            obtain ⟨next, next_le, merged⟩ :=
              merge isLost.lost_lt low_le other (atCommit.trans commit)
            refine ⟨next, next_le, ?_⟩
            rw [mergeSqe, commit]
            exact merged
          · obtain ⟨reachable, within⟩ := isLost.within
            have currentIn := within.first current isFirst
            refine ⟨reachable, fun cell isNext => within.next current cell currentIn isNext,
              ?_, ?_⟩
            · intro cell target cellIn follows
              by_cases same : cell = current
              · simp [SqeList.next, mergeSqe, same] at follows
              · rw [SqeList.next, mergeSqe] at follows
                simp only [Function.update_of_ne same] at follows
                exact within.next cell target cellIn follows
            · intro cell cellIn
              by_cases same : cell = current
              · left
                simp [mergeSqe, same]
              · simp only [mergeSqe, Function.update_of_ne same]
                exact within.range cell cellIn
        · exact Option.some.inj result ▸ isLost

/-- No later return of another range brings a lost range back. -/
theorem step {index : Nat} {code : Int} {next : ReaderPointer} (isLost : Lost ranges reader lost)
    (below : index < ranges.counts.length) (different : index ≠ lost)
    (result : fipsBufListAddSqe hdr reader (ranges.range index) = some (code, next)) :
    Lost ranges next lost := by
  have other : ranges.Other lost (ranges.range index) := Or.inr ⟨index, below, different, rfl⟩
  unfold fipsBufListAddSqe at result
  obtain ⟨queued, branch, rest⟩ := Option.bind_eq_some_iff.mp result
  unfold acceptRange at branch
  split at branch
  · rename_i inOrder
    obtain rfl := Option.some.inj branch
    obtain ⟨drained, drainResult, same⟩ := Option.map_eq_some_iff.mp rest
    cases same
    obtain ⟨low, low_le, commit⟩ := isLost.commit
    have merged := merge isLost.lost_lt low_le other (inOrder.symm.trans commit)
    have newLost : Lost ranges { reader with
        commitOffset := hdr.wrapLine (reader.commitOffset + (ranges.range index).count) } lost :=
      ⟨isLost.lost_lt, by simpa only [commit] using merged, isLost.within⟩
    exact newLost.drain drainResult
  · cases queued with
    | error code =>
        cases rest
        exact isLost
    | ok queued =>
        obtain ⟨drained, drainResult, same⟩ := Option.map_eq_some_iff.mp rest
        cases same
        obtain ⟨reachable, within⟩ := isLost.within
        obtain ⟨commit, grown⟩ := (within.stage other).enqueueSqe (Or.inr rfl) branch
        have newLost : Lost ranges queued lost :=
          ⟨isLost.lost_lt, commit ▸ isLost.commit, _, grown⟩
        exact newLost.drain drainResult

end Lost

namespace Represents

variable {hdr : Header} {ranges : HandedOut hdr} {reader : ReaderPointer} {window : AckWindow}
  {cells : List Nat}

/-- Different entries hold different ranges. -/
theorem range_inj (represents : Represents ranges reader window cells) {left right : Nat}
    (leftMember : left ∈ cells) (rightMember : right ∈ cells)
    (same : (reader.list.data left).range = (reader.list.data right).range) : left = right := by
  have distinct : (window.pending.map ranges.range).Nodup := by
    apply List.Nodup.map_on _ (window.sorted.imp fun smaller => Nat.ne_of_lt smaller)
    intro first firstMember second secondMember equal
    exact ranges.start_inj (represents.pending_lt first firstMember)
      (represents.pending_lt second secondMember) (congrArg Range.startIndex equal)
  rw [← represents.held] at distinct
  exact List.inj_on_of_nodup_map distinct leftMember rightMember same

/-- Every linked entry but the one of `lost` holds another range. -/
theorem other_of_ne (represents : Represents ranges reader window cells) {cell held lost : Nat}
    (member : cell ∈ cells) (heldMember : held ∈ cells) (different : cell ≠ held)
    (holds : (reader.list.data held).range = ranges.range lost) :
    ranges.Other lost (reader.list.data cell).range := by
  obtain ⟨index, pending, same⟩ := represents.range_mem member
  refine Or.inr ⟨index, represents.pending_lt index pending, fun equal => different ?_, same⟩
  exact represents.range_inj member heldMember (by rw [same, holds, equal])

/-- A range is queued only with room. -/
theorem enqueueSqe_ok {tag : Range} {queued : ReaderPointer}
    (branch : enqueueSqe reader tag = some (.ok queued)) :
    reader.list.capacity ≠ 0 ∧
      reader.list.readIndex ≠ (reader.list.writeIndex + 1) % reader.list.capacity := by
  unfold enqueueSqe at branch
  dsimp only at branch
  split at branch
  · cases branch
  split at branch
  · cases branch
  · exact ⟨‹_›, ‹_›⟩

/-- A call that appends to a nonempty list loses the range of its last entry. -/
theorem append_lost (represents : Represents ranges reader window cells) {index : Nat}
    {queued : ReaderPointer} (below : index < ranges.counts.length)
    (fresh : ∀ item ∈ window.pending, index ≠ item) (unlinked : reader.list.writeIndex ∉ cells)
    (nonempty : cells ≠ [])
    (notLater : ∀ cell ∈ cells, (reader.list.data cell).range.startIndex ≤ ranges.start index)
    (branch : enqueueSqe reader (ranges.range index) = some (.ok queued)) :
    ∃ item ∈ window.pending, queued.commitOffset = reader.commitOffset ∧
      ∃ reachable, queued.list.Within reachable (ranges.Other item) := by
  obtain ⟨middle, last, rfl⟩ : ∃ middle last, cells = middle ++ [last] :=
    ⟨_, _, (List.dropLast_append_getLast nonempty).symm⟩
  obtain ⟨item, pending, holds⟩ := represents.range_mem (by simp : last ∈ middle ++ [last])
  obtain ⟨capacity, room⟩ := enqueueSqe_ok branch
  have linked := represents.holds.linked
  have staged := linked.stage unlinked (ranges.range index)
  have ends : (reader.list.stage (ranges.range index)).next reader.list.writeIndex = none := by
    rw [SqeList.stage_next, Function.update_self]
  have newChain := SqeList.chain_linkAtEnd staged.chain unlinked ends
  have notWritten : ∀ cell ∈ middle ++ [last], cell ≠ reader.list.writeIndex :=
    fun cell member => ne_of_mem_of_not_mem member unlinked
  cases (enqueueSqe_atEnd linked capacity room unlinked notLater).symm.trans branch
  refine ⟨item, pending, rfl, (· ∈ middle ++ [reader.list.writeIndex]), ?_, ?_, ?_⟩
  · exact fun cell first => Chain.first_mem (first ▸ newChain)
  · exact fun cell target member follows => newChain.next_mem member follows
  · intro cell member
    rw [SqeList.range_link, SqeList.range_link]
    rcases List.mem_append.mp member with old | new
    · have oldMember : cell ∈ middle ++ [last] := by simp [old]
      have notLast : cell ≠ last := by
        intro equal
        subst equal
        exact List.disjoint_of_nodup_append represents.chain.nodup old (by simp)
      rw [SqeList.stage_range_of_ne _ _ (notWritten cell oldMember)]
      exact represents.other_of_ne oldMember (by simp) notLast holds
    · rw [List.mem_singleton.mp new, SqeList.stage_range_self]
      exact Or.inr ⟨index, below, fresh item pending, rfl⟩

/-- A call that fills a linked entry loses the range the entry held. -/
theorem overwrite_lost (represents : Represents ranges reader window cells) {index : Nat}
    {queued : ReaderPointer} (below : index < ranges.counts.length)
    (fresh : ∀ item ∈ window.pending, index ≠ item) (linked : reader.list.writeIndex ∈ cells)
    (branch : enqueueSqe reader (ranges.range index) = some (.ok queued)) :
    ∃ item ∈ window.pending, queued.commitOffset = reader.commitOffset ∧
      ∃ reachable, queued.list.Within reachable (ranges.Other item) := by
  obtain ⟨item, pending, holds⟩ := represents.range_mem linked
  have within :
      (reader.list.stage (ranges.range index)).Within (· ∈ cells) (ranges.Other item) := by
    refine ⟨fun cell first => Chain.first_mem (first ▸ represents.chain), ?_, ?_⟩
    · intro cell target member follows
      rw [SqeList.stage_next] at follows
      by_cases same : cell = reader.list.writeIndex
      · rw [same, Function.update_self] at follows
        cases follows
      · rw [Function.update_of_ne same] at follows
        exact represents.chain.next_mem member follows
    · intro cell member
      by_cases same : cell = reader.list.writeIndex
      · rw [same, SqeList.stage_range_self]
        exact Or.inr ⟨index, below, fresh item pending, rfl⟩
      · rw [SqeList.stage_range_of_ne _ _ same]
        exact represents.other_of_ne member linked same holds
  obtain ⟨commit, grown⟩ := within.enqueueSqe linked branch
  exact ⟨item, pending, commit, _, grown⟩

/-- An unsafe call loses the returned range or one that was pending. -/
theorem unsafe_lost (represents : Represents ranges reader window cells) {index : Nat}
    {code : Int} {next : ReaderPointer} (below : index < ranges.counts.length)
    (outstanding : ¬ window.Acked index) (notSafe : ¬ SafeReturn reader (ranges.range index))
    (result : fipsBufListAddSqe hdr reader (ranges.range index) = some (code, next)) :
    ∃ lost, Lost ranges next lost ∧ (lost = index ∨ window.Acked lost) := by
  obtain ⟨notInOrder, unsafeQueue⟩ := not_or.mp notSafe
  have later : window.low < index := by
    have notGap := mt (represents.inOrder_iff below outstanding).mpr notInOrder
    have := window.low_le_of_not_acked outstanding
    omega
  have commit : reader.commitOffset = ranges.start window.low := by
    rw [represents.commit, ranges.wrap_start (later.trans below)]
  have otherItem : ∀ item ∈ window.pending, index ≠ item :=
    fun item member same => outstanding (Or.inr (same ▸ member))
  unfold fipsBufListAddSqe at result
  obtain ⟨accepted, branch, rest⟩ := Option.bind_eq_some_iff.mp result
  rw [acceptRange, if_neg notInOrder] at branch
  cases accepted with
  | error code =>
      -- Refused: the returned range itself is lost.
      cases rest
      refine ⟨index, ⟨below, ⟨window.low, later.le, commit⟩, (· ∈ cells), ?_, ?_, ?_⟩, Or.inl rfl⟩
      · exact fun cell first => Chain.first_mem (first ▸ represents.chain)
      · exact fun cell target member follows => represents.chain.next_mem member follows
      · intro cell member
        obtain ⟨item, pending, same⟩ := represents.range_mem member
        exact Or.inr ⟨item, represents.pending_lt item pending, (otherItem item pending).symm, same⟩
  | ok queued =>
      obtain ⟨drained, drainResult, same⟩ := Option.map_eq_some_iff.mp rest
      cases same
      have lostItem : ∃ item ∈ window.pending, queued.commitOffset = reader.commitOffset ∧
          ∃ reachable, queued.list.Within reachable (ranges.Other item) := by
        by_cases linked : reader.list.writeIndex ∈ cells
        · exact represents.overwrite_lost below otherItem linked branch
        · rw [represents.linked_eq] at unsafeQueue
          obtain ⟨capacity, room⟩ := enqueueSqe_ok branch
          have atEnd := fun notLast => unsafeQueue ⟨capacity, room, linked, notLast⟩
          refine represents.append_lost below otherItem linked ?_ ?_ branch
          · intro equal
            subst equal
            exact atEnd (Or.inl represents.chain)
          · intro cell member
            by_contra isLater
            exact atEnd (Or.inr ⟨cell, member, Nat.lt_of_not_le isLater⟩)
      obtain ⟨item, pending, sameCommit, within⟩ := lostItem
      have newLost : Lost ranges queued item :=
        ⟨represents.pending_lt item pending,
          ⟨window.low, (window.above item pending).le, sameCommit.trans commit⟩, within⟩
      exact ⟨item, newLost.drain drainResult, Or.inr (Or.inr pending)⟩

end Represents

/-! ### Every order of returns -/

namespace HandedOut

variable {hdr : Header} {ranges : HandedOut hdr} {segments : Nat → Segment}

/-- A return acts on the reader of its tag. -/
theorem return_of_listAddSqe {index : Nat} {code : Int} {next : ReaderPointer}
    (result : fipsBufListAddSqe hdr (ranges.reader segments) (ranges.range index) =
      some (code, next)) :
    ∃ nextSegments, fipsBufReturn hdr segments (ranges.range index) = some (code, nextSegments) ∧
      ranges.reader nextSegments = next := by
  refine ⟨_, congrArg (Option.map _) result, ?_⟩
  simp [reader, range]

theorem listAddSqe_of_return {index : Nat} {code : Int} {nextSegments : Nat → Segment}
    (result : fipsBufReturn hdr segments (ranges.range index) = some (code, nextSegments)) :
    fipsBufListAddSqe hdr (ranges.reader segments) (ranges.range index) =
      some (code, ranges.reader nextSegments) := by
  obtain ⟨⟨listCode, next⟩, added, same⟩ := Option.map_eq_some_iff.mp result
  cases same
  apply added.trans
  simp [reader, range]

theorem oldest_of_all {returned : List Nat}
    (all : ∀ index < ranges.counts.length, index ∈ returned) :
    ranges.oldest returned = ranges.head := by
  have none : (List.range ranges.counts.length).find? (fun index => index ∉ returned) =
      none := by
    rw [List.find?_range_eq_none]
    intro index below
    simpa using all index below
  rw [oldest, none]

/-- With a lost range `commit_offset` falls behind at the latest when all
ranges have been returned. -/
theorem not_follows_of_lost {lost : Nat} {rest returned : List Nat}
    (isLost : Lost ranges (ranges.reader segments) lost) (notAgain : lost ∉ rest)
    (below : ∀ index ∈ rest, index < ranges.counts.length)
    (all : ∀ index < ranges.counts.length, index ∈ returned ∨ index ∈ rest)
    (current : (ranges.reader segments).commitOffset = ranges.oldest returned) :
    ¬ ranges.CommitFollows returned rest segments := by
  induction rest generalizing segments returned with
  | nil =>
      intro _
      rw [oldest_of_all fun index inside => (all index inside).resolve_right (by simp)] at current
      exact isLost.commit_ne_head current
  | cons index rest inductionHypothesis =>
      rintro ⟨code, next, result, commit, follows⟩
      have newLost := isLost.step (below index (by simp)) (fun same => notAgain (by simp [same]))
        (listAddSqe_of_return result)
      refine inductionHypothesis newLost (fun member => notAgain (by simp [member]))
        (fun other member => below other (by simp [member])) (fun other inside => ?_) commit follows
      rcases all other inside with old | later
      · exact Or.inl (by simp [old])
      · rcases List.mem_cons.mp later with rfl | later
        · exact Or.inl (by simp)
        · exact Or.inr later

/-- While the calls are safe the window acknowledges exactly what was
returned. -/
theorem follows_iff_allSafe_aux {order returned : List Nat} {window : AckWindow}
    {cells : List Nat} (represents : Represents ranges (ranges.reader segments) window cells)
    (same : ∀ index < ranges.counts.length, index ∈ returned ↔ window.Acked index)
    (once : order.Nodup) (fresh : ∀ index ∈ order, index ∉ returned)
    (below : ∀ index ∈ order, index < ranges.counts.length)
    (all : ∀ index < ranges.counts.length, index ∈ returned ∨ index ∈ order) :
    ranges.CommitFollows returned order segments ↔ ranges.AllSafe order segments := by
  induction order generalizing segments returned window cells with
  | nil => simp [CommitFollows, AllSafe]
  | cons index rest inductionHypothesis =>
      have indexBelow := below index (by simp)
      have outstanding : ¬ window.Acked index :=
        mt (same index indexBelow).mpr (fresh index (by simp))
      obtain ⟨notLater, restOnce⟩ := List.nodup_cons.mp once
      have restFresh : ∀ other ∈ rest, other ∉ index :: returned := by
        intro other member
        rw [List.mem_cons, not_or]
        exact ⟨ne_of_mem_of_not_mem member notLater, fresh other (by simp [member])⟩
      have restBelow : ∀ other ∈ rest, other < ranges.counts.length :=
        fun other member => below other (by simp [member])
      have restAll : ∀ other < ranges.counts.length, other ∈ index :: returned ∨ other ∈ rest := by
        intro other inside
        have covered := all other inside
        rw [List.mem_cons] at covered ⊢
        tauto
      by_cases safe : SafeReturn (ranges.reader segments) (ranges.range index)
      · obtain ⟨nextReader, newWindow, newCells, added, newRepresents, acked⟩ :=
          represents.step indexBelow outstanding safe
        obtain ⟨next, result, isReader⟩ := return_of_listAddSqe added
        rw [← isReader] at newRepresents
        have newSame : ∀ other < ranges.counts.length,
            other ∈ index :: returned ↔ newWindow.Acked other := by
          intro other inside
          rw [List.mem_cons, acked, same other inside]
        have later := inductionHypothesis newRepresents newSame restOnce restFresh restBelow restAll
        have commit : (ranges.reader next).commitOffset = ranges.oldest (index :: returned) := by
          rw [newRepresents.commit, ranges.oldest_eq newRepresents.low_le newSame]
        constructor
        · rintro ⟨code, other, otherResult, -, follows⟩
          refine ⟨safe, fun code third thirdResult => ?_⟩
          rw [result, Option.some.injEq, Prod.mk.injEq] at otherResult thirdResult
          obtain ⟨-, rfl⟩ := otherResult
          obtain ⟨-, rfl⟩ := thirdResult
          exact later.mp follows
        · rintro ⟨-, restSafe⟩
          exact ⟨_, next, result, commit, later.mpr (restSafe _ next result)⟩
      · refine iff_of_false ?_ fun allSafe => safe allSafe.1
        rintro ⟨code, next, result, commit, follows⟩
        obtain ⟨lost, isLost, acknowledged⟩ :=
          represents.unsafe_lost indexBelow outstanding safe (listAddSqe_of_return result)
        have notAgain : lost ∉ rest := by
          rcases acknowledged with rfl | acked
          · exact notLater
          · intro member
            exact fresh lost (by simp [member]) ((same lost isLost.lost_lt).mpr acked)
        exact not_follows_of_lost isLost notAgain restBelow restAll commit follows

end HandedOut

/-- A ring of four lines, one reader process, room for three pending ranges. -/
def fourLineHeader : Header :=
  .ofFields 1 1 1 1 2 1 4 false (by decide)

/-- The lines 0, 1 and 2, one range each. -/
def threeRanges : HandedOut fourLineHeader where
  first := 0
  counts := [1, 1, 1]
  segmentIndex := 0
  readerIndex := 0
  counts_pos := by decide
  insideLap := by decide
  notFull := by decide

def createdSegments (_ : Nat) : Segment := .created fourLineHeader fun _ => 0

end FipsIpc.FipsBuf
