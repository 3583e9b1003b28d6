import FipsIpc.FipsBuf.Caches

/-!
Contract: a refresh that finds the assignment structure corrupted.

Owns: what `update_cached_reader_values` has stored by then, and when that is
what was there before.

The counter is overwritten and both arrays are cleared before the flags are
scanned.  A scan that fails has filled the arrays with the segments it found, so
that fewer entries are set than the counter says.

Does not own: refreshes that succeed.
-/

set_option autoImplicit false

namespace FipsIpc.FipsBuf

/-- The segments in use from `start` on. -/
def AssignmentArea.inUseFrom (area : AssignmentArea) (hdr : Header) (start : Nat) : List Nat :=
  ((List.range hdr.segmentCount).drop start).filter (area.writerInUse hdr)

/-- Every entry the counters speak of is a segment. -/
def ReaderArrays.EntriesSet (arrays : ReaderArrays) : Prop :=
  ∀ position < arrays.cachedCount, ∃ offset, arrays.currentSegment[position]? = some (some offset)

/-- The argument is as it was, and where its entries were set they still are. -/
structure ReaderArrays.LeftAs (before after : ReaderArrays) : Prop where
  same : after = before
  set : before.EntriesSet → after.EntriesSet

/-- The argument with what a failed scan has stored: the assigned count of the
slot and the segments in use from its start on. -/
def ReaderArrays.afterFailedScan (hdr : Header) (header : ShmHeader) (memory : ShmMemory)
    (area : AssignmentArea) (reader slot : Nat) (arrays : ReaderArrays) : ReaderArrays :=
  let found := area.inUseFrom hdr (area.assignments slot).startSegment
  { arrays with
    currentSegment := fillPointers hdr
      (found.map fun segment => some (memory.chainOffset header segment))
    assignedIndex := fillPointers hdr
      (found.map fun segment => some (memory.readerOffset header reader segment))
    assignedReaderCount := (area.assignments slot).count % 2 ^ 8 }

section Scan

variable {hdr : Header} {area : AssignmentArea}

theorem drop_range_cons {size start : Nat} (inside : start < size) :
    (List.range size).drop start = start :: (List.range size).drop (start + 1) := by
  rw [List.drop_eq_getElem_cons (by simpa using inside), List.getElem_range]

/-- A scan that fails has picked all segments in use from its start on. -/
theorem pickSegments_failed {fuel segment count : Nat}
    (fuelled : hdr.segmentCount ≤ segment + fuel)
    (failed : (pickSegments hdr area fuel segment count).2 = false)
    (inside : ∀ picked ∈ (pickSegments hdr area fuel segment count).1,
      picked < hdr.segmentCount) :
    (pickSegments hdr area fuel segment count).1 = area.inUseFrom hdr segment := by
  induction fuel generalizing segment count with
  | zero =>
      cases count with
      | zero => cases failed
      | succ count =>
          unfold AssignmentArea.inUseFrom
          rw [List.drop_eq_nil_of_le (by simpa using fuelled)]
          rfl
  | succ fuel inductionHypothesis =>
      cases count with
      | zero => cases failed
      | succ count =>
          unfold pickSegments at failed inside ⊢
          unfold AssignmentArea.inUseFrom
          by_cases used : area.writerAssignment hdr segment = fipsBufFlagInUse
          · rw [if_pos used] at failed inside ⊢
            have here : segment < hdr.segmentCount := inside segment List.mem_cons_self
            have flag : area.writerInUse hdr segment = true := beq_iff_eq.mpr used
            have rest := inductionHypothesis (by omega) failed
              fun picked member => inside picked (List.mem_cons_of_mem _ member)
            rw [drop_range_cons here, List.filter_cons_of_pos flag]
            exact congrArg (segment :: ·) rest
          · rw [if_neg used] at failed inside ⊢
            have flag : ¬area.writerInUse hdr segment = true := fun same =>
              used (beq_iff_eq.mp same)
            rcases Nat.lt_or_ge segment hdr.segmentCount with here | outside
            · rw [drop_range_cons here, List.filter_cons_of_neg flag]
              by_cases last : segment + 1 ≥ hdr.segmentCount
              · rw [if_pos last, List.drop_eq_nil_of_le (by simpa using last)]
                rfl
              · rw [if_neg last] at failed inside ⊢
                exact inductionHypothesis (by omega) failed inside
            · rw [if_pos (by omega), List.drop_eq_nil_of_le (by simpa using outside)]
              rfl

/-- It has found fewer than it should. -/
theorem inUseFrom_lt_of_failed {fuel segment count : Nat}
    (fuelled : hdr.segmentCount ≤ segment + fuel)
    (failed : (pickSegments hdr area fuel segment count).2 = false) :
    (area.inUseFrom hdr segment).length < count := by
  apply Nat.not_le.mp
  intro enough
  rw [area.pickSegments_eq hdr fuelled enough] at failed
  cases failed

end Scan

section Failure

variable {hdr : Header} {header : ShmHeader} {memory : ShmMemory} {area : AssignmentArea}
  {reader slot : Nat} {arrays next : ReaderArrays}

/-- What a failed refresh leaves. -/
theorem updateCachedReaderArrays_corrupted
    (failed : updateCachedReaderArrays hdr header memory area reader (some slot) arrays =
      some (fipsBufErrorCorrupted, next)) :
    (area.inUseFrom hdr (area.assignments slot).startSegment).length <
        (area.assignments slot).count ∧
      next = arrays.afterFailedScan hdr header memory area reader slot := by
  unfold updateCachedReaderArrays at failed
  rcases Option.bind_eq_some_iff.mp failed with ⟨trailing, -, scanned⟩
  dsimp only at scanned
  split at scanned
  · cases scanned
  case isFalse noOverrun =>
    split at scanned
    case isTrue stopped =>
      have fuelled : hdr.segmentCount ≤ (area.assignments slot).startSegment +
          (hdr.segmentCount + (area.assignments slot).count) := by omega
      have inside : ∀ picked ∈ (pickSegments hdr area
          (hdr.segmentCount + (area.assignments slot).count)
          (area.assignments slot).startSegment (area.assignments slot).count).1,
          picked < hdr.segmentCount := by
        intro picked member
        apply Nat.not_le.mp
        intro outside
        exact noOverrun (Or.inr ⟨picked, member, outside⟩)
      rw [pickSegments_failed fuelled stopped inside] at scanned
      exact ⟨inUseFrom_lt_of_failed fuelled stopped, (Prod.mk.inj (Option.some.inj scanned)).2.symm⟩
    case isFalse =>
      split at scanned
      · cases scanned
      · exact absurd (Prod.mk.inj (Option.some.inj scanned)).1 (by decide)

end Failure

/-- A failed refresh leaves the argument as it was exactly when the counter and
both arrays already were what the failed scan stores; and with fewer than 256
segments to find it always leaves an entry unset. -/
theorem failedRefresh_keeps_iff {hdr : Header} {header : ShmHeader} {memory : ShmMemory}
    {area : AssignmentArea} {reader slot : Nat} {arrays next : ReaderArrays}
    (failed : updateCachedReaderArrays hdr header memory area reader (some slot) arrays =
      some (fipsBufErrorCorrupted, next)) :
    (arrays.LeftAs next ↔
      arrays.assignedReaderCount = (area.assignments slot).count % 2 ^ 8 ∧
      arrays.currentSegment = fillPointers hdr ((area.inUseFrom hdr
        (area.assignments slot).startSegment).map fun segment =>
          some (memory.chainOffset header segment)) ∧
      arrays.assignedIndex = fillPointers hdr ((area.inUseFrom hdr
        (area.assignments slot).startSegment).map fun segment =>
          some (memory.readerOffset header reader segment))) ∧
    ((area.assignments slot).count < 2 ^ 8 → ¬next.EntriesSet) := by
  rcases updateCachedReaderArrays_corrupted failed with ⟨fewer, rfl⟩
  refine ⟨⟨?_, ?_⟩, ?_⟩
  · intro left
    have same := left.same
    exact ⟨(congrArg ReaderArrays.assignedReaderCount same).symm,
      (congrArg ReaderArrays.currentSegment same).symm,
      (congrArg ReaderArrays.assignedIndex same).symm⟩
  · rintro ⟨count, segments, indices⟩
    have same : arrays.afterFailedScan hdr header memory area reader slot = arrays := by
      unfold ReaderArrays.afterFailedScan
      dsimp only
      rw [← count, ← segments, ← indices]
    rw [same]
    exact ⟨rfl, id⟩
  · intro small set
    have counted : (area.inUseFrom hdr (area.assignments slot).startSegment).length <
        (arrays.afterFailedScan hdr header memory area reader slot).cachedCount := by
      unfold ReaderArrays.cachedCount ReaderArrays.afterFailedScan
      dsimp only
      rw [Nat.mod_eq_of_lt small]
      omega
    rcases set _ counted with ⟨offset, entry⟩
    unfold ReaderArrays.afterFailedScan fillPointers at entry
    dsimp only at entry
    rw [List.getElem?_append_right (by rw [List.length_map]), List.length_map, Nat.sub_self,
      List.getElem?_replicate] at entry
    split at entry
    · cases entry
    · cases entry

/-- No writer is left, and the slot of the reader thread asks for this many
segments. -/
def writersGone (count : Nat) : AssignmentArea :=
  ⟨fun _ => fipsBufFlagFree, fun _ => ⟨0, count, fipsBufFlagInUse⟩, 2⟩

/-- A thread argument right after `fips_buf_attach`, and a slot whose count does
not fit the counter. -/
theorem failedRefresh_keeps_new : ∃ next,
    updateCachedReaderArrays oneSegment (setupHeader oneSegmentArg)
        (setupMemory oneSegmentArg blankMemory) (writersGone 256) 0 (some 0)
        (ReaderArrays.zero.allocate oneSegment) = some (fipsBufErrorCorrupted, next) ∧
      (ReaderArrays.zero.allocate oneSegment).LeftAs next := by
  have failed : updateCachedReaderArrays oneSegment (setupHeader oneSegmentArg)
      (setupMemory oneSegmentArg blankMemory) (writersGone 256) 0 (some 0)
      (ReaderArrays.zero.allocate oneSegment) =
        some (fipsBufErrorCorrupted, ReaderArrays.zero.allocate oneSegment) := by
    decide
  exact ⟨_, failed, (failedRefresh_keeps_iff failed).1.mpr (by decide)⟩

/-- The arrays of a thread that has the one segment in its cache. -/
def oneSegmentArrays : ReaderArrays where
  currentSegment := [some ((setupMemory oneSegmentArg blankMemory).chainOffset
    (setupHeader oneSegmentArg) 0)]
  assignedIndex := [some ((setupMemory oneSegmentArg blankMemory).readerOffset
    (setupHeader oneSegmentArg) 0 0)]
  assignedReaderCount := 1
  trailingBuffersCount := 0
  generation := 1

/-- The failed refresh clears the entry that the counter still speaks of, and
the next call follows it. -/
theorem failedRefresh_clears_entry : ∃ next,
    updateCachedReaderArrays oneSegment (setupHeader oneSegmentArg)
        (setupMemory oneSegmentArg blankMemory) (writersGone 1) 0 (some 0) oneSegmentArrays =
      some (fipsBufErrorCorrupted, next) ∧
    oneSegmentArrays.EntriesSet ∧ next.currentSegment = [none] ∧ next.assignedReaderCount = 1 ∧
    updateCachedReaderArrays oneSegment (setupHeader oneSegmentArg)
        (setupMemory oneSegmentArg blankMemory) (writersGone 1) 0 (some 0) next = none ∧
    ¬oneSegmentArrays.LeftAs next := by
  have failed : updateCachedReaderArrays oneSegment (setupHeader oneSegmentArg)
      (setupMemory oneSegmentArg blankMemory) (writersGone 1) 0 (some 0) oneSegmentArrays =
        some (fipsBufErrorCorrupted, ⟨[none], [none], 1, 0, 1⟩) := by
    decide
  refine ⟨_, failed, ?_, rfl, rfl, by decide, ?_⟩
  · intro position inside
    have first : position = 0 := Nat.lt_one_iff.mp inside
    subst first
    exact ⟨_, rfl⟩
  · intro left
    exact absurd left.same (by decide)

end FipsIpc.FipsBuf
