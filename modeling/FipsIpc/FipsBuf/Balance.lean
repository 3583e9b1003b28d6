import FipsIpc.FipsBuf.Ownership
import FipsIpc.Lib.Shares

/-!
Contract: which segments the threads of a reader process get.

Owns: the closed form of what `reassaign_readers` stores, the segments a stored
pair stands for, the two scans that read it back, and the balanced cover over
every run of attach and detach calls.

`reassaign_readers` counts the `IN_USE` segments, but lists every segment whose
flag is not zero.  A `TRAILING` segment makes the list longer than the array it
is stored in.  The cover is balanced as long as no store leaves the array; where
stores past its end have no effect, it is so as long as no `TRAILING` segment
stands in the list before the last start that is taken from it.

Does not own: who owns which slot.
-/

set_option autoImplicit false

namespace FipsIpc.FipsBuf

open FipsIpc.Lib

/-! ### Segments and threads -/

/-- The pair that `reassaign_readers` stores in a slot. -/
def Assignment.window (assignment : Assignment) : Nat × Nat :=
  (assignment.startSegment, assignment.count)

namespace AssignmentArea

variable (hdr : Header) (area : AssignmentArea)

/-- `writer_assignments[segment] == FIPS_BUF_FLAG_IN_USE`. -/
def writerInUse (segment : Nat) : Bool := area.writerAssignment hdr segment == fipsBufFlagInUse

def inUseSegments : List Nat := (List.range hdr.segmentCount).filter (area.writerInUse hdr)

/-- The first `count` segments in use at or after `start`. -/
def resolve (window : Nat × Nat) : List Nat :=
  ((List.range hdr.segmentCount).filter fun segment =>
    decide (window.1 ≤ segment) && area.writerInUse hdr segment).take window.2

/-- The pairs of the threads of a reader process. -/
def threadWindows (reader : Nat) : List (Nat × Nat) :=
  (((rowSlots hdr reader).map area.assignments).filter Assignment.inUse).map Assignment.window

/-- The number of threads of the process that read the segment. -/
def threadsOn (reader segment : Nat) : Nat :=
  (area.threadWindows hdr reader).countP fun window => segment ∈ area.resolve hdr window

/-- The segments in use are spread evenly over the threads of the process. -/
structure BalancedCover (reader : Nat) : Prop where
  covered : ∀ segment ∈ area.inUseSegments hdr,
    ∃ window ∈ area.threadWindows hdr reader, segment ∈ area.resolve hdr window
  once : area.getReaderThreadCount hdr reader ≤ area.getWriterThreadCount hdr →
    ∀ segment ∈ area.inUseSegments hdr, area.threadsOn hdr reader segment = 1
  evenCounts : area.getReaderThreadCount hdr reader ≤ area.getWriterThreadCount hdr →
    ∀ window ∈ area.threadWindows hdr reader, ∀ other ∈ area.threadWindows hdr reader,
      window.2 ≤ other.2 + 1
  single : area.getWriterThreadCount hdr < area.getReaderThreadCount hdr reader →
    ∀ window ∈ area.threadWindows hdr reader, (area.resolve hdr window).length = 1
  evenLoads : area.getWriterThreadCount hdr < area.getReaderThreadCount hdr reader →
    ∀ segment ∈ area.inUseSegments hdr, ∀ other ∈ area.inUseSegments hdr,
      area.threadsOn hdr reader segment ≤ area.threadsOn hdr reader other + 1

/-- No trailing segment stands before the last start taken from the list of
active writers. -/
def StartsInUse (reader : Nat) : Prop :=
  ∀ segment ∈ (area.activeWriters hdr).take (area.getWriterThreadCount hdr -
      max 1 (area.getWriterThreadCount hdr / area.getReaderThreadCount hdr reader)),
    area.writerInUse hdr segment = true

/-- Both scans of the code find the segments of every stored pair. -/
def ScansResolve (reader : Nat) : Prop :=
  ∀ window ∈ area.threadWindows hdr reader,
    pickSegments hdr area (hdr.segmentCount + window.2) window.1 window.2 =
        (area.resolve hdr window, true) ∧
      ∀ threadIndex, affectedBySlot (area.writerInUse hdr) threadIndex
          ((List.range hdr.segmentCount).drop window.1) window.2 =
        ((area.resolve hdr window).count threadIndex, true)

theorem length_inUseSegments :
    (area.inUseSegments hdr).length = area.getWriterThreadCount hdr :=
  (List.countP_eq_length_filter).symm

theorem length_threadWindows (reader : Nat) :
    (area.threadWindows hdr reader).length = area.getReaderThreadCount hdr reader := by
  unfold threadWindows rowSlots getReaderThreadCount
  rw [List.length_map, ← List.countP_eq_length_filter, List.countP_map, List.countP_map]
  rfl

/-! ### The stored pairs -/

end AssignmentArea

/-- The pairs that `count` steps hand out. -/
def handedOut (step : LoopState → (Nat × Nat) × LoopState) : Nat → LoopState → List (Nat × Nat)
  | 0, _ => []
  | count + 1, state => (step state).1 :: handedOut step count (step state).2

/-- A step function whose states are known hands out what it says there. -/
theorem handedOut_eq (step : LoopState → (Nat × Nat) × LoopState) (stateAt : Nat → LoopState)
    (next : ∀ index, (step (stateAt index)).2 = stateAt (index + 1)) (count : Nat) :
    handedOut step count (stateAt 0) =
      (List.range count).map fun index => (step (stateAt index)).1 := by
  have shifted : ∀ first, handedOut step count (stateAt first) =
      (List.range count).map fun index => (step (stateAt (first + index))).1 := by
    induction count with
    | zero => intro first; rfl
    | succ count inductionHypothesis =>
        intro first
        rw [handedOut, next, inductionHypothesis, List.range_succ_eq_map, List.map_cons,
          List.map_map]
        simp only [Nat.add_zero, List.cons.injEq, true_and]
        apply List.map_congr_left
        intro index _
        simp only [Function.comp, Nat.succ_eq_add_one]
        rw [Nat.add_right_comm, Nat.add_assoc]
  simpa using shifted 0

theorem assignLoop_of_not_mem (step : LoopState → (Nat × Nat) × LoopState) (slots : List Nat)
    (state : LoopState) (cells : Nat → Assignment) {slot : Nat} (outside : slot ∉ slots) :
    assignLoop step slots state cells slot = cells slot := by
  induction slots generalizing state cells with
  | nil => rfl
  | cons first rest inductionHypothesis =>
      have different : slot ≠ first := List.ne_of_not_mem_cons outside
      have outsideRest : slot ∉ rest := List.not_mem_of_not_mem_cons outside
      unfold assignLoop
      split
      · dsimp only
        rw [inductionHypothesis _ _ outsideRest, Function.update_of_ne different]
      · exact inductionHypothesis _ _ outsideRest

/-- The loop hands the pairs to the slots in use, in order. -/
theorem assignLoop_windows (step : LoopState → (Nat × Nat) × LoopState) {slots : List Nat}
    (distinct : slots.Nodup) (state : LoopState) (cells : Nat → Assignment) :
    ((slots.map (assignLoop step slots state cells)).filter Assignment.inUse).map
        Assignment.window =
      handedOut step (slots.countP fun slot => (cells slot).inUse) state := by
  induction slots generalizing state cells with
  | nil => rfl
  | cons slot rest inductionHypothesis =>
      obtain ⟨outside, distinctRest⟩ := List.nodup_cons.mp distinct
      rw [List.map_cons, List.countP_cons]
      by_cases used : (cells slot).inUse = true
      · simp only [assignLoop, used, if_true]
        set filled := Function.update cells slot { cells slot with
          startSegment := (step state).1.1, count := (step state).1.2 } with filledDef
        have head : assignLoop step rest (step state).2 filled slot = { cells slot with
            startSegment := (step state).1.1, count := (step state).1.2 } := by
          rw [assignLoop_of_not_mem _ _ _ _ outside, filledDef, Function.update_self]
        have same : (rest.countP fun other => (filled other).inUse) =
            rest.countP fun other => (cells other).inUse := by
          apply List.countP_congr
          intro other member
          have different : other ≠ slot := fun equal => outside (equal ▸ member)
          rw [filledDef, Function.update_of_ne different]
        have stays : ({ cells slot with
            startSegment := (step state).1.1, count := (step state).1.2 } : Assignment).inUse =
              true := used
        rw [List.filter_cons, head, if_pos stays, List.map_cons,
          inductionHypothesis distinctRest, same]
        rfl
      · simp only [assignLoop, used, Bool.false_eq_true, if_false]
        have head : assignLoop step rest state cells slot = cells slot :=
          assignLoop_of_not_mem _ _ _ _ outside
        rw [List.filter_cons, head, if_neg used]
        simpa using inductionHypothesis distinctRest state cells

namespace AssignmentArea

variable {hdr : Header} {area next : AssignmentArea} {reader : Nat}

/-- The row of the process holds what the loop hands out. -/
def AssignedRow (hdr : Header) (area : AssignmentArea) (reader : Nat) : Prop :=
  1 ≤ area.getReaderThreadCount hdr reader →
    area.threadWindows hdr reader =
      handedOut (area.rowStep hdr (area.getReaderThreadCount hdr reader))
        (area.getReaderThreadCount hdr reader)
        (area.rowStart hdr (area.getReaderThreadCount hdr reader))

theorem nodup_rowSlots (hdr : Header) (reader : Nat) : (rowSlots hdr reader).Nodup :=
  List.Nodup.map (fun _ _ same => Nat.add_left_cancel same) List.nodup_range

theorem mem_rowSlots {slot : Nat} :
    slot ∈ rowSlots hdr reader ↔ ∃ thread < hdr.maxReaderThreadCount,
      hdr.slot reader thread = slot := by
  simp [rowSlots]

end AssignmentArea

namespace SameOwners

variable {before after : AssignmentArea} (same : SameOwners before after) (hdr : Header)
include same

theorem getReaderThreadCount (reader : Nat) :
    after.getReaderThreadCount hdr reader = before.getReaderThreadCount hdr reader := by
  unfold AssignmentArea.getReaderThreadCount
  apply List.countP_congr
  intro thread _
  rw [same.inUse]

theorem getWriterThreadCount :
    after.getWriterThreadCount hdr = before.getWriterThreadCount hdr := by
  unfold AssignmentArea.getWriterThreadCount
  apply List.countP_congr
  intro segment member
  rw [after.writerAssignment_of_lt hdr (List.mem_range.mp member),
    before.writerAssignment_of_lt hdr (List.mem_range.mp member), same.writerFlags]

theorem activeWriters : after.activeWriters hdr = before.activeWriters hdr := by
  unfold AssignmentArea.activeWriters
  apply List.filter_congr
  intro segment member
  rw [after.writerAssignment_of_lt hdr (List.mem_range.mp member),
    before.writerAssignment_of_lt hdr (List.mem_range.mp member), same.writerFlags]

theorem rowStep (threads : Nat) : after.rowStep hdr threads = before.rowStep hdr threads := by
  unfold AssignmentArea.rowStep
  rw [same.getWriterThreadCount, same.activeWriters]

theorem rowStart (threads : Nat) : after.rowStart hdr threads = before.rowStart hdr threads := by
  unfold AssignmentArea.rowStart
  rw [same.getWriterThreadCount]

theorem fillsInside : after.FillsInside hdr ↔ before.FillsInside hdr := by
  unfold AssignmentArea.FillsInside
  simp only [same.getReaderThreadCount, same.getWriterThreadCount, same.activeWriters]

/-- A row that is not touched stays assigned. -/
theorem assignedRow {reader : Nat}
    (untouched : ∀ slot ∈ AssignmentArea.rowSlots hdr reader,
      after.assignments slot = before.assignments slot)
    (assigned : before.AssignedRow hdr reader) : after.AssignedRow hdr reader := by
  unfold AssignmentArea.AssignedRow at assigned ⊢
  rw [same.getReaderThreadCount, same.rowStep, same.rowStart]
  have windows : after.threadWindows hdr reader = before.threadWindows hdr reader := by
    unfold AssignmentArea.threadWindows
    rw [List.map_congr_left untouched]
  rw [windows]
  exact assigned

end SameOwners

namespace AssignmentArea

variable (hdr : Header) (area : AssignmentArea)

theorem reassaignRow_assigned (reader : Nat) :
    (area.reassaignRow hdr reader).AssignedRow hdr reader := by
  have same := SameOwners.reassaignRow hdr area reader
  intro positive
  rw [same.getReaderThreadCount] at positive ⊢
  rw [same.rowStep, same.rowStart]
  have filled : (area.reassaignRow hdr reader).assignments =
      assignLoop (area.rowStep hdr (area.getReaderThreadCount hdr reader)) (rowSlots hdr reader)
        (area.rowStart hdr (area.getReaderThreadCount hdr reader)) area.assignments := by
    unfold reassaignRow
    dsimp only
    rw [if_neg (by omega)]
  unfold threadWindows
  rw [filled, assignLoop_windows _ (nodup_rowSlots hdr reader)]
  congr 1
  unfold rowSlots getReaderThreadCount
  rw [List.countP_map]
  rfl

/-- The other rows are not touched. -/
theorem reassaignRow_of_ne {reader other : Nat} (different : other ≠ reader) {slot : Nat}
    (member : slot ∈ rowSlots hdr other) :
    (area.reassaignRow hdr reader).assignments slot = area.assignments slot := by
  have outside : slot ∉ rowSlots hdr reader := by
    intro inside
    obtain ⟨thread, bound, equal⟩ := mem_rowSlots.mp inside
    obtain ⟨thread', bound', equal'⟩ := mem_rowSlots.mp member
    exact different (hdr.slot_injective bound' bound (equal'.trans equal.symm)).1
  unfold reassaignRow
  dsimp only
  split
  · rfl
  · exact assignLoop_of_not_mem _ _ _ _ outside

theorem reassaignRows_assigned {readers : List Nat} {reader : Nat} (member : reader ∈ readers)
    (area : AssignmentArea) :
    (readers.foldl (fun area reader => area.reassaignRow hdr reader) area).AssignedRow hdr
      reader := by
  have keeps : ∀ (rest : List Nat) (area : AssignmentArea), area.AssignedRow hdr reader →
      (rest.foldl (fun area reader => area.reassaignRow hdr reader) area).AssignedRow hdr
        reader := by
    intro rest
    induction rest with
    | nil => exact fun _ assigned => assigned
    | cons first rest inductionHypothesis =>
        intro area assigned
        apply inductionHypothesis
        by_cases equal : reader = first
        · rw [equal]
          exact reassaignRow_assigned hdr area first
        · exact (SameOwners.reassaignRow hdr area first).assignedRow hdr
            (fun _ inside => reassaignRow_of_ne hdr area equal inside) assigned
  induction readers generalizing area with
  | nil => exact absurd member List.not_mem_nil
  | cons first rest inductionHypothesis =>
      rcases List.mem_cons.mp member with equal | later
      · rw [equal] at keeps ⊢
        exact keeps rest _ (reassaignRow_assigned hdr area first)
      · exact inductionHypothesis later _

/-- After a redistribution every row of an existing process is assigned. -/
theorem republish_assigned {reader : Nat} (exists_ : reader < hdr.readerCount) :
    (area.republish hdr).AssignedRow hdr reader :=
  (SameOwners.generation _ _).assignedRow hdr (fun _ _ => rfl)
    (reassaignRows_assigned hdr (List.mem_range.mpr exists_) area)

end AssignmentArea

/-! ### Closed forms -/

/-- The index in `active_writers` for thread `thread` when there are more
threads than segments. -/
def sharedPosition (writers readers thread : Nat) : Nat :=
  if thread < writers * (readers / writers) then thread / (readers / writers)
  else readers % writers - (thread - writers * (readers / writers)) - 1

/-- The index in `active_writers` for thread `thread` of a process. -/
def windowPosition (writers readers thread : Nat) : Nat :=
  if writers / readers < 1 then sharedPosition writers readers thread
  else cut writers readers thread

/-- The number of segments thread `thread` of a process gets. -/
def windowSize (writers readers thread : Nat) : Nat :=
  if writers / readers < 1 then 1 else share writers readers thread

theorem handedOut_moreReaders (activeWriters : List Nat) (writers readers : Nat) :
    handedOut (moreReadersStep activeWriters writers (readers / writers)) readers
        ⟨0, readers % writers⟩ =
      (List.range readers).map fun thread =>
        (activeWriters.getD (sharedPosition writers readers thread) 0, 1) := by
  let stateAt : Nat → LoopState := fun thread =>
    ⟨thread, readers % writers - (thread - writers * (readers / writers))⟩
  have next : ∀ thread, (moreReadersStep activeWriters writers (readers / writers)
      (stateAt thread)).2 = stateAt (thread + 1) := by
    intro thread
    unfold moreReadersStep
    split
    case isTrue below =>
      have small : thread < writers * (readers / writers) := below
      simp only [stateAt, LoopState.mk.injEq, true_and]
      omega
    case isFalse above =>
      have large : ¬thread < writers * (readers / writers) := above
      simp only [stateAt, LoopState.mk.injEq, true_and]
      omega
  have start : (⟨0, readers % writers⟩ : LoopState) = stateAt 0 := by simp [stateAt]
  rw [start, handedOut_eq _ stateAt next]
  apply List.map_congr_left
  intro thread _
  unfold moreReadersStep sharedPosition
  dsimp only [stateAt]
  split <;> rfl

theorem handedOut_moreWriters (activeWriters : List Nat) (writers readers : Nat) :
    handedOut (moreWritersStep activeWriters (writers / readers)) readers
        ⟨0, writers % readers⟩ =
      (List.range readers).map fun thread =>
        (activeWriters.getD (cut writers readers thread) 0, share writers readers thread) := by
  let stateAt : Nat → LoopState := fun thread =>
    ⟨cut writers readers thread, writers % readers - thread⟩
  have next : ∀ thread, (moreWritersStep activeWriters (writers / readers) (stateAt thread)).2 =
      stateAt (thread + 1) := by
    intro thread
    simp only [stateAt, cut_succ]
    unfold moreWritersStep share
    split
    case isTrue left =>
      have inside : thread < writers % readers := by
        dsimp only at left
        omega
      rw [if_pos inside, Nat.sub_sub]
    case isFalse none =>
      have outside : ¬thread < writers % readers := by
        dsimp only at none
        omega
      rw [if_neg outside]
      simp only [LoopState.mk.injEq, Nat.add_zero, true_and]
      omega
  have start : (⟨0, writers % readers⟩ : LoopState) = stateAt 0 := by simp [stateAt]
  rw [start, handedOut_eq _ stateAt next]
  apply List.map_congr_left
  intro thread _
  unfold moreWritersStep share
  dsimp only [stateAt]
  split
  case isTrue left => rw [if_pos (by omega)]
  case isFalse none =>
    rw [if_neg (by omega)]
    rfl

/-- What the row of a process holds after a redistribution. -/
theorem AssignmentArea.AssignedRow.windows {hdr : Header} {area : AssignmentArea} {reader : Nat}
    (assigned : area.AssignedRow hdr reader) (threads : 1 ≤ area.getReaderThreadCount hdr reader)
    (segments : 1 ≤ area.getWriterThreadCount hdr) :
    area.threadWindows hdr reader =
      (List.range (area.getReaderThreadCount hdr reader)).map fun thread =>
        ((area.activeWriters hdr).getD (windowPosition (area.getWriterThreadCount hdr)
            (area.getReaderThreadCount hdr reader) thread) 0,
          windowSize (area.getWriterThreadCount hdr)
            (area.getReaderThreadCount hdr reader) thread) := by
  rw [assigned threads]
  unfold AssignmentArea.rowStep AssignmentArea.rowStart
  dsimp only
  rw [if_neg (by omega)]
  unfold windowPosition windowSize
  split
  · exact handedOut_moreReaders _ _ _
  · exact handedOut_moreWriters _ _ _

/-! ### Positions -/

section Positions

variable {writers readers : Nat}

theorem sharedPosition_lt (segments : 1 ≤ writers) (thread : Nat) :
    sharedPosition writers readers thread < writers := by
  have remainder := Nat.mod_lt readers segments
  unfold sharedPosition
  split
  case isTrue below => exact Nat.div_lt_of_lt_mul (by rwa [Nat.mul_comm] at below)
  case isFalse above => omega

/-- The threads on one segment, when there are more threads than segments. -/
theorem countP_sharedPosition (segments : 1 ≤ writers) (more : writers < readers) {item : Nat}
    (inside : item < writers) :
    (List.range readers).countP (fun thread =>
      decide (sharedPosition writers readers thread = item)) = share readers writers item := by
  have whole := Nat.div_add_mod readers writers
  have perSegment : 0 < readers / writers := Nat.div_pos (Nat.le_of_lt more) segments
  have low : (List.range (writers * (readers / writers))).countP
      (fun thread => decide (sharedPosition writers readers thread = item)) =
      readers / writers := by
    rw [List.countP_congr (q := fun thread => decide (item * (readers / writers) ≤ thread ∧
      thread < (item + 1) * (readers / writers))), countP_range_interval]
    · have upper : (item + 1) * (readers / writers) ≤ writers * (readers / writers) :=
        Nat.mul_le_mul_right _ inside
      rw [Nat.min_eq_left upper, Nat.min_eq_left (le_trans (Nat.mul_le_mul_right _
        (Nat.le_succ item)) upper), Nat.succ_mul, Nat.add_sub_cancel_left]
    · intro thread member
      unfold sharedPosition
      rw [if_pos (List.mem_range.mp member), decide_eq_true_eq, decide_eq_true_eq,
        Nat.div_eq_iff perSegment, Nat.succ_mul]
      omega
  have high : (List.range (readers % writers)).countP
      (fun thread => decide (sharedPosition writers readers
        (writers * (readers / writers) + thread) = item)) =
      if item < readers % writers then 1 else 0 := by
    rw [List.countP_congr (q := fun thread => decide (readers % writers - 1 - item ≤ thread ∧
      thread < readers % writers - item)), countP_range_interval]
    · split <;> omega
    · intro thread member
      have bound := List.mem_range.mp member
      unfold sharedPosition
      rw [if_neg (by omega), decide_eq_true_eq, decide_eq_true_eq]
      omega
  conv_lhs => rw [← whole]
  rw [List.range_add, List.countP_append, List.countP_map]
  simp only [Function.comp_def, whole]
  rw [low, high]
  rfl

/-- Every start is at most the last one. -/
theorem windowPosition_le (segments : 1 ≤ writers) {thread : Nat} (inside : thread < readers) :
    windowPosition writers readers thread ≤ writers - max 1 (writers / readers) := by
  unfold windowPosition
  split
  case isTrue more =>
    have below : sharedPosition writers readers thread < writers :=
      sharedPosition_lt segments thread
    omega
  case isFalse fewer =>
    rw [Nat.max_eq_right (by omega), ← cut_last writers (by omega : 0 < readers)]
    exact cut_mono _ _ (by omega)

/-- No window reaches past the segments in use. -/
theorem windowPosition_add_windowSize_le (segments : 1 ≤ writers) {thread : Nat}
    (inside : thread < readers) :
    windowPosition writers readers thread + windowSize writers readers thread ≤ writers := by
  unfold windowPosition windowSize
  split
  · exact sharedPosition_lt segments thread
  · rw [← cut_succ]
    calc cut writers readers (thread + 1) ≤ cut writers readers readers := cut_mono _ _ inside
      _ = writers := cut_parts writers (by omega)

/-- Only the last start leads to the last segment. -/
theorem windowPosition_eq_last (segments : 1 ≤ writers) {thread : Nat} (inside : thread < readers)
    (reaches :
      writers ≤ windowPosition writers readers thread + windowSize writers readers thread) :
    windowPosition writers readers thread = writers - max 1 (writers / readers) := by
  apply Nat.le_antisymm (windowPosition_le segments inside)
  unfold windowPosition windowSize at *
  split at reaches
  case isTrue more =>
    rw [if_pos more]
    omega
  case isFalse fewer =>
    rw [if_neg fewer, Nat.max_eq_right (by omega), ← cut_last writers (by omega : 0 < readers)]
    rw [← cut_succ] at reaches
    -- an earlier thread ends where the last share starts, which is not empty
    by_contra early
    have below : thread + 1 ≤ readers - 1 := by
      by_contra late
      exact early (cut_mono _ _ (by omega))
    have ends := cut_mono writers readers below
    rw [cut_last writers (by omega : 0 < readers)] at ends
    omega

theorem div_lt_one_iff (threads : 1 ≤ readers) : writers / readers < 1 ↔ writers < readers := by
  rw [Nat.div_lt_iff_lt_mul threads, Nat.one_mul]

/-- The threads whose window holds an item. -/
theorem countP_windows (segments : 1 ≤ writers) (threads : 1 ≤ readers) {item : Nat}
    (inside : item < writers) :
    (List.range readers).countP (fun thread =>
      decide (windowPosition writers readers thread ≤ item ∧
        item < windowPosition writers readers thread + windowSize writers readers thread)) =
      if writers < readers then share readers writers item else 1 := by
  by_cases more : writers < readers
  · rw [if_pos more, ← countP_sharedPosition segments more inside]
    apply List.countP_congr
    intro thread _
    have small := (div_lt_one_iff threads).mpr more
    simp only [windowPosition, windowSize, if_pos small, decide_eq_true_eq]
    omega
  · rw [if_neg more]
    have large := mt (div_lt_one_iff threads).mp more
    obtain ⟨owner, bound, low, high⟩ := exists_part threads inside
    have onlyOwner : (List.range readers).countP (fun thread =>
        decide (windowPosition writers readers thread ≤ item ∧
          item < windowPosition writers readers thread + windowSize writers readers thread)) =
        (List.range readers).count owner := by
      apply List.countP_congr
      intro thread _
      simp only [windowPosition, windowSize, if_neg large, ← cut_succ, decide_eq_true_eq,
        beq_iff_eq]
      constructor
      · rintro ⟨lower, upper⟩
        exact part_unique lower upper low high
      · intro same
        rw [same]
        exact ⟨low, high⟩
    rw [onlyOwner]
    exact List.count_eq_one_of_mem List.nodup_range (List.mem_range.mpr bound)

end Positions

/-! ### Reading the pairs back -/

namespace AssignmentArea

variable (hdr : Header) (area : AssignmentArea)

/-- The number of segments in use among the first `position` active ones. -/
def usedBefore (position : Nat) : Nat :=
  ((area.activeWriters hdr).take position).countP (area.writerInUse hdr)

theorem activeWriters_increasing : (area.activeWriters hdr).Pairwise (· < ·) :=
  List.pairwise_lt_range.filter _

/-- A segment in use is active. -/
theorem filter_activeWriters (keep : Nat → Bool)
    (implied : ∀ segment, keep segment = true → area.writerInUse hdr segment = true) :
    (area.activeWriters hdr).filter keep = (List.range hdr.segmentCount).filter keep := by
  unfold activeWriters
  rw [List.filter_filter]
  apply List.filter_congr
  intro segment _
  cases kept : keep segment with
  | false => rfl
  | true =>
      have used : area.writerAssignment hdr segment = fipsBufFlagInUse := by
        simpa [writerInUse] using implied segment kept
      rw [used]
      rfl

theorem inUseSegments_eq :
    (area.activeWriters hdr).filter (area.writerInUse hdr) = area.inUseSegments hdr :=
  area.filter_activeWriters hdr _ fun _ used => used

theorem nodup_inUseSegments : (area.inUseSegments hdr).Nodup :=
  List.nodup_range.filter _

theorem getWriterThreadCount_le :
    area.getWriterThreadCount hdr ≤ (area.activeWriters hdr).length := by
  rw [← area.length_inUseSegments hdr, ← area.inUseSegments_eq hdr]
  exact List.length_filter_le _ _

/-- The list fits into its array exactly when it lists segments in use only. -/
theorem length_activeWriters_le_iff :
    (area.activeWriters hdr).length ≤ area.getWriterThreadCount hdr ↔
      ∀ segment ∈ area.activeWriters hdr, area.writerInUse hdr segment = true := by
  rw [← area.length_inUseSegments hdr, ← area.inUseSegments_eq hdr]
  constructor
  · intro fits
    have whole := (List.length_filter_le _ (area.activeWriters hdr)).antisymm fits
    exact List.length_filter_eq_length_iff.mp whole
  · intro used
    exact (List.length_filter_eq_length_iff.mpr used).ge

/-- Where the array was filled inside, every segment it lists is in use. -/
theorem FillsInside.startsInUse {hdr : Header} {area : AssignmentArea}
    (fits : area.FillsInside hdr) {reader : Nat} (exists_ : reader < hdr.readerCount)
    (threads : 1 ≤ area.getReaderThreadCount hdr reader)
    (segments : 1 ≤ area.getWriterThreadCount hdr) : area.StartsInUse hdr reader := by
  have listed := (area.length_activeWriters_le_iff hdr).mp (fits reader exists_ threads segments)
  intro segment member
  exact listed segment (List.mem_of_mem_take member)

/-- The segments in use from an active segment on. -/
theorem filter_from_active {position : Nat} (inside : position < (area.activeWriters hdr).length) :
    (List.range hdr.segmentCount).filter (fun segment =>
        decide ((area.activeWriters hdr).getD position 0 ≤ segment) &&
          area.writerInUse hdr segment) =
      (area.inUseSegments hdr).drop (area.usedBefore hdr position) := by
  unfold usedBefore
  rw [List.getD_eq_getElem _ _ inside, ← area.inUseSegments_eq hdr,
    ← filter_from_getElem (area.activeWriters_increasing hdr) (area.writerInUse hdr) inside,
    ← area.filter_activeWriters hdr]
  intro segment both
  exact (Bool.and_eq_true _ _ ▸ both).2

/-- A pair that starts at an active segment stands for a window of the segments
in use. -/
theorem resolve_active {position : Nat} (inside : position < (area.activeWriters hdr).length)
    (size : Nat) :
    area.resolve hdr ((area.activeWriters hdr).getD position 0, size) =
      ((area.inUseSegments hdr).drop (area.usedBefore hdr position)).take size := by
  unfold resolve
  rw [area.filter_from_active hdr inside]

/-- The scans start at the segment itself. -/
theorem filter_drop_range {start : Nat} (inside : start < hdr.segmentCount) :
    ((List.range hdr.segmentCount).drop start).filter (area.writerInUse hdr) =
      (List.range hdr.segmentCount).filter fun segment =>
        decide (start ≤ segment) && area.writerInUse hdr segment := by
  have window := filter_from_getElem List.pairwise_lt_range (area.writerInUse hdr)
    (by simpa using inside : start < (List.range hdr.segmentCount).length)
  rw [List.getElem_range] at window
  rw [window, filter_drop]

theorem activeWriters_lt {position : Nat} (inside : position < (area.activeWriters hdr).length) :
    (area.activeWriters hdr).getD position 0 < hdr.segmentCount := by
  rw [List.getD_eq_getElem _ _ inside]
  exact List.mem_range.mp (List.mem_of_mem_filter (List.getElem_mem inside))

theorem usedBefore_le (position : Nat) : area.usedBefore hdr position ≤ position :=
  (List.countP_le_length).trans (List.length_take_le _ _)

/-- All active segments before `position` are in use. -/
theorem usedBefore_eq_iff {position : Nat} (inside : position ≤ (area.activeWriters hdr).length) :
    area.usedBefore hdr position = position ↔
      ∀ segment ∈ (area.activeWriters hdr).take position, area.writerInUse hdr segment = true := by
  unfold usedBefore
  rw [← List.countP_eq_length, List.length_take, Nat.min_eq_left inside]

theorem usedBefore_eq_of_le {position earlier : Nat}
    (inside : position ≤ (area.activeWriters hdr).length)
    (used : area.usedBefore hdr position = position) (before : earlier ≤ position) :
    area.usedBefore hdr earlier = earlier := by
  rw [area.usedBefore_eq_iff hdr (before.trans inside)]
  intro segment member
  exact (area.usedBefore_eq_iff hdr inside).mp used segment
    (List.take_subset_take_left _ before member)

/-- The scan of `update_cached_reader_values`, when enough segments are left. -/
theorem pickSegments_eq {fuel segment count : Nat} (fuelled : hdr.segmentCount ≤ segment + fuel)
    (enough : count ≤ (((List.range hdr.segmentCount).drop segment).filter
      (area.writerInUse hdr)).length) :
    pickSegments hdr area fuel segment count =
      ((((List.range hdr.segmentCount).drop segment).filter (area.writerInUse hdr)).take count,
        true) := by
  induction fuel generalizing segment count with
  | zero =>
      rw [List.drop_eq_nil_of_le (by simpa using fuelled)] at enough ⊢
      have none : count = 0 := Nat.le_zero.mp enough
      subst none
      rfl
  | succ fuel inductionHypothesis =>
      cases count with
      | zero => rfl
      | succ count =>
          have inside : segment < hdr.segmentCount := by
            by_contra outside
            rw [List.drop_eq_nil_of_le (by simpa using outside)] at enough
            exact absurd enough (Nat.not_succ_le_zero _)
          have split : (List.range hdr.segmentCount).drop segment =
              segment :: (List.range hdr.segmentCount).drop (segment + 1) := by
            rw [List.drop_eq_getElem_cons (by simpa using inside), List.getElem_range]
          rw [split, List.filter_cons] at enough ⊢
          unfold pickSegments
          by_cases used : area.writerInUse hdr segment = true
          · have flag : area.writerAssignment hdr segment = fipsBufFlagInUse := by
              simpa [writerInUse] using used
            rw [if_pos used, List.length_cons] at enough
            rw [if_pos used, if_pos flag, inductionHypothesis (by omega) (by omega)]
            rfl
          · have flag : area.writerAssignment hdr segment ≠ fipsBufFlagInUse := by
              simpa [writerInUse] using used
            rw [if_neg used] at enough
            have more : ¬segment + 1 ≥ hdr.segmentCount := by
              intro last
              rw [List.drop_eq_nil_of_le (by simpa using last)] at enough
              exact absurd enough (Nat.not_succ_le_zero _)
            rw [if_neg used, if_neg flag, if_neg more, inductionHypothesis (by omega) enough]

end AssignmentArea

/-- The scan of `add_flag_affected_readers`, when enough segments are left. -/
theorem affectedBySlot_eq (inUse : Nat → Bool) (threadIndex : Nat) {segments : List Nat}
    {missing : Nat} (enough : missing ≤ (segments.filter inUse).length) :
    affectedBySlot inUse threadIndex segments missing =
      (((segments.filter inUse).take missing).count threadIndex, true) := by
  induction segments generalizing missing with
  | nil =>
      have none : missing = 0 := Nat.le_zero.mp enough
      subst none
      rfl
  | cons segment rest inductionHypothesis =>
      cases missing with
      | zero => rfl
      | succ missing =>
          unfold affectedBySlot
          rw [List.filter_cons] at enough ⊢
          by_cases used : inUse segment = true
          · rw [if_pos used, List.length_cons] at enough
            rw [if_pos used, if_pos used, inductionHypothesis (by omega), List.take_succ_cons,
              List.count_cons]
            dsimp only
            by_cases same : segment = threadIndex
            · simp [same]
            · simp [same]
          · rw [if_neg used] at enough
            rw [if_neg used, if_neg used, inductionHypothesis enough]

/-! ### The cover -/

namespace AssignmentArea.AssignedRow

variable {hdr : Header} {area : AssignmentArea} {reader : Nat}
  (assigned : area.AssignedRow hdr reader)
  (threads : 1 ≤ area.getReaderThreadCount hdr reader)
  (segments : 1 ≤ area.getWriterThreadCount hdr)

/-- The window of thread `thread` of a process. -/
def windowOf (hdr : Header) (area : AssignmentArea) (reader thread : Nat) : Nat × Nat :=
  ((area.activeWriters hdr).getD (windowPosition (area.getWriterThreadCount hdr)
      (area.getReaderThreadCount hdr reader) thread) 0,
    windowSize (area.getWriterThreadCount hdr) (area.getReaderThreadCount hdr reader) thread)

/-- The segments in use before the start of that window. -/
def windowStart (hdr : Header) (area : AssignmentArea) (reader thread : Nat) : Nat :=
  area.usedBefore hdr (windowPosition (area.getWriterThreadCount hdr)
    (area.getReaderThreadCount hdr reader) thread)

include segments in
theorem windowPosition_lt {thread : Nat} (inside : thread < area.getReaderThreadCount hdr reader) :
    windowPosition (area.getWriterThreadCount hdr) (area.getReaderThreadCount hdr reader) thread <
      (area.activeWriters hdr).length := by
  have position := windowPosition_le segments inside
  have active := area.getWriterThreadCount_le hdr
  omega

include segments in
theorem resolve_windowOf {thread : Nat} (inside : thread < area.getReaderThreadCount hdr reader) :
    area.resolve hdr (windowOf hdr area reader thread) =
      ((area.inUseSegments hdr).drop (windowStart hdr area reader thread)).take
        (windowOf hdr area reader thread).2 :=
  area.resolve_active hdr (windowPosition_lt segments inside) _

include segments in
/-- Every window is full. -/
theorem windowStart_add_le {thread : Nat} (inside : thread < area.getReaderThreadCount hdr reader) :
    windowStart hdr area reader thread + (windowOf hdr area reader thread).2 ≤
      area.getWriterThreadCount hdr :=
  (Nat.add_le_add_right (area.usedBefore_le hdr _) _).trans
    (windowPosition_add_windowSize_le segments inside)

include segments in
theorem getElem_mem_resolve {thread item : Nat}
    (inside : thread < area.getReaderThreadCount hdr reader)
    (bound : item < (area.inUseSegments hdr).length) :
    (area.inUseSegments hdr)[item] ∈ area.resolve hdr (windowOf hdr area reader thread) ↔
      windowStart hdr area reader thread ≤ item ∧
        item < windowStart hdr area reader thread + (windowOf hdr area reader thread).2 := by
  rw [resolve_windowOf segments inside]
  exact getElem_mem_window (area.nodup_inUseSegments hdr) bound

include segments in
/-- Without a trailing segment before the last start, windows start where they
should. -/
theorem windowStart_eq (aligned : area.StartsInUse hdr reader) {thread : Nat}
    (inside : thread < area.getReaderThreadCount hdr reader) :
    windowStart hdr area reader thread = windowPosition (area.getWriterThreadCount hdr)
      (area.getReaderThreadCount hdr reader) thread := by
  have active := area.getWriterThreadCount_le hdr
  refine area.usedBefore_eq_of_le hdr ?_ ?_ (windowPosition_le segments inside)
  · omega
  · exact (area.usedBefore_eq_iff hdr (by omega)).mpr aligned

include assigned threads segments

theorem mem_threadWindows {window : Nat × Nat} :
    window ∈ area.threadWindows hdr reader ↔
      ∃ thread < area.getReaderThreadCount hdr reader,
        windowOf hdr area reader thread = window := by
  rw [assigned.windows threads segments]
  simp [windowOf]

/-- If the last segment is read, then no trailing segment was counted. -/
theorem startsInUse_of_covered
    (covered : ∀ segment ∈ area.inUseSegments hdr,
      ∃ window ∈ area.threadWindows hdr reader, segment ∈ area.resolve hdr window) :
    area.StartsInUse hdr reader := by
  have length := area.length_inUseSegments hdr
  have last : area.getWriterThreadCount hdr - 1 < (area.inUseSegments hdr).length := by omega
  obtain ⟨window, member, reads⟩ := covered _ (List.getElem_mem last)
  obtain ⟨thread, inside, rfl⟩ := (mem_threadWindows assigned threads segments).mp member
  have reaches := ((getElem_mem_resolve segments inside last).mp reads).2
  have position := area.usedBefore_le hdr (windowPosition (area.getWriterThreadCount hdr)
    (area.getReaderThreadCount hdr reader) thread)
  have ends := windowPosition_add_windowSize_le segments inside
  dsimp only [windowStart, windowOf] at reaches
  have atLast := windowPosition_eq_last segments inside (by omega)
  rw [atLast] at reaches position ends
  have active := area.getWriterThreadCount_le hdr
  exact (area.usedBefore_eq_iff hdr (by omega)).mp (by omega)

theorem threadsOn_eq (aligned : area.StartsInUse hdr reader) {item : Nat}
    (bound : item < (area.inUseSegments hdr).length) :
    area.threadsOn hdr reader (area.inUseSegments hdr)[item] =
      if area.getWriterThreadCount hdr < area.getReaderThreadCount hdr reader then
        share (area.getReaderThreadCount hdr reader) (area.getWriterThreadCount hdr) item
      else 1 := by
  rw [← countP_windows segments threads (by rwa [area.length_inUseSegments hdr] at bound)]
  unfold AssignmentArea.threadsOn
  rw [assigned.windows threads segments, List.countP_map]
  apply List.countP_congr
  intro thread member
  have inside := List.mem_range.mp member
  have windows := getElem_mem_resolve segments inside bound
  rw [windowStart_eq segments aligned inside] at windows
  simp only [Function.comp_apply, decide_eq_true_eq]
  exact windows

theorem balancedCover (aligned : area.StartsInUse hdr reader) :
    area.BalancedCover hdr reader := by
  have loads : ∀ segment ∈ area.inUseSegments hdr, ∃ item < area.getWriterThreadCount hdr,
      area.threadsOn hdr reader segment =
        if area.getWriterThreadCount hdr < area.getReaderThreadCount hdr reader then
          share (area.getReaderThreadCount hdr reader) (area.getWriterThreadCount hdr) item
        else 1 := by
    intro segment member
    obtain ⟨item, bound, rfl⟩ := List.mem_iff_getElem.mp member
    exact ⟨item, by rwa [area.length_inUseSegments hdr] at bound,
      threadsOn_eq assigned threads segments aligned bound⟩
  constructor
  case covered =>
    intro segment member
    obtain ⟨item, _, load⟩ := loads segment member
    have positive : 0 < area.threadsOn hdr reader segment := by
      rw [load]
      split
      case isTrue more =>
        exact (Nat.div_pos (Nat.le_of_lt more) segments).trans_le (div_le_share _ _ _)
      case isFalse => exact Nat.one_pos
    simpa using List.countP_pos_iff.mp positive
  case once =>
    intro fewer segment member
    obtain ⟨item, _, load⟩ := loads segment member
    rw [load, if_neg (Nat.not_lt.mpr fewer)]
  case evenCounts =>
    intro fewer window member other otherMember
    obtain ⟨thread, _, rfl⟩ := (mem_threadWindows assigned threads segments).mp member
    obtain ⟨thread', _, rfl⟩ := (mem_threadWindows assigned threads segments).mp otherMember
    have large := mt (div_lt_one_iff threads).mp (Nat.not_lt.mpr fewer)
    simp only [windowOf, windowSize, if_neg large]
    exact (share_le_div_succ _ _ _).trans (Nat.succ_le_succ (div_le_share _ _ _))
  case single =>
    intro more window member
    obtain ⟨thread, inside, rfl⟩ := (mem_threadWindows assigned threads segments).mp member
    have small := (div_lt_one_iff threads).mpr more
    have full := windowStart_add_le segments inside
    rw [resolve_windowOf segments inside, List.length_take, List.length_drop,
      area.length_inUseSegments hdr]
    simp only [windowOf, windowSize, if_pos small] at full ⊢
    omega
  case evenLoads =>
    intro more segment member other otherMember
    obtain ⟨item, _, load⟩ := loads segment member
    obtain ⟨item', _, load'⟩ := loads other otherMember
    rw [load, load', if_pos more, if_pos more]
    exact (share_le_div_succ _ _ _).trans (Nat.succ_le_succ (div_le_share _ _ _))

theorem balancedCover_iff : area.BalancedCover hdr reader ↔ area.StartsInUse hdr reader :=
  ⟨fun cover => startsInUse_of_covered assigned threads segments cover.covered,
    balancedCover assigned threads segments⟩

/-- Every stored pair is read back as it was meant, balanced or not. -/
theorem scansResolve : area.ScansResolve hdr reader := by
  intro window member
  obtain ⟨thread, inside, rfl⟩ := (mem_threadWindows assigned threads segments).mp member
  have position := windowPosition_lt segments inside
  have start := area.activeWriters_lt hdr position
  have left := (area.filter_drop_range hdr start).trans (area.filter_from_active hdr position)
  have found : ((List.range hdr.segmentCount).drop (windowOf hdr area reader thread).1).filter
      (area.writerInUse hdr) =
        (area.inUseSegments hdr).drop (windowStart hdr area reader thread) := left
  have enough : (windowOf hdr area reader thread).2 ≤
      (((List.range hdr.segmentCount).drop (windowOf hdr area reader thread).1).filter
        (area.writerInUse hdr)).length := by
    have full := windowStart_add_le segments inside
    rw [found, List.length_drop, area.length_inUseSegments hdr]
    omega
  constructor
  · rw [area.pickSegments_eq hdr (by omega) enough, found, resolve_windowOf segments inside]
  · intro threadIndex
    rw [affectedBySlot_eq _ _ enough, found, resolve_windowOf segments inside]

end AssignmentArea.AssignedRow

/-! ### Runs -/

/-- Attach is called only while a slot within the bound is free. -/
def AttachCall.InBounds (hdr : Header) (state : Attachments) : AttachCall → Prop
  | .attach role =>
      hdr.hasRole role ∧ ∃ index < hdr.roleBound role, FreeSlot hdr state.area role index
  | .detach role threadIndex => (role, threadIndex) ∈ state.threads

instance (hdr : Header) (state : Attachments) (call : AttachCall) :
    Decidable (call.InBounds hdr state) :=
  match call with
  | .attach role => inferInstanceAs (Decidable (hdr.hasRole role ∧
      ∃ index < hdr.roleBound role, FreeSlot hdr state.area role index))
  | .detach role threadIndex => inferInstanceAs (Decidable ((role, threadIndex) ∈ state.threads))

/-- The call stores nothing past the end of `active_writers`. -/
def AttachCall.StaysInside (hdr : Header) (state : Attachments) : AttachCall → Prop
  | .attach role => AttachFillsInside hdr state.area role
  | .detach role threadIndex => DetachFillsInside hdr state.area role threadIndex

instance (hdr : Header) (state : Attachments) (call : AttachCall) :
    Decidable (call.StaysInside hdr state) :=
  match call with
  | .attach role => inferInstanceAs (Decidable (AttachFillsInside hdr state.area role))
  | .detach role threadIndex =>
      inferInstanceAs (Decidable (DetachFillsInside hdr state.area role threadIndex))

/-- Every call ends with a redistribution or changes nothing. -/
theorem attachStep_area {hdr : Header} {state next : Attachments} {call : AttachCall}
    (taken : attachStep hdr state call = some next) :
    next.area = state.area ∨ ∃ marked : AssignmentArea, next.area = marked.republish hdr ∧
      (call.StaysInside hdr state → marked.FillsInside hdr) := by
  cases call with
  | detach role threadIndex =>
      cases taken
      exact Or.inr ⟨_, rfl, id⟩
  | attach role =>
      simp only [attachStep, fipsBufAttach] at taken
      simp only [AttachCall.StaysInside, AttachFillsInside]
      cases result : claimSlot hdr state.area role with
      | ok claimed =>
          rw [result] at taken
          cases taken
          exact Or.inr ⟨_, rfl, id⟩
      | error code =>
          rw [result] at taken
          cases taken
          exact Or.inl rfl

/-- The invariant of runs: the row of the process is assigned. -/
def Attachments.Assigned (hdr : Header) (reader : Nat) (state : Attachments) : Prop :=
  state.area.AssignedRow hdr reader

namespace Attachments.Assigned

variable {hdr : Header} {reader : Nat}

theorem created {area : AssignmentArea} (created : hdr.CreatedArea area)
    (exists_ : reader < hdr.readerCount) : Assigned hdr reader ⟨area, []⟩ := by
  intro positive
  obtain ⟨thread, member, used⟩ := List.countP_pos_iff.mp positive
  rw [created.2 _ (hdr.slot_lt exists_ (List.mem_range.mp member))] at used
  cases used

theorem step {state next : Attachments} {call : AttachCall} (assigned : state.Assigned hdr reader)
    (exists_ : reader < hdr.readerCount) (taken : attachStep hdr state call = some next) :
    next.Assigned hdr reader := by
  unfold Assigned
  rcases attachStep_area taken with same | ⟨marked, redistributed, _⟩
  · rw [same]
    exact assigned
  · rw [redistributed]
    exact marked.republish_assigned hdr exists_

end Attachments.Assigned

namespace AssignmentArea.FillsInside

variable {hdr : Header}

/-- An array without a thread is not filled at all. -/
theorem created {area : AssignmentArea} (created : hdr.CreatedArea area) :
    area.FillsInside hdr := by
  intro reader exists_ threads
  obtain ⟨thread, member, used⟩ := List.countP_pos_iff.mp threads
  rw [created.2 _ (hdr.slot_lt exists_ (List.mem_range.mp member))] at used
  cases used

/-- A call that stays inside leaves flags that would be listed inside again. -/
theorem step {state next : Attachments} {call : AttachCall} (fits : state.area.FillsInside hdr)
    (inside : call.StaysInside hdr state) (taken : attachStep hdr state call = some next) :
    next.area.FillsInside hdr := by
  rcases attachStep_area taken with same | ⟨marked, redistributed, markedFits⟩
  · rw [same]
    exact fits
  · rw [redistributed]
    exact ((SameOwners.republish hdr marked).fillsInside hdr).mpr (markedFits inside)

end AssignmentArea.FillsInside

/-- In every state of every run, stores past the end of `active_writers` having
no effect, the cover is balanced exactly when no trailing segment stands before
the last start, and the scans read the pairs back. -/
theorem balancedCover_iff_startsInUse {hdr : Header} {area : AssignmentArea}
    (created : hdr.CreatedArea area) {calls : List AttachCall} {last : Attachments}
    (run : Run (attachStep hdr) (fun state call => call.InBounds hdr state) ⟨area, []⟩ calls last)
    {reader : Nat} (exists_ : reader < hdr.readerCount)
    (threads : 1 ≤ last.area.getReaderThreadCount hdr reader)
    (segments : 1 ≤ last.area.getWriterThreadCount hdr) :
    (last.area.BalancedCover hdr reader ↔ last.area.StartsInUse hdr reader) ∧
      last.area.ScansResolve hdr reader := by
  have assigned : last.Assigned hdr reader :=
    run.invariant (fun _ _ _ holds _ taken => holds.step exists_ taken)
      (Attachments.Assigned.created created exists_)
  exact ⟨AssignmentArea.AssignedRow.balancedCover_iff assigned threads segments,
    AssignmentArea.AssignedRow.scansResolve assigned threads segments⟩

/-- In every state of every run whose calls store inside `active_writers`, the
segments in use are spread evenly over the threads of every process, and the
scans read the pairs back. -/
theorem balancedCover_run {hdr : Header} {area : AssignmentArea}
    (created : hdr.CreatedArea area) {calls : List AttachCall} {last : Attachments}
    (run : Run (attachStep hdr)
      (fun state call => call.InBounds hdr state ∧ call.StaysInside hdr state)
      ⟨area, []⟩ calls last)
    {reader : Nat} (exists_ : reader < hdr.readerCount)
    (threads : 1 ≤ last.area.getReaderThreadCount hdr reader)
    (segments : 1 ≤ last.area.getWriterThreadCount hdr) :
    last.area.BalancedCover hdr reader ∧ last.area.ScansResolve hdr reader := by
  have fits : last.area.FillsInside hdr :=
    run.invariant (fun _ _ _ fits guard taken =>
      AssignmentArea.FillsInside.step fits guard.2 taken)
      (AssignmentArea.FillsInside.created created)
  have inBounds := run.weaken (fun _ _ guard => guard.1)
  have cover := balancedCover_iff_startsInUse created inBounds exists_ threads segments
  exact ⟨cover.1.mpr (fits.startsInUse exists_ threads segments), cover.2⟩

/-- A buffer for three writer threads and one reader process of two threads. -/
def threeWriterHeader : Header :=
  .ofFields 3 1 2 1 2 8 4 false (by decide)

/-- Three writers attach, the second leaves, and two readers attach. -/
def secondLeavesFirst : List AttachCall :=
  [.attach .writer, .attach .writer, .attach .writer, .detach .writer 1, .attach (.reader 0),
    .attach (.reader 0)]

theorem balancedCover_run_second_leaves : ∃ last,
    Run (attachStep threeWriterHeader) (fun state call =>
        call.InBounds threeWriterHeader state ∧ call.StaysInside threeWriterHeader state)
      ⟨zeroArea, []⟩ secondLeavesFirst last ∧
    last.area.inUseSegments threeWriterHeader = [0, 2] ∧
    (last.area.threadWindows threeWriterHeader 0).map (last.area.resolve threeWriterHeader) =
      [[0], [2]] ∧
    last.area.BalancedCover threeWriterHeader 0 := by
  have run := Run.of_exec (Option.some_get (by decide : (Run.exec (attachStep threeWriterHeader)
    (fun state call =>
      call.InBounds threeWriterHeader state ∧ call.StaysInside threeWriterHeader state)
    ⟨zeroArea, []⟩ secondLeavesFirst).isSome)).symm
  exact ⟨_, run, by decide, by decide, (balancedCover_run ⟨fun _ => rfl, fun _ _ => rfl⟩ run
    (by decide) (by decide) (by decide)).1⟩

/-- Three writers and two readers attach. -/
def threeWritersTwoReaders : List AttachCall :=
  [.attach .writer, .attach .writer, .attach .writer, .attach (.reader 0), .attach (.reader 0)]

/-- When the writer of segment 0 leaves then, the trailing segment is stored past
the end of the array.  Even if that store has no effect, both readers are sent to
segment 1 and nobody reads segment 2. -/
theorem balancedCover_fails_first_leaves : ∃ state last,
    Run (attachStep threeWriterHeader) (fun state call =>
        call.InBounds threeWriterHeader state ∧ call.StaysInside threeWriterHeader state)
      ⟨zeroArea, []⟩ threeWritersTwoReaders state ∧
    threeWriterHeader.CreatedArea zeroArea ∧
    (AttachCall.detach .writer 0).InBounds threeWriterHeader state ∧
    ¬(AttachCall.detach .writer 0).StaysInside threeWriterHeader state ∧
    attachStep threeWriterHeader state (.detach .writer 0) = some last ∧
    last.area.getReaderThreadCount threeWriterHeader 0 = 2 ∧
    last.area.inUseSegments threeWriterHeader = [1, 2] ∧
    (last.area.threadWindows threeWriterHeader 0).map (last.area.resolve threeWriterHeader) =
      [[1], [1]] ∧
    ¬last.area.BalancedCover threeWriterHeader 0 := by
  have run := Run.of_exec (Option.some_get (by decide : (Run.exec (attachStep threeWriterHeader)
    (fun state call =>
      call.InBounds threeWriterHeader state ∧ call.StaysInside threeWriterHeader state)
    ⟨zeroArea, []⟩ threeWritersTwoReaders).isSome)).symm
  refine ⟨_, _, run, ⟨fun _ => rfl, fun _ _ => rfl⟩, by decide, by decide, rfl, by decide,
    by decide, by decide, fun cover => ?_⟩
  exact absurd (cover.covered 2 (by decide)) (by decide)

end FipsIpc.FipsBuf
