import Mathlib.Algebra.Order.Ring.Nat
import FipsIpc.FipsBuf.Layout

/-!
Contract: the regions of a zero-copy buffer do not overlap.

Owns: what the macros compute for every configuration, what `setup_shm` leaves
in the segment headers, the tiling of the shared memory by the regions of the
buffer, and exactly when the 32-bit size arithmetic is exact.

No size but the product of the line stride and the number of lines can wrap:
every other one stays far below `2 ^ 64`.

Does not own: accesses to the regions.
-/

set_option autoImplicit false

namespace FipsIpc.FipsBuf

open FipsIpc.Lib

/-! ### Exact values -/

namespace FipsBufArg

variable (arg : FipsBufArg)

/-- The size of a segment as the source computes it. -/
def segmentSize : Nat :=
  sizeofSegmentHeader + arg.maxReaderCount.toNat * arg.readerSize + arg.dataSize

/-- The offset of segment `index`. -/
def segmentOffset (index : Nat) : Nat :=
  (setupHeader arg).firstSegmentOffset + index * arg.segmentSize

/-- The size of the lines of a segment without any wrapping. -/
def exactDataSize : Nat := arg.lineCount * (arg.lineSize.toNat + lineWidthSize)

/-- The formula of `FIPS_BUF_GET_SEGMENT_HEADER` over the natural numbers. -/
def exactSegmentOffset (index : Nat) : Nat :=
  (setupHeader arg).firstSegmentOffset + index *
    (sizeofSegmentHeader + arg.maxReaderCount.toNat * arg.readerSize + arg.exactDataSize)

/-- The formula of `calculate_shared_memory_size` over the natural numbers. -/
def exactSize : Nat := arg.exactSegmentOffset arg.maxSegmentCount.toNat

/-- The lines of a segment take less than 4 GiB. -/
def Fits : Prop := arg.exactDataSize < 2 ^ 32

instance : Decidable arg.Fits := inferInstanceAs (Decidable (_ < _))

theorem dataSize_eq_mod : arg.dataSize = arg.exactDataSize % 2 ^ 32 :=
  Nat.mul_mod_mod _ _ _

theorem dataSize_eq_iff : arg.dataSize = arg.exactDataSize ↔ arg.Fits := by
  rw [dataSize_eq_mod]
  constructor
  · intro exact'
    rw [Fits, ← exact']
    exact Nat.mod_lt _ (by decide)
  · exact Nat.mod_eq_of_lt

theorem readerSize_lt : arg.readerSize < 2 ^ 37 := by
  have sqeCount := arg.maxSqeCount.toNat_lt
  simp only [readerSize, sizeofPointer, sizeofList, sizeofSqe]
  omega

theorem segmentSize_lt : arg.segmentSize < 2 ^ 46 := by
  have readers : arg.maxReaderCount.toNat * arg.readerSize ≤ 2 ^ 8 * 2 ^ 37 :=
    Nat.mul_le_mul arg.maxReaderCount.toNat_lt.le arg.readerSize_lt.le
  have data : arg.dataSize < 2 ^ 32 := Nat.mod_lt _ (by decide)
  simp only [segmentSize, sizeofSegmentHeader]
  omega

theorem firstSegmentOffset_lt : (setupHeader arg).firstSegmentOffset < 2 ^ 20 := by
  have rows : arg.maxReaderCount.toNat * arg.maxReaderThreadCount.toNat ≤ 2 ^ 8 * 2 ^ 8 :=
    Nat.mul_le_mul arg.maxReaderCount.toNat_lt.le arg.maxReaderThreadCount.toNat_lt.le
  have segments := arg.maxSegmentCount.toNat_lt
  simp only [setupHeader, sizeofHeader, paddedSegmentCount, sizeofAssignment]
  omega

theorem segmentOffset_lt {index : Nat} (below : index ≤ 2 ^ 8) :
    arg.segmentOffset index < 2 ^ 60 := by
  have blocks : index * arg.segmentSize ≤ 2 ^ 8 * 2 ^ 46 :=
    Nat.mul_le_mul below arg.segmentSize_lt.le
  have first := arg.firstSegmentOffset_lt
  simp only [segmentOffset]
  omega

theorem segmentOffset_succ (index : Nat) :
    arg.segmentOffset (index + 1) = arg.segmentOffset index + arg.segmentSize := by
  simp only [segmentOffset, Nat.succ_mul]
  omega

/-- Different segments have different offsets. -/
theorem segmentOffset_lt_of_lt {left right : Nat} (before : left < right) :
    arg.segmentOffset left < arg.segmentOffset right := by
  have positive : 0 < arg.segmentSize := by
    simp only [segmentSize, sizeofSegmentHeader]
    omega
  have blocks := Nat.mul_lt_mul_of_pos_right before positive
  simp only [segmentOffset]
  omega

end FipsBufArg

section Values

variable (arg : FipsBufArg)

/-- The macro and the size formula use the same segment size. -/
theorem getSegmentHeader_eq {index : Nat} (below : index ≤ 2 ^ 8) :
    (setupHeader arg).getSegmentHeader index = arg.segmentOffset index := by
  have stride : (arg.lineSize.toNat + lineWidthSize) % 2 ^ 32 * 2 ^ arg.lineCountExp.toNat %
      2 ^ 32 = arg.dataSize := by
    rw [FipsBufArg.dataSize, FipsBufArg.lineCount, Nat.mul_comm]
  have small := arg.segmentOffset_lt below
  have unfolded : (setupHeader arg).getSegmentHeader index =
      arg.segmentOffset index % 2 ^ 64 := by
    simp only [ShmHeader.getSegmentHeader, FipsBufArg.segmentOffset, FipsBufArg.segmentSize,
      ← stride]
    rfl
  rw [unfolded]
  exact Nat.mod_eq_of_lt (by omega)

theorem calculateSharedMemorySize_eq :
    calculateSharedMemorySize arg = arg.segmentOffset arg.maxSegmentCount.toNat := by
  have small := arg.segmentOffset_lt arg.maxSegmentCount.toNat_lt.le
  have unfolded : calculateSharedMemorySize arg =
      arg.segmentOffset arg.maxSegmentCount.toNat % 2 ^ 64 := rfl
  rw [unfolded]
  exact Nat.mod_eq_of_lt (by omega)

end Values

/-! ### What `setup_shm` writes -/

/-- The header of segment `index` after `setup_shm`. -/
structure SegmentHeader.SetUp (arg : FipsBufArg) (index : Nat) (segment : SegmentHeader) :
    Prop where
  index_eq : segment.index = index
  readersOffset : segment.readersOffset = arg.segmentOffset index + sizeofSegmentHeader
  dataOffset : segment.dataOffset = arg.segmentOffset index + sizeofSegmentHeader +
    arg.maxReaderCount.toNat * arg.readerSize
  nextOffset : segment.nextOffset =
    if index + 1 < arg.maxSegmentCount.toNat then arg.segmentOffset (index + 1) else 0

namespace ShmMemory

variable {arg : FipsBufArg}

theorem setupLists_segmentAt (header : ShmHeader) (readersOffset : Nat) (memory : ShmMemory) :
    (memory.setupLists arg header readersOffset).segmentAt = memory.segmentAt := by
  unfold setupLists
  induction List.range arg.maxReaderCount.toNat generalizing memory with
  | nil => rfl
  | cons reader rest inductionHypothesis =>
      rw [List.foldl_cons, inductionHypothesis]

/-- The stored offsets of a segment do not wrap. -/
theorem setupSegment_offsets {index : Nat} (inside : index < arg.maxSegmentCount.toNat) :
    (arg.segmentOffset index + sizeofSegmentHeader) % 2 ^ 64 =
        arg.segmentOffset index + sizeofSegmentHeader ∧
      (arg.segmentOffset index + sizeofSegmentHeader +
          arg.maxReaderCount.toNat * arg.readerSize) % 2 ^ 64 =
        arg.segmentOffset index + sizeofSegmentHeader +
          arg.maxReaderCount.toNat * arg.readerSize := by
  have byte := arg.maxSegmentCount.toNat_lt
  have small : arg.segmentOffset (index + 1) < 2 ^ 60 := arg.segmentOffset_lt (by omega)
  rw [arg.segmentOffset_succ, FipsBufArg.segmentSize] at small
  constructor
  · exact Nat.mod_eq_of_lt (by omega)
  · exact Nat.mod_eq_of_lt (by omega)

/-- One round of the loop completes its segment and moves to the next. -/
theorem setupSegment_spec {index : Nat} (inside : index < arg.maxSegmentCount.toNat)
    (memory : ShmMemory) :
    let result := memory.setupSegment arg (setupHeader arg) index (arg.segmentOffset index)
    (index + 1 < arg.maxSegmentCount.toNat → result.2 = arg.segmentOffset (index + 1)) ∧
      (result.1.segmentAt (arg.segmentOffset index)).SetUp arg index ∧
      ∀ offset < arg.segmentOffset index,
        result.1.segmentAt offset = memory.segmentAt offset := by
  have offsets := setupSegment_offsets inside
  have byte := arg.maxSegmentCount.toNat_lt
  have ahead := arg.segmentOffset_lt_of_lt (Nat.lt_succ_self index)
  have nextOffset : (setupHeader arg).getSegmentHeader (index + 1) =
      arg.segmentOffset (index + 1) := getSegmentHeader_eq arg (by omega)
  unfold setupSegment
  simp only [offsets.1, offsets.2, nextOffset]
  split
  case isTrue more =>
    refine ⟨fun _ => rfl, ?_, ?_⟩
    · simp only [setSegment, Function.update_of_ne (Nat.ne_of_lt ahead), Function.update_self]
      exact ⟨rfl, rfl, rfl, (if_pos more).symm⟩
    · intro offset before
      simp only [setSegment, setupLists_segmentAt,
        Function.update_of_ne (Nat.ne_of_lt (before.trans ahead)),
        Function.update_of_ne (Nat.ne_of_lt before)]
  case isFalse last =>
    refine ⟨fun more => absurd more last, ?_, ?_⟩
    · simp only [setSegment, Function.update_self]
      exact ⟨rfl, rfl, rfl, (if_neg last).symm⟩
    · intro offset before
      simp only [setSegment, setupLists_segmentAt, Function.update_of_ne (Nat.ne_of_lt before)]

/-- The loop completes the remaining segments and keeps the earlier ones. -/
theorem setupSegments_spec (remaining : Nat) {index : Nat}
    (count : index + remaining = arg.maxSegmentCount.toNat) (memory : ShmMemory)
    (earlier : ∀ done < index, (memory.segmentAt (arg.segmentOffset done)).SetUp arg done) :
    ∀ segment < arg.maxSegmentCount.toNat,
      ((memory.setupSegments arg (setupHeader arg) remaining index
        (arg.segmentOffset index)).segmentAt (arg.segmentOffset segment)).SetUp arg segment := by
  induction remaining generalizing index memory with
  | zero =>
      intro segment inside
      exact earlier segment (by omega)
  | succ remaining inductionHypothesis =>
      have inside : index < arg.maxSegmentCount.toNat := by omega
      have round := setupSegment_spec inside memory
      have progress : ∀ done < index + 1,
          ((memory.setupSegment arg (setupHeader arg) index
            (arg.segmentOffset index)).1.segmentAt (arg.segmentOffset done)).SetUp arg done := by
        intro done before
        rcases Nat.lt_succ_iff_lt_or_eq.mp before with old | rfl
        · rw [round.2.2 _ (arg.segmentOffset_lt_of_lt old)]
          exact earlier done old
        · exact round.2.1
      unfold setupSegments
      rcases Nat.eq_zero_or_pos remaining with rfl | more
      · intro segment below
        exact progress segment (by omega)
      · have moved := round.1 (by omega)
        simp only [moved]
        exact inductionHypothesis (by omega) _ progress

/-- After `setup_shm` every segment header is complete. -/
theorem setupMemory_setUp (memory : ShmMemory) {segment : Nat}
    (inside : segment < arg.maxSegmentCount.toNat) :
    ((setupMemory arg memory).segmentAt (arg.segmentOffset segment)).SetUp arg segment := by
  have start : arg.segmentOffset 0 = (setupHeader arg).firstSegmentOffset := by
    simp [FipsBufArg.segmentOffset]
  have none : ∀ done < 0, (memory.segmentAt (arg.segmentOffset done)).SetUp arg done :=
    fun _ before => absurd before (Nat.not_lt_zero _)
  have complete := setupSegments_spec arg.maxSegmentCount.toNat (Nat.zero_add _) memory none
  rw [start] at complete
  exact complete segment inside

/-- The chain visits the segments in order. -/
theorem chainOffset_setupMemory (memory : ShmMemory) {segment : Nat}
    (inside : segment < arg.maxSegmentCount.toNat) :
    (setupMemory arg memory).chainOffset (setupHeader arg) segment =
      arg.segmentOffset segment := by
  induction segment with
  | zero => simp [chainOffset, FipsBufArg.segmentOffset]
  | succ segment inductionHypothesis =>
      have before : segment < arg.maxSegmentCount.toNat := Nat.lt_of_succ_lt inside
      rw [chainOffset, inductionHypothesis before,
        (setupMemory_setUp memory before).nextOffset, if_pos inside]

end ShmMemory

/-! ### The tiling -/

section Tiling

variable {arg : FipsBufArg} {segment : SegmentHeader} {index : Nat}

/-- The regions of one reader follow each other. -/
theorem tiles_readerRegions (setUp : segment.SetUp arg index)
    (inside : index < arg.maxSegmentCount.toNat) {reader : Nat}
    (member : reader < arg.maxReaderCount.toNat) :
    Tiles (segment.readersOffset + reader * arg.readerSize)
      (readerRegions (setupHeader arg) segment reader)
      (segment.readersOffset + (reader + 1) * arg.readerSize) := by
  have byte := arg.maxSegmentCount.toNat_lt
  have small : arg.segmentOffset (index + 1) < 2 ^ 60 := arg.segmentOffset_lt (by omega)
  rw [arg.segmentOffset_succ, FipsBufArg.segmentSize] at small
  have within : (reader + 1) * arg.readerSize ≤ arg.maxReaderCount.toNat * arg.readerSize :=
    Nat.mul_le_mul_right _ member
  have split := Nat.add_one_mul reader arg.readerSize
  have sizes : arg.readerSize = sizeofPointer + sizeofList + sizeofSqe * arg.maxSqeCount.toNat :=
    rfl
  have sameSize : (setupHeader arg).readerSize = arg.readerSize := rfl
  have start := setUp.readersOffset
  simp only [sizeofPointer, sizeofList, sizeofSqe] at sizes
  have pair : (setupHeader arg).getReader segment.readersOffset reader =
      segment.readersOffset + reader * arg.readerSize := by
    rw [ShmHeader.getReader, sameSize]
    exact Nat.mod_eq_of_lt (by omega)
  have list : (setupHeader arg).getReaderSgeList segment.readersOffset reader =
      segment.readersOffset + reader * arg.readerSize + sizeofPointer := by
    rw [ShmHeader.getReaderSgeList, sameSize]
    apply Nat.mod_eq_of_lt
    simp only [sizeofPointer]
    omega
  have entries : (List.range (setupHeader arg).maxSqeCount.toNat).map (fun index => (⟨sqeOffset
      ((setupHeader arg).getReaderSgeList segment.readersOffset reader) index, sizeofSqe⟩ :
        Region)) =
      (List.range arg.maxSqeCount.toNat).map fun index => ⟨segment.readersOffset +
        reader * arg.readerSize + sizeofPointer + sizeofList + index * sizeofSqe, sizeofSqe⟩ := by
    apply List.map_congr_left
    intro entry listed
    have below : entry < arg.maxSqeCount.toNat := List.mem_range.mp listed
    rw [list, sqeOffset]
    congr 1
    apply Nat.mod_eq_of_lt
    simp only [sizeofPointer, sizeofList, sizeofSqe]
    omega
  refine ⟨pair, ?_, ?_⟩
  · rw [list, Region.stop, pair]
  · rw [entries, Region.stop, list]
    have stop : segment.readersOffset + (reader + 1) * arg.readerSize =
        segment.readersOffset + reader * arg.readerSize + sizeofPointer + sizeofList +
          arg.maxSqeCount.toNat * sizeofSqe := by
      simp only [sizeofPointer, sizeofList, sizeofSqe]
      omega
    rw [stop]
    exact Tiles.uniform _ _ _

/-- Masking leaves the line numbers of a segment alone. -/
theorem lineMask_of_lt (exponent : arg.lineCountExp.toNat ≤ 30) {line : Nat}
    (inside : line < arg.lineCount) :
    line % 2 ^ 32 &&& (setupHeader arg).lineMask = line := by
  have count : arg.lineCount ≤ 2 ^ 30 := Nat.pow_le_pow_right (by decide) exponent
  have small : line % 2 ^ 32 = line := Nat.mod_eq_of_lt (by omega)
  have mask : (setupHeader arg).lineMask = 2 ^ arg.lineCountExp.toNat - 1 := rfl
  rw [small, mask, Nat.and_two_pow_sub_one_eq_mod]
  exact Nat.mod_eq_of_lt inside

/-- The address of a slot when nothing wraps. -/
theorem lineOffset_eq (fits : arg.Fits) (exponent : arg.lineCountExp.toNat ≤ 30)
    (setUp : segment.SetUp arg index) (inside : index < arg.maxSegmentCount.toNat) {line : Nat}
    (member : line < arg.lineCount) :
    lineOffset arg (setupHeader arg) segment line =
      segment.dataOffset + line * (arg.lineSize.toNat + lineWidthSize) + lineWidthSize := by
  have positive : 0 < arg.lineCount := Nat.two_pow_pos _
  have byte := arg.maxSegmentCount.toNat_lt
  have small : arg.segmentOffset (index + 1) < 2 ^ 60 := arg.segmentOffset_lt (by omega)
  rw [arg.segmentOffset_succ, FipsBufArg.segmentSize, arg.dataSize_eq_iff.mpr fits] at small
  have start := setUp.dataOffset
  have within : (line + 1) * (arg.lineSize.toNat + lineWidthSize) ≤ arg.exactDataSize :=
    Nat.mul_le_mul_right _ member
  have split := Nat.add_one_mul line (arg.lineSize.toNat + lineWidthSize)
  have stride : (arg.lineSize.toNat + lineWidthSize) % 2 ^ 32 =
      arg.lineSize.toNat + lineWidthSize := by
    apply Nat.mod_eq_of_lt
    exact (Nat.le_mul_of_pos_left _ positive).trans_lt fits
  rw [lineOffset, lineMask_of_lt exponent member, stride, Nat.mul_comm _ line]
  apply Nat.mod_eq_of_lt
  simp only [lineWidthSize] at *
  omega

/-- The lines fill the data area. -/
theorem tiles_lineRegions (fits : arg.Fits) (exponent : arg.lineCountExp.toNat ≤ 30)
    (setUp : segment.SetUp arg index) (inside : index < arg.maxSegmentCount.toNat) :
    Tiles segment.dataOffset (lineRegions arg (setupHeader arg) segment)
      (segment.dataOffset + arg.dataSize) := by
  have slots : lineRegions arg (setupHeader arg) segment =
      (List.range arg.lineCount).map fun line =>
        ⟨segment.dataOffset + line * (arg.lineSize.toNat + lineWidthSize),
          arg.lineSize.toNat + lineWidthSize⟩ := by
    apply List.map_congr_left
    intro line listed
    rw [lineOffset_eq fits exponent setUp inside (List.mem_range.mp listed),
      Nat.add_sub_cancel]
  rw [slots, arg.dataSize_eq_iff.mpr fits]
  exact Tiles.uniform _ _ _

/-- A segment fills the space up to the next one. -/
theorem tiles_segmentRegions (fits : arg.Fits) (exponent : arg.lineCountExp.toNat ≤ 30)
    (memory : ShmMemory) (inside : index < arg.maxSegmentCount.toNat) :
    Tiles (arg.segmentOffset index)
      (segmentRegions arg (setupHeader arg) (setupMemory arg memory) (arg.segmentOffset index))
      (arg.segmentOffset (index + 1)) := by
  have setUp := ShmMemory.setupMemory_setUp memory inside
  have readers := Tiles.blocks arg.maxReaderCount.toNat
    fun reader member => tiles_readerRegions setUp inside member
  have lines := tiles_lineRegions fits exponent setUp inside
  have joined : ((setupMemory arg memory).segmentAt (arg.segmentOffset index)).dataOffset =
      ((setupMemory arg memory).segmentAt (arg.segmentOffset index)).readersOffset +
        arg.maxReaderCount.toNat * arg.readerSize := by
    rw [setUp.dataOffset, setUp.readersOffset]
  have stop : ((setupMemory arg memory).segmentAt (arg.segmentOffset index)).dataOffset +
      arg.dataSize = arg.segmentOffset (index + 1) := by
    rw [setUp.dataOffset, arg.segmentOffset_succ, FipsBufArg.segmentSize]
    omega
  refine ⟨rfl, ?_⟩
  rw [Region.stop, ← setUp.readersOffset, ← stop]
  apply readers.append
  rw [← joined]
  exact lines

/-- Header, writer flags and rows end where the first segment starts. -/
theorem tiles_assignmentRegions (arg : FipsBufArg) :
    Tiles 0 (assignmentRegions (setupHeader arg)) (setupHeader arg).firstSegmentOffset := by
  have first := arg.firstSegmentOffset_lt
  have rows : (List.range (setupHeader arg).maxReaderCount.toNat).map (fun reader =>
      (⟨(setupHeader arg).getReaderAssignments reader,
        (setupHeader arg).maxReaderThreadCount.toNat * sizeofAssignment⟩ : Region)) =
      (List.range arg.maxReaderCount.toNat).map fun reader =>
        ⟨(setupHeader arg).readerAssignmentsOffset +
          reader * (arg.maxReaderThreadCount.toNat * sizeofAssignment),
          arg.maxReaderThreadCount.toNat * sizeofAssignment⟩ := by
    apply List.map_congr_left
    intro reader listed
    have below : reader < arg.maxReaderCount.toNat := List.mem_range.mp listed
    have within : reader * (arg.maxReaderThreadCount.toNat * sizeofAssignment) ≤
        arg.maxReaderCount.toNat * (arg.maxReaderThreadCount.toNat * sizeofAssignment) :=
      Nat.mul_le_mul_right _ below.le
    have bound : (setupHeader arg).firstSegmentOffset =
        (setupHeader arg).readerAssignmentsOffset +
          arg.maxReaderCount.toNat * (arg.maxReaderThreadCount.toNat * sizeofAssignment) := by
      rw [← Nat.mul_assoc]
      rfl
    have address : (setupHeader arg).getReaderAssignments reader =
        (setupHeader arg).readerAssignmentsOffset +
          reader * (arg.maxReaderThreadCount.toNat * sizeofAssignment) := by
      rw [← Nat.mul_assoc]
      apply Nat.mod_eq_of_lt
      show (setupHeader arg).readerAssignmentsOffset +
        reader * arg.maxReaderThreadCount.toNat * sizeofAssignment < 2 ^ 64
      rw [Nat.mul_assoc]
      omega
    rw [address]
    rfl
  have stop : (setupHeader arg).firstSegmentOffset =
      (setupHeader arg).readerAssignmentsOffset +
        arg.maxReaderCount.toNat * (arg.maxReaderThreadCount.toNat * sizeofAssignment) := by
    rw [← Nat.mul_assoc]
    rfl
  refine ⟨rfl, rfl, ?_⟩
  rw [rows, stop]
  exact Tiles.uniform _ _ _

/-- All regions together tile the shared memory. -/
theorem tiles_bufferRegions (fits : arg.Fits) (exponent : arg.lineCountExp.toNat ≤ 30)
    (memory : ShmMemory) :
    Tiles 0 (bufferRegions arg (setupHeader arg) (setupMemory arg memory))
      (calculateSharedMemorySize arg) := by
  rw [calculateSharedMemorySize_eq]
  apply (tiles_assignmentRegions arg).append
  apply Tiles.blocks
  intro index inside
  rw [ShmMemory.chainOffset_setupMemory memory inside]
  exact tiles_segmentRegions fits exponent memory inside

end Tiling

/-- The regions of a buffer in its shared memory. -/
structure LayoutPartition (arg : FipsBufArg) (header : ShmHeader) (memory : ShmMemory) : Prop where
  disjoint : (bufferRegions arg header memory).Pairwise Region.Disjoint
  covers : ∀ address < calculateSharedMemorySize arg,
    ∃ region ∈ bufferRegions arg header memory, region.Contains address
  ends : ∃ last, (bufferRegions arg header memory).getLast? = some last ∧
    last.stop = calculateSharedMemorySize arg
  chain : ∀ index < header.segmentCount.toNat,
    memory.chainOffset header index = header.getSegmentHeader index

/-- The shared memory that `setup_shm` lays out is partitioned into the header,
the flags and rows, and for every segment its header, readers and lines. -/
theorem setupShm_layoutPartition (arg : FipsBufArg) (memory : ShmMemory)
    (exponent : arg.lineCountExp.toNat ≤ 30)
    (fits : 2 ^ arg.lineCountExp.toNat * (arg.lineSize.toNat + 2) < 2 ^ 32) :
    LayoutPartition arg (setupHeader arg) (setupMemory arg memory) := by
  have small : arg.Fits := fits
  have tiles := tiles_bufferRegions small exponent memory
  have nonempty : bufferRegions arg (setupHeader arg) (setupMemory arg memory) ≠ [] :=
    List.cons_ne_nil _ _
  constructor
  · exact tiles.disjoint
  · intro address below
    exact tiles.covers (Nat.zero_le _) below
  · exact ⟨_, List.getLast?_eq_some_getLast nonempty, tiles.stop_getLast nonempty⟩
  · intro index inside
    have byte := arg.maxSegmentCount.toNat_lt
    have below : index < arg.maxSegmentCount.toNat := inside
    rw [ShmMemory.chainOffset_setupMemory memory below, getSegmentHeader_eq arg (by omega)]

/-- A buffer of two segments with four lines of 14 bytes, and one reader. -/
def twoSegmentArg : FipsBufArg where
  shmName := [108, 111, 103]
  flags := 0
  lineCountExp := 2
  maxReaderCount := 1
  maxReaderThreadCount := 2
  maxSegmentCount := 2
  lineSize := 14
  maxSqeCount := 3

/-- Memory as the kernel maps it. -/
def zeroMemory : ShmMemory := ⟨fun _ => ⟨0, 0, 0, 0, 0⟩, fun _ => 0⟩

theorem setupShm_layoutPartition_twoSegments :
    LayoutPartition twoSegmentArg (setupHeader twoSegmentArg)
      (setupMemory twoSegmentArg zeroMemory) :=
  setupShm_layoutPartition twoSegmentArg zeroMemory (by decide) (by decide)

/-! ### Exact size arithmetic -/

/-- The sizes and offsets of a configuration are the mathematical ones, and no
slot leaves its segment. -/
structure SizesExact (arg : FipsBufArg) (memory : ShmMemory) : Prop where
  size : calculateSharedMemorySize arg = arg.exactSize
  headers : ∀ index < arg.maxSegmentCount.toNat,
    (setupHeader arg).getSegmentHeader index = arg.exactSegmentOffset index
  slots : ∀ index < arg.maxSegmentCount.toNat, ∀ line,
    let segment := (setupMemory arg memory).segmentAt (arg.exactSegmentOffset index)
    arg.exactSegmentOffset index + sizeofSegmentHeader ≤
        lineOffset arg (setupHeader arg) segment line - lineWidthSize ∧
      lineOffset arg (setupHeader arg) segment line + arg.lineSize.toNat ≤
        arg.exactSegmentOffset (index + 1)

/-- Masking gives a line number of the segment. -/
theorem lineMask_lt (arg : FipsBufArg) (line : Nat) :
    line % 2 ^ 32 &&& (setupHeader arg).lineMask < arg.lineCount := by
  have mask : (setupHeader arg).lineMask = 2 ^ arg.lineCountExp.toNat - 1 := rfl
  rw [mask, Nat.and_two_pow_sub_one_eq_mod]
  exact Nat.mod_lt _ (Nat.two_pow_pos _)

/-- A slot depends on the masked line number only. -/
theorem lineOffset_mask (arg : FipsBufArg) (exponent : arg.lineCountExp.toNat ≤ 30)
    (segment : SegmentHeader) (line : Nat) :
    lineOffset arg (setupHeader arg) segment line =
      lineOffset arg (setupHeader arg) segment (line % 2 ^ 32 &&& (setupHeader arg).lineMask) := by
  rw [lineOffset, lineOffset, lineMask_of_lt exponent (lineMask_lt arg line)]

/-- Without wrapping, both formulas agree. -/
theorem segmentOffset_eq_exact {arg : FipsBufArg} (fits : arg.Fits) (index : Nat) :
    arg.segmentOffset index = arg.exactSegmentOffset index := by
  rw [FipsBufArg.segmentOffset, FipsBufArg.segmentSize, arg.dataSize_eq_iff.mpr fits,
    FipsBufArg.exactSegmentOffset]

/-- Slots stay between the reader structures and the next segment. -/
theorem slots_inside {arg : FipsBufArg} (fits : arg.Fits)
    (exponent : arg.lineCountExp.toNat ≤ 30) (memory : ShmMemory) {index : Nat}
    (inside : index < arg.maxSegmentCount.toNat) (line : Nat) :
    let segment := (setupMemory arg memory).segmentAt (arg.segmentOffset index)
    arg.segmentOffset index + sizeofSegmentHeader ≤
        lineOffset arg (setupHeader arg) segment line - lineWidthSize ∧
      lineOffset arg (setupHeader arg) segment line + arg.lineSize.toNat ≤
        arg.segmentOffset (index + 1) := by
  have setUp := ShmMemory.setupMemory_setUp memory inside
  have below := lineMask_lt arg line
  have address := lineOffset_eq fits exponent setUp inside below
  have start := setUp.dataOffset
  have within : ((line % 2 ^ 32 &&& (setupHeader arg).lineMask) + 1) *
      (arg.lineSize.toNat + lineWidthSize) ≤ arg.exactDataSize :=
    Nat.mul_le_mul_right _ below
  rw [Nat.add_one_mul] at within
  rw [← lineOffset_mask arg exponent] at address
  rw [arg.segmentOffset_succ, FipsBufArg.segmentSize, arg.dataSize_eq_iff.mpr fits]
  constructor
  · omega
  · omega

/-- The size arithmetic of a configuration is exact if and only if it has no
segments or its lines take less than 4 GiB. -/
theorem sizesExact_iff (arg : FipsBufArg) (memory : ShmMemory)
    (exponent : arg.lineCountExp.toNat ≤ 30) :
    SizesExact arg memory ↔
      arg.maxSegmentCount = 0 ∨
        2 ^ arg.lineCountExp.toNat * (arg.lineSize.toNat + 2) < 2 ^ 32 := by
  constructor
  · intro exact'
    have sizes := exact'.size
    rw [calculateSharedMemorySize_eq, FipsBufArg.segmentOffset, FipsBufArg.exactSize,
      FipsBufArg.exactSegmentOffset] at sizes
    rcases Nat.eq_zero_or_pos arg.maxSegmentCount.toNat with none | some
    · exact Or.inl (UInt8.toNat_inj.mp none)
    · apply Or.inr
      apply arg.dataSize_eq_iff.mp
      have blocks := Nat.eq_of_mul_eq_mul_left some (Nat.add_left_cancel sizes)
      exact Nat.add_left_cancel blocks
  · intro condition
    rcases condition with none | fits
    · have count : arg.maxSegmentCount.toNat = 0 := by rw [none]; rfl
      constructor
      · rw [calculateSharedMemorySize_eq, FipsBufArg.exactSize, count]
        simp [FipsBufArg.segmentOffset, FipsBufArg.exactSegmentOffset]
      · intro index inside
        omega
      · intro index inside
        omega
    · have fits : arg.Fits := fits
      have byte := arg.maxSegmentCount.toNat_lt
      constructor
      · rw [calculateSharedMemorySize_eq, FipsBufArg.exactSize, segmentOffset_eq_exact fits]
      · intro index inside
        rw [getSegmentHeader_eq arg (by omega), segmentOffset_eq_exact fits]
      · intro index inside line
        have slots := slots_inside fits exponent memory inside line
        simp only [segmentOffset_eq_exact fits] at slots
        exact slots

theorem sizesExact_twoSegments : SizesExact twoSegmentArg zeroMemory :=
  (sizesExact_iff twoSegmentArg zeroMemory (by decide)).mpr (by decide)

/-- One segment of `2 ^ 20` lines of 4094 bytes. -/
def fourGigabyteArg : FipsBufArg where
  shmName := [108, 111, 103]
  flags := 0
  lineCountExp := 20
  maxReaderCount := 1
  maxReaderThreadCount := 1
  maxSegmentCount := 1
  lineSize := 4094
  maxSqeCount := 1

/-- The allocated size misses all the lines: the first one is addressed behind
the end of the shared memory. -/
theorem sizes_wrap_fourGigabytes :
    calculateSharedMemorySize fourGigabyteArg = 296 ∧
      fourGigabyteArg.exactSize = 296 + 2 ^ 32 ∧
      lineOffset fourGigabyteArg (setupHeader fourGigabyteArg)
        ((setupMemory fourGigabyteArg zeroMemory).segmentAt 136) 0 = 298 ∧
      ¬SizesExact fourGigabyteArg zeroMemory := by
  have size : calculateSharedMemorySize fourGigabyteArg = 296 := by decide
  have exactSize : fourGigabyteArg.exactSize = 296 + 2 ^ 32 := by decide
  refine ⟨size, exactSize, by decide, ?_⟩
  intro exact'
  have same := exact'.size
  omega

end FipsIpc.FipsBuf
