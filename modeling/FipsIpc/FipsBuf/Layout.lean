import FipsIpc.Lib.Tiling
import FipsIpc.FipsBuf.Header

/-!
Contract: the layout of the shared memory of a zero-copy buffer.

Owns: the arguments of a process (`fips_buf_arg_t`), the header and the segment
headers that `setup_shm` writes, `calculate_shared_memory_size`, the access
macros of `fips_buf.h`, and the regions that these define.

Offsets count from the start of the header.  `size_t` and `uintptr_t` values
are reduced modulo `2 ^ 64`; `line_size + LINE_WIDTH_SIZE` and its product with
`1 << line_count_exp` are `uint32_t` values wherever the source computes them.
The structures have the sizes of an LP64 machine.

Does not own: the contents of the assignment area, of the pointer pairs and of
the lines; the mutexes; the system calls that map the memory.
-/

set_option autoImplicit false

namespace FipsIpc.FipsBuf

open FipsIpc.Lib

/-! ### Sizes of the shared structures -/

def sizeofHeader : Nat := 120
def sizeofAssignment : Nat := 8
def sizeofSegmentHeader : Nat := 48
def sizeofPointer : Nat := 8
def sizeofList : Nat := 88
def sizeofSqe : Nat := 16
def lineWidthSize : Nat := 2

/-- `fips_buf_arg_t`, as far as the user sets it; `shmName` has no final NUL. -/
structure FipsBufArg where
  shmName : List UInt8
  flags : UInt8
  lineCountExp : UInt8
  maxReaderCount : UInt8
  maxReaderThreadCount : UInt8
  maxSegmentCount : UInt8
  lineSize : UInt32
  maxSqeCount : UInt32
deriving DecidableEq

/-- The fields of `fips_buf_header_t` that `setup_shm` writes, the checksum and
the counters of attached processes apart. -/
structure ShmHeader where
  segmentCount : UInt8
  maxReaderCount : UInt8
  maxReaderThreadCount : UInt8
  lineCountExp : UInt8
  flags : UInt8
  lineSize : UInt32
  maxSqeCount : UInt32
  lineMask : Nat
  firstSegmentOffset : Nat
  writerAssignmentsOffset : Nat
  readerAssignmentsOffset : Nat

/-- `fips_buf_segment_header_t` without the writer's pointer pair. -/
structure SegmentHeader where
  nextOffset : Nat
  prevOffset : Nat
  index : Nat
  readersOffset : Nat
  dataOffset : Nat

/-- What lies in the mapped memory: segment headers and list capacities by
their offsets. -/
structure ShmMemory where
  segmentAt : Nat → SegmentHeader
  capacityAt : Nat → Nat

namespace FipsBufArg

variable (arg : FipsBufArg)

/-- `1 << line_count_exp`. -/
def lineCount : Nat := 2 ^ arg.lineCountExp.toNat

/-- `(1 << line_count_exp) * (line_size + LINE_WIDTH_SIZE)`, an `uint32_t`. -/
def dataSize : Nat :=
  arg.lineCount * ((arg.lineSize.toNat + lineWidthSize) % 2 ^ 32) % 2 ^ 32

/-- `(max_segment_count + 7) & ~7`. -/
def paddedSegmentCount : Nat := (arg.maxSegmentCount.toNat + 7) / 8 * 8

/-- A reader's pointer pair, list and list entries. -/
def readerSize : Nat := sizeofPointer + sizeofList + sizeofSqe * arg.maxSqeCount.toNat

end FipsBufArg

def calculateSharedMemorySize (arg : FipsBufArg) : Nat :=
  (sizeofHeader + arg.paddedSegmentCount +
    arg.maxReaderCount.toNat * arg.maxReaderThreadCount.toNat * sizeofAssignment +
    arg.maxSegmentCount.toNat *
      (sizeofSegmentHeader + arg.maxReaderCount.toNat * arg.readerSize + arg.dataSize)) % 2 ^ 64

/-! ### The macros of `fips_buf.h` -/

namespace ShmHeader

variable (header : ShmHeader)

def readerSize : Nat := sizeofPointer + sizeofList + sizeofSqe * header.maxSqeCount.toNat

/-- `FIPS_BUF_GET_SEGMENT_HEADER`. -/
def getSegmentHeader (segmentIndex : Nat) : Nat :=
  (header.firstSegmentOffset + segmentIndex *
    (sizeofSegmentHeader + header.maxReaderCount.toNat * header.readerSize +
      (header.lineSize.toNat + lineWidthSize) % 2 ^ 32 * 2 ^ header.lineCountExp.toNat %
        2 ^ 32)) % 2 ^ 64

/-- `FIPS_BUF_GET_READER`. -/
def getReader (readersOffset readerIndex : Nat) : Nat :=
  (readersOffset + readerIndex * header.readerSize) % 2 ^ 64

/-- `FIPS_BUF_GET_READER_SGE_LIST`. -/
def getReaderSgeList (readersOffset readerIndex : Nat) : Nat :=
  (readersOffset + readerIndex * header.readerSize + sizeofPointer) % 2 ^ 64

/-- `FIPS_BUF_GET_READER_ASSIGNMENTS`. -/
def getReaderAssignments (readerIndex : Nat) : Nat :=
  (header.readerAssignmentsOffset +
    readerIndex * header.maxReaderThreadCount.toNat * sizeofAssignment) % 2 ^ 64

end ShmHeader

/-- The offset of entry `index` of the list at `listOffset`, `&data[index]`. -/
def sqeOffset (listOffset index : Nat) : Nat :=
  (listOffset + sizeofList + index * sizeofSqe) % 2 ^ 64

/-- `iov_base` of a slot as `fips_get_write_buffer` and `fips_buf_read` compute
it; the product is 64 bits wide, the stride is not. -/
def lineOffset (arg : FipsBufArg) (header : ShmHeader) (segment : SegmentHeader)
    (index : Nat) : Nat :=
  (segment.dataOffset +
    (arg.lineSize.toNat + lineWidthSize) % 2 ^ 32 * (index % 2 ^ 32 &&& header.lineMask) +
    lineWidthSize) % 2 ^ 64

/-! ### `setup_shm` -/

/-- The header of a new buffer. -/
def setupHeader (arg : FipsBufArg) : ShmHeader :=
  let writerAssignmentsOffset := sizeofHeader
  let readerAssignmentsOffset := writerAssignmentsOffset + arg.paddedSegmentCount
  { segmentCount := arg.maxSegmentCount
    maxReaderCount := arg.maxReaderCount
    maxReaderThreadCount := arg.maxReaderThreadCount
    lineCountExp := arg.lineCountExp
    flags := arg.flags
    lineSize := arg.lineSize
    maxSqeCount := arg.maxSqeCount
    lineMask := arg.lineCount - 1
    firstSegmentOffset := readerAssignmentsOffset +
      arg.maxReaderCount.toNat * arg.maxReaderThreadCount.toNat * sizeofAssignment
    writerAssignmentsOffset := writerAssignmentsOffset
    readerAssignmentsOffset := readerAssignmentsOffset }

namespace ShmMemory

/-- A store to one segment header. -/
def setSegment (memory : ShmMemory) (offset : Nat) (segment : SegmentHeader) : ShmMemory :=
  { memory with segmentAt := Function.update memory.segmentAt offset segment }

/-- The inner loop of `setup_shm`: the capacity of every reader's list. -/
def setupLists (arg : FipsBufArg) (header : ShmHeader) (readersOffset : Nat)
    (memory : ShmMemory) : ShmMemory :=
  (List.range arg.maxReaderCount.toNat).foldl (fun memory reader =>
    { memory with
      capacityAt := Function.update memory.capacityAt
        (header.getReaderSgeList readersOffset reader) arg.maxSqeCount.toNat }) memory

/-- The body of the outer loop for segment `index` at `current`; the second
result is `current_segment` after it. -/
def setupSegment (arg : FipsBufArg) (header : ShmHeader) (index current : Nat)
    (memory : ShmMemory) : ShmMemory × Nat :=
  let readersOffset := (current + sizeofSegmentHeader) % 2 ^ 64
  let memory := memory.setupLists arg header readersOffset
  let memory := memory.setSegment current
    { memory.segmentAt current with
      readersOffset := readersOffset
      index := index
      dataOffset := (readersOffset + arg.maxReaderCount.toNat * arg.readerSize) % 2 ^ 64 }
  if index + 1 < arg.maxSegmentCount.toNat then
    let next := header.getSegmentHeader (index + 1)
    let memory := memory.setSegment current { memory.segmentAt current with nextOffset := next }
    (memory.setSegment next { memory.segmentAt next with prevOffset := current }, next)
  else (memory.setSegment current { memory.segmentAt current with nextOffset := 0 }, current)

/-- The outer loop, `remaining` segments before its end. -/
def setupSegments (arg : FipsBufArg) (header : ShmHeader) :
    (remaining index current : Nat) → ShmMemory → ShmMemory
  | 0, _, _, memory => memory
  | remaining + 1, index, current, memory =>
      let (memory, next) := memory.setupSegment arg header index current
      setupSegments arg header remaining (index + 1) next memory

end ShmMemory

/-- The segment headers of a new buffer in `memory`. -/
def setupMemory (arg : FipsBufArg) (memory : ShmMemory) : ShmMemory :=
  memory.setupSegments arg (setupHeader arg) arg.maxSegmentCount.toNat 0
    (setupHeader arg).firstSegmentOffset

/-- Element `count` of the `next_offset` chain, as `fips_buf_attach` walks it. -/
def ShmMemory.chainOffset (memory : ShmMemory) (header : ShmHeader) : (count : Nat) → Nat
  | 0 => header.firstSegmentOffset
  | count + 1 => (memory.segmentAt (memory.chainOffset header count)).nextOffset

/-! ### Regions -/

section Regions

variable (arg : FipsBufArg) (header : ShmHeader) (memory : ShmMemory)

/-- The pointer pair, the list and the list entries of reader `reader`. -/
def readerRegions (segment : SegmentHeader) (reader : Nat) : List Region :=
  ⟨header.getReader segment.readersOffset reader, sizeofPointer⟩ ::
    ⟨header.getReaderSgeList segment.readersOffset reader, sizeofList⟩ ::
      (List.range header.maxSqeCount.toNat).map fun index =>
        ⟨sqeOffset (header.getReaderSgeList segment.readersOffset reader) index, sizeofSqe⟩

/-- The lines of a segment, each with the width before it. -/
def lineRegions (segment : SegmentHeader) : List Region :=
  (List.range arg.lineCount).map fun line =>
    ⟨lineOffset arg header segment line - lineWidthSize, arg.lineSize.toNat + lineWidthSize⟩

/-- The segment at `offset`. -/
def segmentRegions (offset : Nat) : List Region :=
  let segment := memory.segmentAt offset
  ⟨offset, sizeofSegmentHeader⟩ ::
    ((List.range header.maxReaderCount.toNat).flatMap (readerRegions header segment) ++
      lineRegions arg header segment)

/-- Header, writer flags and reader rows. -/
def assignmentRegions : List Region :=
  ⟨0, sizeofHeader⟩ ::
    ⟨header.writerAssignmentsOffset, (header.segmentCount.toNat + 7) / 8 * 8⟩ ::
      (List.range header.maxReaderCount.toNat).map fun reader =>
        ⟨header.getReaderAssignments reader, header.maxReaderThreadCount.toNat * sizeofAssignment⟩

/-- All regions of the buffer; segments are found along the chain. -/
def bufferRegions : List Region :=
  assignmentRegions header ++
    (List.range header.segmentCount.toNat).flatMap fun index =>
      segmentRegions arg header memory (memory.chainOffset header index)

end Regions

end FipsIpc.FipsBuf
