import FipsIpc.Lib.Run
import FipsIpc.FipsBuf.Partition
import FipsIpc.FipsBuf.Assignment

/-!
Contract: processes that come to a zero-copy buffer and leave it.

Owns: the checksum of the geometry, `setup_shm` on a mapped buffer,
`fips_buf_init` and `fips_buf_destroy` with the counters of attached processes,
exactly when `fips_buf_init` tells two geometries apart, and the reader indices
of the initialised processes over whole runs.

The buffer is the memory behind one key.  `answer` stands for the semaphore,
`ftok`, `shmget` and `shmat`: an error code when one of them fails.
`openSegment` gives the answer of a machine where only the size that the process
asks for can be wrong.  A buffer that was removed stays mapped by the processes
that have it, but no later `fips_buf_init` finds it.

Does not own: the configuration file, and what threads do between two calls
(the assignment area is whatever they leave).
-/

set_option autoImplicit false

namespace FipsIpc.FipsBuf

open FipsIpc.Lib

def fipsBufErrorInvalidShmName : Int := 1
def fipsBufErrorInvalidShmSize : Int := 2
def fipsBufErrorShm : Int := 7
def fipsBufErrorWriterAlreadyAttached : Int := 8
def fipsBufErrorChecksum : Int := 9
def fipsBufErrorUninitialized : Int := 10
def fipsBufErrorThreadsStillAttached : Int := 12

def nameMax : Nat := 255

/-! ### Checksum -/

namespace FipsBufArg

variable (arg : FipsBufArg)

/-- The four counts of the geometry, packed into the low word. -/
def packedCounts : UInt64 :=
  arg.lineCountExp.toUInt64 ||| arg.maxReaderCount.toUInt64 <<< 8 |||
    arg.maxReaderThreadCount.toUInt64 <<< 16 ||| arg.maxSegmentCount.toUInt64 <<< 24

/-- The packed word with the line size in its high half. -/
def packedGeometry : UInt64 := arg.packedCounts ||| arg.lineSize.toUInt64 <<< 32

/-- `*(uint64_t *)shm_name`, little endian. -/
def nameWord : UInt64 :=
  (arg.shmName.take 8).foldr (fun byte word => word <<< 8 ||| byte.toUInt64) 0

end FipsBufArg

def calcChecksum (arg : FipsBufArg) : UInt64 :=
  if arg.shmName.length > 7 then
    arg.nameWord ^^^ arg.packedGeometry ^^^ arg.maxSqeCount.toUInt64
  else arg.packedGeometry ^^^ arg.maxSqeCount.toUInt64

/-! ### A buffer and its processes -/

/-- The shared memory of one buffer; the counters are `uint8_t`. -/
structure SharedBuffer where
  initialized : Nat
  checksum : UInt64
  header : ShmHeader
  memory : ShmMemory
  readerCount : UInt8
  writerCount : UInt8
  area : AssignmentArea

def setupShm (arg : FipsBufArg) (buffer : SharedBuffer) : SharedBuffer :=
  if buffer.initialized ≠ 0 then buffer
  else
    { buffer with
      header := setupHeader arg
      checksum := calcChecksum arg
      memory := setupMemory arg buffer.memory
      initialized := 1 }

/-- `enum fips_buf_role`. -/
inductive ProcessRole where
  | writer
  | reader
deriving DecidableEq, Repr

/-- An initialised process; `readerIndex` means nothing for a writer. -/
structure Process where
  arg : FipsBufArg
  role : ProcessRole
  readerIndex : UInt8
deriving DecidableEq

/-- The test `checksum(arg)` of `fips_buf_init`. -/
def ChecksumPasses (arg : FipsBufArg) (buffer : SharedBuffer) : Prop :=
  calcChecksum arg = buffer.checksum

instance (arg : FipsBufArg) (buffer : SharedBuffer) : Decidable (ChecksumPasses arg buffer) :=
  inferInstanceAs (Decidable (_ = _))

/-- The part of `fips_buf_init` before `setup_shm`, where the key leads to a segment
created with `mappedSize` bytes: `shmget` refuses a size above that.  Nothing where
`1 << line_count_exp` is undefined. -/
def openSegment (arg : FipsBufArg) (mappedSize : Nat) : Option (Except Int Unit) :=
  if arg.shmName.length > nameMax - 4 - 10 then some (.error fipsBufErrorInvalidShmName)
  else if arg.lineCountExp.toNat > 30 then none
  else if calculateSharedMemorySize arg = 2 ^ 64 - 1 then some (.error fipsBufErrorInvalidShmSize)
  else if calculateSharedMemorySize arg ≤ mappedSize then some (.ok ())
  else some (.error fipsBufErrorShm)

/-- `fips_buf_init` on a buffer: the process or the error code. -/
def fipsBufInit (role : ProcessRole) (arg : FipsBufArg) (answer : Except Int Unit)
    (buffer : SharedBuffer) : Except Int Process × SharedBuffer :=
  if arg.shmName.length > nameMax - 4 - 10 then (.error fipsBufErrorInvalidShmName, buffer)
  else
    match answer with
    | .error code => (.error code, buffer)
    | .ok () =>
        let buffer := setupShm arg buffer
        if ChecksumPasses arg buffer then
          match role with
          | .writer =>
              if buffer.writerCount > 0 then (.error fipsBufErrorWriterAlreadyAttached, buffer)
              else
                (.ok ⟨arg, .writer, 0⟩, { buffer with writerCount := buffer.writerCount + 1 })
          | .reader =>
              (.ok ⟨arg, .reader, buffer.readerCount⟩,
                { buffer with readerCount := buffer.readerCount + 1 })
        else (.error fipsBufErrorChecksum, buffer)

/-- The tests of `fips_buf_init` before it looks at the role. -/
def InitAccepted (arg : FipsBufArg) (answer : Except Int Unit) (buffer : SharedBuffer) : Prop :=
  arg.shmName.length ≤ nameMax - 4 - 10 ∧ answer = .ok () ∧
    ChecksumPasses arg (setupShm arg buffer)

/-- The header as the functions on the assignment area read it; the ring and
the number of readers play no part there. -/
def ShmHeader.areaHeader (header : ShmHeader) : Header where
  segmentCount := header.segmentCount.toNat
  maxReaderCount := header.maxReaderCount.toNat
  maxReaderThreadCount := header.maxReaderThreadCount.toNat
  readerCount := 0
  lineCountExp := 0
  lineSize := 0
  maxSqeCount := 0
  overwrite := false
  segmentCount_lt := header.segmentCount.toNat_lt
  maxReaderCount_lt := header.maxReaderCount.toNat_lt
  maxReaderThreadCount_lt := header.maxReaderThreadCount.toNat_lt
  readerCount_le := Nat.zero_le _
  lineCountExp_le := by decide
  lineSize_lt := by decide
  maxSqeCount_lt := by decide

/-- `reassaign_readers` for the first `readerCount` processes. -/
def AssignmentArea.reassaignFirst (area : AssignmentArea) (hdr : Header) (readerCount : Nat) :
    AssignmentArea :=
  (List.range readerCount).foldl (fun area reader => area.reassaignRow hdr reader) area

/-- `memset` of the row of reader `reader`, with the process's own row length. -/
def AssignmentArea.clearRow (area : AssignmentArea) (hdr : Header) (reader length : Nat) :
    AssignmentArea :=
  { area with
    assignments := fun word =>
      if hdr.slot reader 0 ≤ word ∧ word < hdr.slot reader 0 + length then .free
      else area.assignments word }

/-- The flags of `fips_buf_destroy`. -/
structure DestroyFlags where
  force : Bool
  rmForce : Bool
deriving DecidableEq, Repr

/-- More than one thread of the process is still attached, and the call does
not insist. -/
def DestroyRefused (process : Process) (flags : DestroyFlags) (buffer : SharedBuffer) : Prop :=
  flags.force = false ∧
    1 < match process.role with
      | .writer => buffer.area.getWriterThreadCount buffer.header.areaHeader
      | .reader =>
          buffer.area.getReaderThreadCount buffer.header.areaHeader process.readerIndex.toNat

instance (process : Process) (flags : DestroyFlags) (buffer : SharedBuffer) :
    Decidable (DestroyRefused process flags buffer) :=
  inferInstanceAs (Decidable (_ ∧ _))

/-- The counter and the row that a leaving process gives back. -/
def leaveBuffer (process : Process) (buffer : SharedBuffer) : SharedBuffer :=
  match process.role with
  | .writer => { buffer with writerCount := buffer.writerCount - 1 }
  | .reader =>
      { buffer with
        area := buffer.area.clearRow buffer.header.areaHeader process.readerIndex.toNat
          process.arg.maxReaderThreadCount.toNat
        readerCount := buffer.readerCount - 1 }

/-- `fips_buf_destroy`: the return code, the buffer, and whether it was
removed. -/
def fipsBufDestroy (process : Process) (flags : DestroyFlags) (buffer : SharedBuffer) :
    Int × SharedBuffer × Bool :=
  if buffer.initialized = 0 then (fipsBufErrorUninitialized, buffer, false)
  else if DestroyRefused process flags buffer then
    (fipsBufErrorThreadsStillAttached, buffer, false)
  else
    let buffer := leaveBuffer process buffer
    let buffer := { buffer with
      area := buffer.area.reassaignFirst buffer.header.areaHeader buffer.readerCount.toNat }
    if flags.rmForce ∨ buffer.writerCount = 0 ∧ buffer.readerCount = 0 then
      (fipsBufSuccess, { buffer with initialized := 2 }, true)
    else (fipsBufSuccess, buffer, false)

/-! ### Exactly when the checksum separates geometries -/

/-- Both processes compute the same offsets. -/
structure SameGeometry (left right : FipsBufArg) : Prop where
  lineCountExp : left.lineCountExp = right.lineCountExp
  lineSize : left.lineSize = right.lineSize
  maxSegmentCount : left.maxSegmentCount = right.maxSegmentCount
  maxReaderCount : left.maxReaderCount = right.maxReaderCount
  maxReaderThreadCount : left.maxReaderThreadCount = right.maxReaderThreadCount
  maxSqeCount : left.maxSqeCount = right.maxSqeCount

/-- The line sizes differ, or the list lengths are the same, or the lists and
the packed counts differ in different bits. -/
def Separated (left right : FipsBufArg) : Prop :=
  left.lineSize ≠ right.lineSize ∨ left.maxSqeCount = right.maxSqeCount ∨
    left.packedCounts ^^^ right.packedCounts ≠
      left.maxSqeCount.toUInt64 ^^^ right.maxSqeCount.toUInt64

instance (left right : FipsBufArg) : Decidable (Separated left right) :=
  inferInstanceAs (Decidable (_ ∨ _))

namespace FipsBufArg

variable (arg : FipsBufArg)

/-- The packed counts as a number. -/
theorem packedCounts_toNat : arg.packedCounts.toNat =
    arg.lineCountExp.toNat + 2 ^ 8 * arg.maxReaderCount.toNat +
      2 ^ 16 * arg.maxReaderThreadCount.toNat + 2 ^ 24 * arg.maxSegmentCount.toNat := by
  have exponent := arg.lineCountExp.toNat_lt
  have readers := arg.maxReaderCount.toNat_lt
  have threads := arg.maxReaderThreadCount.toNat_lt
  have segments := arg.maxSegmentCount.toNat_lt
  have first := Nat.two_pow_add_eq_or_of_lt (i := 8) (b := arg.lineCountExp.toNat) (by omega)
    arg.maxReaderCount.toNat
  have second := Nat.two_pow_add_eq_or_of_lt (i := 16)
    (b := 2 ^ 8 * arg.maxReaderCount.toNat + arg.lineCountExp.toNat) (by omega)
    arg.maxReaderThreadCount.toNat
  have third := Nat.two_pow_add_eq_or_of_lt (i := 24)
    (b := 2 ^ 16 * arg.maxReaderThreadCount.toNat +
      (2 ^ 8 * arg.maxReaderCount.toNat + arg.lineCountExp.toNat)) (by omega)
    arg.maxSegmentCount.toNat
  have words : arg.packedCounts.toNat =
      arg.lineCountExp.toNat ||| 2 ^ 8 * arg.maxReaderCount.toNat |||
        2 ^ 16 * arg.maxReaderThreadCount.toNat ||| 2 ^ 24 * arg.maxSegmentCount.toNat := by
    simp only [packedCounts, UInt64.toNat_or, UInt64.toNat_shiftLeft, UInt8.toNat_toUInt64,
      Nat.shiftLeft_eq]
    congr 1
    · congr 1
      · congr 1
        show arg.maxReaderCount.toNat * 2 ^ 8 % 2 ^ 64 = _
        omega
      · show arg.maxReaderThreadCount.toNat * 2 ^ 16 % 2 ^ 64 = _
        omega
    · show arg.maxSegmentCount.toNat * 2 ^ 24 % 2 ^ 64 = _
      omega
  rw [words, Nat.or_comm arg.lineCountExp.toNat, ← first, Nat.or_comm _ (2 ^ 16 * _), ← second,
    Nat.or_comm _ (2 ^ 24 * _), ← third]
  omega

theorem packedCounts_lt : arg.packedCounts.toNat < 2 ^ 32 := by
  have exponent := arg.lineCountExp.toNat_lt
  have readers := arg.maxReaderCount.toNat_lt
  have threads := arg.maxReaderThreadCount.toNat_lt
  have segments := arg.maxSegmentCount.toNat_lt
  rw [packedCounts_toNat]
  omega

/-- The packed geometry as a number. -/
theorem packedGeometry_toNat :
    arg.packedGeometry.toNat = 2 ^ 32 * arg.lineSize.toNat + arg.packedCounts.toNat := by
  have lineSize := arg.lineSize.toNat_lt
  rw [Nat.two_pow_add_eq_or_of_lt arg.packedCounts_lt, Nat.or_comm]
  simp only [packedGeometry, UInt64.toNat_or, UInt64.toNat_shiftLeft, UInt32.toNat_toUInt64,
    Nat.shiftLeft_eq]
  congr 1
  show arg.lineSize.toNat * 2 ^ 32 % 2 ^ 64 = _
  omega

end FipsBufArg

/-- A term moves to the other side of an equation of words. -/
theorem xor_eq_xor_iff (left right first second : UInt64) :
    left ^^^ first = right ^^^ second ↔ left ^^^ right = first ^^^ second := by
  have moved : left ^^^ first = right ^^^ second ↔
      left ^^^ first ^^^ (right ^^^ first) = right ^^^ second ^^^ (right ^^^ first) :=
    (UInt64.xor_left_inj _).symm
  have leftSide : left ^^^ first ^^^ (right ^^^ first) = left ^^^ right := by
    rw [UInt64.xor_comm right first, UInt64.xor_assoc, ← UInt64.xor_assoc first first,
      UInt64.xor_self, UInt64.zero_xor]
  have rightSide : right ^^^ second ^^^ (right ^^^ first) = first ^^^ second := by
    rw [UInt64.xor_comm right second, UInt64.xor_assoc, ← UInt64.xor_assoc right right,
      UInt64.xor_self, UInt64.zero_xor, UInt64.xor_comm]
  rw [moved, leftSide, rightSide]

/-- The two halves of the packed geometry are compared separately. -/
theorem packedGeometry_xor_iff (left right : FipsBufArg) (word : UInt64)
    (low : word.toNat < 2 ^ 32) :
    left.packedGeometry ^^^ right.packedGeometry = word ↔
      left.lineSize = right.lineSize ∧ left.packedCounts ^^^ right.packedCounts = word := by
  have leftLow := left.packedCounts_lt
  have rightLow := right.packedCounts_lt
  have highPart : (left.packedGeometry ^^^ right.packedGeometry).toNat / 2 ^ 32 =
      left.lineSize.toNat ^^^ right.lineSize.toNat := by
    rw [UInt64.toNat_xor, Nat.xor_div_two_pow, left.packedGeometry_toNat,
      right.packedGeometry_toNat]
    congr 1
    · omega
    · omega
  have lowPart : (left.packedGeometry ^^^ right.packedGeometry).toNat % 2 ^ 32 =
      (left.packedCounts ^^^ right.packedCounts).toNat := by
    rw [UInt64.toNat_xor, UInt64.toNat_xor, Nat.xor_mod_two_pow, left.packedGeometry_toNat,
      right.packedGeometry_toNat]
    congr 1
    · omega
    · omega
  constructor
  · intro same
    rw [same] at highPart lowPart
    have high : left.lineSize.toNat ^^^ right.lineSize.toNat = 0 := by omega
    constructor
    · exact UInt32.toNat_inj.mp (Nat.xor_eq_zero_iff.mp high)
    · apply UInt64.toNat_inj.mp
      omega
  · rintro ⟨lineSize, counts⟩
    rw [lineSize, Nat.xor_self] at highPart
    rw [counts] at lowPart
    apply UInt64.toNat_inj.mp
    omega

/-- Two processes with one name have the same checksum if and only if they have
the same line size and their counts differ where their list lengths do. -/
theorem calcChecksum_eq_iff {left right : FipsBufArg} (name : left.shmName = right.shmName) :
    calcChecksum left = calcChecksum right ↔
      left.lineSize = right.lineSize ∧ left.packedCounts ^^^ right.packedCounts =
        left.maxSqeCount.toUInt64 ^^^ right.maxSqeCount.toUInt64 := by
  have sameName : left.nameWord = right.nameWord := by
    rw [FipsBufArg.nameWord, FipsBufArg.nameWord, name]
  have low : (left.maxSqeCount.toUInt64 ^^^ right.maxSqeCount.toUInt64).toNat < 2 ^ 32 := by
    rw [UInt64.toNat_xor, UInt32.toNat_toUInt64, UInt32.toNat_toUInt64]
    exact Nat.xor_lt_two_pow left.maxSqeCount.toNat_lt right.maxSqeCount.toNat_lt
  have geometry : calcChecksum left = calcChecksum right ↔
      left.packedGeometry ^^^ left.maxSqeCount.toUInt64 =
        right.packedGeometry ^^^ right.maxSqeCount.toUInt64 := by
    rw [calcChecksum, calcChecksum, name, sameName]
    split
    · rw [UInt64.xor_assoc, UInt64.xor_assoc, UInt64.xor_right_inj]
    · exact Iff.rfl
  rw [geometry, xor_eq_xor_iff, packedGeometry_xor_iff left right _ low]

/-- Equal packed counts are equal counts. -/
theorem packedCounts_inj {left right : FipsBufArg}
    (same : left.packedCounts = right.packedCounts) :
    left.lineCountExp = right.lineCountExp ∧ left.maxReaderCount = right.maxReaderCount ∧
      left.maxReaderThreadCount = right.maxReaderThreadCount ∧
      left.maxSegmentCount = right.maxSegmentCount := by
  have numbers : left.packedCounts.toNat = right.packedCounts.toNat := by rw [same]
  rw [left.packedCounts_toNat, right.packedCounts_toNat] at numbers
  have leftBounds := And.intro left.lineCountExp.toNat_lt
    (And.intro left.maxReaderCount.toNat_lt left.maxReaderThreadCount.toNat_lt)
  have rightBounds := And.intro right.lineCountExp.toNat_lt
    (And.intro right.maxReaderCount.toNat_lt right.maxReaderThreadCount.toNat_lt)
  refine ⟨UInt8.toNat_inj.mp ?_, UInt8.toNat_inj.mp ?_, UInt8.toNat_inj.mp ?_,
    UInt8.toNat_inj.mp ?_⟩ <;> omega

/-- When the segment of a short name is opened. -/
theorem openSegment_eq_ok_iff {arg : FipsBufArg} {mappedSize : Nat}
    (short : arg.shmName.length ≤ nameMax - 4 - 10) (exponent : arg.lineCountExp.toNat ≤ 30) :
    openSegment arg mappedSize = some (.ok ()) ↔ calculateSharedMemorySize arg ≤ mappedSize := by
  have size : calculateSharedMemorySize arg ≠ 2 ^ 64 - 1 := by
    have small := arg.segmentOffset_lt arg.maxSegmentCount.toNat_lt.le
    rw [calculateSharedMemorySize_eq]
    omega
  unfold openSegment
  rw [if_neg (Nat.not_lt.mpr short), if_neg (Nat.not_lt.mpr exponent), if_neg size]
  split
  case isTrue fits => exact iff_of_true rfl fits
  case isFalse large => exact iff_of_false (fun impossible => nomatch impossible) large

/-- A segment is opened only under a short name. -/
theorem shmName_of_openSegment {arg : FipsBufArg} {mappedSize : Nat}
    (opened : openSegment arg mappedSize = some (.ok ())) :
    arg.shmName.length ≤ nameMax - 4 - 10 := by
  by_contra long
  rw [openSegment, if_pos (Nat.lt_of_not_le long)] at opened
  cases opened

theorem openSegment_eq_none_iff {arg : FipsBufArg} {mappedSize : Nat}
    (short : arg.shmName.length ≤ nameMax - 4 - 10) :
    openSegment arg mappedSize = none ↔ 30 < arg.lineCountExp.toNat := by
  unfold openSegment
  rw [if_neg (Nat.not_lt.mpr short)]
  split
  case isTrue large => exact iff_of_true rfl large
  case isFalse small =>
    refine iff_of_false (fun impossible => ?_) small
    split at impossible
    · cases impossible
    · split at impossible <;> cases impossible

/-- On a buffer that the first process set up, the checksum test passes if and only
if the line sizes are the same and the counts differ where the list lengths do. -/
theorem checksumPasses_setupShm_iff {creator other : FipsBufArg}
    (name : creator.shmName = other.shmName) {buffer : SharedBuffer}
    (fresh : buffer.initialized = 0) :
    ChecksumPasses other (setupShm other (setupShm creator buffer)) ↔
      creator.lineSize = other.lineSize ∧ creator.packedCounts ^^^ other.packedCounts =
        creator.maxSqeCount.toUInt64 ^^^ other.maxSqeCount.toUInt64 := by
  have created : setupShm other (setupShm creator buffer) = setupShm creator buffer := by
    have ready : (setupShm creator buffer).initialized ≠ 0 := by simp [setupShm, fresh]
    rw [setupShm, if_pos ready]
  have stored : (setupShm creator buffer).checksum = calcChecksum creator := by
    simp [setupShm, fresh]
  rw [ChecksumPasses, created, stored, eq_comm, calcChecksum_eq_iff name]

/-- On a buffer that the first process set up, passing the checksum test means
having its geometry if and only if the two are separated. -/
theorem sameGeometry_of_passes_iff {creator other : FipsBufArg}
    (name : creator.shmName = other.shmName) {buffer : SharedBuffer}
    (fresh : buffer.initialized = 0) :
    (ChecksumPasses other (setupShm other (setupShm creator buffer)) →
        SameGeometry creator other) ↔
      Separated creator other := by
  rw [checksumPasses_setupShm_iff name fresh]
  constructor
  · intro agrees
    by_contra mixed
    simp only [Separated, not_or, not_not] at mixed
    exact mixed.2.1 (agrees ⟨mixed.1, mixed.2.2⟩).maxSqeCount
  · rintro separated ⟨lineSize, counts⟩
    have lists : creator.maxSqeCount = other.maxSqeCount := by
      rcases separated with differ | same | differ
      · exact absurd lineSize differ
      · exact same
      · exact absurd counts differ
    rw [lists, UInt64.xor_self, UInt64.xor_eq_zero_iff] at counts
    have fields := packedCounts_inj counts
    exact ⟨fields.1, lineSize, fields.2.2.2, fields.2.1, fields.2.2.1, lists⟩

/-- A process of the same name comes to a buffer that the first process opened and
set up.  That passing the tests means having its geometry holds if and only if the
number of lines is defined, and the size asked for is refused or the two are
separated. -/
theorem checksum_agrees_iff (creator other : FipsBufArg) (name : creator.shmName = other.shmName)
    (buffer : SharedBuffer) (fresh : buffer.initialized = 0) (mappedSize : Nat)
    (opened : openSegment creator mappedSize = some (.ok ())) :
    (∃ answer, openSegment other mappedSize = some answer ∧
        (InitAccepted other answer (setupShm creator buffer) → SameGeometry creator other)) ↔
      other.lineCountExp.toNat ≤ 30 ∧
        (mappedSize < calculateSharedMemorySize other ∨ Separated creator other) := by
  have short : other.shmName.length ≤ nameMax - 4 - 10 := by
    rw [← name]
    exact shmName_of_openSegment opened
  rw [← sameGeometry_of_passes_iff name fresh]
  constructor
  · rintro ⟨answer, returned, agrees⟩
    have exponent : other.lineCountExp.toNat ≤ 30 := by
      by_contra large
      rw [(openSegment_eq_none_iff short).mpr (Nat.lt_of_not_le large)] at returned
      cases returned
    refine ⟨exponent, ?_⟩
    by_cases fits : calculateSharedMemorySize other ≤ mappedSize
    · rw [(openSegment_eq_ok_iff short exponent).mpr fits] at returned
      cases returned
      exact Or.inr fun passes => agrees ⟨short, rfl, passes⟩
    · exact Or.inl (Nat.lt_of_not_le fits)
  · rintro ⟨exponent, condition⟩
    cases returned : openSegment other mappedSize with
    | none =>
        have large := (openSegment_eq_none_iff short).mp returned
        exact absurd exponent (Nat.not_le.mpr large)
    | some answer =>
        refine ⟨answer, rfl, ?_⟩
        rintro ⟨_, rfl, passes⟩
        have fits := (openSegment_eq_ok_iff short exponent).mp returned
        rcases condition with refused | agrees
        · exact absurd fits (Nat.not_le.mpr refused)
        · exact agrees passes

/-- The geometry of a small buffer with two readers. -/
def smallArg : FipsBufArg where
  shmName := [98, 117, 102]
  flags := 0
  lineCountExp := 10
  maxReaderCount := 2
  maxReaderThreadCount := 1
  maxSegmentCount := 1
  lineSize := 64
  maxSqeCount := 1024

/-- Shared memory as the kernel hands it out. -/
def zeroBuffer : SharedBuffer where
  initialized := 0
  checksum := 0
  header := ⟨0, 0, 0, 0, 0, 0, 0, 0, 0, 0, 0⟩
  memory := ⟨fun _ => ⟨0, 0, 0, 0, 0⟩, fun _ => 0⟩
  readerCount := 0
  writerCount := 0
  area := ⟨fun _ => fipsBufFlagFree, fun _ => .free, 0⟩

/-- A process that brings other flags is accepted, and its geometry is the same. -/
theorem checksum_agrees_otherFlags :
    InitAccepted { smallArg with flags := 1 } (.ok ()) (setupShm smallArg zeroBuffer) ∧
      SameGeometry smallArg { smallArg with flags := 1 } := by
  have accepted : InitAccepted { smallArg with flags := 1 } (.ok ())
      (setupShm smallArg zeroBuffer) := ⟨by decide, rfl, by decide⟩
  have agrees := (checksum_agrees_iff smallArg { smallArg with flags := 1 } rfl zeroBuffer rfl
    (calculateSharedMemorySize smallArg) (by decide)).mpr ⟨by decide, by decide⟩
  rcases agrees with ⟨answer, returned, agrees⟩
  have opened : openSegment { smallArg with flags := 1 } (calculateSharedMemorySize smallArg) =
      some (.ok ()) := by decide
  cases opened.symm.trans returned
  exact ⟨accepted, agrees accepted⟩

/-- Half as many lines and one list entry less have the same checksum, and the
smaller size is not refused. -/
theorem checksum_misses_fewerLines :
    let creator := { smallArg with lineCountExp := 11, maxSqeCount := 1025 }
    openSegment creator (calculateSharedMemorySize creator) = some (.ok ()) ∧
      openSegment smallArg (calculateSharedMemorySize creator) = some (.ok ()) ∧
      InitAccepted smallArg (.ok ()) (setupShm creator zeroBuffer) ∧
      ¬SameGeometry creator smallArg := by
  refine ⟨by decide, by decide, ⟨by decide, rfl, by decide⟩, ?_⟩
  intro same
  exact absurd same.lineCountExp (by decide)

/-! ### Runs -/

/-- A buffer and the processes that have initialised it. -/
structure Sharing where
  buffer : SharedBuffer
  processes : List Process
  removed : Bool

/-- A call of a process, or any change of the assignment area by threads. -/
inductive ProcessCall where
  | init (role : ProcessRole) (arg : FipsBufArg) (answer : Except Int Unit)
  | destroy (process : Process) (flags : DestroyFlags)
  | threads (area : AssignmentArea)

namespace Sharing

def step (state : Sharing) : ProcessCall → Option Sharing
  | .init role arg answer =>
      match fipsBufInit role arg answer state.buffer with
      | (.ok process, buffer) =>
          some { state with buffer := buffer, processes := process :: state.processes }
      | (.error _, buffer) => some { state with buffer := buffer }
  | .destroy process flags =>
      match fipsBufDestroy process flags state.buffer with
      | (code, buffer, removed) =>
          some ⟨buffer,
            if code = fipsBufSuccess then state.processes.erase process else state.processes,
            state.removed || removed⟩
  | .threads area => some { state with buffer := { state.buffer with area := area } }

/-- The key leads to the buffer until it is removed, and only an initialised
process destroys its handle. -/
def Permitted (state : Sharing) : ProcessCall → Prop
  | .init .. => state.removed = false
  | .destroy process _ => process ∈ state.processes
  | .threads _ => True

/-- The indices of the initialised reader processes. -/
def readerIndices (state : Sharing) : List Nat :=
  (state.processes.filter fun process => process.role = .reader).map
    fun process => process.readerIndex.toNat

/-- Reader processes have their own rows and pointers, which every loop over the
readers visits. -/
structure DistinctReaders (state : Sharing) : Prop where
  distinct : state.readerIndices.Nodup
  bounded : ∀ index ∈ state.readerIndices,
    index < state.buffer.header.maxReaderCount.toNat ∧ index < state.buffer.readerCount.toNat

end Sharing

/-- A reader comes only while fewer than `max_reader_count` are there, and the
reader that leaves is the one with the highest index. -/
def ProcessCall.InOrder (state : Sharing) : ProcessCall → Prop
  | .init role arg answer =>
      role = .reader → InitAccepted arg answer state.buffer →
        state.buffer.readerCount < (setupShm arg state.buffer).header.maxReaderCount
  | .destroy process flags =>
      process.role = .reader → ¬DestroyRefused process flags state.buffer →
        process.readerIndex.toNat + 1 = state.buffer.readerCount.toNat
  | .threads _ => True

/-- The three ways in which `fips_buf_init` can end. -/
theorem fipsBufInit_cases (role : ProcessRole) (arg : FipsBufArg) (answer : Except Int Unit)
    (buffer : SharedBuffer) :
    (∃ code after, fipsBufInit role arg answer buffer = (.error code, after) ∧
        (after = buffer ∨ after = setupShm arg buffer) ∧
        ¬(role = .reader ∧ InitAccepted arg answer buffer)) ∨
      (role = .writer ∧ fipsBufInit role arg answer buffer =
        (.ok ⟨arg, .writer, 0⟩, { setupShm arg buffer with
          writerCount := (setupShm arg buffer).writerCount + 1 })) ∨
      (role = .reader ∧ InitAccepted arg answer buffer ∧ fipsBufInit role arg answer buffer =
        (.ok ⟨arg, .reader, (setupShm arg buffer).readerCount⟩, { setupShm arg buffer with
          readerCount := (setupShm arg buffer).readerCount + 1 })) := by
  unfold fipsBufInit
  split
  case isTrue long =>
    exact Or.inl ⟨_, _, rfl, Or.inl rfl, fun accepted => absurd accepted.2.1 (Nat.not_le.mpr long)⟩
  case isFalse short =>
    cases answer with
    | error code => exact Or.inl ⟨_, _, rfl, Or.inl rfl, fun accepted => nomatch accepted.2.2.1⟩
    | ok _ =>
        by_cases passes : ChecksumPasses arg (setupShm arg buffer)
        · simp only [if_pos passes]
          cases role with
          | writer =>
              by_cases attached : (setupShm arg buffer).writerCount > 0
              · exact Or.inl ⟨_, _, if_pos attached, Or.inr rfl, fun accepted => nomatch accepted.1⟩
              · exact Or.inr (Or.inl ⟨rfl, if_neg attached⟩)
          | reader => exact Or.inr (Or.inr ⟨rfl, ⟨Nat.not_lt.mp short, rfl, passes⟩, rfl⟩)
        · simp only [if_neg passes]
          exact Or.inl ⟨_, _, rfl, Or.inr rfl, fun accepted => passes accepted.2.2.2⟩

/-- The buffer after a call of `fips_buf_destroy` that was not refused. -/
structure Left (process : Process) (buffer after : SharedBuffer) : Prop where
  readerCount : after.readerCount = (leaveBuffer process buffer).readerCount
  header : after.header = buffer.header
  initialized : after.initialized ≠ 0

theorem leaveBuffer_header (process : Process) (buffer : SharedBuffer) :
    (leaveBuffer process buffer).header = buffer.header := by
  unfold leaveBuffer
  split <;> rfl

theorem leaveBuffer_initialized (process : Process) (buffer : SharedBuffer) :
    (leaveBuffer process buffer).initialized = buffer.initialized := by
  unfold leaveBuffer
  split <;> rfl

theorem fipsBufDestroy_cases (process : Process) (flags : DestroyFlags) {buffer : SharedBuffer}
    (ready : buffer.initialized ≠ 0) :
    (DestroyRefused process flags buffer ∧ fipsBufDestroy process flags buffer =
        (fipsBufErrorThreadsStillAttached, buffer, false)) ∨
      (¬DestroyRefused process flags buffer ∧ ∃ after removed,
        fipsBufDestroy process flags buffer = (fipsBufSuccess, after, removed) ∧
          Left process buffer after) := by
  unfold fipsBufDestroy
  rw [if_neg ready]
  by_cases refused : DestroyRefused process flags buffer
  · exact Or.inl ⟨refused, if_pos refused⟩
  · rw [if_neg refused]
    refine Or.inr ⟨refused, ?_⟩
    have header := leaveBuffer_header process buffer
    have initialized := leaveBuffer_initialized process buffer
    dsimp only
    split
    · exact ⟨_, _, rfl, rfl, header, Nat.succ_ne_zero 1⟩
    · exact ⟨_, _, rfl, rfl, header, fun fresh => ready (initialized.symm.trans fresh)⟩

@[simp] theorem setupShm_readerCount (arg : FipsBufArg) (buffer : SharedBuffer) :
    (setupShm arg buffer).readerCount = buffer.readerCount := by
  unfold setupShm
  split <;> rfl

theorem setupShm_initialized (arg : FipsBufArg) (buffer : SharedBuffer) :
    (setupShm arg buffer).initialized ≠ 0 := by
  unfold setupShm
  split
  case isTrue ready => exact ready
  case isFalse => exact Nat.one_ne_zero

namespace Sharing

variable {state next : Sharing} {call : ProcessCall}

/-- The invariant of runs in order: the readers are numbered consecutively. -/
structure Numbered (state : Sharing) : Prop where
  indices : state.readerIndices.Perm (List.range state.buffer.readerCount.toNat)
  bounded : state.buffer.initialized ≠ 0 →
    state.buffer.readerCount.toNat ≤ state.buffer.header.maxReaderCount.toNat
  used : state.buffer.initialized = 0 → state.processes = []

theorem readerIndices_cons (buffer : SharedBuffer) (process : Process) (processes : List Process)
    (removed : Bool) :
    readerIndices ⟨buffer, process :: processes, removed⟩ =
      if process.role = .reader then
        process.readerIndex.toNat :: readerIndices ⟨buffer, processes, removed⟩
      else readerIndices ⟨buffer, processes, removed⟩ := by
  unfold readerIndices
  by_cases reader : process.role = .reader
  · simp [reader]
  · simp [reader]

/-- A process that leaves takes its index with it. -/
theorem readerIndices_erase {processes : List Process} {process : Process}
    (member : process ∈ processes) (buffer after : SharedBuffer) (removed flag : Bool) :
    (readerIndices ⟨buffer, processes, removed⟩).Perm
      (if process.role = .reader then
        process.readerIndex.toNat :: readerIndices ⟨after, processes.erase process, flag⟩
      else readerIndices ⟨after, processes.erase process, flag⟩) := by
  have split := readerIndices_cons after process (processes.erase process) flag
  rw [← split]
  unfold readerIndices
  exact ((List.perm_cons_erase member).filter _).map _

namespace Numbered

/-- Processes exist only on a buffer that was set up. -/
theorem initialized (numbered : state.Numbered) {process : Process}
    (member : process ∈ state.processes) : state.buffer.initialized ≠ 0 := by
  intro fresh
  rw [numbered.used fresh] at member
  cases member

theorem distinctReaders (numbered : state.Numbered) : state.DistinctReaders := by
  constructor
  · exact numbered.indices.nodup_iff.mpr List.nodup_range
  · intro index member
    have below : index < state.buffer.readerCount.toNat :=
      List.mem_range.mp (numbered.indices.mem_iff.mp member)
    have ready : state.buffer.initialized ≠ 0 := by
      intro fresh
      rw [readerIndices, numbered.used fresh] at member
      cases member
    exact ⟨below.trans_le (numbered.bounded ready), below⟩

/-- Without processes there are no readers. -/
theorem readerCount_of_fresh (numbered : state.Numbered)
    (fresh : state.buffer.initialized = 0) : state.buffer.readerCount.toNat = 0 := by
  have lengths := numbered.indices.length_eq
  rw [readerIndices, numbered.used fresh, List.length_range] at lengths
  exact lengths.symm

theorem setUp_bounded (numbered : state.Numbered) (arg : FipsBufArg) :
    state.buffer.readerCount.toNat ≤ (setupShm arg state.buffer).header.maxReaderCount.toNat := by
  by_cases fresh : state.buffer.initialized = 0
  · rw [numbered.readerCount_of_fresh fresh]
    exact Nat.zero_le _
  · rw [setupShm, if_pos fresh]
    exact numbered.bounded fresh

/-- Setting up the buffer changes nothing about its readers. -/
theorem setUp (numbered : state.Numbered) (arg : FipsBufArg) (processes : List Process)
    (same : readerIndices ⟨setupShm arg state.buffer, processes, state.removed⟩ =
      state.readerIndices) (writerCount : UInt8) :
    Numbered ⟨{ setupShm arg state.buffer with writerCount := writerCount }, processes,
      state.removed⟩ := by
  constructor
  · show (readerIndices ⟨setupShm arg state.buffer, processes, state.removed⟩).Perm
      (List.range (setupShm arg state.buffer).readerCount.toNat)
    rw [same, setupShm_readerCount]
    exact numbered.indices
  · intro _
    show (setupShm arg state.buffer).readerCount.toNat ≤ _
    rw [setupShm_readerCount]
    exact numbered.setUp_bounded arg
  · intro fresh
    exact absurd fresh (setupShm_initialized arg state.buffer)

/-- What a new reader does to the indices. -/
theorem addReader (numbered : state.Numbered) (arg : FipsBufArg) (process : Process)
    (role : process.role = .reader) (index : process.readerIndex = state.buffer.readerCount)
    (room : state.buffer.readerCount <
      (setupShm arg state.buffer).header.maxReaderCount) :
    Numbered ⟨{ setupShm arg state.buffer with
      readerCount := (setupShm arg state.buffer).readerCount + 1 },
      process :: state.processes, state.removed⟩ := by
  have byte := (setupShm arg state.buffer).header.maxReaderCount.toNat_lt
  have below := UInt8.lt_iff_toNat_lt.mp room
  have count : ((setupShm arg state.buffer).readerCount + 1).toNat =
      state.buffer.readerCount.toNat + 1 := by
    rw [setupShm_readerCount, UInt8.toNat_add]
    exact Nat.mod_eq_of_lt (show state.buffer.readerCount.toNat + 1 < 2 ^ 8 by omega)
  constructor
  · rw [readerIndices_cons, if_pos role, index]
    show (state.buffer.readerCount.toNat :: state.readerIndices).Perm
      (List.range ((setupShm arg state.buffer).readerCount + 1).toNat)
    rw [count, List.range_succ]
    exact (numbered.indices.cons _).trans (List.perm_append_singleton _ _).symm
  · intro _
    show ((setupShm arg state.buffer).readerCount + 1).toNat ≤ _
    rw [count]
    exact below
  · intro fresh
    exact absurd fresh (setupShm_initialized arg state.buffer)

/-- What a leaving process does to the indices: the reader with the highest
index leaves a consecutive numbering. -/
theorem removeProcess (numbered : state.Numbered) {process : Process} {after : SharedBuffer}
    (member : process ∈ state.processes) (left : Left process state.buffer after)
    (highest : process.role = .reader →
      process.readerIndex.toNat + 1 = state.buffer.readerCount.toNat) (removed : Bool) :
    Numbered ⟨after, state.processes.erase process, removed⟩ := by
  have indices := (readerIndices_erase member state.buffer after state.removed removed).symm.trans
    numbered.indices
  have bounded := numbered.bounded (numbered.initialized member)
  cases role : process.role with
  | writer =>
      have count : after.readerCount = state.buffer.readerCount := by
        rw [left.readerCount, leaveBuffer, role]
      rw [role, if_neg (by decide)] at indices
      constructor
      · rw [count]
        exact indices
      · intro _
        rw [count, left.header]
        exact bounded
      · intro fresh
        exact absurd fresh left.initialized
  | reader =>
      have last := highest role
      have count : after.readerCount.toNat = process.readerIndex.toNat := by
        have positive : (1 : UInt8) ≤ state.buffer.readerCount :=
          UInt8.le_iff_toNat_le.mpr (show 1 ≤ state.buffer.readerCount.toNat by omega)
        rw [left.readerCount, leaveBuffer, role]
        show (state.buffer.readerCount - 1).toNat = _
        rw [UInt8.toNat_sub_of_le _ _ positive]
        show state.buffer.readerCount.toNat - 1 = _
        omega
      rw [role, if_pos rfl, ← last, List.range_succ] at indices
      constructor
      · rw [count]
        exact (indices.trans (List.perm_append_singleton _ _)).cons_inv
      · intro _
        rw [count, left.header]
        omega
      · intro fresh
        exact absurd fresh left.initialized

/-- A call in order keeps the numbering. -/
theorem step (numbered : state.Numbered) (permitted : state.Permitted call)
    (inOrder : call.InOrder state) (taken : state.step call = some next) : next.Numbered := by
  cases call with
  | init role arg answer =>
      rcases fipsBufInit_cases role arg answer state.buffer with
        ⟨code, after, result, buffer, _⟩ | ⟨isWriter, result⟩ | ⟨isReader, accepted, result⟩
      · rw [Sharing.step, result] at taken
        cases taken
        rcases buffer with same | setUp
        · subst same
          exact ⟨numbered.indices, numbered.bounded, numbered.used⟩
        · subst setUp
          exact numbered.setUp arg state.processes rfl _
      · rw [Sharing.step, result] at taken
        cases taken
        apply numbered.setUp arg
        rw [readerIndices_cons, if_neg (fun reader => nomatch reader)]
        rfl
      · rw [Sharing.step, result] at taken
        cases taken
        exact numbered.addReader arg _ rfl (setupShm_readerCount arg state.buffer)
          (inOrder isReader accepted)
  | destroy process flags =>
      have member : process ∈ state.processes := permitted
      rcases fipsBufDestroy_cases process flags (numbered.initialized member) with
        ⟨_, result⟩ | ⟨accepted, after, removed, result, left⟩
      · rw [Sharing.step, result] at taken
        cases taken
        exact ⟨numbered.indices, numbered.bounded, numbered.used⟩
      · rw [Sharing.step, result] at taken
        cases taken
        exact numbered.removeProcess member left (fun role => inOrder role accepted) _
  | threads area =>
      cases taken
      exact ⟨numbered.indices, numbered.bounded, numbered.used⟩

/-- A call that keeps the readers apart is in order. -/
theorem inOrder_of_distinct (numbered : state.Numbered) (permitted : state.Permitted call)
    (taken : state.step call = some next) (distinct : next.DistinctReaders) :
    call.InOrder state := by
  cases call with
  | init role arg answer =>
      intro isReader accepted
      rcases fipsBufInit_cases role arg answer state.buffer with
        ⟨code, after, result, buffer, neither⟩ | ⟨isWriter, result⟩ | ⟨_, _, result⟩
      · exact absurd ⟨isReader, accepted⟩ neither
      · rw [isWriter] at isReader
        cases isReader
      · rw [Sharing.step, result] at taken
        cases taken
        apply UInt8.lt_iff_toNat_lt.mpr
        rw [← setupShm_readerCount arg state.buffer]
        apply (distinct.bounded _ ?_).1
        rw [readerIndices_cons, if_pos rfl]
        exact List.mem_cons_self
  | destroy process flags =>
      intro isReader accepted
      have member : process ∈ state.processes := permitted
      rcases fipsBufDestroy_cases process flags (numbered.initialized member) with
        ⟨refused, _⟩ | ⟨_, after, removed, result, left⟩
      · exact absurd refused accepted
      · rw [Sharing.step, result] at taken
        cases taken
        have indices := (readerIndices_erase member state.buffer after state.removed
          (state.removed || removed)).symm.trans numbered.indices
        rw [isReader, if_pos rfl] at indices
        have own : process.readerIndex.toNat < state.buffer.readerCount.toNat :=
          List.mem_range.mp (indices.mem_iff.mp List.mem_cons_self)
        have count : after.readerCount.toNat = state.buffer.readerCount.toNat - 1 := by
          have positive : (1 : UInt8) ≤ state.buffer.readerCount :=
            UInt8.le_iff_toNat_le.mpr (show 1 ≤ state.buffer.readerCount.toNat by omega)
          rw [left.readerCount, leaveBuffer, isReader]
          exact UInt8.toNat_sub_of_le _ _ positive
        -- the highest index is that of the process or of one that stays
        have top : state.buffer.readerCount.toNat - 1 ∈
            List.range state.buffer.readerCount.toNat := List.mem_range.mpr (by omega)
        rcases List.mem_cons.mp (indices.mem_iff.mpr top) with same | stays
        · omega
        · have below : state.buffer.readerCount.toNat - 1 < after.readerCount.toNat :=
            (distinct.bounded _ stays).2
          omega
  | threads area => trivial

end Numbered

/-- A new buffer. -/
def Created (state : Sharing) : Prop :=
  state.buffer.initialized = 0 ∧ state.buffer.readerCount = 0 ∧ state.processes = []

theorem Created.numbered (created : state.Created) : state.Numbered := by
  constructor
  · rw [readerIndices, created.2.2, created.2.1]
    exact .refl _
  · intro ready
    exact absurd created.1 ready
  · intro _
    exact created.2.2

end Sharing

/-- In every run whose calls are in order, reader processes have distinct
indices below both counts; and after such a run the next call keeps them so if
and only if it is in order, too. -/
theorem readerIdentities_run {first last : Sharing} {calls : List ProcessCall}
    (created : first.Created)
    (run : Run Sharing.step (fun state call => state.Permitted call ∧ call.InOrder state)
      first calls last) :
    last.DistinctReaders ∧
      ∀ call next, last.Permitted call → last.step call = some next →
        (next.DistinctReaders ↔ call.InOrder last) := by
  have preserved : ∀ (state : Sharing) call next, state.Numbered →
      state.Permitted call ∧ call.InOrder state → state.step call = some next → next.Numbered := by
    intro state call next numbered allowed taken
    exact numbered.step allowed.1 allowed.2 taken
  have numbered : last.Numbered := run.invariant preserved created.numbered
  refine ⟨numbered.distinctReaders, ?_⟩
  intro call next permitted taken
  constructor
  · exact numbered.inOrder_of_distinct permitted taken
  · intro inOrder
    exact (numbered.step permitted inOrder taken).distinctReaders

/-- A new buffer without processes. -/
def newSharing : Sharing := ⟨zeroBuffer, [], false⟩

/-- A reader process of the small buffer. -/
def smallReader (readerIndex : UInt8) : Process := ⟨smallArg, .reader, readerIndex⟩

def readerComes : ProcessCall := .init .reader smallArg (.ok ())

def readerLeaves (readerIndex : UInt8) : ProcessCall :=
  .destroy (smallReader readerIndex) ⟨false, false⟩

theorem readerIdentities_run_last_leaves : ∃ last,
    Run Sharing.step (fun state call => state.Permitted call ∧ call.InOrder state) newSharing
      [readerComes, readerComes, readerLeaves 1] last ∧ last.DistinctReaders := by
  have run : ∃ last, Run Sharing.step
      (fun state call => state.Permitted call ∧ call.InOrder state) newSharing
      [readerComes, readerComes, readerLeaves 1] last := by
    refine ⟨_, .cons ⟨rfl, fun _ _ => by decide⟩ rfl (.cons ⟨rfl, fun _ _ => by decide⟩ rfl
      (.cons ⟨?_, fun _ _ => by decide⟩ rfl (.nil _)))⟩
    exact List.mem_cons_self
  rcases run with ⟨last, run⟩
  exact ⟨last, run, (readerIdentities_run ⟨rfl, rfl, rfl⟩ run).1⟩

/-- When the first of two readers leaves, the next reader gets the index of the
other one. -/
theorem readerIdentities_fails_first_leaves :
    newSharing.Created ∧ ∃ last,
      Run Sharing.step Sharing.Permitted newSharing
        [readerComes, readerComes, readerLeaves 0, readerComes] last ∧
      last.readerIndices = [1, 1] ∧ ¬last.DistinctReaders := by
  refine ⟨⟨rfl, rfl, rfl⟩, _, .cons rfl rfl (.cons rfl rfl (.cons ?_ rfl (.cons rfl rfl (.nil _)))),
    rfl, ?_⟩
  · exact List.mem_cons_of_mem _ List.mem_cons_self
  · intro distinct
    exact absurd distinct.distinct (by decide)

end FipsIpc.FipsBuf
