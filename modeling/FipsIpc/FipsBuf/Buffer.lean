import FipsIpc.FipsBuf.Assignment

/-!
Contract: the data path of a zero-copy buffer of `lib/fips_buf.c`.

Owns: segments with their writer pair, the pointer pairs and pending-return
lists of the reader processes and the raw data bytes; `fips_get_write_buffer`
and `fips_buf_write` of the writer; `fips_buf_read` with its rotation over the
cached segments; `fips_buf_return` with the linked list of
`fips_buf_list_add_sqe`.

Calls are complete: the compare-and-swap of `fips_buf_read` succeeds at once.
`none` stands for a call that has undefined behaviour or does not return.
Addresses are relative to the data area of the segment; the slot stride
`line_size + LINE_WIDTH_SIZE` is a `uint32_t` sum.

Does not own: the layout of segments in shared memory, debug output.
-/

set_option autoImplicit false

namespace FipsIpc.FipsBuf

/-! ### Shared structures -/

/-- `fips_buf_range_t`. -/
structure Range where
  startIndex : Nat
  count : Nat
  segmentIndex : Nat
  readerIndex : Nat
deriving DecidableEq, Repr

/-- The range whose `tag` is 0. -/
def Range.zero : Range := ⟨0, 0, 0, 0⟩

/-- `fips_buf_sqe_t`; the offset of `data[index]` is `some index`, 0 is `none`. -/
structure Sqe where
  range : Range
  next : Option Nat

/-- `fips_buf_list_t` with the entries behind it. -/
structure SqeList where
  capacity : Nat
  writeIndex : Nat
  readIndex : Nat
  first : Option Nat
  data : Nat → Sqe

/-- A reader's `fips_buf_pointer_t` and the list behind it. -/
structure ReaderPointer where
  headOffset : Nat
  commitOffset : Nat
  list : SqeList

/-- Raw bytes, addressed from the start of the segment's data area. -/
abbrev Data := Nat → UInt8

/-- One segment: the writer's pair, the pointers of every reader process and
the data area. -/
structure Segment where
  headOffset : Nat
  commitOffset : Nat
  readers : Nat → ReaderPointer
  data : Data

/-- A segment after `setup_shm`, before the first call. -/
def Segment.created (hdr : Header) (data : Data) : Segment where
  headOffset := 0
  commitOffset := 0
  readers := fun _ => ⟨0, 0, ⟨hdr.maxSqeCount, 0, 0, none, fun _ => ⟨.zero, none⟩⟩⟩
  data := data

/-- `struct iovec`. -/
structure Iovec where
  base : Nat
  len : Nat
deriving DecidableEq, Repr

/-! ### Lines in memory -/

/-- The address handed out for line `index`, after its two-byte width. -/
def slotBase (hdr : Header) (index : Nat) : Nat := (hdr.lineSize + 2) % 2 ^ 32 * index + 2

/-- The width in front of a line, a little-endian `uint16_t`. -/
def lineWidth (data : Data) (base : Nat) : Nat :=
  (data (base - 2)).toNat + 256 * (data (base - 1)).toNat

/-- `*iovlen = iov_len`. -/
def putWidth (data : Data) (iovec : Iovec) : Data :=
  Function.update
    (Function.update data (iovec.base - 2) (UInt8.ofNat (iovec.len % 2 ^ 16)))
    (iovec.base - 1) (UInt8.ofNat (iovec.len % 2 ^ 16 / 256))

/-- The bytes an iovec denotes. -/
def Iovec.bytes (data : Data) (iovec : Iovec) : List UInt8 :=
  (List.range iovec.len).map fun offset => data (iovec.base + offset)

/-! ### The writer -/

/-- The space check of `fips_get_write_buffer` against one reader. -/
def Overtakes (currentHeadOffset newHeadOffset commitOffset : Nat) : Prop :=
  (newHeadOffset > currentHeadOffset ∧ commitOffset > currentHeadOffset ∧
    commitOffset ≤ newHeadOffset) ∨
  (newHeadOffset < currentHeadOffset ∧
    (commitOffset > currentHeadOffset ∨ commitOffset ≤ newHeadOffset))

instance (current new commit : Nat) : Decidable (Overtakes current new commit) :=
  inferInstanceAs (Decidable (_ ∨ _))

/-- One call of `fips_get_write_buffer`: the iovecs it fills or its error code, and
the segment it leaves. -/
def Segment.getWriteBuffer (hdr : Header) (segment : Segment) (iovcnt : Nat) :
    Except Int (List Iovec) × Segment :=
  let currentHeadOffset := segment.headOffset
  let newHeadOffset := hdr.wrapLine (currentHeadOffset + iovcnt)
  if hdr.overwrite = false ∧ ∃ reader < hdr.readerCount,
      Overtakes currentHeadOffset newHeadOffset (segment.readers reader).commitOffset then
    (.error fipsBufErrorNoSpace, segment)
  else
    (.ok ((List.range iovcnt).map fun offset =>
        ⟨slotBase hdr (hdr.wrapLine (currentHeadOffset + offset)), hdr.lineSize⟩),
      { segment with headOffset := newHeadOffset })

/-- The call as the loops around it see it: they go on with the segment only after
a granted reservation. -/
def fipsGetWriteBuffer (hdr : Header) (segment : Segment) (iovcnt : Nat) :
    Except Int (List Iovec × Segment) :=
  match segment.getWriteBuffer hdr iovcnt with
  | (.error code, _) => .error code
  | (.ok iov, next) => .ok (iov, next)

/-- The segment a refused call leaves is the one before it, so nothing is lost on
the way to `fipsGetWriteBuffer`. -/
theorem Segment.getWriteBuffer_refused {hdr : Header} {segment next : Segment} {iovcnt : Nat}
    {code : Int} (refused : segment.getWriteBuffer hdr iovcnt = (.error code, next)) :
    code = fipsBufErrorNoSpace ∧ next = segment := by
  unfold Segment.getWriteBuffer at refused
  dsimp only at refused
  split at refused
  case isTrue overtakes =>
      cases refused
      exact ⟨rfl, rfl⟩
  case isFalse => cases refused

/-- The space check decides between the two outcomes. -/
theorem fipsGetWriteBuffer_eq (hdr : Header) (segment : Segment) (iovcnt : Nat) :
    fipsGetWriteBuffer hdr segment iovcnt =
      if hdr.overwrite = false ∧ ∃ reader < hdr.readerCount,
          Overtakes segment.headOffset (hdr.wrapLine (segment.headOffset + iovcnt))
            (segment.readers reader).commitOffset then
        .error fipsBufErrorNoSpace
      else
        .ok ((List.range iovcnt).map fun offset =>
            ⟨slotBase hdr (hdr.wrapLine (segment.headOffset + offset)), hdr.lineSize⟩,
          { segment with headOffset := hdr.wrapLine (segment.headOffset + iovcnt) }) := by
  symm
  unfold fipsGetWriteBuffer Segment.getWriteBuffer
  dsimp only
  split
  case isTrue => rfl
  case isFalse => rfl

def fipsBufWrite (hdr : Header) (segment : Segment) (iov : List Iovec) : Int × Segment :=
  let segment := { segment with data := iov.foldl putWidth segment.data }
  let newCommitOffset := hdr.wrapLine (segment.commitOffset + iov.length)
  if newCommitOffset > segment.headOffset then (fipsBufErrorCorrupted, segment)
  else (fipsBufSuccess, { segment with commitOffset := newCommitOffset })

/-! ### Returning ranges -/

namespace SqeList

/-- The list with the new entry filled in, not yet linked. -/
def stage (list : SqeList) (tag : Range) : SqeList :=
  { list with
    writeIndex := (list.writeIndex + 1) % list.capacity
    data := Function.update list.data list.writeIndex ⟨tag, none⟩ }

/-- The store to `prev_sqe->next_offset`, or to `first_offset` without one. -/
def link (list : SqeList) (prev : Option Nat) (index : Nat) : SqeList :=
  match prev with
  | some prev =>
      { list with
        data := Function.update list.data prev { list.data prev with next := some index } }
  | none => { list with first := some index }

/-- The search loop that links entry `index`, which holds `startIndex`; at the
end of the list both the last entry and its predecessor are redirected. -/
def insertSqe (index startIndex : Nat) :
    (fuel : Nat) → (prev : Option Nat) → (current : Nat) → SqeList → Option SqeList
  | 0, _, _, _ => none
  | fuel + 1, prev, current, list =>
      if (list.data current).range.startIndex > startIndex then
        let list := list.link prev index
        some { list with
          data := Function.update list.data index
            { list.data index with next := some current } }
      else
        match (list.data current).next with
        | none => some ((list.link (some current) index).link prev index)
        | some next => insertSqe index startIndex fuel (some current) next list

end SqeList

/-- Merging the first entry, number `current`, into `commit_offset`; the read
index grows by the size of an entry. -/
def mergeSqe (hdr : Header) (reader : ReaderPointer) (current : Nat) : ReaderPointer :=
  { reader with
    commitOffset := hdr.wrapLine (reader.commitOffset + (reader.list.data current).range.count)
    list := { reader.list with
      first := (reader.list.data current).next
      data := Function.update reader.list.data current ⟨.zero, none⟩
      readIndex := (reader.list.readIndex + 16) % 2 ^ 64 } }

/-- The loop that merges entries starting at `commit_offset`. -/
def drainSqe (hdr : Header) : (fuel : Nat) → ReaderPointer → Option ReaderPointer
  | 0, _ => none
  | fuel + 1, reader =>
      match reader.list.first with
      | none => some reader
      | some current =>
          if (reader.list.data current).range.startIndex = reader.commitOffset then
            drainSqe hdr fuel (mergeSqe hdr reader current)
          else some reader

/-- The branch that queues a range out of order; without capacity the new write
index is a division by zero. -/
def enqueueSqe (reader : ReaderPointer) (tag : Range) : Option (Except Int ReaderPointer) :=
  let list := reader.list
  let index := list.writeIndex
  if list.capacity = 0 then none
  else if list.readIndex = (list.writeIndex + 1) % list.capacity then
    some (.error fipsBufErrorNoSpace)
  else
    match list.first with
    | none => some (.ok { reader with list := { list.stage tag with first := some index } })
    | some current =>
        ((list.stage tag).insertSqe index tag.startIndex (list.capacity + 1) none current).map
          fun list => .ok { reader with list := list }

/-- The first half of `fips_buf_list_add_sqe`: a range in order moves
`commit_offset`, any other is queued. -/
def acceptRange (hdr : Header) (reader : ReaderPointer) (tag : Range) :
    Option (Except Int ReaderPointer) :=
  if reader.commitOffset = tag.startIndex then
    some (.ok { reader with commitOffset := hdr.wrapLine (reader.commitOffset + tag.count) })
  else enqueueSqe reader tag

/-- `fips_buf_list_add_sqe`: the return code and the reader. -/
def fipsBufListAddSqe (hdr : Header) (reader : ReaderPointer) (tag : Range) :
    Option (Int × ReaderPointer) :=
  (acceptRange hdr reader tag).bind fun accepted =>
    match accepted with
    | .error code => some (code, reader)
    | .ok reader =>
        (drainSqe hdr (reader.list.capacity + 2) reader).map fun reader => (fipsBufSuccess, reader)

/-- `fips_buf_return` on all segments of the buffer. -/
def fipsBufReturn (hdr : Header) (segments : Nat → Segment) (tag : Range) :
    Option (Int × (Nat → Segment)) :=
  let segment := segments tag.segmentIndex
  (fipsBufListAddSqe hdr (segment.readers tag.readerIndex) tag).map fun (code, reader) =>
    (code, Function.update segments tag.segmentIndex
      { segment with readers := Function.update segment.readers tag.readerIndex reader })

/-! ### Reading -/

/-- A reader thread: its process, its assignment slot, its cache and the
thread-local `rotation`. -/
structure ReaderThread where
  readerIndex : Nat
  slot : Option Nat
  cache : ReaderCache
  rotation : Nat

/-- `remove_cached_entries`: a trailing entry is closed up.  Nothing where
`memmove` gets a negative length or leaves the array. -/
def removeCachedEntries (cache : ReaderCache) (rotation : Nat) : Option ReaderCache :=
  let cachedCount := cache.assignedReaderCount + cache.trailingBuffersCount
  if rotation < cache.assignedReaderCount then some cache
  else if cachedCount ≤ rotation ∨ cachedCount > cache.currentSegment.length then none
  else
    some { cache with
      currentSegment := cache.currentSegment.take rotation ++
        (cache.currentSegment.drop (rotation + 1)).take (cachedCount - rotation - 1) ++
        cache.currentSegment.drop (cachedCount - 1)
      trailingBuffersCount := cache.trailingBuffersCount - 1 }

/-- The test of `fips_buf_read` that fewer than the wanted lines are there. -/
def NotReady (currentHeadOffset newHeadOffset commitOffset : Nat) : Prop :=
  (newHeadOffset > currentHeadOffset ∧ commitOffset ≥ currentHeadOffset ∧
    commitOffset < newHeadOffset) ∨
  (newHeadOffset < currentHeadOffset ∧
    (commitOffset ≥ currentHeadOffset ∨ commitOffset < newHeadOffset))

instance (current new commit : Nat) : Decidable (NotReady current new commit) :=
  inferInstanceAs (Decidable (_ ∨ _))

/-- The lines, the tag and the segment when process `reader` takes `iovcnt`
lines from segment `index`. -/
def takeLines (hdr : Header) (segment : Segment) (index reader iovcnt : Nat) :
    List Iovec × Range × Segment :=
  let currentHeadOffset := (segment.readers reader).headOffset
  ((List.range iovcnt).map fun offset =>
      let base := slotBase hdr (hdr.wrapLine (currentHeadOffset + offset))
      ⟨base, lineWidth segment.data base⟩,
    ⟨currentHeadOffset, iovcnt % 2 ^ 16, index, reader⟩,
    { segment with
      readers := Function.update segment.readers reader
        { segment.readers reader with
          headOffset := hdr.wrapLine (currentHeadOffset + iovcnt) } })

/-- What a call of `fips_buf_read` leaves: on success the lines with their
tag. -/
structure ReadOutcome where
  code : Int
  lines : Option (List Iovec × Range)
  segments : Nat → Segment
  thread : ReaderThread

/-- The loop over the cached segments, `tries` of them left. -/
def readLoop (hdr : Header) (segments : Nat → Segment) (iovcnt cachedCount : Nat) :
    (tries : Nat) → ReaderThread → Option ReadOutcome
  | 0, thread => some ⟨fipsBufErrorEmpty, none, segments, thread⟩
  | tries + 1, thread => do
      let next := (thread.rotation + 1) % 2 ^ 8
      let rotation := if cachedCount ≤ next then 0 else next
      let index ← (thread.cache.currentSegment[rotation]?).join
      let segment := segments index
      let currentHeadOffset := (segment.readers thread.readerIndex).headOffset
      let newHeadOffset := hdr.wrapLine (currentHeadOffset + iovcnt)
      if NotReady currentHeadOffset newHeadOffset segment.commitOffset then
        let cache ← removeCachedEntries thread.cache rotation
        readLoop hdr segments iovcnt cachedCount tries
          { thread with cache := cache, rotation := rotation }
      else
        let (iov, tag, taken) := takeLines hdr segment index thread.readerIndex iovcnt
        some ⟨fipsBufSuccess, some (iov, tag), Function.update segments index taken,
          { thread with rotation := rotation }⟩

/-- The refresh at the start of `fips_buf_read` when the generation changed. -/
def refreshCache (hdr : Header) (area : AssignmentArea) (thread : ReaderThread) :
    Option (Int × ReaderCache) :=
  if thread.cache.generation ≠ area.generation then
    updateCachedReaderValues hdr area thread.slot thread.cache
  else some (fipsBufSuccess, thread.cache)

/-- `fips_buf_read` by a thread, with the given flags. -/
def fipsBufRead (hdr : Header) (area : AssignmentArea) (segments : Nat → Segment)
    (thread : ReaderThread) (iovcnt : Nat) (flags : Int) : Option ReadOutcome :=
  if flags ≠ 0 then some ⟨fipsBufErrorNotImplemented, none, segments, thread⟩
  else
    (refreshCache hdr area thread).bind fun (code, cache) =>
      let thread := { thread with cache := cache }
      if code ≠ fipsBufSuccess then some ⟨code, none, segments, thread⟩
      else
        let cachedCount := cache.assignedReaderCount + cache.trailingBuffersCount
        readLoop hdr segments iovcnt cachedCount cachedCount thread

end FipsIpc.FipsBuf
