import FipsIpc.FipsBuf.Header

/-!
Contract: the assignment area of a zero-copy buffer.

Owns: the writer flags and the reader assignment slots as they lie in shared
memory, the search for a free slot in `fips_buf_attach`, `fips_buf_detach`, the
distribution of segments over reader threads by `reassaign_readers`, and the
refresh of a reader thread's cache by `update_cached_reader_values`.

The area is one piece of memory: the flag bytes, padded to a multiple of eight,
then `max_reader_count` rows of `max_reader_thread_count` eight-byte slots, then
the first segment header.  `assignments` numbers the eight-byte words of the
last two parts consecutively, so that a search that stops at its bound inspects
the word that is really there.

`reassaign_readers` fills the array `active_writers`, which has one element per
`IN_USE` segment, with all segments whose flag is not zero.  A store past its
end is undefined behaviour.  `FillsInside` says that there is none; where it
fails, the functions below give what the code would do if such a store had no
effect.

Does not own: the mutex, memory allocation for the caches, and
`assert_segment_headers`, which holds of every pointer to a segment header.
-/

set_option autoImplicit false

namespace FipsIpc.FipsBuf

/-! ### Memory -/

/-- `fips_buf_assignment_t`; the fields share the word `tag`. -/
structure Assignment where
  startSegment : Nat
  count : Nat
  flags : Nat
deriving DecidableEq, Repr

namespace Assignment

/-- The slot whose `tag` is 0. -/
def free : Assignment := ⟨0, 0, 0⟩

/-- `flags & FIPS_BUF_FLAG_IN_USE`. -/
def inUse (assignment : Assignment) : Bool := assignment.flags &&& fipsBufFlagInUse != 0

/-- Byte `offset` of the word, little endian. -/
def byte (assignment : Assignment) (offset : Nat) : Nat :=
  if offset < 4 then assignment.startSegment / 256 ^ offset % 256
  else if offset < 6 then assignment.count / 256 ^ (offset - 4) % 256
  else assignment.flags / 256 ^ (offset - 6) % 256

end Assignment

/-- The shared assignment data together with the generation counter. -/
structure AssignmentArea where
  writerFlags : Nat → Nat
  assignments : Nat → Assignment
  generation : Nat

/-- `(segment_count + 7) & ~7`. -/
def Header.paddedSegmentCount (hdr : Header) : Nat := (hdr.segmentCount + 7) / 8 * 8

/-- The word index of slot `thread` in the row of reader process `reader`. -/
def Header.slot (hdr : Header) (reader thread : Nat) : Nat :=
  reader * hdr.maxReaderThreadCount + thread

namespace AssignmentArea

variable (hdr : Header) (area : AssignmentArea)

/-- `writer_assignments[index]`, whatever lies there. -/
def writerAssignment (index : Nat) : Nat :=
  if index < hdr.paddedSegmentCount then area.writerFlags index
  else
    (area.assignments ((index - hdr.paddedSegmentCount) / 8)).byte
      ((index - hdr.paddedSegmentCount) % 8)

/-- The store `writer_assignments[index] = flag` for an index up to
`segment_count`. -/
def setWriterAssignment (index flag : Nat) : AssignmentArea :=
  if index < hdr.paddedSegmentCount then
    { area with writerFlags := Function.update area.writerFlags index flag }
  else
    { area with
      assignments := Function.update area.assignments 0
        { area.assignments 0 with
          startSegment := (area.assignments 0).startSegment / 256 * 256 + flag } }

def setAssignment (slot : Nat) (assignment : Assignment) : AssignmentArea :=
  { area with assignments := Function.update area.assignments slot assignment }

/-! ### `reassaign_readers` -/

def getReaderThreadCount (reader : Nat) : Nat :=
  (List.range hdr.maxReaderThreadCount).countP fun thread =>
    (area.assignments (hdr.slot reader thread)).inUse

def getWriterThreadCount : Nat :=
  (List.range hdr.segmentCount).countP fun segment =>
    area.writerAssignment hdr segment == fipsBufFlagInUse

/-- The values stored in `active_writers`: every segment with a nonzero flag. -/
def activeWriters : List Nat :=
  (List.range hdr.segmentCount).filter fun segment => area.writerAssignment hdr segment != 0

end AssignmentArea

/-- The counters of an assignment loop. -/
structure LoopState where
  assigned : Nat
  remainder : Nat

/-- One more reader thread when there are fewer segments than threads: the
(`start_segment`, `count`) it gets. -/
def moreReadersStep (activeWriters : List Nat) (activeWriterThreads readerPerWriter : Nat)
    (state : LoopState) : (Nat × Nat) × LoopState :=
  if state.assigned < activeWriterThreads * readerPerWriter then
    ((activeWriters.getD (state.assigned / readerPerWriter) 0, 1),
      ⟨state.assigned + 1, state.remainder⟩)
  else
    ((activeWriters.getD (state.remainder - 1) 0, 1),
      ⟨state.assigned + 1, state.remainder - 1⟩)

/-- One more reader thread when there are at least as many segments. -/
def moreWritersStep (activeWriters : List Nat) (writerPerReader : Nat) (state : LoopState) :
    (Nat × Nat) × LoopState :=
  if state.remainder > 0 then
    ((activeWriters.getD state.assigned 0, writerPerReader + 1),
      ⟨state.assigned + (writerPerReader + 1), state.remainder - 1⟩)
  else
    ((activeWriters.getD state.assigned 0, writerPerReader),
      ⟨state.assigned + writerPerReader, state.remainder⟩)

/-- The loop over the slots of one row: every slot in use gets the next pair. -/
def assignLoop (step : LoopState → (Nat × Nat) × LoopState) :
    List Nat → LoopState → (Nat → Assignment) → Nat → Assignment
  | [], _, cells => cells
  | slot :: rest, state, cells =>
      if (cells slot).inUse then
        let result := step state
        assignLoop step rest result.2
          (Function.update cells slot
            { cells slot with startSegment := result.1.1, count := result.1.2 })
      else assignLoop step rest state cells

namespace AssignmentArea

variable (hdr : Header) (area : AssignmentArea)

/-- The step function for a process with `activeReaderThreads` threads. -/
def rowStep (activeReaderThreads : Nat) : LoopState → (Nat × Nat) × LoopState :=
  let activeWriterThreads := area.getWriterThreadCount hdr
  if activeWriterThreads < 1 then fun state => ((0, 0), state)
  else if activeWriterThreads / activeReaderThreads < 1 then
    moreReadersStep (area.activeWriters hdr) activeWriterThreads
      (activeReaderThreads / activeWriterThreads)
  else moreWritersStep (area.activeWriters hdr) (activeWriterThreads / activeReaderThreads)

/-- The initial counters of that loop. -/
def rowStart (activeReaderThreads : Nat) : LoopState :=
  let activeWriterThreads := area.getWriterThreadCount hdr
  if activeWriterThreads / activeReaderThreads < 1 then
    ⟨0, activeReaderThreads % activeWriterThreads⟩
  else ⟨0, activeWriterThreads % activeReaderThreads⟩

/-- The words of the row of process `reader`. -/
def rowSlots (reader : Nat) : List Nat :=
  (List.range hdr.maxReaderThreadCount).map (hdr.slot reader)

/-- The body of `reassaign_readers` for one reader process. -/
def reassaignRow (reader : Nat) : AssignmentArea :=
  let activeReaderThreads := area.getReaderThreadCount hdr reader
  if activeReaderThreads < 1 then area
  else
    { area with
      assignments := assignLoop (area.rowStep hdr activeReaderThreads) (rowSlots hdr reader)
        (area.rowStart hdr activeReaderThreads) area.assignments }

def reassaignReaders : AssignmentArea :=
  (List.range hdr.readerCount).foldl (fun area reader => area.reassaignRow hdr reader) area

/-- No store of `reassaign_readers` lies past the end of `active_writers`.  The
array is filled once for every process with a thread, and only if some segment
is `IN_USE`. -/
def FillsInside : Prop :=
  ∀ reader < hdr.readerCount, 1 ≤ area.getReaderThreadCount hdr reader →
    1 ≤ area.getWriterThreadCount hdr →
      (area.activeWriters hdr).length ≤ area.getWriterThreadCount hdr

instance : Decidable (area.FillsInside hdr) :=
  inferInstanceAs (Decidable (∀ reader < hdr.readerCount, _))

/-- `reassaign_readers(header)` and `assignment_generation++`. -/
def republish : AssignmentArea :=
  { area.reassaignReaders hdr with generation := (area.generation + 1) % 2 ^ 64 }

end AssignmentArea

/-! ### Attach and detach -/

/-- The role of the calling process, with its `reader_index`. -/
inductive Role where
  | writer
  | reader (readerIndex : Nat)
deriving DecidableEq, Repr

/-- `fips_buf_attach` up to `reassaign_readers`: the thread index and the area, or
the error code.  The search stops at its bound, and the element there is
inspected all the same. -/
def claimSlot (hdr : Header) (area : AssignmentArea) : Role → Except Int (Nat × AssignmentArea)
  | .writer =>
      let index := (List.range hdr.segmentCount).findIdx fun segment =>
        area.writerAssignment hdr segment == fipsBufFlagFree
      if area.writerAssignment hdr index = fipsBufFlagFree then
        .ok (index, area.setWriterAssignment hdr index fipsBufFlagInUse)
      else .error fipsBufErrorNoFreeSegment
  | .reader readerIndex =>
      let index := (List.range hdr.maxReaderThreadCount).findIdx fun thread =>
        !(area.assignments (hdr.slot readerIndex thread)).inUse
      let found := area.assignments (hdr.slot readerIndex index)
      if found = .free then
        .ok (index, area.setAssignment (hdr.slot readerIndex index)
          { found with flags := fipsBufFlagInUse })
      else .error fipsBufErrorNoFreeSegment

/-- `fips_buf_attach`. -/
def fipsBufAttach (hdr : Header) (area : AssignmentArea) (role : Role) :
    Except Int (Nat × AssignmentArea) :=
  match claimSlot hdr area role with
  | .ok (index, claimed) => .ok (index, claimed.republish hdr)
  | .error code => .error code

/-- `fips_buf_attach` stores nothing past the end of `active_writers`. -/
def AttachFillsInside (hdr : Header) (area : AssignmentArea) (role : Role) : Prop :=
  match claimSlot hdr area role with
  | .ok (_, claimed) => claimed.FillsInside hdr
  | .error _ => True

instance (hdr : Header) (area : AssignmentArea) (role : Role) :
    Decidable (AttachFillsInside hdr area role) :=
  show Decidable (match claimSlot hdr area role with
    | .ok (_, claimed) => AssignmentArea.FillsInside hdr claimed
    | .error _ => True) from
  match claimSlot hdr area role with
  | .ok (_, claimed) => inferInstanceAs (Decidable (AssignmentArea.FillsInside hdr claimed))
  | .error _ => inferInstanceAs (Decidable True)

/-- The scan of `add_flag_affected_readers` over one slot: the segments from its
start on, and how many of its `count` segments have not been seen.  The result
is the number of times the flag is added, and whether the scan found all. -/
def affectedBySlot (inUse : Nat → Bool) (threadIndex : Nat) :
    (segments : List Nat) → (missing : Nat) → Nat × Bool
  | _, 0 => (0, true)
  | [], _ + 1 => (0, false)
  | segment :: rest, missing + 1 =>
      if inUse segment then
        let result := affectedBySlot inUse threadIndex rest missing
        (if segment = threadIndex then result.1 + 1 else result.1, result.2)
      else affectedBySlot inUse threadIndex rest (missing + 1)

/-- The loop of `add_flag_affected_readers` over the slots; a slot that runs
past the last segment ends it with an error code. -/
def addFlagAffectedReaders (hdr : Header) (threadIndex flags : Nat) :
    List Nat → (affectedReaders : Nat) → AssignmentArea → Int × AssignmentArea
  | [], affectedReaders, area => (affectedReaders, area)
  | slot :: rest, affectedReaders, area =>
      let assignment := area.assignments slot
      if assignment.inUse then
        let result := affectedBySlot
          (fun segment => area.writerAssignment hdr segment == fipsBufFlagInUse) threadIndex
          ((List.range hdr.segmentCount).drop assignment.startSegment) assignment.count
        let area :=
          if result.1 = 0 then area
          else area.setAssignment slot { assignment with flags := assignment.flags ||| flags }
        if result.2 then
          addFlagAffectedReaders hdr threadIndex flags rest (affectedReaders + result.1) area
        else (fipsBufErrorCorrupted, area)
      else addFlagAffectedReaders hdr threadIndex flags rest affectedReaders area

/-- The slots of all reader processes, row by row. -/
def Header.allSlots (hdr : Header) : List Nat :=
  (List.range hdr.readerCount).flatMap (AssignmentArea.rowSlots hdr)

/-- `fips_buf_detach` by the thread that got `threadIndex`, up to
`reassaign_readers`. -/
def releaseSlot (hdr : Header) (area : AssignmentArea) (role : Role) (threadIndex : Nat) :
    AssignmentArea :=
  match role with
  | .writer =>
      let (readerCount, flagged) :=
        addFlagAffectedReaders hdr threadIndex fipsBufFlagTrailing hdr.allSlots 0 area
      let flag := if readerCount > 0 then fipsBufFlagTrailing else fipsBufFlagFree
      flagged.setWriterAssignment hdr threadIndex flag
  | .reader readerIndex => area.setAssignment (hdr.slot readerIndex threadIndex) .free

/-- `fips_buf_detach`. -/
def fipsBufDetach (hdr : Header) (area : AssignmentArea) (role : Role) (threadIndex : Nat) :
    AssignmentArea :=
  (releaseSlot hdr area role threadIndex).republish hdr

/-- `fips_buf_detach` stores nothing past the end of `active_writers`. -/
def DetachFillsInside (hdr : Header) (area : AssignmentArea) (role : Role) (threadIndex : Nat) :
    Prop :=
  (releaseSlot hdr area role threadIndex).FillsInside hdr

instance (hdr : Header) (area : AssignmentArea) (role : Role) (threadIndex : Nat) :
    Decidable (DetachFillsInside hdr area role threadIndex) :=
  inferInstanceAs (Decidable (AssignmentArea.FillsInside hdr _))

/-! ### The cache of a reader thread -/

/-- The cache in `fips_buf_thread_arg_t`.  `currentSegment` holds segment
indices for the pointers of that array, `none` for a null pointer; an entry of
`assigned_index` always points to the same segment's pair for this process. -/
structure ReaderCache where
  currentSegment : List (Option Nat)
  assignedReaderCount : Nat
  trailingBuffersCount : Nat
  generation : Nat

/-- The segments the scan of `update_cached_reader_values` picks: `count` times
the next `IN_USE` flag from `segment` on, and whether all were found.  The
bound is checked only after a flag that is not `IN_USE`.  `fuel` bounds the
flags inspected. -/
def pickSegments (hdr : Header) (area : AssignmentArea) :
    (fuel segment count : Nat) → List Nat × Bool
  | _, _, 0 => ([], true)
  | 0, _, _ + 1 => ([], false)
  | fuel + 1, segment, count + 1 =>
      if area.writerAssignment hdr segment = fipsBufFlagInUse then
        let result := pickSegments hdr area fuel (segment + 1) count
        (segment :: result.1, result.2)
      else if segment + 1 ≥ hdr.segmentCount then ([], false)
      else pickSegments hdr area fuel (segment + 1) (count + 1)

/-- The cached segments whose writer has detached; a null entry cannot be
followed. -/
def trailingEntries (hdr : Header) (area : AssignmentArea) (cache : ReaderCache) :
    Option (List Nat) :=
  ((cache.currentSegment.take (cache.assignedReaderCount + cache.trailingBuffersCount)).mapM
    id).map fun segments =>
      segments.filter fun segment => area.writerAssignment hdr segment == fipsBufFlagTrailing

/-- The cache array filled from the start, null after that. -/
def fillCache (hdr : Header) (segments : List Nat) : List (Option Nat) :=
  segments.map some ++ List.replicate (hdr.segmentCount - segments.length) none

/-- `update_cached_reader_values` for the thread with assignment slot `slot`:
the return code and the cache, or nothing where the C code follows a pointer
that is not a segment or writes past the cache arrays. -/
def updateCachedReaderValues (hdr : Header) (area : AssignmentArea) (slot : Option Nat)
    (cache : ReaderCache) : Option (Int × ReaderCache) :=
  match slot with
  | none => some (-1, cache)
  | some slot => do
      let assignment := area.assignments slot
      let trailing ← trailingEntries hdr area cache
      let picked := pickSegments hdr area (hdr.segmentCount + assignment.count)
        assignment.startSegment assignment.count
      if picked.1.length > hdr.segmentCount ∨ ∃ segment ∈ picked.1, segment ≥ hdr.segmentCount then
        none
      else if picked.2 = false then
        some (fipsBufErrorCorrupted,
          { cache with
            currentSegment := fillCache hdr picked.1
            assignedReaderCount := assignment.count % 2 ^ 8 })
      else if picked.1.length + trailing.length > hdr.segmentCount then none
      else
        some (fipsBufSuccess,
          { currentSegment := fillCache hdr (picked.1 ++ trailing)
            assignedReaderCount := assignment.count % 2 ^ 8
            trailingBuffersCount := trailing.length
            generation := area.generation })

end FipsIpc.FipsBuf
