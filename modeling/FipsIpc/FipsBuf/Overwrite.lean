import FipsIpc.FipsBuf.ZeroCopy
import FipsIpc.Lib.LapLog

/-!
Contract: the zero-copy ring in overwrite mode.

Owns: runs of complete calls in which the writer waits for nobody, and what every
reader process is handed along them.

The writer's half of the invariant is that of a buffer without readers.  A reader
process that was lapped goes on a whole number of laps later; the lines it is handed
are those of the log for as long as the writer has not claimed their slots again.
Returns may come in any order and for any range: nobody waits for them.

Does not own: a writer that claims slots between a read and the use of its lines.
-/

set_option autoImplicit false

namespace FipsIpc.FipsBuf

open FipsIpc.Lib
open FipsIpc.Lib.RingLog
open FipsIpc.Lib.LapLog

/-! ### Runs -/

/-- A range with the number of lines that were committed when it was handed out. -/
structure HandedRange where
  range : Range
  committedThen : Nat

/-- One segment with the lines committed, the reservation of the writer and all
ranges handed to each reader process. -/
structure LossyHistory where
  segment : Segment
  committed : List (List UInt8)
  reserved : List Iovec
  handed : Nat → List HandedRange

def LossyHistory.created (hdr : Header) (data : Data) : LossyHistory :=
  ⟨.created hdr data, [], [], fun _ => []⟩

/-- The history without what was handed out. -/
def LossyHistory.writer (history : LossyHistory) : SegmentHistory :=
  ⟨history.segment, history.committed, fun _ => [], fun _ => [], history.reserved⟩

abbrev LossyBuffer := Nat → LossyHistory

namespace LossyBuffer

variable (hdr : Header) (buffer : LossyBuffer)

def forget : BufferHistory := fun index => (buffer index).writer

/-- After a call the ranges held anew were handed out by it. -/
def record (next : BufferHistory) : LossyBuffer := fun index =>
  ⟨(next index).segment, (next index).committed, (next index).reserved, fun reader =>
    (buffer index).handed reader ++
      ((next index).outstanding reader).map fun range => ⟨range, (next index).committed.length⟩⟩

/-- One complete call. -/
def step (call : BufferCall) : Option LossyBuffer :=
  (buffer.forget.step hdr call).map buffer.record

/-- The writer reserves, fills only the lines it has reserved and commits exactly
these.  Readers take batches; returns are free. -/
def Allowed : BufferCall → Prop
  | .read _ _ iovcnt => BufferHistory.BatchSize hdr iovcnt
  | .giveBack _ => True
  | call => buffer.forget.Allowed hdr call

instance (call : BufferCall) : Decidable (Allowed hdr buffer call) :=
  match call with
  | .getWriteBuffer index iovcnt =>
      inferInstanceAs (Decidable (buffer.forget.Allowed hdr (.getWriteBuffer index iovcnt)))
  | .store index address byte =>
      inferInstanceAs (Decidable (buffer.forget.Allowed hdr (.store index address byte)))
  | .write index iov => inferInstanceAs (Decidable (buffer.forget.Allowed hdr (.write index iov)))
  | .read _ _ iovcnt => inferInstanceAs (Decidable (BufferHistory.BatchSize hdr iovcnt))
  | .giveBack _ => inferInstanceAs (Decidable True)

end LossyBuffer

/-- Runs of complete calls by a well-behaved writer and any readers. -/
abbrev LossyRun (hdr : Header) : LossyBuffer → List BufferCall → LossyBuffer → Prop :=
  Run (fun buffer => buffer.step hdr) fun buffer => buffer.Allowed hdr

/-- A range handed out for the batch of the log: it held committed lines of the last
lap, and still shows them unless the writer has claimed their slots again. -/
structure HandedRange.Shows (hdr : Header) (history : LossyHistory) (handed : HandedRange)
    (batch : Nat × Nat) : Prop where
  count : handed.range.count = batch.2
  written : batch.1 + batch.2 ≤ handed.committedThen
  recent : handed.committedThen < batch.1 + hdr.lineCount
  lines : history.committed.length + history.reserved.length ≤ batch.1 + hdr.lineCount →
    handed.range.lines hdr history.segment.data = (history.committed.drop batch.1).take batch.2

/-- What the ring promises in overwrite mode to a reader process: it is handed lines
of the log in its order, each at most once, and misses whole laps; a read is refused
exactly when fewer lines are unread in the current lap than it asks for. -/
def LossyHistory.Overwriting (hdr : Header) (history : LossyHistory) : Prop :=
  ∀ reader, ∃ batches cursor,
    Laps hdr.lineCount batches cursor ∧ cursor ≤ history.committed.length ∧
      List.Forall₂ (HandedRange.Shows hdr history) (history.handed reader) batches ∧
      ∀ iovcnt, BufferHistory.BatchSize hdr iovcnt →
        (NotReady (history.segment.readers reader).headOffset
            (hdr.wrapLine ((history.segment.readers reader).headOffset + iovcnt))
            history.segment.commitOffset ↔
          (history.committed.length - cursor) % hdr.lineCount < iovcnt)

/-! ### The invariant -/

theorem Header.zero_le_maxReaderCount (hdr : Header) : 0 ≤ hdr.maxReaderCount :=
  Nat.zero_le _

/-- The buffer as an overwriting writer treats it: there is nobody to wait for. -/
def Header.unread (hdr : Header) : Header :=
  { hdr with
    readerCount := 0
    readerCount_le := hdr.zero_le_maxReaderCount
    overwrite := false }

/-- What does not change about a handed range. -/
structure HandedRange.Placed (hdr : Header) (handed : HandedRange) (batch : Nat × Nat) :
    Prop where
  start : handed.range.startIndex = batch.1 % hdr.lineCount
  count : handed.range.count = batch.2
  written : batch.1 + batch.2 ≤ handed.committedThen
  recent : handed.committedThen < batch.1 + hdr.lineCount

/-- The pointer of a reader process and the ranges it was handed. -/
structure LossyHistory.Lapped (hdr : Header) (history : LossyHistory) (reader : Nat)
    (batches : List (Nat × Nat)) (cursor : Nat) : Prop where
  laps : Laps hdr.lineCount batches cursor
  notAhead : cursor ≤ history.committed.length
  head : (history.segment.readers reader).headOffset = cursor % hdr.lineCount
  past : ∀ handed ∈ history.handed reader, handed.committedThen ≤ history.committed.length
  placed : List.Forall₂ (HandedRange.Placed hdr) (history.handed reader) batches

structure LossyHistory.Inv (hdr : Header) (index : Nat) (history : LossyHistory) : Prop where
  writer : history.writer.Inv hdr.unread index
  readers : ∀ reader, ∃ batches cursor, history.Lapped hdr reader batches cursor

/-! ### Single operations -/

section Operations

variable {hdr : Header}

/-- Nobody is waited for. -/
theorem fipsGetWriteBuffer_unread (lossy : hdr.overwrite = true) (segment : Segment)
    (iovcnt : Nat) :
    fipsGetWriteBuffer hdr segment iovcnt = fipsGetWriteBuffer hdr.unread segment iovcnt := by
  rw [fipsGetWriteBuffer_eq, fipsGetWriteBuffer_eq]
  rw [if_neg (by simp [lossy]), if_neg (by simp [Header.unread])]
  rfl

/-- Merging pending ranges leaves the read position. -/
theorem drainSqe_headOffset {fuel : Nat} {reader drained : ReaderPointer}
    (result : drainSqe hdr fuel reader = some drained) :
    drained.headOffset = reader.headOffset := by
  induction fuel generalizing reader with
  | zero => cases result
  | succ fuel inductionHypothesis =>
      unfold drainSqe at result
      split at result
      · cases result
        rfl
      · split at result
        · have merged := inductionHypothesis result
          exact merged
        · cases result
          rfl

theorem enqueueSqe_headOffset {reader queued : ReaderPointer} {tag : Range}
    (result : enqueueSqe reader tag = some (.ok queued)) :
    queued.headOffset = reader.headOffset := by
  unfold enqueueSqe at result
  dsimp only at result
  split at result
  · cases result
  · split at result
    · cases result
    · split at result
      · cases result
        rfl
      · obtain ⟨list, -, same⟩ := Option.map_eq_some_iff.mp result
        cases same
        rfl

/-- A return never moves the read position. -/
theorem fipsBufListAddSqe_headOffset {reader next : ReaderPointer} {tag : Range} {code : Int}
    (result : fipsBufListAddSqe hdr reader tag = some (code, next)) :
    next.headOffset = reader.headOffset := by
  obtain ⟨accepted, accept, rest⟩ := Option.bind_eq_some_iff.mp result
  cases accepted with
  | error refused =>
      cases rest
      rfl
  | ok queued =>
      obtain ⟨drained, drain, same⟩ := Option.map_eq_some_iff.mp rest
      cases same
      rw [drainSqe_headOffset drain]
      unfold acceptRange at accept
      split at accept
      · cases accept
        rfl
      · exact enqueueSqe_headOffset accept

/-- Pointers of readers do not matter to the writer. -/
theorem SegmentHistory.Inv.withReaders {index : Nat} {history : SegmentHistory}
    (inv : history.Inv hdr.unread index) (readers : Nat → ReaderPointer) :
    SegmentHistory.Inv hdr.unread index
      { history with segment := { history.segment with readers := readers } } where
  commit := inv.commit
  head := inv.head
  reserved := inv.reserved
  few := inv.few
  short := inv.short
  retains := inv.retains
  readers := fun _ none => absurd none (Nat.not_lt_zero _)

end Operations

namespace LossyHistory.Inv

variable {hdr : Header} {index : Nat} {history : LossyHistory}

theorem created (hdr : Header) (index : Nat) (data : Data) :
    (LossyHistory.created hdr data).Inv hdr index where
  writer := SegmentHistory.Inv.created hdr.unread index data
  readers := fun reader =>
    ⟨[], 0, .start, Nat.zero_le _, (Nat.zero_mod _).symm, by simp [LossyHistory.created], .nil⟩

/-- The readers are as before when their pointers are, and lines were only added. -/
theorem writerStep (inv : history.Inv hdr index) {next : LossyHistory}
    (writer : next.writer.Inv hdr.unread index)
    (readers : next.segment.readers = history.segment.readers)
    (grown : history.committed.length ≤ next.committed.length)
    (handed : next.handed = history.handed) : next.Inv hdr index := by
  refine ⟨writer, fun reader => ?_⟩
  obtain ⟨batches, cursor, lapped⟩ := inv.readers reader
  refine ⟨batches, cursor, lapped.laps, lapped.notAhead.trans grown, ?_, ?_, ?_⟩
  · rw [readers]
    exact lapped.head
  · intro range member
    rw [handed] at member
    exact (lapped.past range member).trans grown
  · rw [handed]
    exact lapped.placed

/-- The test of a read compares with the lines unread in the current lap. -/
theorem notReady_iff_unread (inv : history.Inv hdr index) {reader cursor iovcnt : Nat}
    {batches : List (Nat × Nat)} (lapped : history.Lapped hdr reader batches cursor)
    (batch : BufferHistory.BatchSize hdr iovcnt) :
    NotReady (history.segment.readers reader).headOffset
        (hdr.wrapLine ((history.segment.readers reader).headOffset + iovcnt))
        history.segment.commitOffset ↔
      (history.committed.length - cursor) % hdr.lineCount < iovcnt := by
  have commit : history.segment.commitOffset = history.committed.length % hdr.lineCount :=
    inv.writer.commit
  have behind := catchUp_add hdr.lineCount cursor history.committed.length
  rw [lapped.head, ← catchUp_mod lapped.notAhead, hdr.wrapLine_mod_add, commit,
    notReady_iff catchUp_le (length_lt_catchUp hdr.lineCount_pos) batch.1 batch.2.1]
  omega

/-- A ready read hands out the first unread lines of the current lap. -/
theorem take (inv : history.Inv hdr index) {reader iovcnt : Nat}
    (batch : BufferHistory.BatchSize hdr iovcnt)
    (ready : ¬ NotReady (history.segment.readers reader).headOffset
      (hdr.wrapLine ((history.segment.readers reader).headOffset + iovcnt))
      history.segment.commitOffset) :
    LossyHistory.Inv hdr index
      { history with
        segment := (takeLines hdr history.segment index reader iovcnt).2.2
        handed := Function.update history.handed reader
          (history.handed reader ++
            [⟨(takeLines hdr history.segment index reader iovcnt).2.1,
              history.committed.length⟩]) } := by
  refine ⟨inv.writer.withReaders _, fun other => ?_⟩
  by_cases same : other = reader
  · subst same
    obtain ⟨batches, cursor, lapped⟩ := inv.readers other
    have behind := catchUp_add hdr.lineCount cursor history.committed.length
    have enough := mt (inv.notReady_iff_unread lapped batch).mpr ready
    have start : catchUp hdr.lineCount cursor history.committed.length % hdr.lineCount =
        cursor % hdr.lineCount := catchUp_mod lapped.notAhead
    refine ⟨_, _, lapped.laps.caughtUp lapped.notAhead iovcnt, ?_, ?_, ?_, ?_⟩
    · change catchUp hdr.lineCount cursor history.committed.length + iovcnt ≤
        history.committed.length
      omega
    · simp only [takeLines, Function.update_self]
      rw [lapped.head, ← start, hdr.wrapLine_mod_add]
    · intro range member
      simp only [Function.update_self, List.mem_append, List.mem_singleton] at member
      rcases member with earlier | isNew
      · exact lapped.past range earlier
      · rw [isNew]
    · simp only [Function.update_self]
      refine List.rel_append lapped.placed (.cons ⟨?_, ?_, ?_, ?_⟩ .nil)
      · exact lapped.head.trans start.symm
      · exact Nat.mod_eq_of_lt batch.2.2
      · change catchUp hdr.lineCount cursor history.committed.length + iovcnt ≤
          history.committed.length
        omega
      · exact length_lt_catchUp hdr.lineCount_pos
  · obtain ⟨batches, cursor, lapped⟩ := inv.readers other
    refine ⟨batches, cursor, lapped.laps, lapped.notAhead, ?_, ?_, ?_⟩
    · simpa only [takeLines, Function.update_of_ne same] using lapped.head
    · simpa only [Function.update_of_ne same] using lapped.past
    · simpa only [Function.update_of_ne same] using lapped.placed

/-- A return leaves the read position, whatever range it names. -/
theorem giveBack (inv : history.Inv hdr index) {tag : Range} {code : Int}
    {reader : Nat} {next : ReaderPointer}
    (added : fipsBufListAddSqe hdr (history.segment.readers reader) tag = some (code, next)) :
    LossyHistory.Inv hdr index
      { history with
        segment := { history.segment with
          readers := Function.update history.segment.readers reader next } } := by
  refine ⟨inv.writer.withReaders _, fun other => ?_⟩
  obtain ⟨batches, cursor, lapped⟩ := inv.readers other
  refine ⟨batches, cursor, lapped.laps, lapped.notAhead, ?_, lapped.past, lapped.placed⟩
  by_cases same : other = reader
  · subst same
    simp only [Function.update_self]
    rw [fipsBufListAddSqe_headOffset added, lapped.head]
  · simpa only [Function.update_of_ne same] using lapped.head

/-- The invariant gives what the ring promises. -/
theorem overwriting (inv : history.Inv hdr index) : history.Overwriting hdr := by
  intro reader
  obtain ⟨batches, cursor, lapped⟩ := inv.readers reader
  refine ⟨batches, cursor, lapped.laps, lapped.notAhead, ?_, fun iovcnt batch =>
    inv.notReady_iff_unread lapped batch⟩
  refine (List.forall₂_and_left _ _ |>.mpr ⟨lapped.past, lapped.placed⟩).imp ?_
  rintro handed ⟨start, count⟩ ⟨past, placed⟩
  refine ⟨placed.count, placed.written, placed.recent, fun unclaimed => ?_⟩
  have written := placed.written
  have retains : Retains hdr.lineCount (slotLine hdr history.segment.data) history.committed
      (history.committed.length + history.reserved.length) := inv.writer.retains
  rw [← retains.read (by omega) unclaimed]
  unfold Range.lines
  simp only [placed.start, placed.count, hdr.wrapLine_mod_add]

end LossyHistory.Inv

/-! ### Whole calls -/

namespace LossyBuffer

variable (hdr : Header) (buffer : LossyBuffer)

/-- A call that does nothing. -/
theorem record_forget : buffer.record buffer.forget = buffer := by
  funext index
  simp [record, forget, LossyHistory.writer]

/-- A call of the writer hands out nothing. -/
theorem record_writer (index : Nat) {next : SegmentHistory}
    (outstanding : next.outstanding = fun _ => []) :
    buffer.record (Function.update buffer.forget index next) =
      Function.update buffer index
        ⟨next.segment, next.committed, next.reserved, (buffer index).handed⟩ := by
  funext other
  by_cases same : other = index
  · subst same
    simp [record, outstanding]
  · simp [record, forget, LossyHistory.writer, Function.update_of_ne same]

/-- A read hands out its range. -/
theorem record_read (reader : Nat) (segment : Segment) (iov : List Iovec) (tag : Range) :
    buffer.record ((buffer.forget.withSegments
        (Function.update buffer.forget.segments tag.segmentIndex segment)).recordRead reader iov
          tag) =
      Function.update buffer tag.segmentIndex
        { buffer tag.segmentIndex with
          segment := segment
          handed := Function.update (buffer tag.segmentIndex).handed reader
            ((buffer tag.segmentIndex).handed reader ++
              [⟨tag, (buffer tag.segmentIndex).committed.length⟩]) } := by
  rw [BufferHistory.withSegments_update]
  funext other
  by_cases same : other = tag.segmentIndex
  · subst same
    simp only [record, BufferHistory.recordRead, forget, LossyHistory.writer,
      Function.update_self, LossyHistory.mk.injEq, true_and]
    funext process
    by_cases isReader : process = reader
    · subst isReader
      simp
    · simp [Function.update_of_ne isReader]
  · simp [record, BufferHistory.recordRead, forget, LossyHistory.writer,
      Function.update_of_ne same]

/-- A return hands out nothing. -/
theorem record_giveBack (segment : Segment) (tag : Range) :
    buffer.record ((buffer.forget.withSegments
        (Function.update buffer.forget.segments tag.segmentIndex segment)).recordReturn tag) =
      Function.update buffer tag.segmentIndex
        { buffer tag.segmentIndex with segment := segment } := by
  rw [BufferHistory.withSegments_update]
  funext other
  by_cases same : other = tag.segmentIndex
  · subst same
    simp [record, BufferHistory.recordReturn, forget, LossyHistory.writer]
  · simp [record, BufferHistory.recordReturn, forget, LossyHistory.writer,
      Function.update_of_ne same]

/-- The invariant of the whole buffer. -/
def Inv (buffer : LossyBuffer) : Prop := ∀ index, (buffer index).Inv hdr index

namespace Inv

variable {hdr : Header} {buffer : LossyBuffer}

/-- A call that changes one segment. -/
theorem update (inv : buffer.Inv hdr) {index : Nat} {next : LossyHistory}
    (kept : next.Inv hdr index) : LossyBuffer.Inv hdr (Function.update buffer index next) := by
  intro other
  by_cases same : other = index
  · subst same
    simpa only [Function.update_self] using kept
  · simpa only [Function.update_of_ne same] using inv other

/-- A call of the writer of one segment. -/
theorem writerCall (inv : buffer.Inv hdr) {index : Nat} {segment : Segment}
    {committed : List (List UInt8)} {reserved : List Iovec}
    (writer : SegmentHistory.Inv hdr.unread index
      ⟨segment, committed, fun _ => [], fun _ => [], reserved⟩)
    (readers : segment.readers = (buffer index).segment.readers)
    (grown : (buffer index).committed.length ≤ committed.length) :
    LossyBuffer.Inv hdr (buffer.record
      (Function.update buffer.forget index
        ⟨segment, committed, fun _ => [], fun _ => [], reserved⟩)) := by
  rw [record_writer _ _ rfl]
  apply inv.update
  exact (inv index).writerStep writer readers grown rfl

/-- Every complete call preserves the invariant. -/
theorem step (fits : hdr.Fits) (lossy : hdr.overwrite = true) (buffer : LossyBuffer)
    (call : BufferCall) (next : LossyBuffer) (inv : buffer.Inv hdr)
    (allowed : buffer.Allowed hdr call) (taken : buffer.step hdr call = some next) :
    next.Inv hdr := by
  obtain ⟨history, moved, isNext⟩ := Option.map_eq_some_iff.mp taken
  subst isNext
  cases call with
  | getWriteBuffer index iovcnt =>
      obtain ⟨none, batch⟩ := allowed
      unfold BufferHistory.step at moved
      dsimp only at moved
      rw [fipsGetWriteBuffer_unread lossy] at moved
      split at moved
      · cases moved
        rw [record_forget]
        exact inv
      · rename_i iov segment granted
        cases moved
        obtain ⟨-, -, same, -⟩ := (inv index).writer.getWriteBuffer_ok rfl batch granted
        apply inv.writerCall ((inv index).writer.getWriteBuffer rfl none batch granted)
        · rw [same]
          rfl
        · exact le_rfl
  | store index address byte =>
      obtain ⟨iovec, member, lower, upper⟩ := allowed
      cases moved
      exact inv.writerCall ((inv index).writer.store fits member lower upper) rfl le_rfl
  | write index iov =>
      obtain ⟨-, bases, widths⟩ := allowed
      have length : iov.length = (buffer.forget index).reserved.length := by
        simpa using congrArg List.length bases
      unfold BufferHistory.step at moved
      dsimp only at moved
      have stored : fipsBufWrite hdr (buffer.forget index).segment iov = _ :=
        (inv index).writer.fipsBufWrite_eq length
      rw [stored] at moved
      simp only [if_true] at moved
      cases moved
      apply inv.writerCall ((inv index).writer.write fits bases widths) rfl
      simp [LossyHistory.writer]
  | read area thread iovcnt =>
      obtain ⟨outcome, result, isHistory⟩ := Option.map_eq_some_iff.mp moved
      rcases fipsBufRead_cases result with ⟨noLines, same⟩ | ⟨index, takes⟩
      · rw [noLines, same] at isHistory
        subst isHistory
        change LossyBuffer.Inv hdr (buffer.record buffer.forget)
        rw [record_forget]
        exact inv
      · dsimp only at isHistory
        rw [takes.lines, takes.segments] at isHistory
        subst isHistory
        let taken := takeLines hdr (buffer index).segment index thread.readerIndex iovcnt
        have recorded := buffer.record_read thread.readerIndex taken.2.2 taken.1 taken.2.1
        have kept := inv.update ((inv index).take allowed takes.ready)
        exact recorded ▸ kept
  | giveBack tag =>
      obtain ⟨⟨code, segments⟩, returned, isHistory⟩ := Option.map_eq_some_iff.mp moved
      obtain ⟨⟨added, reader⟩, result, same⟩ := Option.map_eq_some_iff.mp returned
      cases same
      dsimp only at isHistory
      subst isHistory
      have kept := inv.update ((inv tag.segmentIndex).giveBack result)
      exact buffer.record_giveBack _ tag ▸ kept

end Inv

end LossyBuffer

/-! ### Every run -/

def lossyLines : Header := { oneByteLines with overwrite := true }

/-- Six lines through a ring of four, of which two are read. -/
def lappingCalls : List BufferCall :=
  [.getWriteBuffer 0 3, .store 0 2 65, .store 0 5 66, .store 0 8 67,
    .write 0 [⟨2, 1⟩, ⟨5, 1⟩, ⟨8, 1⟩],
    .getWriteBuffer 0 3, .store 0 11 68, .store 0 2 69, .store 0 5 70,
    .write 0 [⟨11, 1⟩, ⟨2, 1⟩, ⟨5, 1⟩],
    .read emptyArea cachedThread 2]

end FipsIpc.FipsBuf
