import FipsIpc.Lib.Run
import FipsIpc.FipsBuf.Lines

/-!
Contract: the zero-copy ring as a broadcast log.

Owns: runs of complete calls on all segments of a buffer without overwrite (one
writer per segment that reserves, fills and commits, reader threads with any
cache that read and return in order), the lines committed, received and still
held as history variables, the invariant over unwrapped counters, and what every
reader process observes along every run.

A reader thread is given with each call: its cache may be any cache, so that
attaching, detaching and refreshing by anybody between two calls is covered.

Does not own: out-of-order returns, readers that join later, overwrite mode.
-/

set_option autoImplicit false

namespace FipsIpc.FipsBuf

open FipsIpc.Lib
open FipsIpc.Lib.RingLog

/-! ### Runs -/

/-- One segment with its history: the lines committed, the lines each reader
process received, the ranges it holds, and the reservation of the writer. -/
structure SegmentHistory where
  segment : Segment
  committed : List (List UInt8)
  received : Nat → List (List UInt8)
  outstanding : Nat → List Range
  reserved : List Iovec

def SegmentHistory.created (hdr : Header) (data : Data) : SegmentHistory where
  segment := .created hdr data
  committed := []
  received := fun _ => []
  outstanding := fun _ => []
  reserved := []

abbrev BufferHistory := Nat → SegmentHistory

/-- The segments of the buffer. -/
def BufferHistory.segments (history : BufferHistory) (index : Nat) : Segment :=
  (history index).segment

inductive BufferCall where
  | getWriteBuffer (index iovcnt : Nat)
  | store (index address : Nat) (byte : UInt8)
  | write (index : Nat) (iov : List Iovec)
  | read (area : AssignmentArea) (thread : ReaderThread) (iovcnt : Nat)
  | giveBack (tag : Range)

namespace BufferHistory

variable (hdr : Header) (history : BufferHistory)

/-- The history after a call left the given segments. -/
def withSegments (segments : Nat → Segment) : BufferHistory :=
  fun index => { history index with segment := segments index }

/-- A range read by process `reader`: its lines are received and the range is
held until it is returned. -/
def recordRead (reader : Nat) (iov : List Iovec) (tag : Range) : BufferHistory :=
  let old := history tag.segmentIndex
  Function.update history tag.segmentIndex
    { old with
      received := Function.update old.received reader
        (old.received reader ++ iov.map (Iovec.bytes old.segment.data))
      outstanding := Function.update old.outstanding reader (old.outstanding reader ++ [tag]) }

/-- The oldest range of a process was returned. -/
def recordReturn (tag : Range) : BufferHistory :=
  let old := history tag.segmentIndex
  Function.update history tag.segmentIndex
    { old with
      outstanding := Function.update old.outstanding tag.readerIndex
        (old.outstanding tag.readerIndex).tail }

/-- One complete call.  Lines count as committed when `fips_buf_write` returns
success. -/
def step : BufferCall → Option BufferHistory
  | .getWriteBuffer index iovcnt =>
      let old := history index
      match fipsGetWriteBuffer hdr old.segment iovcnt with
      | .error _ => some history
      | .ok (iov, segment) =>
          some (Function.update history index { old with segment := segment, reserved := iov })
  | .store index address byte =>
      let old := history index
      some (Function.update history index
        { old with
          segment := { old.segment with data := Function.update old.segment.data address byte } })
  | .write index iov =>
      let old := history index
      let result := fipsBufWrite hdr old.segment iov
      some (Function.update history index
        { old with
          segment := result.2
          committed :=
            if result.1 = fipsBufSuccess then
              old.committed ++ iov.map (Iovec.bytes old.segment.data)
            else old.committed
          reserved := if result.1 = fipsBufSuccess then [] else old.reserved })
  | .read area thread iovcnt =>
      (fipsBufRead hdr area history.segments thread iovcnt 0).map fun outcome =>
        let history := history.withSegments outcome.segments
        match outcome.lines with
        | none => history
        | some (iov, tag) => history.recordRead thread.readerIndex iov tag
  | .giveBack tag =>
      (fipsBufReturn hdr history.segments tag).map fun (_, segments) =>
        (history.withSegments segments).recordReturn tag

/-- A batch leaves at least one line of the ring free and fits in a tag. -/
def BatchSize (iovcnt : Nat) : Prop := 1 ≤ iovcnt ∧ iovcnt < hdr.lineCount ∧ iovcnt < 2 ^ 16

/-- The calls of well-behaved users: the writer reserves, fills only the lines
it has reserved and commits exactly these; a reader process returns its ranges
in the order it read them. -/
def Allowed : BufferCall → Prop
  | .getWriteBuffer index iovcnt => (history index).reserved = [] ∧ BatchSize hdr iovcnt
  | .store index address _ => ∃ iovec ∈ (history index).reserved,
      iovec.base ≤ address ∧ address < iovec.base + hdr.lineSize
  | .write index iov => iov ≠ [] ∧
      iov.map Iovec.base = (history index).reserved.map Iovec.base ∧
      ∀ iovec ∈ iov, iovec.len ≤ hdr.lineSize ∧ iovec.len < 2 ^ 16
  | .read _ thread iovcnt => thread.readerIndex < hdr.readerCount ∧ BatchSize hdr iovcnt
  | .giveBack tag => tag.readerIndex < hdr.readerCount ∧
      ((history tag.segmentIndex).outstanding tag.readerIndex).head? = some tag

instance (iovcnt : Nat) : Decidable (BatchSize hdr iovcnt) :=
  inferInstanceAs (Decidable (_ ∧ _ ∧ _))

instance (call : BufferCall) : Decidable (Allowed hdr history call) :=
  match call with
  | .getWriteBuffer index _ =>
      match (history index).reserved with
      | [] => inferInstanceAs (Decidable (_ ∧ _))
      | _ :: _ => inferInstanceAs (Decidable (_ ∧ _))
  | .store _ _ _ => inferInstanceAs (Decidable (∃ iovec ∈ _, _))
  | .write _ _ => inferInstanceAs (Decidable (_ ∧ _))
  | .read _ _ _ => inferInstanceAs (Decidable (_ ∧ _))
  | .giveBack _ => inferInstanceAs (Decidable (_ ∧ _))

end BufferHistory

/-- Runs of complete calls by well-behaved users. -/
abbrev BufferRun (hdr : Header) : BufferHistory → List BufferCall → BufferHistory → Prop :=
  Run (fun history => history.step hdr) fun history => history.Allowed hdr

/-- The line addresses of a range. -/
def Range.bases (hdr : Header) (range : Range) : List Nat :=
  (List.range range.count).map fun offset =>
    slotBase hdr (hdr.wrapLine (range.startIndex + offset))

/-- The lines a holder of the range sees now. -/
def Range.lines (hdr : Header) (data : Data) (range : Range) : List (List UInt8) :=
  (List.range range.count).map fun offset =>
    slotLine hdr data (hdr.wrapLine (range.startIndex + offset))

/-- What the ring promises for one segment: every reader process has received a
prefix of the committed lines; the ranges it holds still contain the lines it
received last; and no reservation hands out a line of a range somebody holds. -/
structure SegmentHistory.ZeroCopy (hdr : Header) (history : SegmentHistory) : Prop where
  receivedPrefix : ∀ reader < hdr.readerCount, history.received reader <+: history.committed
  heldLines : ∀ reader < hdr.readerCount,
    (history.outstanding reader).flatMap (Range.lines hdr history.segment.data) <:+
      history.received reader
  notHandedOut : ∀ iovcnt iov segment, BufferHistory.BatchSize hdr iovcnt →
    fipsGetWriteBuffer hdr history.segment iovcnt = .ok (iov, segment) →
    ∀ reader < hdr.readerCount, ∀ tag ∈ history.outstanding reader, ∀ base ∈ tag.bases hdr,
      base ∉ iov.map Iovec.base

/-! ### The invariant -/

/-- The ranges held by a process are consecutive, from line `low` to line
`high`. -/
def Holds (hdr : Header) (index reader : Nat) : (low : Nat) → List Range → (high : Nat) → Prop
  | low, [], high => low = high
  | low, tag :: rest, high =>
      tag.startIndex = low % hdr.lineCount ∧ tag.segmentIndex = index ∧
        tag.readerIndex = reader ∧ Holds hdr index reader (low + tag.count) rest high

/-- The pointers and histories of one reader process that has returned
`returned` lines. -/
structure ReaderInv (hdr : Header) (index : Nat) (history : SegmentHistory) (reader : Nat)
    (returned : Nat) : Prop where
  head : (history.segment.readers reader).headOffset =
    (history.received reader).length % hdr.lineCount
  commit : (history.segment.readers reader).commitOffset = returned % hdr.lineCount
  idle : (history.segment.readers reader).list.first = none
  holds : Holds hdr index reader returned (history.outstanding reader)
    (history.received reader).length
  notAhead : (history.received reader).length ≤ history.committed.length
  withinLap : history.committed.length + history.reserved.length < returned + hdr.lineCount
  received : history.received reader =
    history.committed.take (history.received reader).length

/-- All pointers and lines of a segment against its history. -/
structure SegmentHistory.Inv (hdr : Header) (index : Nat) (history : SegmentHistory) : Prop where
  commit : history.segment.commitOffset = history.committed.length % hdr.lineCount
  head : history.segment.headOffset =
    (history.committed.length + history.reserved.length) % hdr.lineCount
  reserved : history.reserved.map Iovec.base =
    (List.range history.reserved.length).map fun offset =>
      slotBase hdr ((history.committed.length + offset) % hdr.lineCount)
  few : history.reserved.length < hdr.lineCount
  short : ∀ line ∈ history.committed, line.length ≤ hdr.lineSize
  retains : Retains hdr.lineCount (slotLine hdr history.segment.data) history.committed
    (history.committed.length + history.reserved.length)
  readers : ∀ reader < hdr.readerCount, ∃ returned, ReaderInv hdr index history reader returned

theorem Header.wrapLine_mod_add (hdr : Header) (low count : Nat) :
    hdr.wrapLine (low % hdr.lineCount + count) = (low + count) % hdr.lineCount := by
  rw [hdr.wrapLine_eq_mod, Nat.mod_add_mod]

/-- Returning the next range when nothing is queued just moves the offset. -/
theorem fipsBufListAddSqe_inOrder {hdr : Header} {reader : ReaderPointer} {tag : Range}
    (inOrder : reader.commitOffset = tag.startIndex) (idle : reader.list.first = none) :
    fipsBufListAddSqe hdr reader tag = some (fipsBufSuccess,
      { reader with commitOffset := hdr.wrapLine (reader.commitOffset + tag.count) }) := by
  unfold fipsBufListAddSqe acceptRange
  rw [if_pos inOrder, Option.bind_some]
  dsimp only
  rw [drainSqe, idle]
  rfl

namespace Holds

variable {hdr : Header} {index reader low high : Nat} {tags : List Range}

theorem low_le (holds : Holds hdr index reader low tags high) : low ≤ high := by
  induction tags generalizing low with
  | nil => exact Nat.le_of_eq holds
  | cons tag rest inductionHypothesis =>
      have := inductionHypothesis holds.2.2.2
      omega

theorem append (holds : Holds hdr index reader low tags high) {count : Nat} :
    Holds hdr index reader low (tags ++ [⟨high % hdr.lineCount, count, index, reader⟩])
      (high + count) := by
  induction tags generalizing low with
  | nil =>
      obtain rfl : low = high := holds
      exact ⟨rfl, rfl, rfl, rfl⟩
  | cons tag rest inductionHypothesis =>
      obtain ⟨start, segment, process, later⟩ := holds
      exact ⟨start, segment, process, inductionHypothesis later⟩

/-- The lines of the held ranges, as far as the ring retains them. -/
theorem lines_eq {data : Data} {committed : List (List UInt8)} {claimed : Nat}
    (holds : Holds hdr index reader low tags high)
    (retains : Retains hdr.lineCount (slotLine hdr data) committed claimed)
    (written : high ≤ committed.length) (recent : claimed ≤ low + hdr.lineCount) :
    tags.flatMap (Range.lines hdr data) = (committed.drop low).take (high - low) := by
  induction tags generalizing low with
  | nil =>
      obtain rfl : low = high := holds
      simp
  | cons tag rest inductionHypothesis =>
      obtain ⟨start, -, -, later⟩ := holds
      have bound := later.low_le
      have tagLines : Range.lines hdr data tag = (committed.drop low).take tag.count := by
        rw [← retains.read (by omega) recent]
        unfold Range.lines
        simp only [start, hdr.wrapLine_mod_add]
      have total : high - low = tag.count + (high - (low + tag.count)) := by omega
      rw [List.flatMap_cons, tagLines, inductionHypothesis later (by omega), total, List.take_add,
        List.drop_drop]

/-- Every line of a held range is one of the lines `low` to `high`. -/
theorem position {tag : Range} (holds : Holds hdr index reader low tags high)
    (member : tag ∈ tags) {base : Nat} (isBase : base ∈ tag.bases hdr) :
    ∃ line, low ≤ line ∧ line < high ∧ base = slotBase hdr (line % hdr.lineCount) := by
  induction tags generalizing low with
  | nil => simp at member
  | cons head rest inductionHypothesis =>
      obtain ⟨start, -, -, later⟩ := holds
      have bound := later.low_le
      rcases List.mem_cons.mp member with rfl | inRest
      · obtain ⟨offset, inside, rfl⟩ := List.mem_map.mp isBase
        have below := List.mem_range.mp inside
        refine ⟨low + offset, by omega, by omega, ?_⟩
        rw [start, hdr.wrapLine_mod_add]
      · obtain ⟨line, lower, upper, same⟩ := inductionHypothesis later inRest
        exact ⟨line, by omega, upper, same⟩

end Holds

namespace SegmentHistory.Inv

variable {hdr : Header} {index : Nat} {history : SegmentHistory}

theorem created (hdr : Header) (index : Nat) (data : Data) :
    (SegmentHistory.created hdr data).Inv hdr index where
  commit := by simp [SegmentHistory.created, Segment.created]
  head := by simp [SegmentHistory.created, Segment.created]
  reserved := rfl
  few := hdr.lineCount_pos
  short := by simp [SegmentHistory.created]
  retains := .nil
  readers := by
    intro reader _
    have positive := hdr.lineCount_pos
    refine ⟨0, ?_, ?_, rfl, rfl, le_rfl, ?_, rfl⟩
    · simp [SegmentHistory.created, Segment.created]
    · simp [SegmentHistory.created, Segment.created]
    · simpa [SegmentHistory.created] using positive

/-- A granted reservation: the next lines, and no reader is overtaken. -/
theorem getWriteBuffer_ok (inv : history.Inv hdr index) (blocking : hdr.overwrite = false)
    {iovcnt : Nat} (batch : BufferHistory.BatchSize hdr iovcnt) {iov : List Iovec}
    {segment : Segment}
    (granted : fipsGetWriteBuffer hdr history.segment iovcnt = .ok (iov, segment)) :
    iov.length = iovcnt ∧
      iov.map Iovec.base = ((List.range iovcnt).map fun offset =>
        slotBase hdr ((history.committed.length + history.reserved.length + offset) %
          hdr.lineCount)) ∧
      segment = { history.segment with
        headOffset := (history.committed.length + history.reserved.length + iovcnt) %
          hdr.lineCount } ∧
      ∀ reader < hdr.readerCount, ∀ returned, ReaderInv hdr index history reader returned →
        history.committed.length + history.reserved.length + iovcnt < returned + hdr.lineCount := by
  obtain ⟨nonempty, inside, -⟩ := batch
  rw [fipsGetWriteBuffer_eq, inv.head, hdr.wrapLine_mod_add] at granted
  split at granted
  · cases granted
  · rename_i noOvertaking
    simp only [hdr.wrapLine_mod_add] at granted
    cases granted
    refine ⟨by simp, by simp [Function.comp_def], rfl, ?_⟩
    intro reader registered returned readerInv
    by_contra overtaken
    have ordered : returned ≤ history.committed.length + history.reserved.length := by
      have held := readerInv.holds.low_le
      have notAhead := readerInv.notAhead
      omega
    apply noOvertaking
    refine ⟨blocking, reader, registered, ?_⟩
    rw [readerInv.commit]
    exact (overtakes_iff ordered readerInv.withinLap nonempty inside).mpr (by omega)

/-- The invariant gives what the ring promises. -/
theorem zeroCopy (inv : history.Inv hdr index) (fits : hdr.Fits)
    (blocking : hdr.overwrite = false) : history.ZeroCopy hdr where
  receivedPrefix := by
    intro reader registered
    obtain ⟨returned, readerInv⟩ := inv.readers reader registered
    rw [readerInv.received]
    exact ⟨_, List.take_append_drop _ _⟩
  heldLines := by
    intro reader registered
    obtain ⟨returned, readerInv⟩ := inv.readers reader registered
    rw [readerInv.holds.lines_eq inv.retains readerInv.notAhead readerInv.withinLap.le,
      ← List.drop_take, ← readerInv.received]
    exact List.drop_suffix _ _
  notHandedOut := by
    intro iovcnt iov segment batch granted reader registered tag member base isBase handedOut
    obtain ⟨returned, readerInv⟩ := inv.readers reader registered
    obtain ⟨-, bases, -, room⟩ := inv.getWriteBuffer_ok blocking batch granted
    obtain ⟨line, lower, upper, rfl⟩ := readerInv.holds.position member isBase
    rw [bases] at handedOut
    obtain ⟨offset, isOffset, same⟩ := List.mem_map.mp handedOut
    have below := List.mem_range.mp isOffset
    have notAhead := readerInv.notAhead
    have free := room reader registered returned readerInv
    exact mod_ne_of_lt_of_lt_add (by omega) (by omega) (slotBase_inj fits same).symm

/-! ### One call -/

/-- A granted reservation claims lines. -/
theorem getWriteBuffer (inv : history.Inv hdr index) (blocking : hdr.overwrite = false)
    (none : history.reserved = []) {iovcnt : Nat} (batch : BufferHistory.BatchSize hdr iovcnt)
    {iov : List Iovec} {segment : Segment}
    (granted : fipsGetWriteBuffer hdr history.segment iovcnt = .ok (iov, segment)) :
    SegmentHistory.Inv hdr index { history with segment := segment, reserved := iov } := by
  obtain ⟨length, bases, rfl, room⟩ := inv.getWriteBuffer_ok blocking batch granted
  simp only [none, List.length_nil, Nat.add_zero] at bases room
  have retains := inv.retains
  rw [none, List.length_nil, Nat.add_zero] at retains
  refine ⟨inv.commit, ?_, ?_, ?_, inv.short, ?_, ?_⟩
  · simp only [none, List.length_nil, Nat.add_zero, length]
  · simp only [bases, length]
  · simpa only [length] using batch.2.1
  · exact retains.claim (by simp)
  · intro reader registered
    obtain ⟨returned, readerInv⟩ := inv.readers reader registered
    refine ⟨returned, readerInv.head, readerInv.commit, readerInv.idle, readerInv.holds,
      readerInv.notAhead, ?_, readerInv.received⟩
    simpa only [length] using room reader registered returned readerInv

/-- Changing the data area keeps all pointers. -/
theorem withData (inv : history.Inv hdr index) {data : Data}
    (retains : Retains hdr.lineCount (slotLine hdr data) history.committed
      (history.committed.length + history.reserved.length)) :
    SegmentHistory.Inv hdr index
      { history with segment := { history.segment with data := data } } where
  commit := inv.commit
  head := inv.head
  reserved := inv.reserved
  few := inv.few
  short := inv.short
  retains := retains
  readers := by
    intro reader registered
    obtain ⟨returned, readerInv⟩ := inv.readers reader registered
    exact ⟨returned, readerInv.head, readerInv.commit, readerInv.idle, readerInv.holds,
      readerInv.notAhead, readerInv.withinLap, readerInv.received⟩

/-- The slot of a reserved line. -/
theorem reserved_slot (inv : history.Inv hdr index) {iovec : Iovec}
    (member : iovec ∈ history.reserved) :
    ∃ line, history.committed.length ≤ line ∧
      line < history.committed.length + history.reserved.length ∧
      iovec.base = slotBase hdr (line % hdr.lineCount) := by
  have isBase : iovec.base ∈ history.reserved.map Iovec.base := List.mem_map_of_mem member
  rw [inv.reserved] at isBase
  obtain ⟨offset, isOffset, same⟩ := List.mem_map.mp isBase
  exact ⟨history.committed.length + offset, by omega, by have := List.mem_range.mp isOffset; omega,
    same.symm⟩

/-- Bytes stored in reserved slots leave the retained lines alone. -/
theorem retains_of_reserved (inv : history.Inv hdr index) (fits : hdr.Fits) {data : Data}
    (onlyReserved : ∀ address, data address ≠ history.segment.data address →
      ∃ iovec ∈ history.reserved,
        iovec.base ≤ address + 2 ∧ address < iovec.base + hdr.lineSize) :
    Retains hdr.lineCount (slotLine hdr data) history.committed
      (history.committed.length + history.reserved.length) := by
  apply inv.retains.write _ hdr.lineCount_pos
  intro position _ isLine notClaimed
  apply slotLine_congr fits (inv.short _ isLine)
  intro address lower upper
  by_contra changed
  obtain ⟨iovec, member, reservedLower, reservedUpper⟩ := onlyReserved address changed
  obtain ⟨line, pastEnd, below, base⟩ := inv.reserved_slot member
  rw [slotBase_eq fits] at base
  exact notClaimed line pastEnd below
    (slot_of_address ⟨lower, upper⟩ ⟨by omega, by omega⟩)

/-- The writer fills a line it has reserved. -/
theorem store (inv : history.Inv hdr index) (fits : hdr.Fits) {address : Nat} {byte : UInt8}
    {iovec : Iovec} (member : iovec ∈ history.reserved) (lower : iovec.base ≤ address)
    (upper : address < iovec.base + hdr.lineSize) :
    SegmentHistory.Inv hdr index
      { history with
        segment := { history.segment with
          data := Function.update history.segment.data address byte } } := by
  apply inv.withData
  apply inv.retains_of_reserved fits
  intro other changed
  by_cases same : other = address
  · subst same
    exact ⟨iovec, member, by omega, upper⟩
  · exact absurd (Function.update_of_ne same _ _) changed

/-- Distinct reserved lines have distinct width fields. -/
theorem reserved_apart (inv : history.Inv hdr index) (fits : hdr.Fits) :
    (history.reserved.map Iovec.base).Pairwise fun left right =>
      left + 2 ≤ right ∨ right + 2 ≤ left := by
  rw [inv.reserved, List.pairwise_map]
  refine List.Pairwise.imp_of_mem ?_ List.pairwise_lt_range
  intro left right leftMember rightMember ordered
  have leftBelow := List.mem_range.mp leftMember
  have rightBelow := List.mem_range.mp rightMember
  have few := inv.few
  have different : (history.committed.length + left) % hdr.lineCount ≠
      (history.committed.length + right) % hdr.lineCount :=
    mod_ne_of_lt_of_lt_add (by omega) (by omega)
  rw [slotBase_eq fits, slotBase_eq fits]
  have disjoint : _ * (hdr.lineSize + 2) + (hdr.lineSize + 2) ≤ _ ∨ _ := cells_disjoint different
  omega

/-- The slot of a line that is committed with the addresses of the
reservation. -/
theorem commit_slot (inv : history.Inv hdr index) {iov : List Iovec}
    (bases : iov.map Iovec.base = history.reserved.map Iovec.base) {iovec : Iovec}
    (member : iovec ∈ iov) :
    ∃ line, history.committed.length ≤ line ∧
      line < history.committed.length + history.reserved.length ∧
      iovec.base = slotBase hdr (line % hdr.lineCount) := by
  have isBase : iovec.base ∈ history.reserved.map Iovec.base := by
    rw [← bases]
    exact List.mem_map_of_mem member
  obtain ⟨original, isReserved, same⟩ := List.mem_map.mp isBase
  rw [← same]
  exact inv.reserved_slot isReserved

/-- A commit of exactly the reservation succeeds. -/
theorem fipsBufWrite_eq (inv : history.Inv hdr index) {iov : List Iovec}
    (length : iov.length = history.reserved.length) :
    fipsBufWrite hdr history.segment iov =
      (fipsBufSuccess, { history.segment with
        data := iov.foldl putWidth history.segment.data
        commitOffset :=
          (history.committed.length + history.reserved.length) % hdr.lineCount }) := by
  unfold fipsBufWrite
  dsimp only
  rw [inv.commit, hdr.wrapLine_mod_add, length, inv.head, if_neg (Nat.lt_irrefl _)]

/-- Committed lines stand in their slots with the committed bytes. -/
theorem slotLine_committed (inv : history.Inv hdr index) (fits : hdr.Fits) {iov : List Iovec}
    (bases : iov.map Iovec.base = history.reserved.map Iovec.base)
    (widths : ∀ iovec ∈ iov, iovec.len ≤ hdr.lineSize ∧ iovec.len < 2 ^ 16)
    {offset : Nat} {iovec : Iovec} (isLine : iov[offset]? = some iovec) :
    slotLine hdr (iov.foldl putWidth history.segment.data)
        ((history.committed.length + offset) % hdr.lineCount) =
      Iovec.bytes history.segment.data iovec := by
  have member : iovec ∈ iov := List.mem_of_getElem? isLine
  have base : slotBase hdr ((history.committed.length + offset) % hdr.lineCount) = iovec.base := by
    have entries := congrArg (fun list => list[offset]?) (bases.trans inv.reserved)
    have inside : offset < history.reserved.length := by
      have length : iov.length = history.reserved.length := by
        simpa using congrArg List.length bases
      rw [← length]
      exact (List.getElem?_eq_some_iff.mp isLine).1
    simpa [isLine, inside] using entries.symm
  have wide : ∀ other ∈ iov, 2 ≤ other.base ∧ other.len < 2 ^ 16 := by
    intro other otherMember
    obtain ⟨line, -, -, otherBase⟩ := inv.commit_slot bases otherMember
    rw [otherBase, slotBase_eq fits]
    exact ⟨by omega, (widths other otherMember).2⟩
  have apart := inv.reserved_apart fits
  rw [← bases] at apart
  unfold slotLine
  rw [base, lineWidth_foldl_putWidth member apart wide]
  unfold Iovec.bytes
  apply List.map_congr_left
  intro position isPosition
  have below : position < iovec.len := List.mem_range.mp isPosition
  have short := (widths iovec member).1
  dsimp only
  apply foldl_putWidth_of_ne
  intro other otherMember
  obtain ⟨line, -, -, otherBase⟩ := inv.commit_slot bases otherMember
  rw [slotBase_eq fits] at base otherBase
  generalize (history.committed.length + offset) % hdr.lineCount = slot at base
  -- A byte of the line that is a width byte of another would share its slot.
  have inSlot : slot * (hdr.lineSize + 2) ≤ iovec.base + position ∧
      iovec.base + position < slot * (hdr.lineSize + 2) + (hdr.lineSize + 2) := by omega
  have sameSlot : iovec.base + position = other.base - 2 ∨
      iovec.base + position = other.base - 1 → slot = line % hdr.lineCount := by
    intro overlap
    exact slot_of_address inSlot ⟨by omega, by omega⟩
  constructor
  · intro overlap
    rw [sameSlot (Or.inl overlap)] at base
    omega
  · intro overlap
    rw [sameSlot (Or.inr overlap)] at base
    omega

/-- A commit appends the reserved lines. -/
theorem write (inv : history.Inv hdr index) (fits : hdr.Fits) {iov : List Iovec}
    (bases : iov.map Iovec.base = history.reserved.map Iovec.base)
    (widths : ∀ iovec ∈ iov, iovec.len ≤ hdr.lineSize ∧ iovec.len < 2 ^ 16) :
    SegmentHistory.Inv hdr index
      { history with
        segment := { history.segment with
          data := iov.foldl putWidth history.segment.data
          commitOffset := (history.committed.length + history.reserved.length) % hdr.lineCount }
        committed := history.committed ++ iov.map (Iovec.bytes history.segment.data)
        reserved := [] } := by
  have length : iov.length = history.reserved.length := by
    simpa using congrArg List.length bases
  have total : (history.committed ++ iov.map (Iovec.bytes history.segment.data)).length =
      history.committed.length + history.reserved.length := by
    simp [length]
  refine ⟨?_, ?_, rfl, hdr.lineCount_pos, ?_, ?_, ?_⟩
  · simp only [total]
  · simp only [total, List.length_nil, Nat.add_zero, inv.head]
  · intro line member
    rcases List.mem_append.mp member with old | new
    · exact inv.short line old
    · obtain ⟨iovec, isLine, rfl⟩ := List.mem_map.mp new
      simpa [Iovec.bytes] using (widths iovec isLine).1
  · rw [total, List.length_nil, Nat.add_zero]
    apply Retains.append
    · apply inv.retains_of_reserved fits
      intro address changed
      by_contra outside
      apply changed
      apply foldl_putWidth_of_ne
      intro iovec member
      have isBase : iovec.base ∈ history.reserved.map Iovec.base := by
        rw [← bases]
        exact List.mem_map_of_mem member
      obtain ⟨original, isReserved, same⟩ := List.mem_map.mp isBase
      have notHere : ¬ (original.base ≤ address + 2 ∧ address < original.base + hdr.lineSize) :=
        fun inSlot => outside ⟨original, isReserved, inSlot⟩
      obtain ⟨line, -, -, base⟩ := inv.reserved_slot isReserved
      rw [slotBase_eq fits] at base
      rw [← same]
      omega
    · intro offset entry present
      rw [List.getElem?_map, Option.map_eq_some_iff] at present
      obtain ⟨iovec, isLine, rfl⟩ := present
      exact inv.slotLine_committed fits bases widths isLine
  · intro reader registered
    obtain ⟨returned, readerInv⟩ := inv.readers reader registered
    refine ⟨returned, readerInv.head, readerInv.commit, readerInv.idle, readerInv.holds, ?_, ?_, ?_⟩
    · have notAhead := readerInv.notAhead
      simp only [total]
      omega
    · simpa only [total, List.length_nil, Nat.add_zero] using readerInv.withinLap
    · change history.received reader = List.take _ (history.committed ++ _)
      rw [List.take_append_of_le_length readerInv.notAhead]
      exact readerInv.received

/-- Lines taken by a ready reader are the next committed ones. -/
theorem take (inv : history.Inv hdr index) {reader iovcnt : Nat}
    (registered : reader < hdr.readerCount) (batch : BufferHistory.BatchSize hdr iovcnt)
    (ready : ¬ NotReady (history.segment.readers reader).headOffset
      (hdr.wrapLine ((history.segment.readers reader).headOffset + iovcnt))
      history.segment.commitOffset) :
    SegmentHistory.Inv hdr index
      { history with
        segment := (takeLines hdr history.segment index reader iovcnt).2.2
        received := Function.update history.received reader
          (history.received reader ++
            (takeLines hdr history.segment index reader iovcnt).1.map
              (Iovec.bytes history.segment.data))
        outstanding := Function.update history.outstanding reader
          (history.outstanding reader ++
            [(takeLines hdr history.segment index reader iovcnt).2.1]) } := by
  obtain ⟨returned, readerInv⟩ := inv.readers reader registered
  obtain ⟨nonempty, inside, narrow⟩ := batch
  have returnedLe := readerInv.holds.low_le
  have notAhead := readerInv.notAhead
  have withinLap := readerInv.withinLap
  have available : (history.received reader).length + iovcnt ≤ history.committed.length := by
    rw [readerInv.head, hdr.wrapLine_mod_add, inv.commit,
      notReady_iff notAhead (by omega) nonempty inside] at ready
    omega
  have lines : (takeLines hdr history.segment index reader iovcnt).1.map
      (Iovec.bytes history.segment.data) =
        (history.committed.drop (history.received reader).length).take iovcnt := by
    rw [← inv.retains.read available (by omega)]
    simp only [takeLines, readerInv.head, hdr.wrapLine_mod_add, List.map_map]
    rfl
  have length : ((takeLines hdr history.segment index reader iovcnt).1.map
      (Iovec.bytes history.segment.data)).length = iovcnt := by
    simp [takeLines]
  have tag : (takeLines hdr history.segment index reader iovcnt).2.1 =
      ⟨(history.received reader).length % hdr.lineCount, iovcnt, index, reader⟩ := by
    simp only [takeLines, readerInv.head, Nat.mod_eq_of_lt narrow]
  refine ⟨inv.commit, inv.head, inv.reserved, inv.few, inv.short, inv.retains, ?_⟩
  intro other otherRegistered
  by_cases same : other = reader
  · subst same
    refine ⟨returned, ?_, ?_, ?_, ?_, ?_, withinLap, ?_⟩
    · simp only [Function.update_self, takeLines, List.length_append, List.length_map,
        List.length_range, readerInv.head, hdr.wrapLine_mod_add]
    · simpa only [takeLines, Function.update_self] using readerInv.commit
    · simpa only [takeLines, Function.update_self] using readerInv.idle
    · simp only [Function.update_self, List.length_append, length, tag]
      exact readerInv.holds.append
    · simp only [Function.update_self, List.length_append, length]
      exact available
    · simp only [Function.update_self, List.length_append, length]
      rw [lines, List.take_add, ← readerInv.received]
  · obtain ⟨otherReturned, otherInv⟩ := inv.readers other otherRegistered
    refine ⟨otherReturned, ?_, ?_, ?_, ?_, ?_, otherInv.withinLap, ?_⟩
    · simpa only [takeLines, Function.update_of_ne same] using otherInv.head
    · simpa only [takeLines, Function.update_of_ne same] using otherInv.commit
    · simpa only [takeLines, Function.update_of_ne same] using otherInv.idle
    · simpa only [Function.update_of_ne same] using otherInv.holds
    · simpa only [Function.update_of_ne same] using otherInv.notAhead
    · simpa only [Function.update_of_ne same] using otherInv.received

/-- Returning the oldest range frees its lines. -/
theorem giveBack (inv : history.Inv hdr index) {tag : Range}
    (registered : tag.readerIndex < hdr.readerCount)
    (oldest : (history.outstanding tag.readerIndex).head? = some tag) :
    tag.segmentIndex = index ∧ ∃ next,
      fipsBufListAddSqe hdr (history.segment.readers tag.readerIndex) tag =
        some (fipsBufSuccess, next) ∧
      SegmentHistory.Inv hdr index
        { history with
          segment := { history.segment with
            readers := Function.update history.segment.readers tag.readerIndex next }
          outstanding := Function.update history.outstanding tag.readerIndex
            (history.outstanding tag.readerIndex).tail } := by
  obtain ⟨returned, readerInv⟩ := inv.readers tag.readerIndex registered
  obtain ⟨rest, isOldest⟩ : ∃ rest, history.outstanding tag.readerIndex = tag :: rest := by
    cases queue : history.outstanding tag.readerIndex with
    | nil => simp [queue] at oldest
    | cons head rest => exact ⟨rest, by simpa [queue] using oldest⟩
  have holds := readerInv.holds
  rw [isOldest] at holds
  obtain ⟨start, segment, -, later⟩ := holds
  refine ⟨segment, { history.segment.readers tag.readerIndex with
    commitOffset := (returned + tag.count) % hdr.lineCount }, ?_, ?_⟩
  · have inOrder : (history.segment.readers tag.readerIndex).commitOffset = tag.startIndex := by
      rw [readerInv.commit, start]
    rw [fipsBufListAddSqe_inOrder inOrder readerInv.idle, readerInv.commit, hdr.wrapLine_mod_add]
  · refine ⟨inv.commit, inv.head, inv.reserved, inv.few, inv.short, inv.retains, ?_⟩
    intro other otherRegistered
    by_cases same : other = tag.readerIndex
    · subst same
      refine ⟨returned + tag.count, ?_, ?_, ?_, ?_, readerInv.notAhead, ?_, readerInv.received⟩
      · simpa only [Function.update_self] using readerInv.head
      · simp only [Function.update_self]
      · simpa only [Function.update_self] using readerInv.idle
      · simpa only [Function.update_self, isOldest, List.tail_cons] using later
      · have withinLap := readerInv.withinLap
        change history.committed.length + history.reserved.length < _
        omega
    · obtain ⟨otherReturned, otherInv⟩ := inv.readers other otherRegistered
      refine ⟨otherReturned, ?_, ?_, ?_, ?_, otherInv.notAhead, otherInv.withinLap,
        otherInv.received⟩
      · simpa only [Function.update_of_ne same] using otherInv.head
      · simpa only [Function.update_of_ne same] using otherInv.commit
      · simpa only [Function.update_of_ne same] using otherInv.idle
      · simpa only [Function.update_of_ne same] using otherInv.holds

end SegmentHistory.Inv

/-! ### Whole calls -/

/-- What a read can do to the segments: nothing, or taking lines from one
segment that is ready. -/
structure TakesLines (hdr : Header) (segments : Nat → Segment) (reader iovcnt index : Nat)
    (outcome : ReadOutcome) : Prop where
  ready : ¬ NotReady ((segments index).readers reader).headOffset
    (hdr.wrapLine (((segments index).readers reader).headOffset + iovcnt))
    (segments index).commitOffset
  lines : outcome.lines = some ((takeLines hdr (segments index) index reader iovcnt).1,
    (takeLines hdr (segments index) index reader iovcnt).2.1)
  segments : outcome.segments =
    Function.update segments index (takeLines hdr (segments index) index reader iovcnt).2.2

theorem readLoop_cases {hdr : Header} {segments : Nat → Segment} {iovcnt cachedCount tries : Nat}
    {thread : ReaderThread} {outcome : ReadOutcome}
    (result : readLoop hdr segments iovcnt cachedCount tries thread = some outcome) :
    (outcome.lines = none ∧ outcome.segments = segments) ∨
      ∃ index, TakesLines hdr segments thread.readerIndex iovcnt index outcome := by
  induction tries generalizing thread with
  | zero =>
      cases result
      exact Or.inl ⟨rfl, rfl⟩
  | succ tries inductionHypothesis =>
      obtain ⟨index, -, visited⟩ := Option.bind_eq_some_iff.mp result
      dsimp only at visited
      split at visited
      · obtain ⟨cache, -, later⟩ := Option.bind_eq_some_iff.mp visited
        have rest := inductionHypothesis later
        exact rest
      · cases visited
        exact Or.inr ⟨index, ‹_›, rfl, rfl⟩

theorem fipsBufRead_cases {hdr : Header} {area : AssignmentArea} {segments : Nat → Segment}
    {iovcnt : Nat} {flags : Int} {thread : ReaderThread} {outcome : ReadOutcome}
    (result : fipsBufRead hdr area segments thread iovcnt flags = some outcome) :
    (outcome.lines = none ∧ outcome.segments = segments) ∨
      ∃ index, TakesLines hdr segments thread.readerIndex iovcnt index outcome := by
  unfold fipsBufRead at result
  split at result
  · cases result
    exact Or.inl ⟨rfl, rfl⟩
  · obtain ⟨⟨code, cache⟩, -, refreshed⟩ := Option.bind_eq_some_iff.mp result
    dsimp only at refreshed
    split at refreshed
    · cases refreshed
      exact Or.inl ⟨rfl, rfl⟩
    · have loop := readLoop_cases refreshed
      exact loop

/-- A call that leaves all segments but one. -/
theorem BufferHistory.withSegments_update (history : BufferHistory) (index : Nat)
    (segment : Segment) :
    history.withSegments (Function.update history.segments index segment) =
      Function.update history index { history index with segment := segment } := by
  funext other
  unfold withSegments
  by_cases same : other = index
  · subst same
    simp only [Function.update_self]
  · simp only [Function.update_of_ne same]
    rfl

/-- The invariant of the whole buffer. -/
def BufferHistory.Inv (hdr : Header) (history : BufferHistory) : Prop :=
  ∀ index, (history index).Inv hdr index

namespace BufferHistory.Inv

variable {hdr : Header}

/-- A call that changes one segment. -/
theorem update {history : BufferHistory} (inv : history.Inv hdr) {index : Nat}
    {next : SegmentHistory} (kept : next.Inv hdr index) :
    BufferHistory.Inv hdr (Function.update history index next) := by
  intro other
  by_cases same : other = index
  · subst same
    simpa only [Function.update_self] using kept
  · simpa only [Function.update_of_ne same] using inv other

/-- Every complete call of a well-behaved user preserves the invariant. -/
theorem step (fits : hdr.Fits) (blocking : hdr.overwrite = false) (history : BufferHistory)
    (call : BufferCall) (next : BufferHistory) (inv : history.Inv hdr)
    (allowed : history.Allowed hdr call) (taken : history.step hdr call = some next) :
    next.Inv hdr := by
  cases call with
  | getWriteBuffer index iovcnt =>
      obtain ⟨none, batch⟩ := allowed
      unfold BufferHistory.step at taken
      dsimp only at taken
      split at taken
      · cases taken
        exact inv
      · rename_i iov segment granted
        cases taken
        exact inv.update ((inv index).getWriteBuffer blocking none batch granted)
  | store index address byte =>
      obtain ⟨iovec, member, lower, upper⟩ := allowed
      cases taken
      exact inv.update ((inv index).store fits member lower upper)
  | write index iov =>
      obtain ⟨-, bases, widths⟩ := allowed
      have length : iov.length = (history index).reserved.length := by
        simpa using congrArg List.length bases
      unfold BufferHistory.step at taken
      dsimp only at taken
      rw [(inv index).fipsBufWrite_eq length] at taken
      simp only [if_true] at taken
      cases taken
      exact inv.update ((inv index).write fits bases widths)
  | read area thread iovcnt =>
      obtain ⟨registered, batch⟩ := allowed
      obtain ⟨outcome, result, isNext⟩ := Option.map_eq_some_iff.mp taken
      rcases fipsBufRead_cases result with ⟨noLines, unchanged⟩ | ⟨index, takes⟩
      · rw [noLines, unchanged] at isNext
        subst isNext
        exact inv
      · dsimp only at isNext
        rw [takes.lines, takes.segments, history.withSegments_update] at isNext
        subst isNext
        have kept := (inv index).take registered batch takes.ready
        change BufferHistory.Inv hdr (Function.update (Function.update history index _) index _)
        rw [Function.update_idem]
        simp only [takeLines, Function.update_self]
        exact inv.update kept
  | giveBack tag =>
      obtain ⟨registered, oldest⟩ := allowed
      obtain ⟨segment, reader, added, kept⟩ := (inv tag.segmentIndex).giveBack registered oldest
      have result : fipsBufReturn hdr history.segments tag = some (fipsBufSuccess, _) :=
        congrArg (Option.map _) added
      obtain ⟨outcome, returned, isNext⟩ := Option.map_eq_some_iff.mp taken
      obtain rfl := Option.some.inj (result.symm.trans returned)
      dsimp only at isNext
      rw [history.withSegments_update] at isNext
      subst isNext
      simpa only [recordReturn, BufferHistory.segments, Function.update_self,
        Function.update_idem] using inv.update kept

end BufferHistory.Inv

/-! ### Every run -/

/-- Along every run of complete calls on a buffer whose segments are below
4 GiB, every reader process has received a prefix of the lines committed to the
segment, still sees the lines it holds, and none of them is handed out again. -/
theorem zeroCopy_run {hdr : Header} (fits : hdr.Fits) (blocking : hdr.overwrite = false)
    {data : Nat → Data} {calls : List BufferCall} {last : BufferHistory}
    (run : BufferRun hdr (fun index => .created hdr (data index)) calls last) (index : Nat) :
    (last index).ZeroCopy hdr := by
  have inv : last.Inv hdr := run.invariant (BufferHistory.Inv.step fits blocking)
    fun index => SegmentHistory.Inv.created hdr index (data index)
  exact (inv index).zeroCopy fits blocking

/-- A ring of four lines for one reader process, with lines of the given
size. -/
def fourLines (lineSize : Nat) (bound : lineSize < 2 ^ 32) : Header :=
  .ofFields 1 1 1 1 2 lineSize 4 false
    ⟨by decide, by decide, by decide, by decide, by decide, bound, by decide⟩

/-- An assignment area of generation 0. -/
def emptyArea : AssignmentArea := ⟨fun _ => 0, fun _ => .free, 0⟩

/-- A reader thread whose cache holds segment 0. -/
def cachedThread : ReaderThread := ⟨0, some 0, ⟨[some 0], 1, 0, 0⟩, 0⟩

def oneByteLines : Header := fourLines 1 (by decide)

/-- Three lines are written, read and returned; the two after them lie around the
end of the ring. -/
def wrappingCalls : List BufferCall :=
  [.getWriteBuffer 0 3, .store 0 2 65, .store 0 5 66, .store 0 8 67,
    .write 0 [⟨2, 1⟩, ⟨5, 1⟩, ⟨8, 1⟩], .read emptyArea cachedThread 3, .giveBack ⟨0, 3, 0, 0⟩,
    .getWriteBuffer 0 2, .store 0 11 68, .store 0 2 69, .write 0 [⟨11, 1⟩, ⟨2, 1⟩],
    .read emptyArea cachedThread 2]

theorem zeroCopy_run_wrapping :
    ∃ last, BufferRun oneByteLines (fun _ => .created oneByteLines fun _ => 0) wrappingCalls last ∧
      (last 0).received 0 = [[65], [66], [67], [68], [69]] ∧ (last 0).ZeroCopy oneByteLines := by
  have run := Run.of_exec (Option.some_get (by decide +kernel :
    (Run.exec (fun history => BufferHistory.step oneByteLines history)
      (fun history => BufferHistory.Allowed oneByteLines history)
      (fun _ => .created oneByteLines fun _ => 0) wrappingCalls).isSome)).symm
  exact ⟨_, run, by decide +kernel, zeroCopy_run (by decide) rfl run 0⟩

def widestLines : Header := fourLines (2 ^ 32 - 1) (by decide)

def twoLineCalls : List BufferCall :=
  [.getWriteBuffer 0 2, .store 0 2 65, .store 0 3 66, .write 0 [⟨2, 1⟩, ⟨3, 1⟩],
    .read emptyArea cachedThread 1]

theorem twoLineCalls_return :
    (Run.exec (fun history => BufferHistory.step widestLines history)
      (fun history => BufferHistory.Allowed widestLines history)
      (fun _ => .created widestLines fun _ => 0) twoLineCalls).isSome := by decide

/-- With `line_size = 2 ^ 32 - 1` the slot stride wraps to one byte: the width of
the second line overwrites the first. -/
theorem zeroCopy_fails_widestLines :
    ∃ last, BufferRun widestLines (fun _ => .created widestLines fun _ => 0) twoLineCalls last ∧
      ¬ (last 0).ZeroCopy widestLines := by
  refine ⟨_, Run.of_exec (Option.some_get twoLineCalls_return).symm, fun zeroCopy => ?_⟩
  exact absurd (zeroCopy.receivedPrefix 0 (by decide)) (by decide)

end FipsIpc.FipsBuf
