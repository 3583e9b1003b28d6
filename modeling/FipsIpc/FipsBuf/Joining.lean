import FipsIpc.FipsBuf.ZeroCopy

/-!
Contract: reader processes that join a buffer which is already in use.

Owns: runs in which reader processes run `fips_buf_init` at any time, between
the reservations and commits of the writers, and the slots that a reader which
joined can receive.

A new reader starts at index 0 of every segment, in whatever lap the writer is.
Its place in the sequence of lines is therefore the start of the lap that the
writer is committing; nothing but the position of the writer's reservations at
that moment decides whether the two agree from then on.

Only positions are followed here; lines and their bytes play no part.

Does not own: processes that leave, overwrite mode.
-/

set_option autoImplicit false

namespace FipsIpc.FipsBuf

open FipsIpc.Lib

/-! ### Runs -/

/-- One segment with the number of lines that were reserved and committed since
the buffer was created, and the ranges each reader process holds. -/
structure JoinSegment where
  segment : Segment
  committed : Nat
  reserved : Nat
  outstanding : Nat → List Range

def JoinSegment.created (hdr : Header) (data : Data) : JoinSegment where
  segment := .created hdr data
  committed := 0
  reserved := 0
  outstanding := fun _ => []

/-- Line `slot` of the ring is reserved and not yet committed. -/
def JoinSegment.Reserved (hdr : Header) (state : JoinSegment) (slot : Nat) : Prop :=
  ∃ line, state.committed ≤ line ∧ line < state.reserved ∧ slot = line % hdr.lineCount

/-- A buffer with `readerCount` reader processes. -/
structure JoinBuffer (hdr : Header) where
  readerCount : Nat
  readerCount_le : readerCount ≤ hdr.maxReaderCount
  segments : Nat → JoinSegment

inductive JoinCall where
  | getWriteBuffer (index iovcnt : Nat)
  | store (index address : Nat) (byte : UInt8)
  | write (index : Nat) (iov : List Iovec)
  | init
  | read (area : AssignmentArea) (thread : ReaderThread) (iovcnt : Nat)
  | giveBack (tag : Range)

namespace JoinBuffer

variable {hdr : Header} (state : JoinBuffer hdr)

def created (hdr : Header) (data : Nat → Data) : JoinBuffer hdr where
  readerCount := 0
  readerCount_le := Nat.zero_le _
  segments := fun index => .created hdr (data index)

/-- The header with the present number of readers. -/
def header : Header :=
  { hdr with readerCount := state.readerCount, readerCount_le := state.readerCount_le }

/-- The segments as the calls see them. -/
def rings (index : Nat) : Segment := (state.segments index).segment

/-- Replace one segment. -/
def setSegment (index : Nat) (segment : JoinSegment) : JoinBuffer hdr :=
  { state with segments := Function.update state.segments index segment }

/-- A range read from segment `index`. -/
def recordTake (index reader : Nat) (ring : Segment) (tag : Range) : JoinBuffer hdr :=
  let old := state.segments index
  state.setSegment index
    { old with
      segment := ring
      outstanding := Function.update old.outstanding reader (old.outstanding reader ++ [tag]) }

/-- One complete call. -/
def step : JoinCall → Option (JoinBuffer hdr)
  | .getWriteBuffer index iovcnt =>
      let old := state.segments index
      match fipsGetWriteBuffer state.header old.segment iovcnt with
      | .error _ => some state
      | .ok (_, segment) =>
          some (state.setSegment index
            { old with segment := segment, reserved := old.reserved + iovcnt })
  | .store index address byte =>
      let old := state.segments index
      some (state.setSegment index
        { old with
          segment := { old.segment with data := Function.update old.segment.data address byte } })
  | .write index iov =>
      let old := state.segments index
      let result := fipsBufWrite hdr old.segment iov
      some (state.setSegment index
        { old with
          segment := result.2
          committed :=
            if result.1 = fipsBufSuccess then old.committed + iov.length else old.committed })
  | .init =>
      if room : state.readerCount < hdr.maxReaderCount then
        some { state with readerCount := state.readerCount + 1, readerCount_le := room }
      else none
  | .read area thread iovcnt =>
      (fipsBufRead state.header area state.rings thread iovcnt 0).map fun outcome =>
        match outcome.lines with
        | none => state
        | some (_, tag) =>
            state.recordTake tag.segmentIndex thread.readerIndex
              (outcome.segments tag.segmentIndex) tag
  | .giveBack tag =>
      (fipsBufReturn hdr state.rings tag).map fun (_, rings) =>
        let old := state.segments tag.segmentIndex
        state.setSegment tag.segmentIndex
          { old with
            segment := rings tag.segmentIndex
            outstanding := Function.update old.outstanding tag.readerIndex
              (old.outstanding tag.readerIndex).tail }

/-- The writer commits only lines it has reserved; a reader process reads
batches that fit in a tag and returns its ranges in order. -/
def Permitted : JoinCall → Prop
  | .getWriteBuffer .. => True
  | .store .. => True
  | .write index iov =>
      (state.segments index).committed + iov.length ≤ (state.segments index).reserved
  | .init => True
  | .read _ thread iovcnt =>
      thread.readerIndex < state.readerCount ∧ BufferHistory.BatchSize hdr iovcnt
  | .giveBack tag => tag.readerIndex < state.readerCount ∧
      ((state.segments tag.segmentIndex).outstanding tag.readerIndex).head? = some tag

/-- Once there are readers, reservations are smaller than the ring; and a reader
joins only while no segment has lines reserved up to the end of the ring. -/
def WithinLap : JoinCall → Prop
  | .getWriteBuffer _ iovcnt => state.readerCount = 0 ∨ iovcnt < hdr.lineCount
  | .init => ∀ index, (state.rings index).commitOffset +
      ((state.segments index).reserved - (state.segments index).committed) < hdr.lineCount
  | _ => True

/-- Whatever a reader reads next, it receives no line that is reserved. -/
def NeverReserved : Prop :=
  ∀ area thread iovcnt outcome iov tag, thread.readerIndex < state.readerCount →
    BufferHistory.BatchSize hdr iovcnt →
    fipsBufRead state.header area state.rings thread iovcnt 0 = some outcome →
    outcome.lines = some (iov, tag) →
    iov.map Iovec.base = tag.bases hdr ∧
      ∀ offset < tag.count, ¬(state.segments tag.segmentIndex).Reserved hdr
        (hdr.wrapLine (tag.startIndex + offset))

end JoinBuffer

/-! ### The invariant -/

/-- A reader process that has taken the lines up to `taken` and returned those
up to `returned`; both count from the start of the buffer's first lap. -/
structure JoinedReader (hdr : Header) (index : Nat) (state : JoinSegment) (reader : Nat)
    (returned taken : Nat) : Prop where
  head : (state.segment.readers reader).headOffset = taken % hdr.lineCount
  commit : (state.segment.readers reader).commitOffset = returned % hdr.lineCount
  idle : (state.segment.readers reader).list.first = none
  holds : Holds hdr index reader returned (state.outstanding reader) taken
  notAhead : taken ≤ state.committed
  withinLap : state.reserved < returned + hdr.lineCount

/-- A reader that has not come yet. -/
structure AbsentReader (state : JoinSegment) (reader : Nat) : Prop where
  head : (state.segment.readers reader).headOffset = 0
  commit : (state.segment.readers reader).commitOffset = 0
  idle : (state.segment.readers reader).list.first = none
  holds : state.outstanding reader = []

/-- The pointers of a segment against the counters. -/
structure JoinSegment.Inv (hdr : Header) (readerCount index : Nat) (state : JoinSegment) :
    Prop where
  commit : state.segment.commitOffset = state.committed % hdr.lineCount
  head : state.segment.headOffset = state.reserved % hdr.lineCount
  ordered : state.committed ≤ state.reserved
  joined : ∀ reader < readerCount, ∃ returned taken,
    JoinedReader hdr index state reader returned taken
  absent : ∀ reader, readerCount ≤ reader → AbsentReader state reader

namespace JoinSegment.Inv

variable {hdr : Header} {readerCount index : Nat} {state : JoinSegment}

theorem created (hdr : Header) (readerCount index : Nat) (none : readerCount = 0) (data : Data) :
    (JoinSegment.created hdr data).Inv hdr readerCount index := by
  constructor
  · exact (Nat.zero_mod _).symm
  · exact (Nat.zero_mod _).symm
  · exact Nat.le_refl _
  · intro reader registered
    omega
  · intro reader _
    exact ⟨rfl, rfl, rfl, rfl⟩

/-- A reader joins at the start of the lap of the commit offset. -/
theorem join (inv : state.Inv hdr readerCount index)
    (room : state.segment.commitOffset + (state.reserved - state.committed) < hdr.lineCount) :
    state.Inv hdr (readerCount + 1) index := by
  refine ⟨inv.commit, inv.head, inv.ordered, ?_, ?_⟩
  · intro reader registered
    rcases Nat.lt_succ_iff_lt_or_eq.mp registered with old | new
    · exact inv.joined reader old
    · subst new
      have absent := inv.absent reader (Nat.le_refl _)
      have ordered := inv.ordered
      have lap := Nat.div_add_mod state.committed hdr.lineCount
      rw [inv.commit] at room
      have start : hdr.lineCount * (state.committed / hdr.lineCount) % hdr.lineCount = 0 :=
        Nat.mul_mod_right _ _
      refine ⟨hdr.lineCount * (state.committed / hdr.lineCount),
        hdr.lineCount * (state.committed / hdr.lineCount), ?_, ?_, absent.idle, ?_, ?_, ?_⟩
      · rw [absent.head, start]
      · rw [absent.commit, start]
      · rw [absent.holds]
        rfl
      · omega
      · omega
  · intro reader later
    exact inv.absent reader (Nat.le_of_succ_le later)

/-- A change of the writer's side that keeps every reader within a lap. -/
theorem withWriter (inv : state.Inv hdr readerCount index) {segment : Segment}
    {committed reserved : Nat} (readers : segment.readers = state.segment.readers)
    (commit : segment.commitOffset = committed % hdr.lineCount)
    (head : segment.headOffset = reserved % hdr.lineCount) (ordered : committed ≤ reserved)
    (grows : state.committed ≤ committed)
    (withinLap : ∀ reader < readerCount, ∀ returned taken,
      JoinedReader hdr index state reader returned taken → reserved < returned + hdr.lineCount) :
    Inv hdr readerCount index
      { state with segment := segment, committed := committed, reserved := reserved } := by
  refine ⟨commit, head, ordered, ?_, ?_⟩
  · intro reader registered
    rcases inv.joined reader registered with ⟨returned, taken, joined⟩
    refine ⟨returned, taken, ?_, ?_, ?_, joined.holds, joined.notAhead.trans grows,
      withinLap reader registered returned taken joined⟩
    · exact (congrFun readers reader ▸ joined.head :)
    · exact (congrFun readers reader ▸ joined.commit :)
    · exact (congrFun readers reader ▸ joined.idle :)
  · intro reader later
    have absent := inv.absent reader later
    refine ⟨?_, ?_, ?_, absent.holds⟩
    · exact (congrFun readers reader ▸ absent.head :)
    · exact (congrFun readers reader ▸ absent.commit :)
    · exact (congrFun readers reader ▸ absent.idle :)

/-- A granted reservation moves the head and overtakes nobody. -/
theorem getWriteBuffer (inv : state.Inv hdr readerCount index) {current : Header}
    (lines : current.lineCount = hdr.lineCount) (readers : current.readerCount = readerCount)
    (blocking : current.overwrite = false) {iovcnt : Nat}
    (batch : readerCount = 0 ∨ iovcnt < hdr.lineCount) {iov : List Iovec} {segment : Segment}
    (granted : fipsGetWriteBuffer current state.segment iovcnt = .ok (iov, segment)) :
    Inv hdr readerCount index
      { state with segment := segment, reserved := state.reserved + iovcnt } := by
  rw [fipsGetWriteBuffer_eq, inv.head, ← lines, current.wrapLine_mod_add, lines] at granted
  split at granted
  case isTrue => cases granted
  case isFalse noOvertaking =>
    cases granted
    have sameReaders : ({ state.segment with
        headOffset := (state.reserved + iovcnt) % hdr.lineCount } : Segment).readers =
          state.segment.readers := rfl
    apply inv.withWriter sameReaders inv.commit rfl
    · exact inv.ordered.trans (Nat.le_add_right _ _)
    · exact Nat.le_refl _
    · intro reader registered returned taken joined
      have held := joined.holds.low_le
      have notAhead := joined.notAhead
      have ordered := inv.ordered
      have withinLap := joined.withinLap
      have inside : iovcnt < hdr.lineCount := by
        rcases batch with none | inside
        · omega
        · exact inside
      rcases Nat.eq_zero_or_pos iovcnt with nothing | nonempty
      · omega
      · by_contra overtaken
        apply noOvertaking
        refine ⟨blocking, reader, by rw [readers]; exact registered, ?_⟩
        rw [joined.commit]
        exact (overtakes_iff (by omega) withinLap nonempty inside).mpr (by omega)

/-- Committing reserved lines. -/
theorem write (inv : state.Inv hdr readerCount index) {iov : List Iovec}
    (reserved : state.committed + iov.length ≤ state.reserved) :
    Inv hdr readerCount index
      { state with
        segment := (fipsBufWrite hdr state.segment iov).2
        committed :=
          if (fipsBufWrite hdr state.segment iov).1 = fipsBufSuccess then
            state.committed + iov.length
          else state.committed } := by
  have kept : ∀ reader < readerCount, ∀ returned taken,
      JoinedReader hdr index state reader returned taken →
        state.reserved < returned + hdr.lineCount :=
    fun _ _ _ _ joined => joined.withinLap
  unfold fipsBufWrite
  dsimp only
  split
  case isTrue refused =>
    have code : fipsBufErrorCorrupted ≠ fipsBufSuccess := by decide
    rw [if_neg code]
    exact inv.withWriter rfl inv.commit inv.head inv.ordered (Nat.le_refl _) kept
  case isFalse =>
    have commit : hdr.wrapLine (state.segment.commitOffset + iov.length) =
        (state.committed + iov.length) % hdr.lineCount := by
      rw [inv.commit, hdr.wrapLine_mod_add]
    rw [if_pos rfl]
    exact inv.withWriter rfl commit inv.head reserved (Nat.le_add_right _ _) kept

/-- A change of one reader's pointers and ranges. -/
theorem withReader (inv : state.Inv hdr readerCount index) {reader : Nat} {pointer : ReaderPointer}
    {ranges : List Range} (registered : reader < readerCount)
    (joined : ∃ returned taken, JoinedReader hdr index
      { state with
        segment := { state.segment with
          readers := Function.update state.segment.readers reader pointer }
        outstanding := Function.update state.outstanding reader ranges } reader returned taken) :
    Inv hdr readerCount index
      { state with
        segment := { state.segment with
          readers := Function.update state.segment.readers reader pointer }
        outstanding := Function.update state.outstanding reader ranges } := by
  refine ⟨inv.commit, inv.head, inv.ordered, ?_, ?_⟩
  · intro other otherRegistered
    by_cases same : other = reader
    · subst same
      exact joined
    · rcases inv.joined other otherRegistered with ⟨returned, taken, old⟩
      refine ⟨returned, taken, ?_, ?_, ?_, ?_, old.notAhead, old.withinLap⟩
      · simpa only [Function.update_of_ne same] using old.head
      · simpa only [Function.update_of_ne same] using old.commit
      · simpa only [Function.update_of_ne same] using old.idle
      · simpa only [Function.update_of_ne same] using old.holds
  · intro other later
    have different : other ≠ reader := by omega
    have old := inv.absent other later
    refine ⟨?_, ?_, ?_, ?_⟩
    · simpa only [Function.update_of_ne different] using old.head
    · simpa only [Function.update_of_ne different] using old.commit
    · simpa only [Function.update_of_ne different] using old.idle
    · simpa only [Function.update_of_ne different] using old.holds

/-- A reader that finds a segment ready takes committed lines only. -/
theorem available (inv : state.Inv hdr readerCount index) {reader iovcnt returned taken : Nat}
    (joined : JoinedReader hdr index state reader returned taken)
    (batch : BufferHistory.BatchSize hdr iovcnt)
    (ready : ¬NotReady (state.segment.readers reader).headOffset
      (hdr.wrapLine ((state.segment.readers reader).headOffset + iovcnt))
      state.segment.commitOffset) :
    taken + iovcnt ≤ state.committed := by
  have held := joined.holds.low_le
  have withinLap := joined.withinLap
  have ordered := inv.ordered
  rw [joined.head, hdr.wrapLine_mod_add, inv.commit,
    notReady_iff joined.notAhead (by omega) batch.1 batch.2.1] at ready
  exact Nat.le_of_not_lt ready

/-- The lines of a range that lie between `taken` and the committed lines are
not reserved. -/
theorem not_reserved {reader returned taken line : Nat}
    (joined : JoinedReader hdr index state reader returned taken) (notBefore : taken ≤ line)
    (committed : line < state.committed) : ¬state.Reserved hdr (line % hdr.lineCount) := by
  rintro ⟨other, notCommitted, reserved, same⟩
  have held := joined.holds.low_le
  have withinLap := joined.withinLap
  exact RingLog.mod_ne_of_lt_of_lt_add (by omega) (by omega) same

/-- Taking lines. -/
theorem take (inv : state.Inv hdr readerCount index) {reader iovcnt : Nat}
    (registered : reader < readerCount) (batch : BufferHistory.BatchSize hdr iovcnt)
    (ready : ¬NotReady (state.segment.readers reader).headOffset
      (hdr.wrapLine ((state.segment.readers reader).headOffset + iovcnt))
      state.segment.commitOffset) :
    Inv hdr readerCount index
      { state with
        segment := (takeLines hdr state.segment index reader iovcnt).2.2
        outstanding := Function.update state.outstanding reader
          (state.outstanding reader ++
            [(takeLines hdr state.segment index reader iovcnt).2.1]) } := by
  rcases inv.joined reader registered with ⟨returned, taken, joined⟩
  have available := inv.available joined batch ready
  have tag : (takeLines hdr state.segment index reader iovcnt).2.1 =
      ⟨taken % hdr.lineCount, iovcnt, index, reader⟩ := by
    simp only [takeLines, joined.head, Nat.mod_eq_of_lt batch.2.2]
  apply inv.withReader registered
  refine ⟨returned, taken + iovcnt, ?_, ?_, ?_, ?_, available, joined.withinLap⟩
  · simp only [Function.update_self, joined.head, hdr.wrapLine_mod_add]
  · simpa only [Function.update_self] using joined.commit
  · simpa only [Function.update_self] using joined.idle
  · simp only [Function.update_self, tag]
    exact joined.holds.append

/-- Returning the oldest range. -/
theorem giveBack (inv : state.Inv hdr readerCount index) {tag : Range}
    (registered : tag.readerIndex < readerCount)
    (oldest : (state.outstanding tag.readerIndex).head? = some tag) :
    ∃ next, fipsBufListAddSqe hdr (state.segment.readers tag.readerIndex) tag =
        some (fipsBufSuccess, next) ∧
      Inv hdr readerCount index
        { state with
          segment := { state.segment with
            readers := Function.update state.segment.readers tag.readerIndex next }
          outstanding := Function.update state.outstanding tag.readerIndex
            (state.outstanding tag.readerIndex).tail } := by
  rcases inv.joined tag.readerIndex registered with ⟨returned, taken, joined⟩
  have holds := joined.holds
  cases queue : state.outstanding tag.readerIndex with
  | nil =>
      rw [queue] at oldest
      cases oldest
  | cons head rest =>
      rw [queue] at oldest holds
      have isOldest : head = tag := Option.some.inj oldest
      subst isOldest
      have inOrder : (state.segment.readers head.readerIndex).commitOffset = head.startIndex := by
        rw [joined.commit, holds.1]
      refine ⟨_, fipsBufListAddSqe_inOrder inOrder joined.idle, ?_⟩
      apply inv.withReader registered
      have withinLap := joined.withinLap
      refine ⟨returned + head.count, taken, ?_, ?_, ?_, ?_, joined.notAhead, ?_⟩
      · simpa only [Function.update_self] using joined.head
      · simp only [Function.update_self, joined.commit, hdr.wrapLine_mod_add]
      · simpa only [Function.update_self] using joined.idle
      · simpa only [Function.update_self, List.tail_cons] using holds.2.2.2
      · show state.reserved < returned + head.count + hdr.lineCount
        omega

end JoinSegment.Inv

/-! ### Every run -/

namespace JoinBuffer

variable {hdr : Header} {state next : JoinBuffer hdr} {call : JoinCall}

/-- The invariant of the whole buffer. -/
def Inv (state : JoinBuffer hdr) : Prop :=
  ∀ index, (state.segments index).Inv hdr state.readerCount index

/-- A call that changes one segment. -/
theorem Inv.setSegment (inv : state.Inv) {index : Nat} {segment : JoinSegment}
    (kept : segment.Inv hdr state.readerCount index) : (state.setSegment index segment).Inv := by
  intro other
  unfold JoinBuffer.setSegment
  dsimp only
  by_cases same : other = index
  · subst same
    rw [Function.update_self]
    exact kept
  · rw [Function.update_of_ne same]
    exact inv other

/-- A permitted call within the lap preserves the invariant. -/
theorem Inv.step (inv : state.Inv) (blocking : hdr.overwrite = false)
    (permitted : state.Permitted call) (withinLap : state.WithinLap call)
    (taken : state.step call = some next) : next.Inv := by
  cases call with
  | getWriteBuffer index iovcnt =>
      unfold JoinBuffer.step at taken
      dsimp only at taken
      split at taken
      case h_1 =>
        cases taken
        exact inv
      case h_2 granted =>
        cases taken
        have lines : state.header.lineCount = hdr.lineCount := rfl
        exact inv.setSegment ((inv index).getWriteBuffer lines rfl blocking withinLap granted)
  | store index address byte =>
      cases taken
      exact inv.setSegment ((inv index).withWriter rfl (inv index).commit (inv index).head
        (inv index).ordered (Nat.le_refl _) fun _ _ _ _ joined => joined.withinLap)
  | write index iov =>
      cases taken
      exact inv.setSegment ((inv index).write permitted)
  | init =>
      unfold JoinBuffer.step at taken
      dsimp only at taken
      split at taken
      case isTrue =>
        cases taken
        exact fun index => (inv index).join (withinLap index)
      case isFalse => cases taken
  | read area thread iovcnt =>
      rcases Option.map_eq_some_iff.mp taken with ⟨outcome, result, isNext⟩
      rcases fipsBufRead_cases result with ⟨noLines, _⟩ | ⟨index, takes⟩
      · rw [noLines] at isNext
        subst isNext
        exact inv
      · rw [takes.lines, takes.segments] at isNext
        subst isNext
        have kept := (inv index).take permitted.1 permitted.2 takes.ready
        dsimp only [takeLines, recordTake, rings]
        rw [Function.update_self]
        exact inv.setSegment kept
  | giveBack tag =>
      rcases (inv tag.segmentIndex).giveBack permitted.1 permitted.2 with ⟨reader, added, kept⟩
      have result : fipsBufReturn hdr state.rings tag = some (fipsBufSuccess, _) :=
        congrArg (Option.map _) added
      rcases Option.map_eq_some_iff.mp taken with ⟨outcome, returned, isNext⟩
      have same := Option.some.inj (result.symm.trans returned)
      subst same
      subst isNext
      dsimp only
      rw [Function.update_self]
      exact inv.setSegment kept

theorem Inv.neverReserved (inv : state.Inv) : state.NeverReserved := by
  intro area thread iovcnt outcome iov tag registered batch result lines
  rcases fipsBufRead_cases result with ⟨noLines, _⟩ | ⟨index, takes⟩
  · rw [noLines] at lines
    cases lines
  · rcases (inv index).joined thread.readerIndex registered with ⟨returned, taken, joined⟩
    have available := (inv index).available joined batch takes.ready
    rw [takes.lines] at lines
    cases lines
    have count : iovcnt % 2 ^ 16 = iovcnt := Nat.mod_eq_of_lt batch.2.2
    constructor
    · simp only [takeLines, Range.bases, count, List.map_map]
      rfl
    · intro offset inside
      have below : offset < iovcnt := by
        rw [← count]
        exact inside
      show ¬(state.segments index).Reserved hdr
        (hdr.wrapLine (((state.rings index).readers thread.readerIndex).headOffset + offset))
      rw [rings, joined.head, hdr.wrapLine_mod_add]
      exact JoinSegment.Inv.not_reserved joined (Nat.le_add_right _ _) (by omega)

end JoinBuffer

/-- In every run in which readers join only while no reservation reaches the end
of the ring, no reader ever receives a line that is reserved and not yet
committed. -/
theorem joining_run {hdr : Header} (blocking : hdr.overwrite = false) {data : Nat → Data}
    {calls : List JoinCall} {last : JoinBuffer hdr}
    (run : Run JoinBuffer.step (fun state call => state.Permitted call ∧ state.WithinLap call)
      (.created hdr data) calls last) : last.NeverReserved := by
  have preserved : ∀ (state : JoinBuffer hdr) call next, state.Inv →
      state.Permitted call ∧ state.WithinLap call → state.step call = some next → next.Inv := by
    intro state call next inv allowed taken
    exact inv.step blocking allowed.1 allowed.2 taken
  have inv : last.Inv := run.invariant preserved
    fun index => JoinSegment.Inv.created hdr 0 index rfl (data index)
  exact inv.neverReserved

/-- Commit one line, join, read and return it. -/
def joinInTime : List JoinCall :=
  [.getWriteBuffer 0 1, .write 0 [⟨2, 1⟩], .init, .read emptyArea cachedThread 1,
    .giveBack ⟨0, 1, 0, 0⟩]

theorem joining_run_in_time : ∃ last,
    Run JoinBuffer.step (fun state call => state.Permitted call ∧ state.WithinLap call)
      (.created oneByteLines fun _ _ => 0) joinInTime last ∧ last.NeverReserved := by
  have run : ∃ last, Run JoinBuffer.step
      (fun state call => state.Permitted call ∧ state.WithinLap call)
      (.created oneByteLines fun _ _ => 0) joinInTime last := by
    refine ⟨_, .cons ⟨trivial, Or.inl rfl⟩ rfl (.cons ⟨(by decide : 0 + 1 ≤ 1), trivial⟩ rfl
      (.cons ⟨trivial, ?_⟩ rfl (.cons ⟨⟨by decide, by decide⟩, trivial⟩ rfl
        (.cons ⟨⟨by decide, by decide⟩, trivial⟩ rfl (.nil _)))))⟩
    intro index
    cases index with
    | zero => exact (by decide : 1 + (1 - 1) < 4)
    | succ _ => exact (by decide : 0 + (0 - 0) < 4)
  rcases run with ⟨last, run⟩
  exact ⟨last, run, joining_run rfl run⟩

/-- Commit three of four lines, reserve three more, then join. -/
def joinTooLate : List JoinCall :=
  [.getWriteBuffer 0 3, .write 0 [⟨2, 1⟩, ⟨5, 1⟩, ⟨8, 1⟩], .getWriteBuffer 0 3, .init]

/-- The writer's second reservation covers slot 0, where the new reader starts;
the commit offset is ahead of it, so the reader takes slot 0 as a committed
line. -/
theorem joining_fails_too_late : ∃ last,
    Run JoinBuffer.step JoinBuffer.Permitted (.created oneByteLines fun _ _ => 0) joinTooLate last ∧
      ¬last.NeverReserved := by
  refine ⟨_, .cons trivial rfl (.cons (by decide : 0 + 3 ≤ 3) rfl (.cons trivial rfl
    (.cons trivial rfl (.nil _)))), ?_⟩
  intro never
  have received := never emptyArea cachedThread 1 _ _ _ (by decide) (by decide) rfl rfl
  exact received.2 0 (by decide) ⟨4, by decide, by decide, by decide⟩

end FipsIpc.FipsBuf
