import FipsIpc.Lib.Run
import FipsIpc.Lib.RingLog
import FipsIpc.ShmRingbuf.Segment

/-!
Contract: the copying ring as a broadcast log.

Owns: runs of complete `shmrbuf_write` and `shmrbuf_read` calls on one segment
without overwrite, with the accepted lines and the lines each reader got as
history variables; the invariant that relates all indices and slots to those
histories; and what every reader and the writer observe along every run.

The invariant counts lines without wrapping: the write index is the number of
accepted lines modulo `line_count`, a read index the number of lines received.
The slots retain the accepted lines in the sense of `RingLog.Retains`.

Does not own: the vector calls, and overwrite mode.
-/

set_option autoImplicit false

namespace FipsIpc.ShmRingbuf

open FipsIpc.Lib
open FipsIpc.Lib.RingLog

/-! ### Runs of single transfers -/

/-- A segment with the history of what was accepted and received. -/
structure History where
  segment : Segment
  accepted : List (List UInt8)
  received : Nat → List (List UInt8)

/-- A new segment with empty histories. -/
def History.created (data : Data) : History where
  segment := .created data
  accepted := []
  received := fun _ => []

inductive Transfer where
  | write (src : List UInt8)
  | read (reader bufsize : Nat)

/-- One complete call.  A write counts as accepted unless it returns an error
code. -/
def History.step (hdr : GlobalHdr) (segmentId : Nat) (history : History) :
    Transfer → Option History
  | .write src =>
      let result := shmrbufWrite hdr segmentId history.segment src
      some { history with
        segment := result.2
        accepted := if result.1 < 0 then history.accepted else history.accepted ++ [src] }
  | .read reader bufsize =>
      let result := shmrbufRead hdr segmentId history.segment reader bufsize
      some { history with
        segment := result.segment
        received := Function.update history.received reader
          (history.received reader ++ result.lines) }

/-- The calls of well-behaved users: lines of length `1 .. line_size`, reads by
registered reader ids into buffers that hold a whole line. -/
def Transfer.Valid (hdr : GlobalHdr) (_ : History) : Transfer → Prop
  | .write src => 1 ≤ src.length ∧ src.length ≤ hdr.lineSize
  | .read reader bufsize => reader < hdr.readerCount ∧ hdr.lineSize ≤ bufsize

instance (hdr : GlobalHdr) (history : History) (call : Transfer) :
    Decidable (call.Valid hdr history) :=
  match call with
  | .write src => inferInstanceAs (Decidable (1 ≤ src.length ∧ src.length ≤ hdr.lineSize))
  | .read reader bufsize =>
      inferInstanceAs (Decidable (reader < hdr.readerCount ∧ hdr.lineSize ≤ bufsize))

/-- Runs of complete calls by well-behaved users. -/
abbrev TransferRun (hdr : GlobalHdr) (segmentId : Nat) :
    History → List Transfer → History → Prop :=
  Run (History.step hdr segmentId) fun history call => call.Valid hdr history

/-- Reader `reader` is `line_count - 1` lines behind the writer. -/
def History.LapsBehind (hdr : GlobalHdr) (history : History) (reader : Nat) : Prop :=
  history.accepted.length = (history.received reader).length + (hdr.lineCount - 1)

/-- What the ring promises in one state: every reader has received a prefix of
the accepted lines, NUL-padded; a write is refused exactly when some reader is
`line_count - 1` lines behind, and a refused write changes nothing. -/
structure History.Fifo (hdr : GlobalHdr) (segmentId : Nat) (history : History) : Prop where
  receivedPrefix : ∀ reader < hdr.readerCount,
    history.received reader <+: history.accepted.map (padLine hdr.lineSize)
  refusedIff : ∀ src : List UInt8, 1 ≤ src.length → src.length ≤ hdr.lineSize →
    ((shmrbufWrite hdr segmentId history.segment src).1 = ioIpcSizeErr ↔
      ∃ reader < hdr.readerCount, history.LapsBehind hdr reader)
  refusedUnchanged : ∀ src : List UInt8, 1 ≤ src.length → src.length ≤ hdr.lineSize →
    (shmrbufWrite hdr segmentId history.segment src).1 = ioIpcSizeErr →
      (shmrbufWrite hdr segmentId history.segment src).2 = history.segment

/-! ### One call -/

section Calls

variable {hdr : GlobalHdr} {segmentId : Nat} {segment : Segment}

/-- The reader check of a write without overwrite. -/
def Segment.Full (hdr : GlobalHdr) (segment : Segment) : Prop :=
  ∃ reader < hdr.readerCount, nextIndex hdr segment.writeIndex = segment.readIndex reader

theorem shmrbufWrite_full {src : List UInt8} (valid : segmentId < hdr.segmentCount)
    (blocking : hdr.overwrite = false) (nonempty : 1 ≤ src.length)
    (fits : src.length ≤ hdr.lineSize) (full : segment.Full hdr) :
    shmrbufWrite hdr segmentId segment src = (ioIpcSizeErr, segment) := by
  unfold shmrbufWrite
  rw [if_neg (by omega), if_neg (by omega), if_pos ⟨blocking, full⟩]

/-- The segment after an accepted write. -/
def Segment.afterWrite (hdr : GlobalHdr) (segment : Segment) (src : List UInt8) : Segment where
  writeIndex := nextIndex hdr segment.writeIndex
  readIndex := segment.readIndex
  data := putLine segment.data (slotOffset hdr segment.writeIndex) hdr.lineSize src

theorem shmrbufWrite_free {src : List UInt8} (valid : segmentId < hdr.segmentCount)
    (nonempty : 1 ≤ src.length) (fits : src.length ≤ hdr.lineSize) (free : ¬ segment.Full hdr) :
    shmrbufWrite hdr segmentId segment src =
      ((hdr.lineSize : Int), segment.afterWrite hdr src) := by
  unfold shmrbufWrite
  rw [if_neg (by omega), if_neg (by omega), if_neg (fun blocked => free blocked.2)]
  rfl

theorem shmrbufRead_empty {reader bufsize : Nat} (valid : segmentId < hdr.segmentCount)
    (empty : segment.writeIndex = segment.readIndex reader) :
    shmrbufRead hdr segmentId segment reader bufsize = ⟨0, [], segment⟩ := by
  unfold shmrbufRead
  rw [if_neg (by omega), if_pos empty, ite_self]

theorem shmrbufRead_line {reader bufsize : Nat} (valid : segmentId < hdr.segmentCount)
    (room : hdr.lineSize ≤ bufsize) (unread : segment.writeIndex ≠ segment.readIndex reader) :
    shmrbufRead hdr segmentId segment reader bufsize =
      ⟨hdr.lineSize,
        [getLine segment.data (slotOffset hdr (segment.readIndex reader)) hdr.lineSize],
        { segment with
          readIndex := Function.update segment.readIndex reader
            (nextIndex hdr (segment.readIndex reader)) }⟩ := by
  have positive := hdr.lineSize_pos
  unfold shmrbufRead
  rw [if_neg (by omega), if_neg (by omega), if_neg unread, Nat.min_eq_left room]

/-- The history after an accepted write. -/
def History.afterWrite (hdr : GlobalHdr) (history : History) (src : List UInt8) : History where
  segment := history.segment.afterWrite hdr src
  accepted := history.accepted ++ [src]
  received := history.received

theorem step_write_free {history : History} {src : List UInt8}
    (valid : segmentId < hdr.segmentCount) (nonempty : 1 ≤ src.length)
    (fits : src.length ≤ hdr.lineSize) (free : ¬ history.segment.Full hdr) :
    history.step hdr segmentId (.write src) = some (history.afterWrite hdr src) := by
  have notError : ¬ ((hdr.lineSize : Int) < 0) := by omega
  simp only [History.step, shmrbufWrite_free valid nonempty fits free, if_neg notError,
    History.afterWrite]

end Calls

/-! ### The invariant -/

/-- Line contents by slot number. -/
def slotLine (hdr : GlobalHdr) (data : Data) (slot : Nat) : List UInt8 :=
  getLine data (slot * hdr.lineSize) hdr.lineSize

/-- All indices and slots of a segment against its history. -/
structure History.Inv (hdr : GlobalHdr) (history : History) : Prop where
  writeIndex : history.segment.writeIndex = history.accepted.length % hdr.lineCount
  readIndex : ∀ reader < hdr.readerCount,
    history.segment.readIndex reader = (history.received reader).length % hdr.lineCount
  notAhead : ∀ reader < hdr.readerCount,
    (history.received reader).length ≤ history.accepted.length
  withinLap : ∀ reader < hdr.readerCount,
    history.accepted.length < (history.received reader).length + hdr.lineCount
  received : ∀ reader < hdr.readerCount,
    history.received reader =
      (history.accepted.map (padLine hdr.lineSize)).take (history.received reader).length
  retains : Retains hdr.lineCount (slotLine hdr history.segment.data)
    (history.accepted.map (padLine hdr.lineSize)) history.accepted.length

namespace History.Inv

variable {hdr : GlobalHdr} {segmentId : Nat} {history : History}

theorem created (hdr : GlobalHdr) (data : Data) : (History.created data).Inv hdr where
  writeIndex := by simp [History.created, Segment.created]
  readIndex := by simp [History.created, Segment.created]
  notAhead := by simp [History.created]
  withinLap := by simpa [History.created] using fun _ _ => hdr.lineCount_pos
  received := by simp [History.created]
  retains := .nil

theorem writeIndex_lt (inv : history.Inv hdr) : history.segment.writeIndex < hdr.lineCount := by
  rw [inv.writeIndex]
  exact Nat.mod_lt _ hdr.lineCount_pos

/-- The index comparison of the writer detects exactly the readers that are
`line_count - 1` lines behind. -/
theorem next_eq_readIndex_iff (inv : history.Inv hdr) {reader : Nat}
    (registered : reader < hdr.readerCount) :
    nextIndex hdr history.segment.writeIndex = history.segment.readIndex reader ↔
      history.LapsBehind hdr reader := by
  have notAhead := inv.notAhead reader registered
  have withinLap := inv.withinLap reader registered
  rw [nextIndex_eq_mod inv.writeIndex_lt, inv.writeIndex, inv.readIndex reader registered,
    Nat.mod_add_mod]
  unfold History.LapsBehind
  constructor
  · intro same
    by_contra notBehind
    exact mod_ne_of_lt_of_lt_add (by omega) (by omega) same.symm
  · intro behind
    have lap : history.accepted.length + 1 =
        (history.received reader).length + hdr.lineCount := by omega
    rw [lap, Nat.add_mod_right]

theorem full_iff (inv : history.Inv hdr) :
    history.segment.Full hdr ↔ ∃ reader < hdr.readerCount, history.LapsBehind hdr reader := by
  unfold Segment.Full
  constructor
  · rintro ⟨reader, registered, same⟩
    exact ⟨reader, registered, (inv.next_eq_readIndex_iff registered).mp same⟩
  · rintro ⟨reader, registered, behind⟩
    exact ⟨reader, registered, (inv.next_eq_readIndex_iff registered).mpr behind⟩

/-- The index comparison of a reader detects exactly that it has read
everything. -/
theorem writeIndex_eq_readIndex_iff (inv : history.Inv hdr) {reader : Nat}
    (registered : reader < hdr.readerCount) :
    history.segment.writeIndex = history.segment.readIndex reader ↔
      history.accepted.length = (history.received reader).length := by
  have notAhead := inv.notAhead reader registered
  have withinLap := inv.withinLap reader registered
  rw [inv.writeIndex, inv.readIndex reader registered]
  constructor
  · intro same
    by_contra different
    exact mod_ne_of_lt_of_lt_add (by omega) withinLap same.symm
  · intro same
    rw [same]

/-- An accepted line is stored in the slot of the write index. -/
theorem write (inv : history.Inv hdr) (fits : hdr.lineCount * hdr.lineSize < 2 ^ 32)
    {src : List UInt8} (length : src.length ≤ hdr.lineSize) (free : ¬ history.segment.Full hdr) :
    (history.afterWrite hdr src).Inv hdr := by
  have room : ∀ reader < hdr.readerCount, ¬ history.LapsBehind hdr reader :=
    fun reader registered behind => free (inv.full_iff.mpr ⟨reader, registered, behind⟩)
  have slot := slotOffset_eq fits inv.writeIndex_lt
  have growth : (history.accepted.map (padLine hdr.lineSize)).length ≤ history.accepted.length := by
    simp
  unfold History.afterWrite Segment.afterWrite
  refine ⟨?_, inv.readIndex, ?_, ?_, ?_, ?_⟩
  · rw [nextIndex_eq_mod inv.writeIndex_lt, inv.writeIndex, Nat.mod_add_mod]
    simp
  · intro reader registered
    have := inv.notAhead reader registered
    simp
    omega
  · intro reader registered
    have positive := hdr.lineCount_pos
    have withinLap := inv.withinLap reader registered
    have notBehind := room reader registered
    unfold History.LapsBehind at notBehind
    change (history.accepted ++ [src]).length < (history.received reader).length + hdr.lineCount
    rw [List.length_append, List.length_singleton]
    omega
  · intro reader registered
    have whole := inv.received reader registered
    rw [List.map_append, List.take_append_of_le_length (by
      simpa using inv.notAhead reader registered)]
    exact whole
  · -- The claimed cell is the one the old write index points at.
    rw [List.map_append, List.length_append, List.length_singleton]
    apply Retains.append
    · apply (inv.retains.claim (Nat.le_succ _)).write _ hdr.lineCount_pos
      intro position _ _ notClaimed
      have different : history.segment.writeIndex ≠ position := by
        rw [inv.writeIndex]
        exact (notClaimed history.accepted.length growth (Nat.lt_succ_self _)).symm
      simp only [slotLine]
      rw [slot]
      apply getLine_putLine_disjoint
      exact (cells_disjoint different).symm
    · intro offset entry present
      obtain ⟨rfl, rfl⟩ : offset = 0 ∧ padLine hdr.lineSize src = entry := by
        cases offset with
        | zero => simpa using present
        | succ offset => simp at present
      rw [Nat.add_zero, List.length_map, ← inv.writeIndex]
      simp only [slotLine]
      rw [slot, getLine_putLine_same _ _ length]

/-- A successful read delivers the next accepted line. -/
theorem read (inv : history.Inv hdr) (fits : hdr.lineCount * hdr.lineSize < 2 ^ 32)
    {reader : Nat} (registered : reader < hdr.readerCount)
    (unread : history.segment.writeIndex ≠ history.segment.readIndex reader) :
    Inv hdr
      { segment :=
          { history.segment with
            readIndex := Function.update history.segment.readIndex reader
              (nextIndex hdr (history.segment.readIndex reader)) }
        accepted := history.accepted
        received := Function.update history.received reader
          (history.received reader ++
            [getLine history.segment.data
              (slotOffset hdr (history.segment.readIndex reader)) hdr.lineSize]) } := by
  have notAhead := inv.notAhead reader registered
  have withinLap := inv.withinLap reader registered
  have behind : (history.received reader).length < history.accepted.length := by
    have := mt (inv.writeIndex_eq_readIndex_iff registered).mpr unread
    omega
  have below : history.segment.readIndex reader < hdr.lineCount := by
    rw [inv.readIndex reader registered]
    exact Nat.mod_lt _ hdr.lineCount_pos
  have padded : (history.received reader).length <
      (history.accepted.map (padLine hdr.lineSize)).length := by simpa using behind
  have line : getLine history.segment.data (slotOffset hdr (history.segment.readIndex reader))
      hdr.lineSize =
        (history.accepted.map (padLine hdr.lineSize))[(history.received reader).length] := by
    rw [slotOffset_eq fits below, inv.readIndex reader registered]
    exact inv.retains _ _ (List.getElem?_eq_getElem _) (by omega)
  refine ⟨inv.writeIndex, ?_, ?_, ?_, ?_, inv.retains⟩
  · intro other otherRegistered
    by_cases same : other = reader
    · subst same
      simp only [Function.update_self]
      rw [nextIndex_eq_mod below, inv.readIndex other registered, Nat.mod_add_mod]
      simp
    · simp only [Function.update_of_ne same]
      exact inv.readIndex other otherRegistered
  · intro other otherRegistered
    by_cases same : other = reader
    · subst same
      simp
      omega
    · simpa only [Function.update_of_ne same] using inv.notAhead other otherRegistered
  · intro other otherRegistered
    by_cases same : other = reader
    · subst same
      simp
      omega
    · simpa only [Function.update_of_ne same] using inv.withinLap other otherRegistered
  · intro other otherRegistered
    by_cases same : other = reader
    · subst same
      simp only [Function.update_self, List.length_append, List.length_singleton]
      rw [line, List.take_succ_eq_append_getElem (by simpa using behind),
        ← inv.received other registered]
    · simpa only [Function.update_of_ne same] using inv.received other otherRegistered

/-- Every complete call of a well-behaved user preserves the invariant. -/
theorem step (valid : segmentId < hdr.segmentCount) (blocking : hdr.overwrite = false)
    (fits : hdr.lineCount * hdr.lineSize < 2 ^ 32) (history : History) (call : Transfer)
    (next : History) (inv : history.Inv hdr) (allowed : call.Valid hdr history)
    (taken : history.step hdr segmentId call = some next) : next.Inv hdr := by
  cases call with
  | write src =>
      obtain ⟨nonempty, length⟩ := allowed
      by_cases full : history.segment.Full hdr
      · simp only [History.step, shmrbufWrite_full valid blocking nonempty length full,
          Option.some.injEq] at taken
        subst taken
        simpa [ioIpcSizeErr] using inv
      · rw [step_write_free valid nonempty length full, Option.some.injEq] at taken
        subst taken
        exact inv.write fits length full
  | read reader bufsize =>
      obtain ⟨registered, room⟩ := allowed
      simp only [History.step, Option.some.injEq] at taken
      subst taken
      by_cases unread : history.segment.writeIndex = history.segment.readIndex reader
      · rw [shmrbufRead_empty valid unread]
        simpa using inv
      · rw [shmrbufRead_line valid room unread]
        exact inv.read fits registered unread

/-- The invariant gives what the ring promises. -/
theorem fifo (inv : history.Inv hdr) (valid : segmentId < hdr.segmentCount)
    (blocking : hdr.overwrite = false) : history.Fifo hdr segmentId where
  receivedPrefix := by
    intro reader registered
    rw [inv.received reader registered]
    exact ⟨_, List.take_append_drop _ _⟩
  refusedIff := by
    intro src nonempty length
    rw [← inv.full_iff]
    constructor
    · intro refused
      by_contra free
      rw [shmrbufWrite_free valid nonempty length free] at refused
      simp [ioIpcSizeErr] at refused
    · intro full
      rw [shmrbufWrite_full valid blocking nonempty length full]
  refusedUnchanged := by
    intro src nonempty length refused
    by_cases full : history.segment.Full hdr
    · rw [shmrbufWrite_full valid blocking nonempty length full]
    · rw [shmrbufWrite_free valid nonempty length full] at refused
      simp [ioIpcSizeErr] at refused

end History.Inv

/-! ### Every run -/

/-- Along every run of complete calls on a segment below 4 GiB, every reader
has received a prefix of the accepted lines and the writer is refused exactly
when some reader is `line_count - 1` lines behind. -/
theorem copyingRing_fifo {hdr : GlobalHdr} {segmentId : Nat}
    (valid : segmentId < hdr.segmentCount) (blocking : hdr.overwrite = false)
    (fits : hdr.lineCount * hdr.lineSize < 2 ^ 32) {data : Data} {calls : List Transfer}
    {last : History}
    (run : TransferRun hdr segmentId (.created data) calls last) :
    last.Fifo hdr segmentId := by
  have inv : last.Inv hdr :=
    run.invariant (History.Inv.step valid blocking fits) (History.Inv.created hdr data)
  exact inv.fifo valid blocking

/-- A ring of two one-byte lines with one reader. -/
def smallHdr : GlobalHdr where
  segmentCount := 1
  readerCount := 1
  lineSize := 1
  lineCount := 2
  overwrite := false
  segmentCount_pos := by decide
  segmentCount_lt := by decide
  readerCount_pos := by decide
  readerCount_lt := by decide
  lineSize_pos := by decide
  lineSize_lt := by decide
  lineCount_pos := by decide
  lineCount_lt := by decide

/-- A line, one that is refused until the first is read, and one around the end. -/
def aroundTheEnd : List Transfer :=
  [.write [97], .write [98], .read 0 1, .write [98], .read 0 1, .write [99]]

theorem copyingRing_fifo_smallHdr :
    ∃ last, TransferRun smallHdr 0 (.created fun _ => 0) aroundTheEnd last ∧
      last.accepted = [[97], [98], [99]] ∧ last.Fifo smallHdr 0 := by
  have run : TransferRun smallHdr 0 (.created fun _ => 0) aroundTheEnd _ :=
    .cons (by decide) rfl (.cons (by decide) rfl (.cons (by decide) rfl (.cons (by decide) rfl
      (.cons (by decide) rfl (.cons (by decide) rfl (.nil _))))))
  exact ⟨_, run, by decide, copyingRing_fifo (by decide) rfl (by decide) run⟩

/-! ### Segments of 4 GiB and more

`slotOffset` wraps at `2 ^ 32` there, so two slots of one lap share their
bytes and a later write overwrites an unread line. -/

/-- Repeated writes that stay within one lap of a reader that reads nothing. -/
theorem run_replicate_write (hdr : GlobalHdr) (segmentId : Nat) (src : List UInt8)
    (valid : segmentId < hdr.segmentCount) (nonempty : 1 ≤ src.length)
    (length : src.length ≤ hdr.lineSize) (count : Nat) (history : History)
    (idle : ∀ reader < hdr.readerCount, history.segment.readIndex reader = 0)
    (room : history.segment.writeIndex + count < hdr.lineCount) :
    ∃ last, TransferRun hdr segmentId history (List.replicate count (.write src)) last ∧
      last.segment.writeIndex = history.segment.writeIndex + count ∧
      last.segment.readIndex = history.segment.readIndex ∧
      last.received = history.received ∧ history.accepted <+: last.accepted := by
  induction count generalizing history with
  | zero => exact ⟨history, .nil history, rfl, rfl, rfl, List.prefix_refl _⟩
  | succ count inductionHypothesis =>
      have next : nextIndex hdr history.segment.writeIndex = history.segment.writeIndex + 1 := by
        unfold nextIndex
        rw [if_neg (by omega)]
      have free : ¬ history.segment.Full hdr := by
        rintro ⟨reader, registered, same⟩
        rw [next, idle reader registered] at same
        omega
      obtain ⟨last, run, writeIndex, readIndex, received, accepted⟩ :=
        inductionHypothesis (history.afterWrite hdr src) idle (by
          simp only [History.afterWrite, Segment.afterWrite, next]
          omega)
      refine ⟨last, .cons ⟨nonempty, length⟩ (step_write_free valid nonempty length free) run,
        ?_, readIndex, received, ?_⟩
      · rw [writeIndex]
        simp only [History.afterWrite, Segment.afterWrite, next]
        omega
      · exact (List.prefix_append _ _).trans accepted

/-- One reader and just under `2 ^ 29` lines of 16 bytes: almost 8 GiB. -/
def wideHdr : GlobalHdr where
  segmentCount := 1
  readerCount := 1
  lineSize := 16
  lineCount := 2 ^ 29 - 1
  overwrite := false
  segmentCount_pos := by decide
  segmentCount_lt := by decide
  readerCount_pos := by decide
  readerCount_lt := by decide
  lineSize_pos := by decide
  lineSize_lt := by decide
  lineCount_pos := by decide
  lineCount_lt := by decide

/-- Slot `2 ^ 28` of that segment has the address of slot 0. -/
theorem wideHdr_slotOffset : slotOffset wideHdr (2 ^ 28) = 0 := by decide

/-- After `A` and `2 ^ 28` times `B` the reader is handed a `B` first. -/
theorem copyingRing_fifo_fails_wideHdr :
    ∃ (calls : List Transfer) (last : History),
      TransferRun wideHdr 0 (.created fun _ => 0) calls last ∧ ¬ last.Fifo wideHdr 0 := by
  let start : History := .created fun _ => 0
  let first := start.afterWrite wideHdr [65]
  have firstRun : TransferRun wideHdr 0 start [.write [65]] first :=
    .single (by decide) (step_write_free (by decide) (by decide) (by decide)
      (by unfold Segment.Full; decide))
  obtain ⟨middle, middleRun, writeIndex, readIndex, received, accepted⟩ :=
    run_replicate_write wideHdr 0 [66] (by decide) (by decide) (by decide) (2 ^ 28 - 1) first
      (by decide) (by decide)
  have atWrap : middle.segment.writeIndex = 2 ^ 28 := by rw [writeIndex]; decide
  have unread : middle.segment.readIndex 0 = 0 := by rw [readIndex]; rfl
  have free : ¬ middle.segment.Full wideHdr := by
    rintro ⟨reader, registered, same⟩
    obtain rfl : reader = 0 := Nat.lt_one_iff.mp registered
    rw [atWrap, unread] at same
    exact absurd same (by decide)
  have wrapRun : TransferRun wideHdr 0 middle [.write [66]] (middle.afterWrite wideHdr [66]) :=
    .single ⟨by decide, by decide⟩ (step_write_free (by decide) (by decide) (by decide) free)
  let full := middle.afterWrite wideHdr [66]
  have behind : full.segment.writeIndex ≠ full.segment.readIndex 0 := by
    change nextIndex wideHdr middle.segment.writeIndex ≠ middle.segment.readIndex 0
    rw [atWrap, unread]
    decide
  have readRun : TransferRun wideHdr 0 full [.read 0 16] _ :=
    .single ⟨by decide, by decide⟩ rfl
  refine ⟨_, _, ((firstRun.append middleRun).append wrapRun).append readRun, fun fifo => ?_⟩
  -- The only received line is the last one written, the first accepted one differs.
  have line : (shmrbufRead wideHdr 0 full.segment 0 16).lines = [padLine 16 [66]] := by
    rw [shmrbufRead_line (by decide) (by decide) behind]
    change [getLine (putLine middle.segment.data (slotOffset wideHdr middle.segment.writeIndex)
      16 [66]) (slotOffset wideHdr (middle.segment.readIndex 0)) 16] = [padLine 16 [66]]
    rw [atWrap, unread, wideHdr_slotOffset]
    exact congrArg (fun bytes => [bytes]) (getLine_putLine_same _ 0 (by decide))
  have isPrefix := fifo.receivedPrefix 0 (by decide)
  obtain ⟨rest, whole⟩ := accepted
  simp only [Function.update_self, line] at isPrefix
  have noneBefore : full.received 0 = [] := congrFun received 0
  have acceptedFull : full.accepted = [65] :: (rest ++ [[66]]) := by
    change middle.accepted ++ [[66]] = _
    rw [← whole]
    rfl
  rw [noneBefore, acceptedFull, List.nil_append, List.map_cons, List.cons_prefix_cons] at isPrefix
  exact absurd isPrefix.1 (by decide)

end FipsIpc.ShmRingbuf
