import FipsIpc.Lib.LapLog
import FipsIpc.ShmRingbuf.Fifo

/-!
Contract: the copying ring in overwrite mode.

Owns: what every reader gets along every run of complete calls when the writer
waits for nobody.

A reader that was lapped cannot tell: its index and the writer's are equal after
every whole lap.  It misses whole laps and nothing else, and it never gets a line
twice or out of order.

Does not own: the vector calls, and a read that a write overtakes while it copies.
-/

set_option autoImplicit false

namespace FipsIpc.ShmRingbuf

open FipsIpc.Lib
open FipsIpc.Lib.RingLog
open FipsIpc.Lib.LapLog

/-- The accepted lines as they stand in their slots. -/
def History.log (hdr : GlobalHdr) (history : History) : List (List UInt8) :=
  history.accepted.map (padLine hdr.lineSize)

/-- What the ring promises in overwrite mode: a write is never refused; a reader has
got lines of the log in its order, each at most once, and missed whole laps; its next
read returns the first line of the current lap that it has not got, and nothing when
there is none. -/
structure History.Overwriting (hdr : GlobalHdr) (segmentId : Nat) (history : History) : Prop where
  written : ∀ src : List UInt8, 1 ≤ src.length → src.length ≤ hdr.lineSize →
    (shmrbufWrite hdr segmentId history.segment src).1 = hdr.lineSize
  readers : ∀ reader < hdr.readerCount, ∃ batches cursor,
    Laps hdr.lineCount batches cursor ∧ cursor ≤ (history.log hdr).length ∧
      EntriesAt (history.log hdr) (positionsOf batches) (history.received reader) ∧
      ∀ bufsize, hdr.lineSize ≤ bufsize →
        (shmrbufRead hdr segmentId history.segment reader bufsize).lines =
          ((history.log hdr).drop
            (catchUp hdr.lineCount cursor (history.log hdr).length)).take 1

/-! ### The invariant -/

/-- The index of a reader and the lines it got. -/
structure History.Lapped (hdr : GlobalHdr) (history : History) (reader : Nat)
    (batches : List (Nat × Nat)) (cursor : Nat) : Prop where
  laps : Laps hdr.lineCount batches cursor
  notAhead : cursor ≤ (history.log hdr).length
  readIndex : history.segment.readIndex reader = cursor % hdr.lineCount
  entries : EntriesAt (history.log hdr) (positionsOf batches) (history.received reader)

/-- All indices and slots of a segment against its history. -/
structure History.LapInv (hdr : GlobalHdr) (history : History) : Prop where
  writeIndex : history.segment.writeIndex = (history.log hdr).length % hdr.lineCount
  retains : Retains hdr.lineCount (slotLine hdr history.segment.data) (history.log hdr)
    (history.log hdr).length
  readers : ∀ reader < hdr.readerCount, ∃ batches cursor, history.Lapped hdr reader batches cursor

section Calls

variable {hdr : GlobalHdr} {segmentId : Nat} {history : History}

/-- Without the check of the readers every write is stored. -/
theorem shmrbufWrite_overwrite {src : List UInt8} (valid : segmentId < hdr.segmentCount)
    (lossy : hdr.overwrite = true) (nonempty : 1 ≤ src.length) (length : src.length ≤ hdr.lineSize)
    (segment : Segment) :
    shmrbufWrite hdr segmentId segment src =
      ((hdr.lineSize : Int), segment.afterWrite hdr src) := by
  unfold shmrbufWrite
  rw [if_neg (by omega), if_neg (by omega), if_neg (by simp [lossy])]
  rfl

theorem step_write_overwrite {src : List UInt8} (valid : segmentId < hdr.segmentCount)
    (lossy : hdr.overwrite = true) (nonempty : 1 ≤ src.length)
    (length : src.length ≤ hdr.lineSize) :
    history.step hdr segmentId (.write src) = some (history.afterWrite hdr src) := by
  have notError : ¬ ((hdr.lineSize : Int) < 0) := by omega
  simp only [History.step, shmrbufWrite_overwrite valid lossy nonempty length, if_neg notError,
    History.afterWrite]

theorem log_afterWrite (src : List UInt8) :
    (history.afterWrite hdr src).log hdr = history.log hdr ++ [padLine hdr.lineSize src] := by
  simp [History.log, History.afterWrite]

end Calls

namespace History.LapInv

variable {hdr : GlobalHdr} {segmentId : Nat} {history : History}

theorem created (hdr : GlobalHdr) (data : Data) : (History.created data).LapInv hdr where
  writeIndex := by simp [History.created, History.log, Segment.created]
  retains := .nil
  readers := by
    intro reader _
    refine ⟨[], 0, .start, Nat.zero_le _, ?_, rfl⟩
    simp [History.created, Segment.created]

theorem writeIndex_lt (inv : history.LapInv hdr) :
    history.segment.writeIndex < hdr.lineCount := by
  rw [inv.writeIndex]
  exact Nat.mod_lt _ hdr.lineCount_pos

/-- A line goes to the slot of the write index and overwrites the line a lap before
it. -/
theorem write (inv : history.LapInv hdr) (fits : hdr.lineCount * hdr.lineSize < 2 ^ 32)
    {src : List UInt8} (length : src.length ≤ hdr.lineSize) :
    (history.afterWrite hdr src).LapInv hdr := by
  have slot := slotOffset_eq fits inv.writeIndex_lt
  have total : ((history.afterWrite hdr src).log hdr).length = (history.log hdr).length + 1 := by
    rw [log_afterWrite, List.length_append, List.length_singleton]
  refine ⟨?_, ?_, ?_⟩
  · rw [total, ← Nat.mod_add_mod, ← inv.writeIndex]
    exact nextIndex_eq_mod inv.writeIndex_lt
  · rw [total, log_afterWrite]
    apply Retains.append
    · apply (inv.retains.claim (Nat.le_succ _)).write _ hdr.lineCount_pos
      intro position _ _ notClaimed
      have different : history.segment.writeIndex ≠ position := by
        rw [inv.writeIndex]
        exact (notClaimed _ le_rfl (Nat.lt_succ_self _)).symm
      simp only [slotLine, History.afterWrite, Segment.afterWrite]
      rw [slot]
      apply getLine_putLine_disjoint
      exact (cells_disjoint different).symm
    · intro offset entry present
      obtain ⟨rfl, rfl⟩ : offset = 0 ∧ padLine hdr.lineSize src = entry := by
        cases offset with
        | zero => simpa using present
        | succ offset => simp at present
      rw [Nat.add_zero, ← inv.writeIndex]
      simp only [slotLine, History.afterWrite, Segment.afterWrite]
      rw [slot, getLine_putLine_same _ _ length]
  · intro reader registered
    obtain ⟨batches, cursor, lapped⟩ := inv.readers reader registered
    have notAhead := lapped.notAhead
    refine ⟨batches, cursor, lapped.laps, by omega, lapped.readIndex, ?_⟩
    rw [log_afterWrite]
    apply lapped.entries.grow
    intro position member
    exact Nat.lt_of_lt_of_le (lapped.laps.position_lt position member) notAhead

/-- The indices are equal exactly when a whole number of laps is unread. -/
theorem writeIndex_eq_readIndex_iff (inv : history.LapInv hdr) {reader cursor : Nat}
    {batches : List (Nat × Nat)} (lapped : history.Lapped hdr reader batches cursor) :
    history.segment.writeIndex = history.segment.readIndex reader ↔
      catchUp hdr.lineCount cursor (history.log hdr).length = (history.log hdr).length := by
  rw [inv.writeIndex, lapped.readIndex, ← catchUp_mod lapped.notAhead]
  constructor
  · intro same
    by_contra different
    have below : catchUp hdr.lineCount cursor (history.log hdr).length <
        (history.log hdr).length := Nat.lt_of_le_of_ne catchUp_le different
    exact mod_ne_of_lt_of_lt_add below (length_lt_catchUp hdr.lineCount_pos) same.symm
  · intro same
    rw [same]

/-- A read finds the first unread line of the current lap, if there is one. -/
theorem read_lines (inv : history.LapInv hdr) (valid : segmentId < hdr.segmentCount)
    (fits : hdr.lineCount * hdr.lineSize < 2 ^ 32) {reader cursor bufsize : Nat}
    {batches : List (Nat × Nat)} (lapped : history.Lapped hdr reader batches cursor)
    (room : hdr.lineSize ≤ bufsize) :
    (shmrbufRead hdr segmentId history.segment reader bufsize).lines =
      ((history.log hdr).drop
        (catchUp hdr.lineCount cursor (history.log hdr).length)).take 1 := by
  by_cases unread : history.segment.writeIndex = history.segment.readIndex reader
  · rw [shmrbufRead_empty valid unread, (inv.writeIndex_eq_readIndex_iff lapped).mp unread,
      List.drop_length, List.take_nil]
  · have below : catchUp hdr.lineCount cursor (history.log hdr).length <
        (history.log hdr).length :=
      Nat.lt_of_le_of_ne catchUp_le (mt (inv.writeIndex_eq_readIndex_iff lapped).mpr unread)
    have inRing : history.segment.readIndex reader < hdr.lineCount := by
      rw [lapped.readIndex]
      exact Nat.mod_lt _ hdr.lineCount_pos
    rw [shmrbufRead_line valid room unread,
      ← inv.retains.read below (length_lt_catchUp hdr.lineCount_pos).le]
    simp only [List.range_one, List.map_cons, List.map_nil, Nat.add_zero, slotLine]
    rw [slotOffset_eq fits inRing, lapped.readIndex, catchUp_mod lapped.notAhead]

/-- A successful read brings the reader into the current lap. -/
theorem read (inv : history.LapInv hdr) (valid : segmentId < hdr.segmentCount)
    (fits : hdr.lineCount * hdr.lineSize < 2 ^ 32) {reader bufsize : Nat}
    (registered : reader < hdr.readerCount) (room : hdr.lineSize ≤ bufsize) :
    History.LapInv hdr
      { history with
        segment := (shmrbufRead hdr segmentId history.segment reader bufsize).segment
        received := Function.update history.received reader
          (history.received reader ++
            (shmrbufRead hdr segmentId history.segment reader bufsize).lines) } := by
  obtain ⟨batches, cursor, lapped⟩ := inv.readers reader registered
  have lines := inv.read_lines valid fits lapped room
  by_cases unread : history.segment.writeIndex = history.segment.readIndex reader
  · rw [shmrbufRead_empty valid unread]
    simpa using inv
  · have below : catchUp hdr.lineCount cursor (history.log hdr).length <
        (history.log hdr).length :=
      Nat.lt_of_le_of_ne catchUp_le (mt (inv.writeIndex_eq_readIndex_iff lapped).mpr unread)
    rw [lines, shmrbufRead_line valid room unread]
    refine ⟨inv.writeIndex, inv.retains, ?_⟩
    intro other otherRegistered
    by_cases same : other = reader
    · subst same
      refine ⟨_, _, lapped.laps.caughtUp lapped.notAhead 1, below, ?_, ?_⟩
      · have inRing : history.segment.readIndex other < hdr.lineCount := by
          rw [lapped.readIndex]
          exact Nat.mod_lt _ hdr.lineCount_pos
        simp only [Function.update_self]
        rw [nextIndex_eq_mod inRing, lapped.readIndex, ← catchUp_mod lapped.notAhead,
          Nat.mod_add_mod]
      · simp only [Function.update_self]
        rw [positionsOf_append, positionsOf_singleton]
        exact lapped.entries.stretch below
    · obtain ⟨otherBatches, otherCursor, otherLapped⟩ := inv.readers other otherRegistered
      refine ⟨otherBatches, otherCursor, otherLapped.laps, otherLapped.notAhead, ?_, ?_⟩
      · simpa only [Function.update_of_ne same] using otherLapped.readIndex
      · simpa only [Function.update_of_ne same, History.log] using otherLapped.entries

/-- Every complete call of a well-behaved user preserves the invariant. -/
theorem step (valid : segmentId < hdr.segmentCount) (lossy : hdr.overwrite = true)
    (fits : hdr.lineCount * hdr.lineSize < 2 ^ 32) (history : History) (call : Transfer)
    (next : History) (inv : history.LapInv hdr) (allowed : call.Valid hdr history)
    (taken : history.step hdr segmentId call = some next) : next.LapInv hdr := by
  cases call with
  | write src =>
      obtain ⟨nonempty, length⟩ := allowed
      rw [step_write_overwrite valid lossy nonempty length, Option.some.injEq] at taken
      subst taken
      exact inv.write fits length
  | read reader bufsize =>
      obtain ⟨registered, room⟩ := allowed
      simp only [History.step, Option.some.injEq] at taken
      subst taken
      exact inv.read valid fits registered room

end History.LapInv

/-! ### Every run -/

/-- A ring of two lines that overwrites. -/
def lossyHdr : GlobalHdr := { smallHdr with overwrite := true }

end FipsIpc.ShmRingbuf
