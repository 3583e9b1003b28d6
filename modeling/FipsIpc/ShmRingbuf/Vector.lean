import FipsIpc.ShmRingbuf.Fifo

/-!
Contract: the vector calls of the copying ring against repeated single calls.

Owns: segments reachable by any calls on a segment, the number of lines a
vector call moves, the slots `shmrbuf_writev` and `shmrbuf_readv` touch, and
the exact conditions under which they have the effect of the single calls in a
row.

Around the end of the ring both vector calls differ from the single calls:
`shmrbuf_writev` restarts at `iovecs[0]` after the wrap, `shmrbuf_readv` keeps
advancing its source pointer past the last slot.

Does not own: overwrite mode, segments of 4 GiB and more.
-/

set_option autoImplicit false

namespace FipsIpc.ShmRingbuf

open FipsIpc.Lib
open FipsIpc.Lib.RingLog

/-! ### Reachable segments -/

inductive SegmentCall where
  | write (src : List UInt8)
  | writev (argsSegmentCount : Nat) (iovecs : List (List UInt8)) (vsize : Nat)
  | read (reader bufsize : Nat)
  | readv (reader vsize bufsize : Nat)

def Segment.step (hdr : GlobalHdr) (segmentId : Nat) (segment : Segment) :
    SegmentCall → Option Segment
  | .write src => some (shmrbufWrite hdr segmentId segment src).2
  | .writev argsSegmentCount iovecs vsize =>
      some (shmrbufWritev hdr argsSegmentCount segmentId segment iovecs vsize).2
  | .read reader bufsize => some (shmrbufRead hdr segmentId segment reader bufsize).segment
  | .readv reader vsize bufsize =>
      some (shmrbufReadv hdr segmentId segment reader vsize bufsize).segment

/-- A segment some sequence of calls produces from a new one. -/
def Segment.Reachable (hdr : GlobalHdr) (segmentId : Nat) (segment : Segment) : Prop :=
  ∃ data calls, Run (Segment.step hdr segmentId) (fun _ _ => True) (.created data) calls segment

/-- All indices are slot numbers. -/
structure Segment.Bounded (hdr : GlobalHdr) (segment : Segment) : Prop where
  writeIndex : segment.writeIndex < hdr.lineCount
  readIndex : ∀ reader, segment.readIndex reader < hdr.lineCount

section Bounded

variable {hdr : GlobalHdr} {segmentId : Nat} {segment : Segment}

theorem shmrbufWrite_bounded (bounded : segment.Bounded hdr) (src : List UInt8) :
    (shmrbufWrite hdr segmentId segment src).2.Bounded hdr := by
  unfold shmrbufWrite
  dsimp only
  split_ifs
  · exact bounded
  · exact bounded
  · exact bounded
  · exact ⟨nextIndex_lt bounded.writeIndex, bounded.readIndex⟩

/-- The end of `shmrbuf_writev` after a loop that has copied the lines or not. -/
theorem writev_copied_cases {index : Nat} {lines : Int} {copied : Bool × Data}
    {result : Int × Segment}
    (after : (match copied with
      | (false, data) => (ioIpcSizeErr, { segment with data := data })
      | (true, data) => (lines, { segment with writeIndex := index, data := data })) = result) :
    (∃ code data, result = (code, { segment with data := data }) ∧ code ≤ 0) ∨
      ∃ data, result = (lines, { segment with writeIndex := index, data := data }) := by
  obtain ⟨_ | _, data⟩ := copied
  · exact Or.inl ⟨_, data, after.symm, by decide⟩
  · exact Or.inr ⟨data, after.symm⟩

/-- The same with a second loop on the data the first one has left. -/
theorem writev_copied_twice_cases {index : Nat} {lines : Int} {copied : Bool × Data}
    {second : Data → Bool × Data} {result : Int × Segment}
    (after : (match copied with
      | (false, data) => (ioIpcSizeErr, { segment with data := data })
      | (true, data) =>
          match second data with
          | (false, data) => (ioIpcSizeErr, { segment with data := data })
          | (true, data) => (lines, { segment with writeIndex := index, data := data })) =
        result) :
    (∃ code data, result = (code, { segment with data := data }) ∧ code ≤ 0) ∨
      ∃ data, result = (lines, { segment with writeIndex := index, data := data }) := by
  obtain ⟨_ | _, data⟩ := copied
  · exact Or.inl ⟨_, data, after.symm, by decide⟩
  · exact writev_copied_cases after

/-- `shmrbuf_writev` leaves the indices alone and reports nothing written, or
moves the write index by the lines it reports. -/
theorem shmrbufWritev_cases (hdr : GlobalHdr) (argsSegmentCount segmentId : Nat)
    (segment : Segment) (iovecs : List (List UInt8)) (vsize : Nat) :
    (∃ code data, shmrbufWritev hdr argsSegmentCount segmentId segment iovecs vsize =
      (code, { segment with data := data }) ∧ code ≤ 0) ∨
    ∃ data, shmrbufWritev hdr argsSegmentCount segmentId segment iovecs vsize =
      ((clampVsize hdr segment vsize : Int),
        { segment with
          writeIndex := (segment.writeIndex + clampVsize hdr segment vsize) % 2 ^ 32 % hdr.lineCount
          data := data }) := by
  unfold shmrbufWritev
  dsimp only
  split_ifs
  · exact Or.inl ⟨_, segment.data, rfl, by decide⟩
  · exact Or.inl ⟨_, segment.data, rfl, by decide⟩
  · exact Or.inl ⟨_, segment.data, rfl, by decide⟩
  · exact writev_copied_cases rfl
  · exact writev_copied_twice_cases rfl

theorem shmrbufWritev_bounded (bounded : segment.Bounded hdr) (argsSegmentCount : Nat)
    (iovecs : List (List UInt8)) (vsize : Nat) :
    (shmrbufWritev hdr argsSegmentCount segmentId segment iovecs vsize).2.Bounded hdr := by
  rcases shmrbufWritev_cases hdr argsSegmentCount segmentId segment iovecs vsize with
    ⟨_, _, result, _⟩ | ⟨_, result⟩
  · rw [result]
    exact ⟨bounded.writeIndex, bounded.readIndex⟩
  · rw [result]
    exact ⟨Nat.mod_lt _ hdr.lineCount_pos, bounded.readIndex⟩

/-- Moving one reader to a slot number keeps all indices in range. -/
theorem Segment.Bounded.moveReader (bounded : segment.Bounded hdr) (reader : Nat) {index : Nat}
    (below : index < hdr.lineCount) :
    Segment.Bounded hdr
      { segment with readIndex := Function.update segment.readIndex reader index } where
  writeIndex := bounded.writeIndex
  readIndex := by
    intro other
    by_cases same : other = reader
    · subst same
      simpa only [Function.update_self] using below
    · simpa only [Function.update_of_ne same] using bounded.readIndex other

theorem shmrbufRead_bounded (bounded : segment.Bounded hdr) (reader bufsize : Nat) :
    (shmrbufRead hdr segmentId segment reader bufsize).segment.Bounded hdr := by
  unfold shmrbufRead
  dsimp only
  split_ifs
  · exact bounded
  · exact bounded
  · exact bounded
  · exact bounded.moveReader reader (nextIndex_lt (bounded.readIndex reader))

theorem shmrbufReadv_bounded (bounded : segment.Bounded hdr) (reader vsize bufsize : Nat) :
    (shmrbufReadv hdr segmentId segment reader vsize bufsize).segment.Bounded hdr := by
  have moved := fun count => bounded.moveReader reader
    (Nat.mod_lt ((segment.readIndex reader + count) % 2 ^ 32) hdr.lineCount_pos)
  unfold shmrbufReadv
  dsimp only
  split_ifs
  · exact bounded
  · exact bounded
  · exact bounded
  · exact bounded
  · exact moved _
  · exact moved _

theorem Segment.Reachable.bounded (reachable : segment.Reachable hdr segmentId) :
    segment.Bounded hdr := by
  obtain ⟨data, calls, run⟩ := reachable
  have preserved : ∀ (state : Segment) (call : SegmentCall) (next : Segment),
      state.Bounded hdr → True → state.step hdr segmentId call = some next →
        next.Bounded hdr := by
    intro state call next bounded _ taken
    cases call with
    | write src =>
        obtain rfl := Option.some.inj taken
        exact shmrbufWrite_bounded bounded src
    | writev argsSegmentCount iovecs vsize =>
        obtain rfl := Option.some.inj taken
        exact shmrbufWritev_bounded bounded argsSegmentCount iovecs vsize
    | read reader bufsize =>
        obtain rfl := Option.some.inj taken
        exact shmrbufRead_bounded bounded reader bufsize
    | readv reader vsize bufsize =>
        obtain rfl := Option.some.inj taken
        exact shmrbufReadv_bounded bounded reader vsize bufsize
  exact run.invariant preserved ⟨hdr.lineCount_pos, fun _ => hdr.lineCount_pos⟩

end Bounded

/-! ### How many lines a vector write moves -/

section Clamp

variable {hdr : GlobalHdr} {segment : Segment}

private theorem le_foldl_clamp_iff (free : Nat → Nat) (readers : List Nat) (vsize bound : Nat) :
    bound ≤ readers.foldl
        (fun vsize reader => if free reader < vsize then free reader else vsize) vsize ↔
      bound ≤ vsize ∧ ∀ reader ∈ readers, bound ≤ free reader := by
  induction readers generalizing vsize with
  | nil => simp
  | cons reader rest inductionHypothesis =>
      rw [List.foldl_cons, inductionHypothesis, List.forall_mem_cons, ← and_assoc]
      apply and_congr_left
      intro _
      split <;> omega

/-- The clamped size is the largest number of lines that the vector, the ring
and every reader allow. -/
theorem le_clampVsize_iff (blocking : hdr.overwrite = false) (vsize bound : Nat) :
    bound ≤ clampVsize hdr segment vsize ↔
      bound ≤ vsize ∧ bound ≤ hdr.lineCount ∧
        ∀ reader < hdr.readerCount, bound ≤ freeLines hdr segment reader := by
  unfold clampVsize
  rw [blocking]
  simp only [Bool.false_eq_true, if_false, le_foldl_clamp_iff, List.mem_range, ← and_assoc]
  apply and_congr_left
  intro _
  split <;> omega

theorem clampVsize_allowed (blocking : hdr.overwrite = false) (segment : Segment) (vsize : Nat) :
    clampVsize hdr segment vsize ≤ vsize ∧ clampVsize hdr segment vsize ≤ hdr.lineCount ∧
      ∀ reader < hdr.readerCount,
        clampVsize hdr segment vsize ≤ freeLines hdr segment reader :=
  (le_clampVsize_iff blocking vsize _).mp le_rfl

theorem freeLines_lt (bounded : segment.Bounded hdr) (reader : Nat) :
    freeLines hdr segment reader < hdr.lineCount := by
  have write := bounded.writeIndex
  have read := bounded.readIndex reader
  unfold freeLines
  dsimp only
  split <;> omega

/-- The slots of one reader: what it has not read and what is free add up to
one less than the ring. -/
theorem unreadLines_add_freeLines (bounded : segment.Bounded hdr) (reader : Nat) :
    unreadLines hdr segment reader + freeLines hdr segment reader + 1 = hdr.lineCount := by
  have write := bounded.writeIndex
  have read := bounded.readIndex reader
  unfold unreadLines freeLines
  dsimp only
  split <;> omega

/-- The write index is the reader's index advanced by the unread lines. -/
theorem readIndex_add_unreadLines (bounded : segment.Bounded hdr) (reader : Nat) :
    (segment.readIndex reader + unreadLines hdr segment reader) % hdr.lineCount =
      segment.writeIndex := by
  have write := bounded.writeIndex
  have read := bounded.readIndex reader
  unfold unreadLines
  dsimp only
  split
  · have lap : segment.readIndex reader +
        (hdr.lineCount - (segment.readIndex reader - segment.writeIndex)) =
          segment.writeIndex + hdr.lineCount := by omega
    rw [lap, Nat.add_mod_right, Nat.mod_eq_of_lt write]
  · have same : segment.readIndex reader + (segment.writeIndex - segment.readIndex reader) =
        segment.writeIndex := by omega
    rw [same, Nat.mod_eq_of_lt write]

theorem next_eq_readIndex_iff_freeLines (bounded : segment.Bounded hdr) (reader : Nat) :
    nextIndex hdr segment.writeIndex = segment.readIndex reader ↔
      freeLines hdr segment reader = 0 := by
  have write := bounded.writeIndex
  have read := bounded.readIndex reader
  unfold nextIndex freeLines
  dsimp only
  split <;> split <;> omega

theorem full_iff_freeLines (bounded : segment.Bounded hdr) :
    segment.Full hdr ↔ ∃ reader < hdr.readerCount, freeLines hdr segment reader = 0 := by
  unfold Segment.Full
  simp only [next_eq_readIndex_iff_freeLines bounded]

/-- One accepted write takes one free line from every reader. -/
theorem freeLines_afterWrite (bounded : segment.Bounded hdr) (src : List UInt8) {reader : Nat}
    (free : freeLines hdr segment reader ≠ 0) :
    freeLines hdr (segment.afterWrite hdr src) reader + 1 = freeLines hdr segment reader := by
  have write := bounded.writeIndex
  have read := bounded.readIndex reader
  unfold freeLines at free ⊢
  simp only [Segment.afterWrite, nextIndex] at free ⊢
  split at free <;> split <;> split <;> omega

theorem Segment.Bounded.afterWrite (bounded : segment.Bounded hdr) (src : List UInt8) :
    (segment.afterWrite hdr src).Bounded hdr :=
  ⟨nextIndex_lt bounded.writeIndex, bounded.readIndex⟩

end Clamp

/-! ### Single writes in a row -/

/-- `shmrbuf_write` on the lines in order until the first `IO_IPC_SIZE_ERR` or
the end of the vector: the number of lines written, and the segment. -/
def writeUntilFull (hdr : GlobalHdr) (segmentId : Nat) :
    List (List UInt8) → Segment → Nat × Segment
  | [], segment => (0, segment)
  | line :: rest, segment =>
      let result := shmrbufWrite hdr segmentId segment line
      if result.1 = ioIpcSizeErr then (0, result.2)
      else
        let remaining := writeUntilFull hdr segmentId rest result.2
        (remaining.1 + 1, remaining.2)

/-- The segment after the given lines were accepted. -/
def Segment.afterWrites (hdr : GlobalHdr) (segment : Segment) (lines : List (List UInt8)) :
    Segment :=
  lines.foldl (fun segment line => segment.afterWrite hdr line) segment

section SingleWrites

variable {hdr : GlobalHdr} {segmentId : Nat} {segment : Segment}

@[simp] theorem afterWrites_readIndex (lines : List (List UInt8)) :
    (segment.afterWrites hdr lines).readIndex = segment.readIndex := by
  unfold Segment.afterWrites
  induction lines generalizing segment with
  | nil => rfl
  | cons line rest inductionHypothesis =>
      rw [List.foldl_cons, inductionHypothesis]
      rfl

theorem afterWrites_writeIndex (bounded : segment.Bounded hdr) (lines : List (List UInt8)) :
    (segment.afterWrites hdr lines).writeIndex =
      (segment.writeIndex + lines.length) % hdr.lineCount := by
  unfold Segment.afterWrites
  induction lines generalizing segment with
  | nil => exact (Nat.mod_eq_of_lt bounded.writeIndex).symm
  | cons line rest inductionHypothesis =>
      rw [List.foldl_cons, inductionHypothesis (bounded.afterWrite line)]
      simp only [Segment.afterWrite]
      rw [nextIndex_eq_mod bounded.writeIndex, Nat.mod_add_mod, List.length_cons]
      congr 1
      omega

/-- Single writes in a row move exactly the clamped number of lines. -/
theorem writeUntilFull_eq (valid : segmentId < hdr.segmentCount)
    (blocking : hdr.overwrite = false) (bounded : segment.Bounded hdr)
    (lines : List (List UInt8))
    (lengths : ∀ line ∈ lines, 1 ≤ line.length ∧ line.length ≤ hdr.lineSize) :
    writeUntilFull hdr segmentId lines segment =
      (clampVsize hdr segment lines.length,
        segment.afterWrites hdr (lines.take (clampVsize hdr segment lines.length))) := by
  induction lines generalizing segment with
  | nil =>
      have none : clampVsize hdr segment 0 = 0 :=
        Nat.le_zero.mp (clampVsize_allowed blocking segment 0).1
      simp [writeUntilFull, none, Segment.afterWrites]
  | cons line rest inductionHypothesis =>
      obtain ⟨nonempty, length⟩ := lengths line (by simp)
      by_cases full : segment.Full hdr
      · obtain ⟨reader, registered, noRoom⟩ := (full_iff_freeLines bounded).mp full
        have none : clampVsize hdr segment (line :: rest).length = 0 := by
          have bound := (clampVsize_allowed blocking segment (line :: rest).length).2.2
            reader registered
          omega
        rw [none]
        simp [writeUntilFull, shmrbufWrite_full valid blocking nonempty length full,
          Segment.afterWrites]
      · have notError : ¬ ((hdr.lineSize : Int) = ioIpcSizeErr) := by
          unfold ioIpcSizeErr
          omega
        have free : ∀ reader < hdr.readerCount, freeLines hdr segment reader ≠ 0 :=
          fun reader registered noRoom =>
            full ((full_iff_freeLines bounded).mpr ⟨reader, registered, noRoom⟩)
        have oneLess : clampVsize hdr segment (line :: rest).length =
            clampVsize hdr (segment.afterWrite hdr line) rest.length + 1 := by
          -- Both sides are characterised by the numbers of lines they allow.
          apply Nat.le_antisymm
          · have room := clampVsize_allowed blocking segment (line :: rest).length
            rw [← Nat.sub_le_iff_le_add, le_clampVsize_iff blocking]
            refine ⟨by simpa using room.1, by omega, fun reader registered => ?_⟩
            have step := freeLines_afterWrite bounded line (free reader registered)
            have bound := room.2.2 reader registered
            omega
          · have room := clampVsize_allowed blocking (segment.afterWrite hdr line) rest.length
            rw [le_clampVsize_iff blocking]
            have registered := hdr.readerCount_pos
            have small := freeLines_lt (bounded.afterWrite line) 0
            have below := room.2.2 0 registered
            refine ⟨by simpa using room.1, by omega, fun reader registered => ?_⟩
            have step := freeLines_afterWrite bounded line (free reader registered)
            have bound := room.2.2 reader registered
            omega
        have restLengths : ∀ other ∈ rest, 1 ≤ other.length ∧ other.length ≤ hdr.lineSize :=
          fun other member => lengths other (by simp [member])
        simp only [writeUntilFull, shmrbufWrite_free valid nonempty length full,
          if_neg notError, inductionHypothesis (bounded.afterWrite line) restLengths, oneLess,
          List.take_succ_cons, Segment.afterWrites, List.foldl_cons]

end SingleWrites

/-! ### Slots written by a batch -/

/-- `count` lines went to the slots `place 0`, `place 1`, ...; every other slot
kept its line. -/
structure SlotsWritten (hdr : GlobalHdr) (before after : Data) (place : Nat → Nat)
    (count : Nat) (line : Nat → List UInt8) : Prop where
  written : ∀ index < count, slotLine hdr after (place index) = line index
  kept : ∀ slot, (∀ index < count, slot ≠ place index) →
    slotLine hdr after slot = slotLine hdr before slot

namespace SlotsWritten

variable {hdr : GlobalHdr} {before after : Data} {place : Nat → Nat} {count : Nat}
  {line : Nat → List UInt8}

theorem none (data : Data) (place : Nat → Nat) (line : Nat → List UInt8) :
    SlotsWritten hdr data data place 0 line :=
  ⟨fun _ below => absurd below (Nat.not_lt_zero _), fun _ _ => rfl⟩

/-- A line followed by a batch that does not come back to its slot. -/
theorem cons {src : List UInt8} (length : src.length ≤ hdr.lineSize)
    (rest : SlotsWritten hdr (putLine before (place 0 * hdr.lineSize) hdr.lineSize src) after
      (fun index => place (index + 1)) count (fun index => line (index + 1)))
    (head : line 0 = padLine hdr.lineSize src)
    (fresh : ∀ index < count, place 0 ≠ place (index + 1)) :
    SlotsWritten hdr before after place (count + 1) line where
  written := by
    intro index below
    cases index with
    | zero =>
        rw [rest.kept _ fresh, head]
        exact getLine_putLine_same _ _ length
    | succ index => exact rest.written index (by omega)
  kept := by
    intro slot other
    rw [rest.kept slot fun index below => other (index + 1) (by omega)]
    exact getLine_putLine_disjoint _ _ (cells_disjoint (other 0 (by omega)))

end SlotsWritten

section Slots

variable {hdr : GlobalHdr} {segment : Segment}

/-- Accepted single writes fill the slots from the write index on, around the
end of the ring. -/
theorem slotsWritten_afterWrites (fits : hdr.lineCount * hdr.lineSize < 2 ^ 32)
    (bounded : segment.Bounded hdr) (lines : List (List UInt8))
    (few : lines.length ≤ hdr.lineCount)
    (lengths : ∀ line ∈ lines, line.length ≤ hdr.lineSize) :
    SlotsWritten hdr segment.data (segment.afterWrites hdr lines).data
      (fun index => (segment.writeIndex + index) % hdr.lineCount) lines.length
      (fun index => padLine hdr.lineSize (lines.getD index [])) := by
  induction lines generalizing segment with
  | nil => exact .none _ _ _
  | cons line rest inductionHypothesis =>
      have later := inductionHypothesis (bounded.afterWrite line) (by simp at few; omega)
        (fun other member => lengths other (by simp [member]))
      have start : (segment.writeIndex + 0) % hdr.lineCount = segment.writeIndex :=
        Nat.mod_eq_of_lt bounded.writeIndex
      have shifted : ∀ index, ((segment.afterWrite hdr line).writeIndex + index) % hdr.lineCount =
          (segment.writeIndex + (index + 1)) % hdr.lineCount := by
        intro index
        simp only [Segment.afterWrite]
        rw [nextIndex_eq_mod bounded.writeIndex, Nat.mod_add_mod]
        congr 1
        omega
      simp only [shifted] at later
      refine SlotsWritten.cons (lengths line (by simp)) ?_ rfl ?_
      · simpa only [start, Segment.afterWrite, Segment.afterWrites, List.foldl_cons,
          List.getD_cons_succ, slotOffset_eq fits bounded.writeIndex] using later
      · intro index below
        have within : rest.length + 1 ≤ hdr.lineCount := by simpa using few
        exact mod_ne_of_lt_of_lt_add (by omega) (by omega)

/-- A copy loop of `shmrbuf_writev` fills consecutive slots. -/
theorem slotsWritten_copyLines (hdr : GlobalHdr) (iovecs : List (List UInt8))
    (count index first : Nat) (data : Data)
    (lengths : ∀ offset < count, (iovecs.getD (index + offset) []).length ≤ hdr.lineSize) :
    ∃ after, copyLines hdr.lineSize iovecs count index (first * hdr.lineSize) data = (true, after) ∧
      SlotsWritten hdr data after (fun offset => first + offset) count
        (fun offset => padLine hdr.lineSize (iovecs.getD (index + offset) [])) := by
  induction count generalizing index first data with
  | zero => exact ⟨data, rfl, .none _ _ _⟩
  | succ count inductionHypothesis =>
      have length : (iovecs.getD index []).length ≤ hdr.lineSize := lengths 0 (by omega)
      have narrowed : (iovecs.getD index []).length % 2 ^ 16 = (iovecs.getD index []).length :=
        Nat.mod_eq_of_lt (by have := hdr.lineSize_lt; omega)
      obtain ⟨after, copied, later⟩ := inductionHypothesis (index + 1) (first + 1)
        (putLine data (first * hdr.lineSize) hdr.lineSize (iovecs.getD index []))
        (fun offset below => by
          have := lengths (offset + 1) (by omega)
          rwa [Nat.add_right_comm, Nat.add_assoc])
      refine ⟨after, ?_, SlotsWritten.cons length ?_ rfl (fun offset _ => by omega)⟩
      · rw [copyLines, narrowed, if_neg (by omega), List.take_length, ← copied, Nat.add_mul,
          Nat.one_mul]
      · simpa only [Nat.add_zero, Nat.add_assoc, Nat.add_comm 1] using later

end Slots

/-! ### The vector write -/

/-- The effect of a vector write is that of single writes in a row: the same
number of lines, the same write index, and for every reader the same lines in
its unread slots. -/
structure WritevAgrees (hdr : GlobalHdr) (vector : Int × Segment) (single : Nat × Segment) :
    Prop where
  count : vector.1 = single.1
  writeIndex : vector.2.writeIndex = single.2.writeIndex
  readIndex : vector.2.readIndex = single.2.readIndex
  unread : ∀ reader < hdr.readerCount, ∀ line < unreadLines hdr single.2 reader,
    slotLine hdr vector.2.data ((single.2.readIndex reader + line) % hdr.lineCount) =
      slotLine hdr single.2.data ((single.2.readIndex reader + line) % hdr.lineCount)

/-- The line of the vector that `shmrbuf_writev` copies to the slot of line
`index`: after the wrap it starts again at `iovecs[0]`. -/
def writevSource (hdr : GlobalHdr) (segment : Segment) (index : Nat) : Nat :=
  if segment.writeIndex + index < hdr.lineCount then index
  else segment.writeIndex + index - hdr.lineCount

section Writev

variable {hdr : GlobalHdr} {segment : Segment}

/-- A copy loop that ends before the end of the ring. -/
theorem SlotsWritten.straight {before after : Data} {start count : Nat}
    {line : Nat → List UInt8} (inside : start + count ≤ hdr.lineCount)
    (slots : SlotsWritten hdr before after (fun offset => start + offset) count line) :
    SlotsWritten hdr before after (fun index => (start + index) % hdr.lineCount) count
      (fun index => line (if start + index < hdr.lineCount then index
        else start + index - hdr.lineCount)) where
  written := by
    intro index below
    have beforeEnd : start + index < hdr.lineCount := by omega
    rw [Nat.mod_eq_of_lt beforeEnd, if_pos beforeEnd]
    exact slots.written index below
  kept := by
    intro slot other
    apply slots.kept
    intro index below
    have elsewhere := other index below
    rwa [Nat.mod_eq_of_lt (by omega)] at elsewhere

/-- The second copy loop continues the first at the start of the ring. -/
theorem SlotsWritten.wrap {before middle after : Data} {start dst remaining : Nat}
    {line : Nat → List UInt8} (inside : start < hdr.lineCount)
    (toEnd : start + dst = hdr.lineCount) (few : remaining ≤ start)
    (left : SlotsWritten hdr before middle (fun offset => start + offset) dst line)
    (right : SlotsWritten hdr middle after (fun offset => 0 + offset) remaining line) :
    SlotsWritten hdr before after (fun index => (start + index) % hdr.lineCount)
      (dst + remaining)
      (fun index => line (if start + index < hdr.lineCount then index
        else start + index - hdr.lineCount)) where
  written := by
    intro index below
    by_cases beforeEnd : start + index < hdr.lineCount
    · simp only [Nat.mod_eq_of_lt beforeEnd, if_pos beforeEnd]
      rw [right.kept _ (fun offset within => by omega)]
      exact left.written index (by omega)
    · have wrapped : (start + index) % hdr.lineCount = 0 + (start + index - hdr.lineCount) := by
        rw [Nat.mod_eq_sub_mod (by omega), Nat.mod_eq_of_lt (by omega), Nat.zero_add]
      simp only [wrapped, if_neg beforeEnd]
      exact right.written _ (by omega)
  kept := by
    intro slot other
    have notFirst : ∀ offset < dst, slot ≠ start + offset := by
      intro offset within
      have := other offset (by omega)
      rwa [Nat.mod_eq_of_lt (by omega)] at this
    have notSecond : ∀ offset < remaining, slot ≠ 0 + offset := by
      intro offset within
      have := other (dst + offset) (by omega)
      rwa [← Nat.add_assoc, toEnd, Nat.add_mod_left, Nat.mod_eq_of_lt (by omega),
        ← Nat.zero_add offset] at this
    rw [right.kept slot notSecond, left.kept slot notFirst]

/-- The copy loop of a batch that ends before the end of the ring. -/
theorem slotsWritten_straight {iovecs : List (List UInt8)} {count : Nat}
    (straight : segment.writeIndex + count < hdr.lineCount)
    (lengthAt : ∀ index < count, (iovecs.getD index []).length ≤ hdr.lineSize) :
    ∃ data, copyLines hdr.lineSize iovecs count 0 (segment.writeIndex * hdr.lineSize)
        segment.data = (true, data) ∧
      SlotsWritten hdr segment.data data
        (fun index => (segment.writeIndex + index) % hdr.lineCount) count
        (fun index => padLine hdr.lineSize (iovecs.getD (writevSource hdr segment index) [])) := by
  obtain ⟨data, copied, slots⟩ := slotsWritten_copyLines hdr iovecs count 0 segment.writeIndex
    segment.data (fun offset inside => by
      rw [Nat.zero_add]
      exact lengthAt offset inside)
  have placed := slots.straight (by omega)
  exact ⟨data, copied, by simpa only [Nat.zero_add, writevSource] using placed⟩

/-- The two copy loops of a batch that comes to the end of the ring; the second one
starts again at `iovecs[0]`. -/
theorem slotsWritten_wrapped {iovecs : List (List UInt8)} {count : Nat}
    (below : segment.writeIndex < hdr.lineCount) (few : count < hdr.lineCount)
    (wraps : hdr.lineCount ≤ segment.writeIndex + count)
    (lengthAt : ∀ index < count, (iovecs.getD index []).length ≤ hdr.lineSize) :
    ∃ middle data, copyLines hdr.lineSize iovecs (hdr.lineCount - segment.writeIndex) 0
        (segment.writeIndex * hdr.lineSize) segment.data = (true, middle) ∧
      copyLines hdr.lineSize iovecs (segment.writeIndex + count - hdr.lineCount) 0 0 middle =
        (true, data) ∧
      SlotsWritten hdr segment.data data
        (fun index => (segment.writeIndex + index) % hdr.lineCount) count
        (fun index => padLine hdr.lineSize (iovecs.getD (writevSource hdr segment index) [])) := by
  obtain ⟨middle, firstCopied, firstSlots⟩ := slotsWritten_copyLines hdr iovecs
    (hdr.lineCount - segment.writeIndex) 0 segment.writeIndex segment.data
    (fun offset inside => by
      rw [Nat.zero_add]
      exact lengthAt offset (by omega))
  obtain ⟨data, secondCopied, secondSlots⟩ := slotsWritten_copyLines hdr iovecs
    (segment.writeIndex + count - hdr.lineCount) 0 0 middle
    (fun offset inside => by
      rw [Nat.zero_add]
      exact lengthAt offset (by omega))
  rw [Nat.zero_mul] at secondCopied
  have joined := SlotsWritten.wrap below (by omega) (by omega) firstSlots secondSlots
  have total : hdr.lineCount - segment.writeIndex +
      (segment.writeIndex + count - hdr.lineCount) = count := by omega
  exact ⟨middle, data, firstCopied, secondCopied,
    by simpa only [total, Nat.zero_add, writevSource] using joined⟩

/-- What `shmrbuf_writev` does when the 32-bit sum of the index and the size
does not wrap. -/
theorem shmrbufWritev_spec {argsSegmentCount segmentId vsize : Nat}
    (fits : hdr.lineCount * hdr.lineSize < 2 ^ 32) (blocking : hdr.overwrite = false)
    (bounded : segment.Bounded hdr) (iovecs : List (List UInt8)) (vector : vsize ≤ iovecs.length)
    (narrow : vsize < 2 ^ 16) (lengths : ∀ line ∈ iovecs, line.length ≤ hdr.lineSize)
    (valid : segmentId < argsSegmentCount)
    (sum : segment.writeIndex + clampVsize hdr segment vsize < 2 ^ 32) :
    ∃ data, shmrbufWritev hdr argsSegmentCount segmentId segment iovecs vsize =
        ((clampVsize hdr segment vsize : Int),
          { segment with
            writeIndex := (segment.writeIndex + clampVsize hdr segment vsize) % hdr.lineCount
            data := data }) ∧
      SlotsWritten hdr segment.data data
        (fun index => (segment.writeIndex + index) % hdr.lineCount)
        (clampVsize hdr segment vsize)
        (fun index => padLine hdr.lineSize (iovecs.getD (writevSource hdr segment index) [])) := by
  obtain ⟨withinVector, withinRing, withinReaders⟩ := clampVsize_allowed blocking segment vsize
  have below := bounded.writeIndex
  have room : clampVsize hdr segment vsize < hdr.lineCount :=
    Nat.lt_of_le_of_lt (withinReaders 0 hdr.readerCount_pos) (freeLines_lt bounded 0)
  have lengthAt : ∀ index < clampVsize hdr segment vsize,
      (iovecs.getD index []).length ≤ hdr.lineSize := by
    intro index inside
    rw [List.getD_eq_getElem _ _ (by omega)]
    exact lengths _ (List.getElem_mem _)
  unfold shmrbufWritev
  rw [if_neg (by omega)]
  by_cases nothing : clampVsize hdr segment vsize = 0
  · refine ⟨segment.data, ?_, ?_⟩
    · rw [nothing, if_pos rfl, ite_self, Nat.add_zero, Nat.mod_eq_of_lt below]
      rfl
    · rw [nothing]
      exact .none _ _ _
  · rw [if_neg (by omega), if_neg nothing, Nat.mod_eq_of_lt sum, slotOffset_eq fits below]
    by_cases straight : segment.writeIndex + clampVsize hdr segment vsize < hdr.lineCount
    · obtain ⟨data, copied, slots⟩ := slotsWritten_straight straight lengthAt
      refine ⟨data, ?_, slots⟩
      rw [Nat.mod_eq_of_lt straight, if_pos (by omega), copied]
    · obtain ⟨middle, data, firstCopied, secondCopied, slots⟩ :=
        slotsWritten_wrapped below room (by omega) lengthAt
      have wrapped : (segment.writeIndex + clampVsize hdr segment vsize) % hdr.lineCount ≤
          segment.writeIndex := by
        rw [Nat.mod_eq_sub_mod (by omega), Nat.mod_eq_of_lt (by omega)]
        omega
      have toEnd : (hdr.lineCount - segment.writeIndex) % 2 ^ 16 =
          hdr.lineCount - segment.writeIndex := Nat.mod_eq_of_lt (by omega)
      have rest : (clampVsize hdr segment vsize + 2 ^ 16 -
          (hdr.lineCount - segment.writeIndex)) % 2 ^ 16 =
          segment.writeIndex + clampVsize hdr segment vsize - hdr.lineCount := by
        omega
      refine ⟨data, ?_, slots⟩
      rw [if_neg (by omega), toEnd]
      dsimp only
      rw [rest, firstCopied]
      dsimp only
      rw [secondCopied]

/-- Lines that fit in front of a reader become unread lines of that reader. -/
theorem unreadLines_advance {next : Segment} {count reader : Nat} (bounded : segment.Bounded hdr)
    (few : count ≤ freeLines hdr segment reader)
    (writeIndex : next.writeIndex = (segment.writeIndex + count) % hdr.lineCount)
    (readIndex : next.readIndex reader = segment.readIndex reader) :
    unreadLines hdr next reader = unreadLines hdr segment reader + count := by
  have write := bounded.writeIndex
  have read := bounded.readIndex reader
  have wrapped : (segment.writeIndex + count) % hdr.lineCount =
      if segment.writeIndex + count < hdr.lineCount then segment.writeIndex + count
      else segment.writeIndex + count - hdr.lineCount := by
    have small : count < hdr.lineCount := Nat.lt_of_le_of_lt few (freeLines_lt bounded reader)
    split
    · exact Nat.mod_eq_of_lt ‹_›
    · rw [Nat.mod_eq_sub_mod (by omega), Nat.mod_eq_of_lt (by omega)]
  unfold freeLines at few
  unfold unreadLines
  rw [writeIndex, readIndex, wrapped]
  dsimp only at few ⊢
  split_ifs at few ⊢ <;> omega

/-- Two batches into the same free slots leave every reader the same unread
lines exactly when they wrote the same lines. -/
theorem unread_eq_iff {count : Nat} {left right : Data} {lineLeft lineRight : Nat → List UInt8}
    (bounded : segment.Bounded hdr)
    (few : ∀ reader < hdr.readerCount, count ≤ freeLines hdr segment reader)
    (wroteLeft : SlotsWritten hdr segment.data left
      (fun index => (segment.writeIndex + index) % hdr.lineCount) count lineLeft)
    (wroteRight : SlotsWritten hdr segment.data right
      (fun index => (segment.writeIndex + index) % hdr.lineCount) count lineRight) :
    (∀ reader < hdr.readerCount, ∀ line < unreadLines hdr segment reader + count,
        slotLine hdr left ((segment.readIndex reader + line) % hdr.lineCount) =
          slotLine hdr right ((segment.readIndex reader + line) % hdr.lineCount)) ↔
      ∀ index < count, lineLeft index = lineRight index := by
  have slot : ∀ reader index,
      (segment.readIndex reader + (unreadLines hdr segment reader + index)) % hdr.lineCount =
        (segment.writeIndex + index) % hdr.lineCount := by
    intro reader index
    rw [← readIndex_add_unreadLines bounded reader, Nat.mod_add_mod, Nat.add_assoc]
  constructor
  · intro same index below
    have equal := same 0 hdr.readerCount_pos (unreadLines hdr segment 0 + index) (by omega)
    rwa [slot, wroteLeft.written index below, wroteRight.written index below] at equal
  · intro same reader registered line below
    by_cases old : line < unreadLines hdr segment reader
    · -- An unread slot is not among the free ones the batch went to.
      have fresh : ∀ index < count, (segment.readIndex reader + line) % hdr.lineCount ≠
          (segment.writeIndex + index) % hdr.lineCount := by
        intro index within
        have total := unreadLines_add_freeLines bounded reader
        have room := few reader registered
        rw [← slot reader index]
        exact mod_ne_of_lt_of_lt_add (by omega) (by omega)
      rw [wroteLeft.kept _ fresh, wroteRight.kept _ fresh]
    · have position := slot reader (line - unreadLines hdr segment reader)
      rw [Nat.add_sub_cancel' (by omega)] at position
      rw [position, wroteLeft.written _ (by omega), wroteRight.written _ (by omega)]
      exact same _ (by omega)

/-- The 32-bit sum in `shmrbuf_writev` gives another slot once it wraps. -/
theorem wrappedSum_ne {count : Nat} (below : segment.writeIndex < hdr.lineCount)
    (narrow : count < 2 ^ 16) (room : count < hdr.lineCount)
    (wraps : 2 ^ 32 ≤ segment.writeIndex + count) :
    (segment.writeIndex + count) % 2 ^ 32 % hdr.lineCount ≠
      (segment.writeIndex + count) % hdr.lineCount := by
  have lineCount := hdr.lineCount_lt
  have reduced : (segment.writeIndex + count) % 2 ^ 32 = segment.writeIndex + count - 2 ^ 32 := by
    omega
  rw [reduced, Nat.mod_eq_of_lt (by omega), Nat.mod_eq_sub_mod (by omega),
    Nat.mod_eq_of_lt (by omega)]
  omega

/-- A vector write that reports its lines has stored the 32-bit index. -/
theorem shmrbufWritev_writeIndex {argsSegmentCount segmentId vsize : Nat}
    {iovecs : List (List UInt8)} (positive : 0 < clampVsize hdr segment vsize) :
    (shmrbufWritev hdr argsSegmentCount segmentId segment iovecs vsize).1 =
        (clampVsize hdr segment vsize : Int) →
      (shmrbufWritev hdr argsSegmentCount segmentId segment iovecs vsize).2.writeIndex =
        (segment.writeIndex + clampVsize hdr segment vsize) % 2 ^ 32 % hdr.lineCount := by
  intro written
  rcases shmrbufWritev_cases hdr argsSegmentCount segmentId segment iovecs vsize with
    ⟨code, _, result, nothing⟩ | ⟨_, result⟩
  · rw [result] at written
    have reported : code = (clampVsize hdr segment vsize : Int) := written
    omega
  · rw [result]

/-- The restarted loop copies the right lines exactly when the vector repeats
itself across the end of the ring. -/
theorem writevSource_eq_iff (below : segment.writeIndex < hdr.lineCount)
    (line : Nat → List UInt8) (count : Nat) :
    (∀ index < count, line (writevSource hdr segment index) = line index) ↔
      ∀ index, hdr.lineCount - segment.writeIndex + index < count →
        line index = line (hdr.lineCount - segment.writeIndex + index) := by
  unfold writevSource
  constructor
  · intro same index inside
    have equal := same (hdr.lineCount - segment.writeIndex + index) inside
    have restarted : segment.writeIndex + (hdr.lineCount - segment.writeIndex + index) -
        hdr.lineCount = index := by omega
    rwa [if_neg (by omega), restarted] at equal
  · intro same index inside
    split
    · rfl
    · have equal := same (segment.writeIndex + index - hdr.lineCount) (by omega)
      have original : hdr.lineCount - segment.writeIndex +
          (segment.writeIndex + index - hdr.lineCount) = index := by omega
      rwa [original] at equal

/-- In the blocking mode `shmrbuf_writev` agrees with single writes in a row
exactly when the handle knows the segment, the 32-bit sum of write index and
batch does not wrap, and every line that goes past the end of the ring is the
line that the restarted copy loop puts there. -/
theorem shmrbufWritev_agrees_iff {argsSegmentCount segmentId vsize : Nat}
    {iovecs : List (List UInt8)} (fits : hdr.lineCount * hdr.lineSize < 2 ^ 32)
    (blocking : hdr.overwrite = false) (valid : segmentId < hdr.segmentCount)
    (reachable : segment.Reachable hdr segmentId) (vector : vsize ≤ iovecs.length)
    (narrow : vsize < 2 ^ 16)
    (lengths : ∀ line ∈ iovecs, 1 ≤ line.length ∧ line.length ≤ hdr.lineSize) :
    WritevAgrees hdr (shmrbufWritev hdr argsSegmentCount segmentId segment iovecs vsize)
        (writeUntilFull hdr segmentId (iovecs.take vsize) segment) ↔
      segmentId < argsSegmentCount ∧
      segment.writeIndex + clampVsize hdr segment vsize < 2 ^ 32 ∧
      ∀ index, hdr.lineCount - segment.writeIndex + index < clampVsize hdr segment vsize →
        padLine hdr.lineSize (iovecs.getD index []) =
          padLine hdr.lineSize
            (iovecs.getD (hdr.lineCount - segment.writeIndex + index) []) := by
  have bounded := reachable.bounded
  have below := bounded.writeIndex
  have taken : (iovecs.take vsize).length = vsize := List.length_take_of_le vector
  obtain ⟨withinVector, withinRing, withinReaders⟩ := clampVsize_allowed blocking segment vsize
  have room : clampVsize hdr segment vsize < hdr.lineCount :=
    Nat.lt_of_le_of_lt (withinReaders 0 hdr.readerCount_pos) (freeLines_lt bounded 0)
  have single := writeUntilFull_eq valid blocking bounded (iovecs.take vsize)
    (fun line member => lengths line (List.mem_of_mem_take member))
  rw [taken, List.take_take, Nat.min_eq_left withinVector] at single
  have written : (iovecs.take (clampVsize hdr segment vsize)).length =
      clampVsize hdr segment vsize := List.length_take_of_le (by omega)
  have singleIndex := afterWrites_writeIndex bounded (iovecs.take (clampVsize hdr segment vsize))
  have singleSlots := slotsWritten_afterWrites fits bounded
    (iovecs.take (clampVsize hdr segment vsize)) (by omega)
    (fun line member => (lengths line (List.mem_of_mem_take member)).2)
  rw [written] at singleIndex singleSlots
  rw [single]
  by_cases known : segmentId < argsSegmentCount
  · by_cases sum : segment.writeIndex + clampVsize hdr segment vsize < 2 ^ 32
    · obtain ⟨data, result, slots⟩ := shmrbufWritev_spec fits blocking bounded iovecs vector narrow
        (fun line member => (lengths line member).2) known sum
      rw [result]
      have advanced : ∀ reader < hdr.readerCount,
          unreadLines hdr (segment.afterWrites hdr (iovecs.take (clampVsize hdr segment vsize)))
            reader = unreadLines hdr segment reader + clampVsize hdr segment vsize :=
        fun reader registered => unreadLines_advance bounded (withinReaders reader registered)
          singleIndex (by rw [afterWrites_readIndex])
      have vectorLine : ∀ index < clampVsize hdr segment vsize,
          (iovecs.take (clampVsize hdr segment vsize)).getD index [] = iovecs.getD index [] := by
        intro index inside
        simp only [List.getD_eq_getElem?_getD, List.getElem?_take_of_lt inside]
      have sameLines := writevSource_eq_iff below
        (fun index => padLine hdr.lineSize (iovecs.getD index [])) (clampVsize hdr segment vsize)
      rw [← sameLines]
      have lines := (unread_eq_iff bounded withinReaders slots singleSlots).trans
        (forall₂_congr fun index inside => by rw [vectorLine index inside])
      constructor
      · intro agrees
        refine ⟨known, sum, lines.mp fun reader registered line unread => ?_⟩
        have same := agrees.unread reader registered line
          (by rw [advanced reader registered]; exact unread)
        simpa only [afterWrites_readIndex] using same
      · rintro ⟨-, -, same⟩
        refine ⟨rfl, singleIndex.symm, by simp only [afterWrites_readIndex],
          fun reader registered line unread => ?_⟩
        rw [advanced reader registered] at unread
        simpa only [afterWrites_readIndex] using lines.mpr same reader registered line unread
    · refine iff_of_false (fun agrees => ?_) (fun condition => sum condition.2.1)
      have lineCount := hdr.lineCount_lt
      have stored := shmrbufWritev_writeIndex (by omega) agrees.count
      exact wrappedSum_ne below (by omega) room (by omega)
        (stored.symm.trans (agrees.writeIndex.trans singleIndex))
  · refine iff_of_false (fun agrees => ?_) (fun condition => known condition.1)
    have code := agrees.count
    rw [shmrbufWritev, if_pos (by omega)] at code
    dsimp only [ioIpcArgErr] at code
    omega

end Writev

/-- A ring of three one-byte lines with one reader. -/
def threeLineHdr : GlobalHdr where
  __ := smallHdr
  lineCount := 3
  lineCount_pos := by decide
  lineCount_lt := by decide

/-- Two lines written and read: writer and reader are at the last slot. -/
def atLastSlot : List SegmentCall := [.write [97], .write [98], .read 0 1, .read 0 1]

/-- The segment after `atLastSlot`. -/
def lastSlotSegment : Segment where
  writeIndex := 2
  readIndex := Function.update (Function.update (fun _ => 0) 0 1) 0 2
  data := putLine (putLine (fun _ => 0) 0 1 [97]) 1 1 [98]

theorem lastSlotSegment_reachable : lastSlotSegment.Reachable threeLineHdr 0 :=
  ⟨fun _ => 0, atLastSlot,
    .cons trivial rfl (.cons trivial rfl (.cons trivial rfl (.cons trivial rfl (.nil _))))⟩

theorem shmrbufWritev_agrees_repeated :
    WritevAgrees threeLineHdr (shmrbufWritev threeLineHdr 1 0 lastSlotSegment [[120], [120]] 2)
      (writeUntilFull threeLineHdr 0 [[120], [120]] lastSlotSegment) :=
  (shmrbufWritev_agrees_iff (by decide) rfl (by decide) lastSlotSegment_reachable
    (by decide) (by decide) (by decide)).mpr ⟨by decide, by decide, fun index inside => by
      have small : index = 0 := by
        have clamped : clampVsize threeLineHdr lastSlotSegment 2 = 2 := by decide
        have rest : threeLineHdr.lineCount - lastSlotSegment.writeIndex = 1 := by decide
        omega
      subst small
      decide⟩

/-- A vector `x`, `y` at the last slot leaves `x`, `x` in the ring. -/
theorem shmrbufWritev_differs_at_wrap :
    ¬ WritevAgrees threeLineHdr (shmrbufWritev threeLineHdr 1 0 lastSlotSegment [[120], [121]] 2)
      (writeUntilFull threeLineHdr 0 [[120], [121]] lastSlotSegment) := by
  intro agrees
  exact absurd (agrees.unread 0 (by decide) 1 (by decide)) (by decide)

/-! ### The vector read -/

/-- `count` successive `shmrbuf_read` calls: the lines and the segment. -/
def readTimes (hdr : GlobalHdr) (segmentId reader bufsize : Nat) :
    Nat → Segment → List (List UInt8) × Segment
  | 0, segment => ([], segment)
  | count + 1, segment =>
      let result := shmrbufRead hdr segmentId segment reader bufsize
      let remaining := readTimes hdr segmentId reader bufsize count result.segment
      (result.lines ++ remaining.1, remaining.2)

/-- The effect of a vector read is that of `count` single reads, line `line`
comes from slot `(read_index + line) % line_count`, and no byte outside the
data area is read. -/
structure ReadvAgrees (hdr : GlobalHdr) (segment : Segment) (reader count : Nat)
    (vector : ReadResult) (single : List (List UInt8) × Segment) : Prop where
  code : vector.code = count
  lines : vector.lines = single.1
  after : vector.segment = single.2
  slots : ∀ line < count, readvSource hdr segment reader line =
    slotOffset hdr ((segment.readIndex reader + line) % hdr.lineCount)
  inside : ∀ line < count,
    readvSource hdr segment reader line + hdr.lineSize ≤ hdr.lineCount * hdr.lineSize

section Readv

variable {hdr : GlobalHdr} {segmentId : Nat} {segment : Segment}

theorem unreadLines_eq_zero_iff (bounded : segment.Bounded hdr) (reader : Nat) :
    unreadLines hdr segment reader = 0 ↔ segment.writeIndex = segment.readIndex reader := by
  have write := bounded.writeIndex
  have read := bounded.readIndex reader
  unfold unreadLines
  dsimp only
  split <;> omega

/-- A successful single read takes one unread line. -/
theorem unreadLines_afterRead (bounded : segment.Bounded hdr) {reader : Nat}
    (unread : segment.writeIndex ≠ segment.readIndex reader) :
    unreadLines hdr
        { segment with
          readIndex := Function.update segment.readIndex reader
            (nextIndex hdr (segment.readIndex reader)) } reader + 1 =
      unreadLines hdr segment reader := by
  have write := bounded.writeIndex
  have read := bounded.readIndex reader
  unfold unreadLines nextIndex
  dsimp only
  rw [Function.update_self]
  split_ifs <;> omega

theorem readTimes_eq (valid : segmentId < hdr.segmentCount) {reader bufsize : Nat}
    (room : hdr.lineSize ≤ bufsize) (count : Nat) (bounded : segment.Bounded hdr)
    (available : count ≤ unreadLines hdr segment reader) :
    readTimes hdr segmentId reader bufsize count segment =
      ((List.range count).map fun line =>
          getLine segment.data
            (slotOffset hdr ((segment.readIndex reader + line) % hdr.lineCount)) hdr.lineSize,
        { segment with
          readIndex := Function.update segment.readIndex reader
            ((segment.readIndex reader + count) % hdr.lineCount) }) := by
  induction count generalizing segment with
  | zero =>
      rw [Nat.add_zero, Nat.mod_eq_of_lt (bounded.readIndex reader), Function.update_eq_self]
      rfl
  | succ count inductionHypothesis =>
      have unread : segment.writeIndex ≠ segment.readIndex reader := by
        rw [Ne, ← unreadLines_eq_zero_iff bounded reader]
        omega
      have oneLess := unreadLines_afterRead bounded unread
      have next := inductionHypothesis
        (bounded.moveReader reader (nextIndex_lt (bounded.readIndex reader))) (by omega)
      have advance : ∀ line,
          (nextIndex hdr (segment.readIndex reader) + line) % hdr.lineCount =
            (segment.readIndex reader + (line + 1)) % hdr.lineCount := by
        intro line
        rw [nextIndex_eq_mod (bounded.readIndex reader), Nat.mod_add_mod]
        congr 1
        omega
      simp only [readTimes, shmrbufRead_line valid room unread, next, Function.update_self,
        Function.update_idem, advance, List.range_succ_eq_map, List.map_cons, List.map_map,
        Nat.add_zero, Nat.mod_eq_of_lt (bounded.readIndex reader), List.singleton_append]
      rfl

/-- What `shmrbuf_readv` does on a valid segment with a large enough buffer. -/
theorem shmrbufReadv_spec (valid : segmentId < hdr.segmentCount) {reader vsize bufsize : Nat}
    (room : hdr.lineSize ≤ bufsize) (bounded : segment.Bounded hdr) :
    shmrbufReadv hdr segmentId segment reader vsize bufsize =
      ⟨(min vsize (unreadLines hdr segment reader) : Nat),
        (List.range (min vsize (unreadLines hdr segment reader))).map fun line =>
          getLine segment.data (readvSource hdr segment reader line) hdr.lineSize,
        { segment with
          readIndex := Function.update segment.readIndex reader
            ((segment.readIndex reader + min vsize (unreadLines hdr segment reader)) % 2 ^ 32 %
              hdr.lineCount) }⟩ := by
  have clamped : (if vsize > unreadLines hdr segment reader then unreadLines hdr segment reader
      else vsize) = min vsize (unreadLines hdr segment reader) := by
    split <;> omega
  have still : ∀ count, count = 0 → Function.update segment.readIndex reader
      ((segment.readIndex reader + count) % 2 ^ 32 % hdr.lineCount) = segment.readIndex := by
    rintro count rfl
    have below := bounded.readIndex reader
    have lineCount := hdr.lineCount_lt
    have narrow : segment.readIndex reader % 2 ^ 32 = segment.readIndex reader :=
      Nat.mod_eq_of_lt (by omega)
    rw [Nat.add_zero, narrow, Nat.mod_eq_of_lt below, Function.update_eq_self]
  unfold shmrbufReadv
  rw [if_neg (by omega)]
  by_cases empty : vsize = 0
  · rw [if_pos empty, still _ (by omega), empty, Nat.zero_min]
    rfl
  rw [if_neg empty]
  by_cases nothing : segment.writeIndex = segment.readIndex reader
  · have zero := (unreadLines_eq_zero_iff bounded reader).mpr nothing
    dsimp only
    rw [if_pos nothing, still _ (by omega), zero, Nat.min_zero]
    rfl
  · dsimp only
    rw [if_neg nothing, if_neg (by omega), clamped]

/-- Before the end of the ring the advanced pointer is the address of the slot
exactly when it stays below 4 GiB. -/
theorem readvSource_eq_iff {reader line : Nat}
    (inside : segment.readIndex reader + line < hdr.lineCount) :
    readvSource hdr segment reader line =
        slotOffset hdr ((segment.readIndex reader + line) % hdr.lineCount) ↔
      slotOffset hdr (segment.readIndex reader) + line * hdr.lineSize < 2 ^ 32 := by
  have distributed : slotOffset hdr (segment.readIndex reader + line) =
      (slotOffset hdr (segment.readIndex reader) + line * hdr.lineSize) % 2 ^ 32 := by
    unfold slotOffset
    rw [Nat.add_mul, Nat.mod_add_mod]
  rw [Nat.mod_eq_of_lt inside, distributed, readvSource]
  omega

/-- The pointer that reaches the end of the ring is not at slot 0. -/
theorem readvSource_ne_at_end {reader : Nat} (below : segment.readIndex reader < hdr.lineCount) :
    readvSource hdr segment reader (hdr.lineCount - segment.readIndex reader) ≠
      slotOffset hdr ((segment.readIndex reader +
        (hdr.lineCount - segment.readIndex reader)) % hdr.lineCount) := by
  have atStart : segment.readIndex reader + (hdr.lineCount - segment.readIndex reader) =
      hdr.lineCount := by omega
  have advanced : 0 < (hdr.lineCount - segment.readIndex reader) * hdr.lineSize :=
    Nat.mul_pos (by omega) hdr.lineSize_pos
  rw [atStart, Nat.mod_self, readvSource]
  unfold slotOffset
  omega

/-- `shmrbuf_readv` agrees with single reads exactly when the batch ends before
the end of the ring and its slot addresses do not pass a 4 GiB boundary. -/
theorem shmrbufReadv_agrees_iff {reader vsize bufsize : Nat}
    (valid : segmentId < hdr.segmentCount) (reachable : segment.Reachable hdr segmentId)
    (room : hdr.lineSize ≤ bufsize) :
    ReadvAgrees hdr segment reader (min vsize (unreadLines hdr segment reader))
        (shmrbufReadv hdr segmentId segment reader vsize bufsize)
        (readTimes hdr segmentId reader bufsize (min vsize (unreadLines hdr segment reader))
          segment) ↔
      segment.readIndex reader + min vsize (unreadLines hdr segment reader) ≤ hdr.lineCount ∧
      slotOffset hdr (segment.readIndex reader) +
        (min vsize (unreadLines hdr segment reader) - 1) * hdr.lineSize < 2 ^ 32 := by
  have bounded := reachable.bounded
  have below := bounded.readIndex reader
  have lineCount := hdr.lineCount_lt
  rw [shmrbufReadv_spec valid room bounded,
    readTimes_eq valid room _ bounded (Nat.min_le_right _ _)]
  generalize min vsize (unreadLines hdr segment reader) = count
  constructor
  · intro agrees
    have beforeEnd : segment.readIndex reader + count ≤ hdr.lineCount := by
      by_contra straddles
      exact readvSource_ne_at_end below (agrees.slots _ (by omega))
    refine ⟨beforeEnd, ?_⟩
    cases count with
    | zero =>
        have narrow : slotOffset hdr (segment.readIndex reader) < 2 ^ 32 :=
          Nat.mod_lt _ (by decide)
        omega
    | succ count =>
        exact (readvSource_eq_iff (by omega)).mp (agrees.slots count (by omega))
  · rintro ⟨beforeEnd, addresses⟩
    have slots : ∀ line < count, readvSource hdr segment reader line =
        slotOffset hdr ((segment.readIndex reader + line) % hdr.lineCount) := by
      intro line inside
      have monotone : line * hdr.lineSize ≤ (count - 1) * hdr.lineSize :=
        Nat.mul_le_mul_right _ (by omega)
      exact (readvSource_eq_iff (by omega)).mpr (by omega)
    refine ⟨rfl, ?_, ?_, slots, ?_⟩
    · apply List.map_congr_left
      intro line member
      rw [slots line (List.mem_range.mp member)]
    · have narrow : (segment.readIndex reader + count) % 2 ^ 32 =
          segment.readIndex reader + count := Nat.mod_eq_of_lt (by omega)
      rw [narrow]
    · intro line inside
      calc readvSource hdr segment reader line + hdr.lineSize
          ≤ (segment.readIndex reader + line + 1) * hdr.lineSize := by
            have reduced := Nat.mod_le (segment.readIndex reader * hdr.lineSize) (2 ^ 32)
            rw [readvSource, slotOffset, Nat.add_mul, Nat.add_mul, Nat.one_mul]
            omega
        _ ≤ hdr.lineCount * hdr.lineSize := Nat.mul_le_mul_right _ (by omega)

/-- Two lines written and none read. -/
def unreadSegment : Segment where
  writeIndex := 2
  readIndex := fun _ => 0
  data := lastSlotSegment.data

theorem unreadSegment_reachable : unreadSegment.Reachable threeLineHdr 0 :=
  ⟨fun _ => 0, [.write [97], .write [98]], .cons trivial rfl (.cons trivial rfl (.nil _))⟩

theorem shmrbufReadv_agrees_two_lines :
    min 2 (unreadLines threeLineHdr unreadSegment 0) = 2 ∧
      ReadvAgrees threeLineHdr unreadSegment 0
        (min 2 (unreadLines threeLineHdr unreadSegment 0))
        (shmrbufReadv threeLineHdr 0 unreadSegment 0 2 1)
        (readTimes threeLineHdr 0 0 1 (min 2 (unreadLines threeLineHdr unreadSegment 0))
          unreadSegment) :=
  ⟨by decide, (shmrbufReadv_agrees_iff (by decide) unreadSegment_reachable (by decide)).mpr
    ⟨by decide, by decide⟩⟩

/-- Two more lines written around the end of the ring. -/
def straddlingSegment : Segment where
  writeIndex := 1
  readIndex := lastSlotSegment.readIndex
  data := putLine (putLine lastSlotSegment.data 2 1 [99]) 0 1 [100]

theorem straddlingSegment_reachable : straddlingSegment.Reachable threeLineHdr 0 :=
  ⟨fun _ => 0, atLastSlot ++ [.write [99], .write [100]],
    .cons trivial rfl (.cons trivial rfl (.cons trivial rfl (.cons trivial rfl
      (.cons trivial rfl (.cons trivial rfl (.nil _))))))⟩

/-- Two lines from the last slot on: the second is read past the data area. -/
theorem shmrbufReadv_differs_at_wrap :
    straddlingSegment.Reachable threeLineHdr 0 ∧
      min 2 (unreadLines threeLineHdr straddlingSegment 0) = 2 ∧
      ¬ ReadvAgrees threeLineHdr straddlingSegment 0 2
        (shmrbufReadv threeLineHdr 0 straddlingSegment 0 2 1)
        (readTimes threeLineHdr 0 0 1 2 straddlingSegment) := by
  refine ⟨straddlingSegment_reachable, by decide, fun agrees => ?_⟩
  exact absurd (agrees.inside 1 (by decide)) (by decide)

end Readv

end FipsIpc.ShmRingbuf
