import FipsIpc.ShmRingbuf.Vector

/-!
Contract: vector writes that are rejected for a line that is too long.

Owns: how far `shmrbuf_writev` has come when it finds such a line, in either
mode, and for which calls this cannot be seen by a reader.

The lines a call would write are those its loops go through, `writevSource` of
`ShmRingbuf.Vector`.  Their lengths are `size_t` values; the loops look at them
modulo `2 ^ 16`.

Does not own: vector writes that succeed.
-/

set_option autoImplicit false

namespace FipsIpc.ShmRingbuf

open FipsIpc.Lib
open FipsIpc.Lib.RingLog

/-! ### How far the loops come -/

/-- The length of a line as the copy loops see it is not above `line_size`. -/
def Accepted (hdr : GlobalHdr) (line : List UInt8) : Prop := line.length % 2 ^ 16 ≤ hdr.lineSize

instance (hdr : GlobalHdr) (line : List UInt8) : Decidable (Accepted hdr line) :=
  inferInstanceAs (Decidable (_ ≤ _))

/-- What a copy loop leaves in the slot of a line. -/
def copiedLine (hdr : GlobalHdr) (line : List UInt8) : List UInt8 :=
  padLine hdr.lineSize (line.take (line.length % 2 ^ 16))

/-- A copy loop comes to the first line that it does not accept. -/
theorem copyLines_partial (hdr : GlobalHdr) (iovecs : List (List UInt8))
    (count index first : Nat) (data : Data) :
    ∃ copied after, copied ≤ count ∧
      copyLines hdr.lineSize iovecs count index (first * hdr.lineSize) data =
        (decide (copied = count), after) ∧
      (∀ offset < copied, Accepted hdr (iovecs.getD (index + offset) [])) ∧
      (copied < count → ¬Accepted hdr (iovecs.getD (index + copied) [])) ∧
      SlotsWritten hdr data after (fun offset => first + offset) copied
        (fun offset => copiedLine hdr (iovecs.getD (index + offset) [])) := by
  induction count generalizing index first data with
  | zero => exact ⟨0, data, Nat.le_refl 0, rfl, by simp, by simp, .none _ _ _⟩
  | succ count inductionHypothesis =>
      rw [copyLines]
      by_cases long : (iovecs.getD index []).length % 2 ^ 16 > hdr.lineSize
      · refine ⟨0, data, Nat.zero_le _, ?_, by simp, fun _ => ?_, .none _ _ _⟩
        · rw [if_pos long]
          rfl
        · exact Nat.not_le_of_lt long
      · have short : Accepted hdr (iovecs.getD index []) := Nat.le_of_not_lt long
        have next : first * hdr.lineSize + hdr.lineSize = (first + 1) * hdr.lineSize := by
          rw [Nat.add_mul, Nat.one_mul]
        have shift (offset : Nat) : index + 1 + offset = index + (offset + 1) := by omega
        obtain ⟨copied, after, atMost, result, accepted, stops, slots⟩ :=
          inductionHypothesis (index + 1) (first + 1) (putLine data (first * hdr.lineSize)
            hdr.lineSize ((iovecs.getD index []).take ((iovecs.getD index []).length % 2 ^ 16)))
        simp only [shift] at accepted stops slots
        refine ⟨copied + 1, after, by omega, ?_, ?_, ?_, ?_⟩
        · rw [if_neg long, next, result]
          simp
        · intro offset below
          cases offset with
          | zero => exact short
          | succ offset => exact accepted offset (by omega)
        · intro below
          exact stops (by omega)
        · refine SlotsWritten.cons ?_ ?_ rfl (fun offset _ => by omega)
          · rw [List.length_take]
            exact Nat.le_trans (Nat.min_le_left _ _) short
          · simpa only [Nat.add_zero, Nat.add_assoc, Nat.add_comm 1] using slots

theorem clampVsize_le (hdr : GlobalHdr) (segment : Segment) (vsize : Nat) :
    clampVsize hdr segment vsize ≤ vsize ∧ clampVsize hdr segment vsize ≤ hdr.lineCount := by
  cases mode : hdr.overwrite with
  | false =>
      obtain ⟨withinVector, withinRing, _⟩ := clampVsize_allowed mode segment vsize
      exact ⟨withinVector, withinRing⟩
  | true =>
      unfold clampVsize
      simp only [mode, if_true]
      split <;> omega

/-- The line that goes to the slot `position` behind the writer. -/
def writevLine (hdr : GlobalHdr) (segment : Segment) (iovecs : List (List UInt8))
    (position : Nat) : List UInt8 :=
  iovecs.getD (writevSource hdr segment position) []

/-- What a vector write on an accepted segment has copied when it returns. -/
structure Copied (hdr : GlobalHdr) (segment : Segment) (iovecs : List (List UInt8))
    (count copied : Nat) (data : Data) (result : Int × Segment) : Prop where
  atMost : copied ≤ count
  accepted : ∀ position < copied, Accepted hdr (writevLine hdr segment iovecs position)
  slots : SlotsWritten hdr segment.data data
    (fun position => (segment.writeIndex + position) % hdr.lineCount) copied
    (fun position => copiedLine hdr (writevLine hdr segment iovecs position))
  outcome : (copied = count ∧ 0 ≤ result.1) ∨
    (copied < count ∧ ¬Accepted hdr (writevLine hdr segment iovecs copied) ∧
      result = (ioIpcSizeErr, { segment with data := data }))

section Writev

variable {hdr : GlobalHdr} {segment : Segment} {argsSegmentCount segmentId : Nat}
  {iovecs : List (List UInt8)} {vsize : Nat}

/-- The branch of `shmrbuf_writev` is that of a batch that ends before the end of the
ring; a 32-bit sum that wraps around changes nothing about it. -/
theorem newWriteIndex_gt_iff {count : Nat} (below : segment.writeIndex < hdr.lineCount)
    (some : 0 < count) (few : count ≤ hdr.lineCount) :
    (segment.writeIndex + count) % 2 ^ 32 % hdr.lineCount > segment.writeIndex ↔
      segment.writeIndex + count < hdr.lineCount := by
  have lineCount := hdr.lineCount_lt
  constructor
  · intro further
    by_contra reaches
    by_cases sum : segment.writeIndex + count < 2 ^ 32
    · rw [Nat.mod_eq_of_lt sum, Nat.mod_eq_sub_mod (by omega)] at further
      have small := Nat.mod_le (segment.writeIndex + count - hdr.lineCount) hdr.lineCount
      omega
    · have small := Nat.mod_le ((segment.writeIndex + count) % 2 ^ 32) hdr.lineCount
      omega
  · intro inside
    have whole : (segment.writeIndex + count) % 2 ^ 32 = segment.writeIndex + count :=
      Nat.mod_eq_of_lt (by omega)
    rw [whole, Nat.mod_eq_of_lt inside]
    omega

/-- The lines before the end of the ring. -/
theorem writevLine_before {position : Nat}
    (inside : segment.writeIndex + position < hdr.lineCount) :
    writevLine hdr segment iovecs position = iovecs.getD (0 + position) [] := by
  rw [writevLine, writevSource, if_pos (by omega), Nat.zero_add]

/-- The lines that start again at `iovecs[0]`. -/
theorem writevLine_behind {position : Nat}
    (behind : hdr.lineCount ≤ segment.writeIndex + position) :
    writevLine hdr segment iovecs position =
      iovecs.getD (0 + (segment.writeIndex + position - hdr.lineCount)) [] := by
  rw [writevLine, writevSource, if_neg (by omega), Nat.zero_add]

/-- A batch that ends before the end of the ring. -/
theorem copied_straight {count index : Nat}
    (straight : segment.writeIndex + count < hdr.lineCount) :
    ∃ copied data, Copied hdr segment iovecs count copied data
      (match copyLines hdr.lineSize iovecs count 0 (segment.writeIndex * hdr.lineSize)
          segment.data with
      | (false, data) => (ioIpcSizeErr, { segment with data := data })
      | (true, data) => (count, { segment with writeIndex := index, data := data })) := by
  obtain ⟨copied, data, atMost, result, accepted, stops, slots⟩ :=
    copyLines_partial hdr iovecs count 0 segment.writeIndex segment.data
  rw [result]
  refine ⟨copied, data, atMost, ?_, ?_, ?_⟩
  · intro position inside
    rw [writevLine_before (by omega)]
    exact accepted position inside
  · have placed := slots.straight (by omega)
    simpa only [Nat.zero_add, writevLine, writevSource] using placed
  · by_cases all : copied = count
    · rw [decide_eq_true all]
      exact Or.inl ⟨all, Int.natCast_nonneg _⟩
    · rw [decide_eq_false all]
      refine Or.inr ⟨by omega, ?_, rfl⟩
      rw [writevLine_before (by omega)]
      exact stops (by omega)

/-- A batch that comes to the end of the ring, and starts again at `iovecs[0]` there. -/
theorem copied_wrapped {count index : Nat} (below : segment.writeIndex < hdr.lineCount)
    (wraps : hdr.lineCount ≤ segment.writeIndex + count) (few : count ≤ hdr.lineCount) :
    ∃ copied data, Copied hdr segment iovecs count copied data
      (match copyLines hdr.lineSize iovecs (hdr.lineCount - segment.writeIndex) 0
          (segment.writeIndex * hdr.lineSize) segment.data with
      | (false, data) => (ioIpcSizeErr, { segment with data := data })
      | (true, data) =>
          match copyLines hdr.lineSize iovecs (segment.writeIndex + count - hdr.lineCount) 0 0
              data with
          | (false, data) => (ioIpcSizeErr, { segment with data := data })
          | (true, data) => (count, { segment with writeIndex := index, data := data })) := by
  obtain ⟨first, middle, firstAtMost, firstResult, firstAccepted, firstStops, firstSlots⟩ :=
    copyLines_partial hdr iovecs (hdr.lineCount - segment.writeIndex) 0 segment.writeIndex
      segment.data
  obtain ⟨later, data, laterAtMost, laterResult, laterAccepted, laterStops, laterSlots⟩ :=
    copyLines_partial hdr iovecs (segment.writeIndex + count - hdr.lineCount) 0 0 middle
  rw [Nat.zero_mul] at laterResult
  rw [firstResult]
  by_cases firstAll : first = hdr.lineCount - segment.writeIndex
  · rw [decide_eq_true firstAll]
    dsimp only
    rw [laterResult]
    refine ⟨hdr.lineCount - segment.writeIndex + later, data, by omega, ?_, ?_, ?_⟩
    · intro position inside
      by_cases beforeEnd : position < hdr.lineCount - segment.writeIndex
      · rw [writevLine_before (by omega)]
        exact firstAccepted position (by omega)
      · rw [writevLine_behind (by omega)]
        exact laterAccepted _ (by omega)
    · rw [firstAll] at firstSlots
      have joined := SlotsWritten.wrap below (by omega) (by omega) firstSlots laterSlots
      simpa only [Nat.zero_add, writevLine, writevSource] using joined
    · by_cases laterAll : later = segment.writeIndex + count - hdr.lineCount
      · rw [decide_eq_true laterAll]
        exact Or.inl ⟨by omega, Int.natCast_nonneg _⟩
      · rw [decide_eq_false laterAll]
        refine Or.inr ⟨by omega, ?_, rfl⟩
        have place : segment.writeIndex + (hdr.lineCount - segment.writeIndex + later) -
            hdr.lineCount = later := by omega
        rw [writevLine_behind (by omega), place]
        exact laterStops (by omega)
  · rw [decide_eq_false firstAll]
    refine ⟨first, middle, by omega, ?_, ?_, Or.inr ⟨by omega, ?_, rfl⟩⟩
    · intro position inside
      rw [writevLine_before (by omega)]
      exact firstAccepted position inside
    · have placed := firstSlots.straight (by omega)
      simpa only [Nat.zero_add, writevLine, writevSource] using placed
    · rw [writevLine_before (by omega)]
      exact firstStops (by omega)

/-- A vector write copies line after line, up to the first that it does not accept. -/
theorem shmrbufWritev_copied (fits : hdr.lineCount * hdr.lineSize < 2 ^ 32)
    (bounded : segment.Bounded hdr) (narrow : vsize < 2 ^ 16)
    (known : segmentId < argsSegmentCount) :
    ∃ copied data, Copied hdr segment iovecs (clampVsize hdr segment vsize) copied data
      (shmrbufWritev hdr argsSegmentCount segmentId segment iovecs vsize) := by
  obtain ⟨withinVector, withinRing⟩ := clampVsize_le hdr segment vsize
  have below := bounded.writeIndex
  unfold shmrbufWritev
  rw [if_neg (by omega)]
  dsimp only
  by_cases nothing : clampVsize hdr segment vsize = 0
  · refine ⟨0, segment.data, Nat.zero_le _, by simp, .none _ _ _, Or.inl ⟨nothing.symm, ?_⟩⟩
    rw [if_pos nothing, ite_self]
  · rw [if_neg (by omega), if_neg nothing, slotOffset_eq fits below]
    by_cases straight : segment.writeIndex + clampVsize hdr segment vsize < hdr.lineCount
    · rw [if_pos ((newWriteIndex_gt_iff below (by omega) withinRing).mpr straight)]
      exact copied_straight straight
    · have toEnd : (hdr.lineCount - segment.writeIndex) % 2 ^ 16 =
          hdr.lineCount - segment.writeIndex := Nat.mod_eq_of_lt (by omega)
      have rest : (clampVsize hdr segment vsize + 2 ^ 16 -
          (hdr.lineCount - segment.writeIndex)) % 2 ^ 16 =
          segment.writeIndex + clampVsize hdr segment vsize - hdr.lineCount := by
        omega
      rw [if_neg (mt (newWriteIndex_gt_iff below (by omega) withinRing).mp straight), toEnd, rest]
      exact copied_wrapped below (Nat.le_of_not_lt straight) withinRing

end Writev

/-! ### What a reader sees -/

/-- Line `line` of what a reader has still to read, as `shmrbuf_read` finds it. -/
def unreadLine (hdr : GlobalHdr) (segment : Segment) (data : Data) (reader line : Nat) :
    List UInt8 :=
  getLine data (slotOffset hdr ((segment.readIndex reader + line) % hdr.lineCount)) hdr.lineSize

/-- The call returns `IO_IPC_SIZE_ERR` if a line it would write is too long, and a call
with a negative result leaves the write index and what readers have still to read. -/
structure RejectedInvisible (hdr : GlobalHdr) (argsSegmentCount segmentId : Nat)
    (segment : Segment) (iovecs : List (List UInt8)) (vsize : Nat) : Prop where
  tooLong : segmentId < argsSegmentCount →
    (∃ position < clampVsize hdr segment vsize,
      (writevLine hdr segment iovecs position).length > hdr.lineSize) →
    (shmrbufWritev hdr argsSegmentCount segmentId segment iovecs vsize).1 = ioIpcSizeErr
  writeIndex : (shmrbufWritev hdr argsSegmentCount segmentId segment iovecs vsize).1 < 0 →
    (shmrbufWritev hdr argsSegmentCount segmentId segment iovecs vsize).2.writeIndex =
      segment.writeIndex
  unread : (shmrbufWritev hdr argsSegmentCount segmentId segment iovecs vsize).1 < 0 →
    ∀ reader < hdr.readerCount, ∀ line < unreadLines hdr segment reader,
      unreadLine hdr segment
          (shmrbufWritev hdr argsSegmentCount segmentId segment iovecs vsize).2.data reader line =
        unreadLine hdr segment segment.data reader line

/-- If a line is too long, one is too long modulo `2 ^ 16` as well; and the lines in
front of the first such line go to slots no reader has still to read, or change nothing
there. -/
structure RejectionHarmless (hdr : GlobalHdr) (segment : Segment) (iovecs : List (List UInt8))
    (vsize : Nat) : Prop where
  seen : (∃ position < clampVsize hdr segment vsize,
      (writevLine hdr segment iovecs position).length > hdr.lineSize) →
    ∃ position < clampVsize hdr segment vsize,
      ¬Accepted hdr (writevLine hdr segment iovecs position)
  kept : ∀ stop < clampVsize hdr segment vsize,
    ¬Accepted hdr (writevLine hdr segment iovecs stop) →
    (∀ position < stop, Accepted hdr (writevLine hdr segment iovecs position)) →
    ∀ position < stop, ∀ reader < hdr.readerCount, freeLines hdr segment reader < position →
      copiedLine hdr (writevLine hdr segment iovecs position) =
        slotLine hdr segment.data ((segment.writeIndex + position) % hdr.lineCount)

section Visible

variable {hdr : GlobalHdr} {segment : Segment} {argsSegmentCount segmentId : Nat}
  {iovecs : List (List UInt8)} {vsize : Nat}

theorem unreadLine_eq (fits : hdr.lineCount * hdr.lineSize < 2 ^ 32) (data : Data)
    (reader line : Nat) :
    unreadLine hdr segment data reader line =
      slotLine hdr data ((segment.readIndex reader + line) % hdr.lineCount) := by
  rw [unreadLine, slotOffset_eq fits (Nat.mod_lt _ hdr.lineCount_pos)]
  rfl

/-- The slots behind the writer that a reader has still to read. -/
theorem unreadSlot_eq_iff (bounded : segment.Bounded hdr) {reader line position : Nat}
    (unread : line < unreadLines hdr segment reader) (inside : position < hdr.lineCount) :
    (segment.readIndex reader + line) % hdr.lineCount =
        (segment.writeIndex + position) % hdr.lineCount ↔
      position = freeLines hdr segment reader + 1 + line := by
  have total := unreadLines_add_freeLines bounded reader
  have start := readIndex_add_unreadLines bounded reader
  constructor
  · intro same
    by_contra different
    rw [← start, Nat.mod_add_mod] at same
    by_cases free : position ≤ freeLines hdr segment reader
    · exact mod_ne_of_lt_of_lt_add (by omega) (by omega) same
    · -- a lap back, both slots are counted from the reader
      have lap : segment.readIndex reader + unreadLines hdr segment reader + position =
          segment.readIndex reader + (position - freeLines hdr segment reader - 1) +
            hdr.lineCount := by omega
      rw [lap, Nat.add_mod_right] at same
      rcases Nat.lt_or_ge line (position - freeLines hdr segment reader - 1) with before | behind
      · exact mod_ne_of_lt_of_lt_add (by omega) (by omega) same
      · exact mod_ne_of_lt_of_lt_add (by omega) (by omega) same.symm
  · intro equal
    rw [equal, ← start, Nat.mod_add_mod]
    have lap : segment.readIndex reader + unreadLines hdr segment reader +
        (freeLines hdr segment reader + 1 + line) =
          segment.readIndex reader + line + hdr.lineCount := by omega
    rw [lap, Nat.add_mod_right]

/-- The negative results of a call on a segment it accepts. -/
theorem Copied.failed_iff {count copied : Nat} {data : Data} {result : Int × Segment}
    (copies : Copied hdr segment iovecs count copied data result) :
    result.1 < 0 ↔ result = (ioIpcSizeErr, { segment with data := data }) ∧ copied < count ∧
      ¬Accepted hdr (writevLine hdr segment iovecs copied) := by
  rcases copies.outcome with ⟨all, succeeds⟩ | ⟨below, stops, failed⟩
  · constructor
    · intro fails
      omega
    · intro fails
      omega
  · rw [failed]
    simp [below, stops, ioIpcSizeErr]

/-- The first line that is not accepted ends the call. -/
theorem Copied.result_of_stop {count copied : Nat} {data : Data} {result : Int × Segment}
    (copies : Copied hdr segment iovecs count copied data result) {stop : Nat}
    (below : stop < count) (stops : ¬Accepted hdr (writevLine hdr segment iovecs stop)) :
    result = (ioIpcSizeErr, { segment with data := data }) ∧ copied ≤ stop ∧
      ¬Accepted hdr (writevLine hdr segment iovecs copied) := by
  have reached : copied ≤ stop := by
    by_contra passed
    exact stops (copies.accepted stop (by omega))
  rcases copies.outcome with ⟨all, _⟩ | ⟨_, notAccepted, failed⟩
  · omega
  · exact ⟨failed, reached, notAccepted⟩

/-- The lines copied by a call change nothing for the readers exactly if none of them goes
to a slot with another line that is still to be read. -/
theorem Copied.unread_iff (fits : hdr.lineCount * hdr.lineSize < 2 ^ 32)
    (bounded : segment.Bounded hdr) {count copied : Nat} {data : Data} {result : Int × Segment}
    (copies : Copied hdr segment iovecs count copied data result)
    (few : count ≤ hdr.lineCount) :
    (∀ reader < hdr.readerCount, ∀ line < unreadLines hdr segment reader,
        unreadLine hdr segment data reader line =
          unreadLine hdr segment segment.data reader line) ↔
      ∀ position < copied, ∀ reader < hdr.readerCount, freeLines hdr segment reader < position →
        copiedLine hdr (writevLine hdr segment iovecs position) =
          slotLine hdr segment.data ((segment.writeIndex + position) % hdr.lineCount) := by
  have atMost := copies.atMost
  constructor
  · intro same position inside reader registered behind
    have total := unreadLines_add_freeLines bounded reader
    have equal := same reader registered (position - freeLines hdr segment reader - 1) (by omega)
    have slot := (@unreadSlot_eq_iff hdr segment bounded reader
      (position - freeLines hdr segment reader - 1) position (by omega) (by omega)).mpr (by omega)
    rw [unreadLine_eq fits, unreadLine_eq fits, slot] at equal
    rw [← equal]
    exact (copies.slots.written position inside).symm
  · intro same reader registered line unread
    rw [unreadLine_eq fits, unreadLine_eq fits]
    by_cases hit : ∃ position < copied, (segment.readIndex reader + line) % hdr.lineCount =
        (segment.writeIndex + position) % hdr.lineCount
    · obtain ⟨position, inside, slot⟩ := hit
      have place := (unreadSlot_eq_iff bounded unread (by omega)).mp slot
      rw [slot, ← same position inside reader registered (by omega)]
      exact copies.slots.written position inside
    · refine copies.slots.kept _ fun position inside slot => hit ⟨position, inside, slot⟩

end Visible

/-- A rejected vector write is invisible exactly if the rejection is harmless, or the
segment is rejected before. -/
theorem rejectedInvisible_iff {hdr : GlobalHdr} {segment : Segment}
    {argsSegmentCount segmentId : Nat} {iovecs : List (List UInt8)} (vsize : UInt16)
    (fits : hdr.lineCount * hdr.lineSize < 2 ^ 32) (reachable : segment.Reachable hdr segmentId) :
    RejectedInvisible hdr argsSegmentCount segmentId segment iovecs vsize.toNat ↔
      (segmentId < argsSegmentCount → RejectionHarmless hdr segment iovecs vsize.toNat) := by
  have bounded := reachable.bounded
  have few := (clampVsize_le hdr segment vsize.toNat).2
  have sizeErr : ioIpcSizeErr < 0 := by decide
  by_cases known : segmentId < argsSegmentCount
  · obtain ⟨copied, data, copies⟩ := @shmrbufWritev_copied hdr segment argsSegmentCount segmentId
      iovecs vsize.toNat fits bounded vsize.toNat_lt known
    have visible := copies.unread_iff fits bounded few
    constructor
    · intro invisible _
      refine ⟨fun long => ?_, fun stop below stops before position inside reader registered => ?_⟩
      · have failed := invisible.tooLong known long
        have negative : (shmrbufWritev hdr argsSegmentCount segmentId segment iovecs
            vsize.toNat).1 < 0 := Int.lt_of_le_of_lt (Int.le_of_eq failed) sizeErr
        obtain ⟨_, below, stops⟩ := copies.failed_iff.mp negative
        exact ⟨copied, below, stops⟩
      · obtain ⟨failed, reached, notAccepted⟩ := copies.result_of_stop below stops
        have first : stop ≤ copied := by
          by_contra earlier
          exact notAccepted (before copied (by omega))
        have unread := invisible.unread
        rw [failed] at unread
        exact visible.mp (unread sizeErr) position (by omega) reader registered
    · intro harmless
      obtain ⟨seen, kept⟩ := harmless known
      refine ⟨fun _ long => ?_, fun negative => ?_, fun negative => ?_⟩
      · obtain ⟨stop, below, stops⟩ := seen long
        rw [(copies.result_of_stop below stops).1]
      · rw [(copies.failed_iff.mp negative).1]
      · obtain ⟨failed, below, stops⟩ := copies.failed_iff.mp negative
        rw [failed]
        exact visible.mpr (kept copied below stops copies.accepted)
  · refine ⟨fun _ accepted => absurd accepted known, fun _ => ?_⟩
    have rejected : shmrbufWritev hdr argsSegmentCount segmentId segment iovecs vsize.toNat =
        (ioIpcArgErr, segment) := by
      rw [shmrbufWritev, if_pos (Nat.le_of_not_lt known)]
    refine ⟨fun accepted => absurd accepted known, fun _ => ?_, fun _ reader _ line _ => ?_⟩
    · rw [rejected]
    · rw [rejected]

/-- Without overwriting all lines go to free slots: only lengths from `2 ^ 16` on are left. -/
theorem rejectionHarmless_blocking {hdr : GlobalHdr} {segment : Segment}
    {iovecs : List (List UInt8)} {vsize : Nat} (blocking : hdr.overwrite = false)
    (lengths : ∀ position < clampVsize hdr segment vsize,
      (writevLine hdr segment iovecs position).length < 2 ^ 16) :
    RejectionHarmless hdr segment iovecs vsize where
  seen := by
    intro long
    obtain ⟨position, inside, long⟩ := long
    refine ⟨position, inside, ?_⟩
    rw [Accepted, Nat.mod_eq_of_lt (lengths position inside)]
    exact Nat.not_le_of_lt long
  kept := by
    intro stop below _ _ position inside reader registered behind
    have free := (clampVsize_allowed blocking segment vsize).2.2 reader registered
    omega

/-- The ring of three lines, with overwriting. -/
def overwritingHdr : GlobalHdr where
  __ := threeLineHdr
  overwrite := true

/-- Two lines nobody has read. -/
def twoUnread : Segment where
  writeIndex := 2
  readIndex := fun _ => 0
  data := putLine (putLine (fun _ => 0) 0 1 [97]) 1 1 [98]

theorem twoUnread_reachable : twoUnread.Reachable overwritingHdr 0 :=
  ⟨fun _ => 0, [.write [97], .write [98]], .cons trivial rfl (.cons trivial rfl (.nil _))⟩

/-- A vector that is too long from the start. -/
theorem rejectedInvisible_iff_first :
    RejectedInvisible overwritingHdr 1 0 twoUnread [[122, 122]] (1 : UInt16).toNat := by
  refine (rejectedInvisible_iff 1 (by decide) twoUnread_reachable).mpr fun _ => ⟨?_, ?_⟩
  · intro _
    exact ⟨0, by decide, by decide⟩
  · intro stop below _ _ position inside
    have one : clampVsize overwritingHdr twoUnread (1 : UInt16).toNat = 1 := by decide
    omega

/-- The second of three lines is too long: `x` is in the place of the first unread line when
the call returns `IO_IPC_SIZE_ERR`. -/
theorem rejected_visible_overwriting :
    twoUnread.Reachable overwritingHdr 0 ∧
    (shmrbufWritev overwritingHdr 1 0 twoUnread [[120], [122, 122], [120]] 3).1 = ioIpcSizeErr ∧
    ¬RejectedInvisible overwritingHdr 1 0 twoUnread [[120], [122, 122], [120]] 3 := by
  refine ⟨twoUnread_reachable, by decide, fun invisible => ?_⟩
  exact absurd (invisible.unread (by decide) 0 (by decide) 0 (by decide)) (by decide)

end FipsIpc.ShmRingbuf
