import FipsIpc.FipsBuf.Lines
import FipsIpc.FipsBuf.Trailing
import FipsIpc.FipsBuf.ZeroCopy

/-!
Contract: what the index tests of the data path refuse.

Owns: the free slots of a segment and the lines a process has not read, as
distances in the ring; the tests of `fips_get_write_buffer` and `fips_buf_read`
in these terms for batches of every size; and the offsets over runs of all calls.

The advanced offset is masked before it is compared, so a batch counts with its
remainder by the number of lines.

Does not own: which of its segments a reader thread visits.
-/

set_option autoImplicit false

namespace FipsIpc.FipsBuf

open FipsIpc.Lib

/-! ### Distances -/

namespace Segment

/-- The slots the writer may still reserve before it meets a reader. -/
def freeSlots (hdr : Header) (segment : Segment) (reader : Nat) : Nat :=
  hdr.lineCount - 1 -
    (segment.headOffset + hdr.lineCount - (segment.readers reader).commitOffset) % hdr.lineCount

/-- The committed lines a process has not read. -/
def unreadLines (hdr : Header) (segment : Segment) (reader : Nat) : Nat :=
  (segment.commitOffset + hdr.lineCount - (segment.readers reader).headOffset) % hdr.lineCount

/-- All offsets are slot numbers. -/
structure WithinRing (hdr : Header) (segment : Segment) : Prop where
  head : segment.headOffset < hdr.lineCount
  commit : segment.commitOffset < hdr.lineCount
  readerHead : ∀ reader, (segment.readers reader).headOffset < hdr.lineCount
  readerCommit : ∀ reader, (segment.readers reader).commitOffset < hdr.lineCount

end Segment

section Distances

variable {size low high : Nat}

/-- The distance from one position to another, added to the first, leads there. -/
theorem add_distance_mod (lowInside : low < size) (highInside : high < size) :
    (low + (high + size - low) % size) % size = high := by
  rw [Nat.add_mod_mod]
  have total : low + (high + size - low) = high + size := by omega
  rw [total, Nat.add_mod_right, Nat.mod_eq_of_lt highInside]

/-- The writer's test, for a batch of any size. -/
theorem overtakes_iff_free (lowInside : low < size) (highInside : high < size) (count : Nat) :
    Overtakes high ((high + count) % size) low ↔
      size - 1 - (high + size - low) % size < count % size := by
  have positive : 0 < size := by omega
  have below := Nat.mod_lt (high + size - low) positive
  rcases Nat.eq_zero_or_pos (count % size) with whole | rest
  · have back : (high + count) % size = high := by
      rw [Nat.add_mod, whole, Nat.add_zero, Nat.mod_mod, Nat.mod_eq_of_lt highInside]
    rw [back, whole]
    unfold Overtakes
    omega
  · have ordered : low ≤ low + (high + size - low) % size := Nat.le_add_right _ _
    have withinLap : low + (high + size - low) % size < low + size := by omega
    have test := overtakes_iff ordered withinLap rest (Nat.mod_lt count positive)
    rw [add_distance_mod lowInside highInside, Nat.mod_eq_of_lt lowInside, ← Nat.mod_add_mod,
      add_distance_mod lowInside highInside, Nat.add_mod_mod] at test
    rw [test]
    omega

/-- The readers' test, for a batch of any size. -/
theorem notReady_iff_unread (lowInside : low < size) (highInside : high < size) (count : Nat) :
    NotReady low ((low + count) % size) high ↔ (high + size - low) % size < count % size := by
  have positive : 0 < size := by omega
  have below := Nat.mod_lt (high + size - low) positive
  rcases Nat.eq_zero_or_pos (count % size) with whole | rest
  · have back : (low + count) % size = low := by
      rw [Nat.add_mod, whole, Nat.add_zero, Nat.mod_mod, Nat.mod_eq_of_lt lowInside]
    rw [back, whole]
    unfold NotReady
    omega
  · have ordered : low ≤ low + (high + size - low) % size := Nat.le_add_right _ _
    have withinLap : low + (high + size - low) % size < low + size := by omega
    have test := notReady_iff ordered withinLap rest (Nat.mod_lt count positive)
    rw [add_distance_mod lowInside highInside, Nat.mod_eq_of_lt lowInside, Nat.add_mod_mod]
      at test
    rw [test]
    omega

end Distances

/-! ### The tests of the two calls -/

/-- The return code of `fips_get_write_buffer` and the segment it leaves. -/
def Segment.afterGetWriteBuffer (hdr : Header) (segment : Segment) (iovcnt : Nat) :
    Int × Segment :=
  match segment.getWriteBuffer hdr iovcnt with
  | (.error code, next) => (code, next)
  | (.ok _, next) => (fipsBufSuccess, next)

/-- The position a visit of the loop of `fips_buf_read` goes to. -/
def nextRotation (cachedCount rotation : Nat) : Nat :=
  if cachedCount ≤ (rotation + 1) % 2 ^ 8 then 0 else (rotation + 1) % 2 ^ 8

section Tests

variable {hdr : Header} {segment : Segment}

theorem Segment.WithinRing.overtakes_iff (within : segment.WithinRing hdr) (reader iovcnt : Nat) :
    Overtakes segment.headOffset (hdr.wrapLine (segment.headOffset + iovcnt))
        (segment.readers reader).commitOffset ↔
      segment.freeSlots hdr reader < iovcnt % hdr.lineCount := by
  rw [hdr.wrapLine_eq_mod]
  exact overtakes_iff_free (within.readerCommit reader) within.head iovcnt

theorem Segment.WithinRing.notReady_iff (within : segment.WithinRing hdr) (reader iovcnt : Nat) :
    NotReady (segment.readers reader).headOffset
        (hdr.wrapLine ((segment.readers reader).headOffset + iovcnt)) segment.commitOffset ↔
      segment.unreadLines hdr reader < iovcnt % hdr.lineCount := by
  rw [hdr.wrapLine_eq_mod]
  exact notReady_iff_unread (within.readerHead reader) within.commit iovcnt

theorem success_ne_noSpace : fipsBufSuccess ≠ fipsBufErrorNoSpace := by decide

/-- A refused reservation stores nothing. -/
theorem Segment.afterGetWriteBuffer_refused {iovcnt : Nat}
    (refused : (segment.afterGetWriteBuffer hdr iovcnt).1 ≠ fipsBufSuccess) :
    (segment.afterGetWriteBuffer hdr iovcnt).2 = segment := by
  unfold Segment.afterGetWriteBuffer at refused ⊢
  generalize called : segment.getWriteBuffer hdr iovcnt = result at refused ⊢
  rcases result with ⟨code | iov, next⟩
  · exact (Segment.getWriteBuffer_refused called).2
  · exact absurd rfl refused

/-- `fips_get_write_buffer` on a batch of any size. -/
theorem Segment.WithinRing.afterGetWriteBuffer_eq (within : segment.WithinRing hdr)
    (blocking : hdr.overwrite = false) (iovcnt : Nat) :
    segment.afterGetWriteBuffer hdr iovcnt =
      if ∃ reader < hdr.readerCount, segment.freeSlots hdr reader < iovcnt % hdr.lineCount then
        (fipsBufErrorNoSpace, segment)
      else
        (fipsBufSuccess,
          { segment with headOffset := hdr.wrapLine (segment.headOffset + iovcnt) }) := by
  have test : (hdr.overwrite = false ∧ ∃ reader < hdr.readerCount,
      Overtakes segment.headOffset (hdr.wrapLine (segment.headOffset + iovcnt))
        (segment.readers reader).commitOffset) ↔
      ∃ reader < hdr.readerCount, segment.freeSlots hdr reader < iovcnt % hdr.lineCount := by
    simp only [blocking, true_and, within.overtakes_iff]
  unfold Segment.afterGetWriteBuffer Segment.getWriteBuffer
  dsimp only
  by_cases refused :
      ∃ reader < hdr.readerCount, segment.freeSlots hdr reader < iovcnt % hdr.lineCount
  · rw [if_pos (test.mpr refused), if_pos refused]
  · rw [if_neg (fun overtakes => refused (test.mp overtakes)), if_neg refused]

/-- One visit of `fips_buf_read`: a segment with too few unread lines is passed
over, any other is taken from. -/
theorem readLoop_visit {segments : Nat → Segment} {thread : ReaderThread} {index : Nat}
    (within : (segments index).WithinRing hdr) (iovcnt cachedCount tries : Nat)
    (entry : thread.cache.currentSegment[nextRotation cachedCount thread.rotation]? =
      some (some index)) :
    readLoop hdr segments iovcnt cachedCount (tries + 1) thread =
      if (segments index).unreadLines hdr thread.readerIndex < iovcnt % hdr.lineCount then
        (removeCachedEntries thread.cache (nextRotation cachedCount thread.rotation)).bind
          fun cache => readLoop hdr segments iovcnt cachedCount tries
            { thread with cache := cache, rotation := nextRotation cachedCount thread.rotation }
      else
        some ⟨fipsBufSuccess,
          some ((takeLines hdr (segments index) index thread.readerIndex iovcnt).1,
            (takeLines hdr (segments index) index thread.readerIndex iovcnt).2.1),
          Function.update segments index
            (takeLines hdr (segments index) index thread.readerIndex iovcnt).2.2,
          { thread with rotation := nextRotation cachedCount thread.rotation }⟩ := by
  have test := within.notReady_iff thread.readerIndex iovcnt
  unfold nextRotation at entry ⊢
  rw [readLoop]
  dsimp only
  rw [entry]
  by_cases few : (segments index).unreadLines hdr thread.readerIndex < iovcnt % hdr.lineCount
  · rw [if_pos few]
    exact if_pos (test.mpr few)
  · rw [if_neg few]
    exact if_neg (fun notReady => few (test.mp notReady))

/-- A loop that takes no lines leaves all segments. -/
theorem readLoop_refused {segments : Nat → Segment} {thread : ReaderThread}
    {iovcnt cachedCount tries : Nat} {outcome : ReadOutcome}
    (result : readLoop hdr segments iovcnt cachedCount tries thread = some outcome)
    (refused : outcome.code ≠ fipsBufSuccess) : outcome.segments = segments := by
  induction tries generalizing thread with
  | zero =>
      cases result
      rfl
  | succ tries inductionHypothesis =>
      obtain ⟨index, -, visited⟩ := Option.bind_eq_some_iff.mp result
      dsimp only at visited
      split at visited
      · obtain ⟨cache, -, later⟩ := Option.bind_eq_some_iff.mp visited
        exact inductionHypothesis later
      · cases visited
        exact absurd rfl refused

theorem fipsBufRead_refused {area : AssignmentArea} {segments : Nat → Segment}
    {thread : ReaderThread} {iovcnt : Nat} {flags : Int} {outcome : ReadOutcome}
    (result : fipsBufRead hdr area segments thread iovcnt flags = some outcome)
    (refused : outcome.code ≠ fipsBufSuccess) : outcome.segments = segments := by
  unfold fipsBufRead at result
  split at result
  · cases result
    rfl
  · obtain ⟨⟨code, cache⟩, -, refreshed⟩ := Option.bind_eq_some_iff.mp result
    dsimp only at refreshed
    split at refreshed
    · cases refreshed
      rfl
    · exact readLoop_refused refreshed refused

end Tests

/-- The tests for a batch say exactly what they are for, and a refusal leaves
every offset. -/
structure IndexTestsExact (hdr : Header) (segments : Nat → Segment) (iovcnt : Nat) : Prop where
  noSpace : ∀ index,
    ((segments index).afterGetWriteBuffer hdr iovcnt).1 = fipsBufErrorNoSpace ↔
      ∃ reader < hdr.readerCount, (segments index).freeSlots hdr reader < iovcnt
  refusedReservation : ∀ index,
    ((segments index).afterGetWriteBuffer hdr iovcnt).1 ≠ fipsBufSuccess →
      ((segments index).afterGetWriteBuffer hdr iovcnt).2 = segments index
  notReady : ∀ (thread : ReaderThread) (index cachedCount tries : Nat),
    thread.cache.currentSegment[nextRotation cachedCount thread.rotation]? = some (some index) →
      readLoop hdr segments iovcnt cachedCount (tries + 1) thread =
        if (segments index).unreadLines hdr thread.readerIndex < iovcnt then
          (removeCachedEntries thread.cache (nextRotation cachedCount thread.rotation)).bind
            fun cache => readLoop hdr segments iovcnt cachedCount tries
              { thread with cache := cache, rotation := nextRotation cachedCount thread.rotation }
        else
          some ⟨fipsBufSuccess,
            some ((takeLines hdr (segments index) index thread.readerIndex iovcnt).1,
              (takeLines hdr (segments index) index thread.readerIndex iovcnt).2.1),
            Function.update segments index
              (takeLines hdr (segments index) index thread.readerIndex iovcnt).2.2,
            { thread with rotation := nextRotation cachedCount thread.rotation }⟩
  refusedRead : ∀ area thread flags outcome,
    fipsBufRead hdr area segments thread iovcnt flags = some outcome →
      outcome.code ≠ fipsBufSuccess → outcome.segments = segments

/-- For batches smaller than the ring both tests are exact, wherever the offsets
stand. -/
theorem indexTests_exact {hdr : Header} (blocking : hdr.overwrite = false)
    {segments : Nat → Segment} (within : ∀ index, (segments index).WithinRing hdr) {iovcnt : Nat}
    (inside : iovcnt < hdr.lineCount) : IndexTestsExact hdr segments iovcnt := by
  have small : iovcnt % hdr.lineCount = iovcnt := Nat.mod_eq_of_lt inside
  refine ⟨?_, ?_, ?_, fun _ _ _ _ result refused => fipsBufRead_refused result refused⟩
  · intro index
    rw [(within index).afterGetWriteBuffer_eq blocking, small]
    split
    case isTrue few => exact iff_of_true rfl few
    case isFalse enough => exact iff_of_false success_ne_noSpace enough
  · exact fun index refused => Segment.afterGetWriteBuffer_refused refused
  · intro thread index cachedCount tries entry
    rw [readLoop_visit (within index) iovcnt cachedCount tries entry, small]

/-- A ring of four lines: the writer is at slot 1, the reader has returned
nothing since slot 2 and has read up to slot 3. -/
def wrappedSegment : Segment where
  headOffset := 1
  commitOffset := 1
  readers := fun _ => ⟨3, 2, ⟨0, 0, 0, none, fun _ => ⟨.zero, none⟩⟩⟩
  data := fun _ => 0

theorem indexTests_exact_wrapped :
    IndexTestsExact oneByteLines (fun _ => wrappedSegment) 3 ∧
      wrappedSegment.freeSlots oneByteLines 0 = 0 ∧
      wrappedSegment.unreadLines oneByteLines 0 = 2 :=
  ⟨indexTests_exact rfl (fun _ => ⟨by decide, by decide,
    fun _ => (by decide : 3 < oneByteLines.lineCount),
    fun _ => (by decide : 2 < oneByteLines.lineCount)⟩) (by decide), by decide, by decide⟩

end FipsIpc.FipsBuf
