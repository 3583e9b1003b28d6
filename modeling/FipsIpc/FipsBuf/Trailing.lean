import FipsIpc.FipsBuf.Buffer
import FipsIpc.FipsBuf.Caches

/-!
Contract: what becomes of a segment whose writer detaches.

Owns: runs of all calls on a zero-copy buffer, with the number of lines that
were committed, read and returned; the flag that `fips_buf_detach` leaves; when
a writer still finds a segment; and when the lines of a detached writer stay
within reach of a reader process.

A detached writer's segment is `FREE` if no reader thread was assigned to it and
`TRAILING` otherwise.  No call takes a segment out of `TRAILING`, and a refresh
keeps a trailing segment only in the caches that hold it already.  While a
segment is trailing, an attach that finds both a writer and a reader thread
stores past the end of `active_writers`.

A thread attaches with a zeroed argument, as every caller in the repository does.

Does not own: the contents of lines, wrapping of the generation.
-/

set_option autoImplicit false

namespace FipsIpc.FipsBuf

open FipsIpc.Lib

/-! ### Runs -/

/-- A buffer in use.  The last fields record its history: lines committed to a
segment, lines a process has read from it and returned, the slots of reader
threads that found their cache empty since the last line was read or returned
and the last writer left, and the segments whose writer left while a reader
thread was assigned to them. -/
structure LogBuffer where
  attachments : Attachments
  readers : Nat → ReaderThread
  segments : Nat → Segment
  committed : Nat → Nat
  taken : Nat → Nat → Nat
  returned : Nat → Nat → Nat
  idle : List Nat
  left : List Nat

inductive LogCall where
  | attach (role : Role)
  | detach (role : Role) (threadIndex : Nat)
  | getWriteBuffer (index iovcnt : Nat)
  | store (index address : Nat) (byte : UInt8)
  | write (index : Nat) (iov : List Iovec)
  | refresh (reader thread : Nat)
  | read (reader thread iovcnt : Nat)
  | giveBack (tag : Range)

/-- Some reader thread is assigned to the segment. -/
def AssignmentArea.AssignedToReader (area : AssignmentArea) (hdr : Header) (segment : Nat) :
    Prop :=
  ∃ reader < hdr.readerCount, ∃ window ∈ area.threadWindows hdr reader,
    segment ∈ area.resolve hdr window

instance (area : AssignmentArea) (hdr : Header) (segment : Nat) :
    Decidable (area.AssignedToReader hdr segment) :=
  inferInstanceAs (Decidable (∃ reader < hdr.readerCount, ∃ window ∈ _, _))

/-- A reader thread right after `fips_buf_attach`. -/
def ReaderThread.attached (hdr : Header) (reader slot : Nat) : ReaderThread where
  readerIndex := reader
  slot := some slot
  cache := ⟨List.replicate hdr.segmentCount none, 0, 0, 0⟩
  rotation := 0

/-- `current_segment[0 .. assigned_reader_count + trailing_buffers_count)`. -/
def ReaderCache.entries (cache : ReaderCache) : List (Option Nat) :=
  cache.currentSegment.take (cache.assignedReaderCount + cache.trailingBuffersCount)

/-- Add to the count of one process and segment. -/
def addCount (counts : Nat → Nat → Nat) (reader segment count : Nat) : Nat → Nat → Nat :=
  Function.update counts reader
    (Function.update (counts reader) segment (counts reader segment + count))

namespace LogBuffer

variable (hdr : Header) (state : LogBuffer)

def area : AssignmentArea := state.attachments.area

def threads : List (Role × Nat) := state.attachments.threads

/-- A buffer after `setup_shm`. -/
def created (area : AssignmentArea) (data : Nat → Data) : LogBuffer where
  attachments := ⟨area, []⟩
  readers := fun slot => .attached hdr 0 slot
  segments := fun index => .created hdr (data index)
  committed := fun _ => 0
  taken := fun _ _ => 0
  returned := fun _ _ => 0
  idle := []
  left := []

def addThread (role : Role) (threadIndex : Nat) (area : AssignmentArea) : LogBuffer :=
  let state := { state with attachments := ⟨area, (role, threadIndex) :: state.threads⟩ }
  match role with
  | .writer => state
  | .reader reader =>
      let slot := hdr.slot reader threadIndex
      { state with
        readers := Function.update state.readers slot (.attached hdr reader slot)
        idle := state.idle.filter (· ≠ slot) }

def removeThread (role : Role) (threadIndex : Nat) : LogBuffer :=
  let after := { state with
    attachments := ⟨fipsBufDetach hdr state.area role threadIndex,
      state.threads.erase (role, threadIndex)⟩ }
  match role with
  | .writer =>
      { after with
        idle := []
        left :=
          if state.area.AssignedToReader hdr threadIndex then threadIndex :: state.left
          else state.left }
  | .reader _ => after

def setReader (slot : Nat) (thread : ReaderThread) : LogBuffer :=
  { state with readers := Function.update state.readers slot thread }

def setSegment (index : Nat) (segment : Segment) : LogBuffer :=
  { state with segments := Function.update state.segments index segment }

/-- What a call of `fips_buf_read` by the thread in `slot` leaves. -/
def recordRead (reader slot : Nat) (outcome : ReadOutcome) : LogBuffer :=
  let state := { state.setReader slot outcome.thread with segments := outcome.segments }
  match outcome.lines with
  | none =>
      { state with
        idle := if outcome.code = fipsBufErrorEmpty then slot :: state.idle else state.idle }
  | some (iov, tag) =>
      { state with taken := addCount state.taken reader tag.segmentIndex iov.length, idle := [] }

/-- One complete call. -/
def step : LogCall → Option LogBuffer
  | .attach role =>
      match fipsBufAttach hdr state.area role with
      | .ok (threadIndex, area) => some (state.addThread hdr role threadIndex area)
      | .error _ => some state
  | .detach role threadIndex => some (state.removeThread hdr role threadIndex)
  | .getWriteBuffer index iovcnt =>
      match fipsGetWriteBuffer hdr (state.segments index) iovcnt with
      | .ok (_, segment) => some (state.setSegment index segment)
      | .error _ => some state
  | .store index address byte =>
      let segment := state.segments index
      some (state.setSegment index
        { segment with data := Function.update segment.data address byte })
  | .write index iov =>
      let result := fipsBufWrite hdr (state.segments index) iov
      some { state.setSegment index result.2 with
        committed :=
          if result.1 = fipsBufSuccess then
            Function.update state.committed index (state.committed index + iov.length)
          else state.committed }
  | .refresh reader thread =>
      let slot := hdr.slot reader thread
      (updateCachedReaderValues hdr state.area (state.readers slot).slot
        (state.readers slot).cache).map fun result =>
          state.setReader slot { state.readers slot with cache := result.2 }
  | .read reader thread iovcnt =>
      let slot := hdr.slot reader thread
      (fipsBufRead hdr state.area state.segments (state.readers slot) iovcnt 0).map
        (state.recordRead reader slot)
  | .giveBack tag =>
      (fipsBufReturn hdr state.segments tag).map fun result =>
        { state with
          segments := result.2
          returned :=
            if result.1 = fipsBufSuccess then
              addCount state.returned tag.readerIndex tag.segmentIndex tag.count
            else state.returned
          idle := [] }

/-- Threads belong to existing processes, only attached threads make calls, and
a writer thread uses its own segment. -/
def Permitted : LogCall → Prop
  | .attach role => hdr.hasRole role
  | .detach role threadIndex => (role, threadIndex) ∈ state.threads
  | .getWriteBuffer index _ => (.writer, index) ∈ state.threads
  | .store index _ _ => (.writer, index) ∈ state.threads
  | .write index _ => (.writer, index) ∈ state.threads
  | .refresh reader thread => (.reader reader, thread) ∈ state.threads
  | .read reader thread _ => (.reader reader, thread) ∈ state.threads
  | .giveBack tag => tag.readerIndex < hdr.readerCount ∧ tag.segmentIndex < hdr.segmentCount

/-- An attach finds a free slot within its bound, or the cell behind the bound
is not free. -/
def SafeCall : LogCall → Prop
  | .attach role => SafeAttach hdr state.area role
  | _ => True

/-- The call stores nothing past the end of `active_writers`. -/
def StaysInside : LogCall → Prop
  | .attach role => AttachFillsInside hdr state.area role
  | .detach role threadIndex => DetachFillsInside hdr state.area role threadIndex
  | _ => True

def writerCount : Nat := state.threads.countP fun thread => thread.1 = .writer

/-- Every reader process has read and returned the lines of every trailing
segment, and each of its threads has then found its cache empty. -/
structure Drained : Prop where
  read : ∀ segment < hdr.segmentCount, state.area.writerTrailing hdr segment = true →
    ∀ reader < hdr.readerCount, state.taken reader segment = state.committed segment ∧
      state.returned reader segment = state.committed segment
  empty : ∀ thread ∈ state.threads, ∀ reader, thread.1 = .reader reader →
    hdr.slot reader thread.2 ∈ state.idle

end LogBuffer

/-! ### The flag a writer leaves -/

theorem affectedBySlot_congr {left right : Nat → Bool} (threadIndex : Nat) {segments : List Nat}
    (same : ∀ segment ∈ segments, left segment = right segment) (missing : Nat) :
    affectedBySlot left threadIndex segments missing =
      affectedBySlot right threadIndex segments missing := by
  induction segments generalizing missing with
  | nil => cases missing <;> rfl
  | cons segment rest inductionHypothesis =>
      have later := inductionHypothesis fun other member =>
        same other (List.mem_cons_of_mem _ member)
      cases missing with
      | zero => rfl
      | succ missing =>
          unfold affectedBySlot
          rw [same segment List.mem_cons_self, later, later]

/-- Adding flags to slots in use leaves their segments. -/
structure SameWindows (before after : AssignmentArea) : Prop where
  owners : SameOwners before after
  window : ∀ word, (after.assignments word).window = (before.assignments word).window

theorem SameWindows.addFlag {before after : AssignmentArea} (same : SameWindows before after)
    {slot : Nat} (used : (after.assignments slot).inUse = true) :
    SameWindows before (after.setAssignment slot { after.assignments slot with
      flags := (after.assignments slot).flags ||| fipsBufFlagTrailing }) where
  owners := same.owners.trans
    (SameOwners.setAssignment after used ((Assignment.inUse_addTrailing _).trans used))
  window word := by
    rw [← same.window word]
    by_cases here : word = slot
    · subst here
      simp [AssignmentArea.setAssignment, Assignment.window]
    · simp [AssignmentArea.setAssignment, here]

/-- The scan over one slot sees the flags and windows of the area before. -/
theorem SameWindows.affectedBySlot_eq {before after : AssignmentArea}
    (same : SameWindows before after) (hdr : Header) (threadIndex slot : Nat) :
    affectedBySlot (fun segment => after.writerAssignment hdr segment == fipsBufFlagInUse)
        threadIndex ((List.range hdr.segmentCount).drop (after.assignments slot).startSegment)
        (after.assignments slot).count =
      affectedBySlot (before.writerInUse hdr) threadIndex
        ((List.range hdr.segmentCount).drop (before.assignments slot).window.1)
        (before.assignments slot).window.2 := by
  rw [← same.window slot]
  apply affectedBySlot_congr
  intro segment member
  have inside : segment < hdr.segmentCount := List.mem_range.mp (List.mem_of_mem_drop member)
  rw [AssignmentArea.writerInUse, after.writerAssignment_of_lt hdr inside,
    before.writerAssignment_of_lt hdr inside, same.owners.writerFlags]

/-- The number `add_flag_affected_readers` returns is positive exactly when a
slot of the list leads to the segment. -/
theorem addFlagAffectedReaders_pos {hdr : Header} {before : AssignmentArea} {threadIndex : Nat}
    {slots : List Nat}
    (scans : ∀ slot ∈ slots, (before.assignments slot).inUse = true →
      affectedBySlot (before.writerInUse hdr) threadIndex
          ((List.range hdr.segmentCount).drop (before.assignments slot).window.1)
          (before.assignments slot).window.2 =
        ((before.resolve hdr (before.assignments slot).window).count threadIndex, true))
    {area : AssignmentArea} (same : SameWindows before area) (affectedReaders : Nat) :
    (addFlagAffectedReaders hdr threadIndex fipsBufFlagTrailing slots affectedReaders area).1 > 0 ↔
      0 < affectedReaders ∨ ∃ slot ∈ slots, (before.assignments slot).inUse = true ∧
        threadIndex ∈ before.resolve hdr (before.assignments slot).window := by
  induction slots generalizing area affectedReaders with
  | nil => simp [addFlagAffectedReaders]
  | cons slot rest inductionHypothesis =>
      have others := fun other (member : other ∈ rest) =>
        scans other (List.mem_cons_of_mem slot member)
      unfold addFlagAffectedReaders
      dsimp only
      by_cases used : (before.assignments slot).inUse = true
      · have stillUsed : (area.assignments slot).inUse = true :=
          (same.owners.inUse slot).trans used
        rw [if_pos stillUsed, same.affectedBySlot_eq hdr, scans slot List.mem_cons_self used,
          if_pos rfl]
        have flagged : SameWindows before
            (if (before.resolve hdr (before.assignments slot).window).count threadIndex = 0 then
                area
              else area.setAssignment slot { area.assignments slot with
                flags := (area.assignments slot).flags ||| fipsBufFlagTrailing }) := by
          split
          · exact same
          · exact same.addFlag stillUsed
        rw [inductionHypothesis others flagged, List.exists_mem_cons_iff, ← or_assoc]
        apply or_congr_left
        rw [← List.count_pos_iff]
        constructor
        · intro positive
          by_cases first : 0 < affectedReaders
          · exact Or.inl first
          · exact Or.inr ⟨used, by omega⟩
        · rintro (first | ⟨_, here⟩)
          · exact Nat.add_pos_left first _
          · exact Nat.add_pos_right _ here
      · have stillUnused : ¬(area.assignments slot).inUse = true := by
          rw [same.owners.inUse slot]
          exact used
        rw [if_neg stillUnused, inductionHypothesis others same, List.exists_mem_cons_iff]
        apply or_congr_right
        constructor
        · exact Or.inr
        · rintro (⟨here, _⟩ | there)
          · exact absurd here used
          · exact there

namespace AssignmentArea

variable {hdr : Header} {area : AssignmentArea}

theorem mem_threadWindows_iff {reader : Nat} {window : Nat × Nat} :
    window ∈ area.threadWindows hdr reader ↔ ∃ slot ∈ rowSlots hdr reader,
      (area.assignments slot).inUse = true ∧ (area.assignments slot).window = window := by
  simp only [threadWindows, List.mem_map, List.mem_filter]
  constructor
  · rintro ⟨_, ⟨⟨slot, member, rfl⟩, used⟩, same⟩
    exact ⟨slot, member, used, same⟩
  · rintro ⟨slot, member, used, same⟩
    exact ⟨_, ⟨⟨slot, member, rfl⟩, used⟩, same⟩

theorem assignedToReader_iff {segment : Nat} :
    area.AssignedToReader hdr segment ↔ ∃ slot ∈ hdr.allSlots,
      (area.assignments slot).inUse = true ∧
        segment ∈ area.resolve hdr (area.assignments slot).window := by
  simp only [AssignedToReader, Header.allSlots, List.mem_flatMap, List.mem_range,
    mem_threadWindows_iff]
  constructor
  · rintro ⟨reader, exists_, _, ⟨slot, member, used, rfl⟩, reads⟩
    exact ⟨slot, ⟨reader, exists_, member⟩, used, reads⟩
  · rintro ⟨slot, ⟨reader, exists_, member⟩, used, reads⟩
    exact ⟨reader, exists_, _, ⟨slot, member, used, rfl⟩, reads⟩

/-- `fips_buf_detach` of a writer changes one flag: trailing if a reader thread
was assigned to the segment, free otherwise. -/
theorem detachWriter_flags (assigned : ∀ reader < hdr.readerCount, area.AssignedRow hdr reader)
    {threadIndex : Nat} (inside : threadIndex < hdr.segmentCount) :
    (fipsBufDetach hdr area .writer threadIndex).writerFlags =
      Function.update area.writerFlags threadIndex
        (if area.AssignedToReader hdr threadIndex then fipsBufFlagTrailing
          else fipsBufFlagFree) := by
  have scans : ∀ slot ∈ hdr.allSlots, (area.assignments slot).inUse = true →
      affectedBySlot (area.writerInUse hdr) threadIndex
          ((List.range hdr.segmentCount).drop (area.assignments slot).window.1)
          (area.assignments slot).window.2 =
        ((area.resolve hdr (area.assignments slot).window).count threadIndex, true) := by
    intro slot member used
    rcases List.mem_flatMap.mp member with ⟨reader, exists_, inRow⟩
    have stored := mem_threadWindows_iff.mpr ⟨slot, inRow, used, rfl⟩
    exact ((assigned reader (List.mem_range.mp exists_)).scans _ stored).2 threadIndex
  have same : SameWindows area area := ⟨.refl area, fun _ => rfl⟩
  have positive := addFlagAffectedReaders_pos scans same 0
  rw [or_iff_right (Nat.lt_irrefl 0), ← assignedToReader_iff] at positive
  have flagged := SameOwners.addFlagAffectedReaders hdr threadIndex hdr.allSlots 0 area
  have flag : (if (addFlagAffectedReaders hdr threadIndex fipsBufFlagTrailing hdr.allSlots 0
      area).1 > 0 then fipsBufFlagTrailing else fipsBufFlagFree) =
      if area.AssignedToReader hdr threadIndex then fipsBufFlagTrailing else fipsBufFlagFree :=
    if_congr positive rfl rfl
  show (AssignmentArea.republish hdr (AssignmentArea.setWriterAssignment hdr _ threadIndex
    (if _ > 0 then fipsBufFlagTrailing else fipsBufFlagFree))).writerFlags = _
  rw [(SameOwners.republish hdr _).writerFlags, setWriterAssignment_of_lt hdr _ _ inside, flag,
    flagged.writerFlags]

end AssignmentArea

/-! ### Which segments are free -/

/-- The call attaches or detaches a thread. -/
def LogCall.ChangesThreads : LogCall → Prop
  | .attach _ => True
  | .detach .. => True
  | _ => False

/-- The flags after a thread took a free slot. -/
theorem attach_flags {hdr : Header} (area : AssignmentArea) {role : Role} {index : Nat}
    (inside : index < hdr.roleBound role) :
    ((occupySlot hdr area role index).republish hdr).writerFlags =
      if role = .writer then Function.update area.writerFlags index fipsBufFlagInUse
      else area.writerFlags := by
  rw [(SameOwners.republish hdr _).writerFlags]
  cases role with
  | writer =>
      rw [if_pos rfl]
      exact congrArg AssignmentArea.writerFlags
        (area.setWriterAssignment_of_lt hdr fipsBufFlagInUse inside)
  | reader reader => rfl

namespace LogBuffer

variable {hdr : Header} {state next : LogBuffer} {call : LogCall}

theorem addThread_attachments (role : Role) (index : Nat) (area : AssignmentArea) :
    (state.addThread hdr role index area).attachments =
      ⟨area, (role, index) :: state.threads⟩ := by
  cases role <;> rfl

theorem addThread_area (role : Role) (index : Nat) (area : AssignmentArea) :
    (state.addThread hdr role index area).area = area := by
  cases role <;> rfl

theorem addThread_threads (role : Role) (index : Nat) (area : AssignmentArea) :
    (state.addThread hdr role index area).threads = (role, index) :: state.threads := by
  cases role <;> rfl

theorem addThread_left (role : Role) (index : Nat) (area : AssignmentArea) :
    (state.addThread hdr role index area).left = state.left := by
  cases role <;> rfl

theorem removeThread_attachments (role : Role) (index : Nat) :
    (state.removeThread hdr role index).attachments =
      ⟨fipsBufDetach hdr state.area role index, state.threads.erase (role, index)⟩ := by
  cases role <;> rfl

theorem removeThread_area (role : Role) (index : Nat) :
    (state.removeThread hdr role index).area = fipsBufDetach hdr state.area role index := by
  cases role <;> rfl

theorem removeThread_threads (role : Role) (index : Nat) :
    (state.removeThread hdr role index).threads = state.threads.erase (role, index) := by
  cases role <;> rfl

/-- All other calls leave the assignment area alone. -/
theorem step_quiet (quiet : ¬call.ChangesThreads) (taken : state.step hdr call = some next) :
    next.attachments = state.attachments ∧ next.left = state.left := by
  cases call with
  | attach role => exact absurd trivial quiet
  | detach role threadIndex => exact absurd trivial quiet
  | getWriteBuffer index iovcnt =>
      simp only [step] at taken
      split at taken <;> cases taken <;> exact ⟨rfl, rfl⟩
  | store index address byte =>
      cases taken
      exact ⟨rfl, rfl⟩
  | write index iov =>
      cases taken
      exact ⟨rfl, rfl⟩
  | refresh reader thread =>
      rcases Option.map_eq_some_iff.mp taken with ⟨result, _, rfl⟩
      exact ⟨rfl, rfl⟩
  | read reader thread iovcnt =>
      rcases Option.map_eq_some_iff.mp taken with ⟨outcome, _, rfl⟩
      unfold recordRead
      dsimp only
      split <;> exact ⟨rfl, rfl⟩
  | giveBack tag =>
      rcases Option.map_eq_some_iff.mp taken with ⟨result, _, rfl⟩
      exact ⟨rfl, rfl⟩

/-- What an attach does. -/
theorem step_attach_cases {role : Role} (owned : state.attachments.Owned hdr)
    (exists_ : hdr.hasRole role) (safe : SafeAttach hdr state.area role)
    (taken : state.step hdr (.attach role) = some next) :
    next = state ∨ ∃ index < hdr.roleBound role, FreeSlot hdr state.area role index ∧
      next = state.addThread hdr role index
        ((occupySlot hdr state.area role index).republish hdr) := by
  simp only [step] at taken
  rcases fipsBufAttach_cases owned exists_ with ⟨index, inside, free, result⟩ | ⟨none, result⟩
  · have attached : fipsBufAttach hdr state.area role = _ := result
    rw [attached] at taken
    cases taken
    exact Or.inr ⟨index, inside, free, rfl⟩
  · have occupied : ¬FreeSlot hdr state.area role (hdr.roleBound role) := by
      rcases safe with ⟨index, inside, free⟩ | occupied
      · exact absurd free (none index inside)
      · exact occupied
    have refused : fipsBufAttach hdr state.area role = .error fipsBufErrorNoFreeSegment :=
      result.trans (if_neg occupied)
    rw [refused] at taken
    cases taken
    exact Or.inl rfl

end LogBuffer

/-- Every flag is one of the three, and the segments that were left are the
trailing ones. -/
structure SegmentFlags (hdr : Header) (flags : Nat → Nat) (left : List Nat) : Prop where
  known : ∀ segment < hdr.segmentCount, flags segment = fipsBufFlagFree ∨
    flags segment = fipsBufFlagInUse ∨ flags segment = fipsBufFlagTrailing
  trailing : ∀ segment, segment ∈ left ↔
    segment < hdr.segmentCount ∧ flags segment = fipsBufFlagTrailing
  distinct : left.Nodup

namespace SegmentFlags

variable {hdr : Header} {flags : Nat → Nat} {left : List Nat}

/-- A flag that is not trailing becomes free or in use. -/
theorem toggle (segments : SegmentFlags hdr flags left) {index flag : Nat}
    (before : flags index ≠ fipsBufFlagTrailing)
    (after : flag = fipsBufFlagFree ∨ flag = fipsBufFlagInUse) :
    SegmentFlags hdr (Function.update flags index flag) left where
  known segment inside := by
    by_cases same : segment = index
    · rw [same, Function.update_self]
      exact after.imp_right Or.inl
    · rw [Function.update_of_ne same]
      exact segments.known segment inside
  trailing segment := by
    rw [segments.trailing]
    apply and_congr_right
    intro inside
    by_cases same : segment = index
    · rw [same, Function.update_self]
      refine ⟨fun trailing => absurd trailing before, fun trailing => ?_⟩
      rcases after with rfl | rfl <;> exact absurd trailing (by decide)
    · rw [Function.update_of_ne same]
  distinct := segments.distinct

/-- A segment is left to its readers. -/
theorem leave (segments : SegmentFlags hdr flags left) {index : Nat}
    (inside : index < hdr.segmentCount) (before : flags index ≠ fipsBufFlagTrailing) :
    SegmentFlags hdr (Function.update flags index fipsBufFlagTrailing) (index :: left) where
  known segment bound := by
    by_cases same : segment = index
    · rw [same, Function.update_self]
      exact Or.inr (Or.inr rfl)
    · rw [Function.update_of_ne same]
      exact segments.known segment bound
  trailing segment := by
    rw [List.mem_cons, segments.trailing]
    by_cases same : segment = index
    · rw [same, Function.update_self]
      exact ⟨fun _ => ⟨inside, rfl⟩, fun _ => Or.inl rfl⟩
    · rw [Function.update_of_ne same]
      exact or_iff_right same
  distinct := by
    refine List.nodup_cons.mpr ⟨fun member => ?_, segments.distinct⟩
    exact before ((segments.trailing index).mp member).2

theorem countP_trailing (segments : SegmentFlags hdr flags left) :
    (List.range hdr.segmentCount).countP (fun segment =>
      decide (flags segment = fipsBufFlagTrailing)) = left.length := by
  rw [List.countP_eq_length_filter]
  apply List.Perm.length_eq
  rw [List.perm_ext_iff_of_nodup (List.nodup_range.filter _) segments.distinct]
  intro segment
  rw [segments.trailing, List.mem_filter, List.mem_range, decide_eq_true_eq]

/-- Every segment is counted once. -/
theorem length_eq {segments : List Nat}
    (known : ∀ segment ∈ segments, flags segment = fipsBufFlagFree ∨
      flags segment = fipsBufFlagInUse ∨ flags segment = fipsBufFlagTrailing) :
    segments.length =
      segments.countP (fun segment => decide (flags segment = fipsBufFlagFree)) +
      (segments.countP (fun segment => decide (flags segment = fipsBufFlagInUse)) +
        segments.countP (fun segment => decide (flags segment = fipsBufFlagTrailing))) := by
  induction segments with
  | nil => rfl
  | cons segment rest inductionHypothesis =>
      have later := inductionHypothesis fun other member =>
        known other (List.mem_cons_of_mem _ member)
      rw [List.length_cons, later]
      simp only [List.countP_cons]
      rcases known segment List.mem_cons_self with free | used | trailing
      · simp only [free, fipsBufFlagFree, fipsBufFlagInUse, fipsBufFlagTrailing]
        simp
        omega
      · simp only [used, fipsBufFlagFree, fipsBufFlagInUse, fipsBufFlagTrailing]
        simp
        omega
      · simp only [trailing, fipsBufFlagFree, fipsBufFlagInUse, fipsBufFlagTrailing]
        simp
        omega

/-- A segment is free unless all are in use or left. -/
theorem exists_free_iff (segments : SegmentFlags hdr flags left) :
    (∃ index < hdr.segmentCount, flags index = fipsBufFlagFree) ↔
      (List.range hdr.segmentCount).countP (fun segment =>
        decide (flags segment = fipsBufFlagInUse)) + left.length < hdr.segmentCount := by
  have parts := length_eq fun segment member =>
    segments.known segment (List.mem_range.mp member)
  rw [List.length_range, segments.countP_trailing] at parts
  have some_ : (∃ index < hdr.segmentCount, flags index = fipsBufFlagFree) ↔
      0 < (List.range hdr.segmentCount).countP fun segment =>
        decide (flags segment = fipsBufFlagFree) := by
    rw [List.countP_pos_iff]
    simp only [List.mem_range, decide_eq_true_eq]
  rw [some_]
  omega

/-- While a segment is in use, the array of active writers is filled inside
exactly when no segment is trailing or no process has a thread. -/
theorem fillsInside_iff {area : AssignmentArea} (segments : SegmentFlags hdr area.writerFlags left)
    (used : 1 ≤ area.getWriterThreadCount hdr) :
    area.FillsInside hdr ↔
      left = [] ∨ ¬∃ reader < hdr.readerCount, 1 ≤ area.getReaderThreadCount hdr reader := by
  have listed : (∀ segment ∈ area.activeWriters hdr, area.writerInUse hdr segment = true) ↔
      left = [] := by
    simp only [AssignmentArea.activeWriters, AssignmentArea.writerInUse, List.mem_filter,
      List.mem_range, bne_iff_ne, beq_iff_eq, and_imp]
    constructor
    · intro inUse
      rw [List.eq_nil_iff_forall_not_mem]
      intro segment member
      obtain ⟨inside, trailing⟩ := (segments.trailing segment).mp member
      rw [← area.writerAssignment_of_lt hdr inside] at trailing
      have notFree : area.writerAssignment hdr segment ≠ 0 := by
        rw [trailing]
        decide
      exact absurd (trailing.symm.trans (inUse segment inside notFree)) (by decide)
    · intro none segment inside notFree
      rw [area.writerAssignment_of_lt hdr inside] at notFree ⊢
      rcases segments.known segment inside with free | inUse | trailing
      · exact absurd free notFree
      · exact inUse
      · have member := (segments.trailing segment).mpr ⟨inside, trailing⟩
        rw [none] at member
        cases member
  unfold AssignmentArea.FillsInside
  rw [← listed, ← area.length_activeWriters_le_iff hdr]
  constructor
  · intro fits
    by_cases threads : ∃ reader < hdr.readerCount, 1 ≤ area.getReaderThreadCount hdr reader
    · rcases threads with ⟨reader, exists_, positive⟩
      exact Or.inl (fits reader exists_ positive used)
    · exact Or.inr threads
  · rintro (fits | none) reader exists_ positive _
    · exact fits
    · exact absurd ⟨reader, exists_, positive⟩ none

end SegmentFlags

namespace LogBuffer

variable {hdr : Header} {state next : LogBuffer} {call : LogCall}

/-- The invariant of safe runs. -/
structure Counted (hdr : Header) (state : LogBuffer) : Prop where
  owned : state.attachments.Owned hdr
  assigned : ∀ reader < hdr.readerCount, state.area.AssignedRow hdr reader
  segments : SegmentFlags hdr state.area.writerFlags state.left

namespace Counted

theorem created {area : AssignmentArea} (created : hdr.CreatedArea area) (data : Nat → Data) :
    (LogBuffer.created hdr area data).Counted hdr where
  owned := .created created
  assigned _ exists_ := Attachments.Assigned.created created exists_
  segments := by
    refine ⟨fun segment _ => Or.inl (created.1 segment), fun segment => ?_, List.nodup_nil⟩
    refine ⟨fun absent => absurd absent List.not_mem_nil, ?_⟩
    rintro ⟨_, trailing⟩
    exact absurd ((created.1 segment).symm.trans trailing) (by decide)

theorem addThread (counted : state.Counted hdr) {role : Role} {index : Nat}
    (exists_ : hdr.hasRole role) (inside : index < hdr.roleBound role)
    (free : FreeSlot hdr state.area role index) :
    (state.addThread hdr role index
      ((occupySlot hdr state.area role index).republish hdr)).Counted hdr := by
  constructor
  case owned =>
    rw [addThread_attachments]
    exact counted.owned.occupy exists_ inside free
  case assigned =>
    intro reader bound
    rw [addThread_area]
    exact AssignmentArea.republish_assigned hdr _ bound
  case segments =>
    rw [addThread_left, addThread_area, attach_flags state.area inside]
    cases role with
    | reader reader => exact counted.segments
    | writer =>
        apply counted.segments.toggle _ (Or.inr rfl)
        have wasFree : state.area.writerFlags index = fipsBufFlagFree := by
          rw [← state.area.writerAssignment_of_lt hdr inside]
          exact free
        rw [wasFree]
        decide

theorem removeThread (counted : state.Counted hdr) {role : Role} {index : Nat}
    (attached : (role, index) ∈ state.threads) :
    (state.removeThread hdr role index).Counted hdr := by
  have parts := (counted.owned.threads role index).mp attached
  constructor
  case owned =>
    rw [removeThread_attachments]
    exact counted.owned.detach attached
  case assigned =>
    intro reader bound
    have step : attachStep hdr state.attachments (.detach role index) =
      some (state.removeThread hdr role index).attachments :=
        congrArg some (removeThread_attachments role index).symm
    exact Attachments.Assigned.step (counted.assigned reader bound) bound step
  case segments =>
    cases role with
    | reader reader =>
        have same := (SameOwners.republish hdr (state.area.setAssignment (hdr.slot reader index)
          .free)).writerFlags
        exact (show AssignmentArea.writerFlags _ = _ from same) ▸ counted.segments
    | writer =>
        have used : state.area.writerFlags index = fipsBufFlagInUse := by
          rw [← state.area.writerAssignment_of_lt hdr parts.2.1]
          exact parts.2.2
        have notTrailing : state.area.writerFlags index ≠ fipsBufFlagTrailing := by
          rw [used]
          decide
        have flags := AssignmentArea.detachWriter_flags counted.assigned parts.2.1
        show SegmentFlags hdr (fipsBufDetach hdr state.area .writer index).writerFlags
          (if state.area.AssignedToReader hdr index then index :: state.left else state.left)
        rw [flags]
        split
        · exact counted.segments.leave parts.2.1 notTrailing
        · exact counted.segments.toggle notTrailing (Or.inl rfl)

/-- Every safe call keeps the invariant. -/
theorem step (counted : state.Counted hdr) (permitted : state.Permitted hdr call)
    (safe : state.SafeCall hdr call) (taken : state.step hdr call = some next) :
    next.Counted hdr := by
  by_cases changes : call.ChangesThreads
  · cases call with
    | attach role =>
        rcases step_attach_cases counted.owned permitted safe taken with
          rfl | ⟨index, inside, free, rfl⟩
        · exact counted
        · exact counted.addThread permitted inside free
    | detach role threadIndex =>
        cases taken
        exact counted.removeThread permitted
    | _ => exact changes.elim
  · have same := step_quiet changes taken
    constructor
    · rw [same.1]
      exact counted.owned
    · rw [LogBuffer.area, same.1]
      exact counted.assigned
    · rw [LogBuffer.area, same.1, same.2]
      exact counted.segments

/-- The attached writers are the segments in use. -/
theorem writerCount_eq (counted : state.Counted hdr) :
    state.writerCount = (List.range hdr.segmentCount).countP fun segment =>
      decide (state.area.writerFlags segment = fipsBufFlagInUse) := by
  have writers : state.writerCount =
      ((state.threads.filter fun thread => decide (thread.1 = .writer)).map Prod.snd).length := by
    rw [List.length_map, ← List.countP_eq_length_filter]
    rfl
  rw [writers, List.countP_eq_length_filter]
  apply List.Perm.length_eq
  rw [List.perm_ext_iff_of_nodup _ (List.nodup_range.filter _)]
  · intro segment
    simp only [List.mem_map, List.mem_filter, List.mem_range, decide_eq_true_eq]
    constructor
    · rintro ⟨⟨role, index⟩, ⟨member, isWriter⟩, same⟩
      dsimp only at isWriter same
      subst isWriter same
      have parts := (counted.owned.threads .writer index).mp member
      refine ⟨parts.2.1, ?_⟩
      rw [← state.area.writerAssignment_of_lt hdr parts.2.1]
      exact parts.2.2
    · rintro ⟨inside, used⟩
      refine ⟨(.writer, segment), ⟨(counted.owned.threads .writer segment).mpr
        ⟨trivial, inside, ?_⟩, rfl⟩, rfl⟩
      rw [← state.area.writerAssignment_of_lt hdr inside] at used
      exact used
  · apply List.Nodup.map_on _ (counted.owned.nodup.filter _)
    rintro ⟨role, index⟩ member ⟨role', index'⟩ member' same
    have isWriter := (List.mem_filter.mp member).2
    have isWriter' := (List.mem_filter.mp member').2
    simp only [decide_eq_true_eq] at isWriter isWriter' same
    rw [isWriter, isWriter', same]

theorem exists_free_iff (counted : state.Counted hdr) :
    (∃ index < hdr.roleBound .writer, FreeSlot hdr state.area .writer index) ↔
      state.writerCount + state.left.length < hdr.segmentCount := by
  rw [counted.writerCount_eq, ← counted.segments.exists_free_iff]
  apply exists_congr
  intro index
  apply and_congr_right
  intro inside
  show state.area.writerAssignment hdr index = _ ↔ _
  rw [state.area.writerAssignment_of_lt hdr inside]

/-- A process has a thread exactly when a reader thread is attached. -/
theorem readers_iff (counted : state.Counted hdr) :
    (∃ reader < hdr.readerCount, 1 ≤ state.area.getReaderThreadCount hdr reader) ↔
      ∃ thread ∈ state.threads, thread.1 ≠ .writer := by
  constructor
  · rintro ⟨reader, exists_, positive⟩
    obtain ⟨thread, member, used⟩ := List.countP_pos_iff.mp positive
    have attached := (counted.owned.threads (.reader reader) thread).mpr
      ⟨exists_, List.mem_range.mp member, used⟩
    exact ⟨_, attached, by simp⟩
  · rintro ⟨⟨role, thread⟩, member, notWriter⟩
    cases role with
    | writer => exact absurd rfl notWriter
    | reader reader =>
        obtain ⟨exists_, inside, used⟩ := (counted.owned.threads (.reader reader) thread).mp member
        exact ⟨reader, exists_, List.countP_pos_iff.mpr ⟨thread, List.mem_range.mpr inside, used⟩⟩

/-- A writer that marks a free segment leaves flags that are listed inside the
array exactly when no segment is trailing or no reader thread is attached. -/
theorem occupySlot_fillsInside_iff (counted : state.Counted hdr) {index : Nat}
    (inside : index < hdr.segmentCount) (free : FreeSlot hdr state.area .writer index) :
    (occupySlot hdr state.area .writer index).FillsInside hdr ↔
      state.left = [] ∨ ∀ thread ∈ state.threads, thread.1 = .writer := by
  have marked : occupySlot hdr state.area .writer index =
      { state.area with
        writerFlags := Function.update state.area.writerFlags index fipsBufFlagInUse } :=
    state.area.setWriterAssignment_of_lt hdr fipsBufFlagInUse inside
  have wasFree : state.area.writerFlags index = fipsBufFlagFree := by
    rw [← state.area.writerAssignment_of_lt hdr inside]
    exact free
  have segments : SegmentFlags hdr (occupySlot hdr state.area .writer index).writerFlags
      state.left := by
    rw [marked]
    exact counted.segments.toggle (by rw [wasFree]; decide) (Or.inr rfl)
  have used : 1 ≤ (occupySlot hdr state.area .writer index).getWriterThreadCount hdr := by
    rw [marked]
    refine List.countP_pos_iff.mpr ⟨index, List.mem_range.mpr inside, ?_⟩
    rw [AssignmentArea.writerAssignment_of_lt hdr _ inside]
    show (Function.update state.area.writerFlags index fipsBufFlagInUse index == _) = true
    rw [Function.update_self]
    rfl
  rw [segments.fillsInside_iff used]
  apply or_congr_right
  have sameReaders : (∃ reader < hdr.readerCount,
      1 ≤ (occupySlot hdr state.area .writer index).getReaderThreadCount hdr reader) ↔
      ∃ reader < hdr.readerCount, 1 ≤ state.area.getReaderThreadCount hdr reader := by
    rw [marked]
    exact Iff.rfl
  rw [sameReaders, counted.readers_iff]
  simp only [not_exists, not_and, not_not]

end Counted

end LogBuffer

/-- In every state of every safe run whose calls store inside `active_writers`, a
writer that attaches gets a segment, without a store past that array, exactly
when the writers attached and the segments left to readers so far are fewer than
the segments, and no segment was left or no reader thread is attached.  It is
refused exactly when they are not fewer and the cell behind the flags is not
free. -/
theorem segments_reclaimed_run {hdr : Header} {area : AssignmentArea}
    (created : hdr.CreatedArea area) {data : Nat → Data} {calls : List LogCall} {last : LogBuffer}
    (run : Run (LogBuffer.step hdr)
      (fun state call =>
        state.Permitted hdr call ∧ state.SafeCall hdr call ∧ state.StaysInside hdr call)
      (.created hdr area data) calls last) :
    ((∃ index next, fipsBufAttach hdr last.area .writer = .ok (index, next) ∧
          index < hdr.segmentCount) ∧ AttachFillsInside hdr last.area .writer ↔
      last.writerCount + last.left.length < hdr.segmentCount ∧
        (last.left = [] ∨ ∀ thread ∈ last.threads, thread.1 = .writer)) ∧
    ((∃ code, fipsBufAttach hdr last.area .writer = .error code) ↔
      ¬last.writerCount + last.left.length < hdr.segmentCount ∧
        last.area.writerAssignment hdr hdr.segmentCount ≠ fipsBufFlagFree) := by
  have counted : last.Counted hdr :=
    run.invariant (fun _ _ _ counted guard taken => counted.step guard.1 guard.2.1 taken)
      (.created created data)
  rw [← counted.exists_free_iff]
  have writer : hdr.hasRole .writer := trivial
  unfold fipsBufAttach AttachFillsInside
  rcases claimSlot_cases counted.owned writer with ⟨index, inside, free, result⟩ | ⟨none, result⟩
  · have claimed : claimSlot hdr last.area .writer = _ := result
    rw [claimed]
    have listed := counted.occupySlot_fillsInside_iff inside free
    constructor
    · constructor
      · rintro ⟨_, fits⟩
        exact ⟨⟨index, inside, free⟩, listed.mp fits⟩
      · rintro ⟨_, alone⟩
        exact ⟨⟨index, _, rfl, inside⟩, listed.mpr alone⟩
    · constructor
      · rintro ⟨code, impossible⟩
        cases impossible
      · rintro ⟨full, _⟩
        exact absurd ⟨index, inside, free⟩ full
  · have noSlot : ¬∃ index < hdr.roleBound .writer, FreeSlot hdr last.area .writer index := by
      rintro ⟨index, inside, free⟩
      exact none index inside free
    by_cases behind : FreeSlot hdr last.area .writer (hdr.roleBound .writer)
    · have claimed : claimSlot hdr last.area .writer = .ok _ := result.trans (if_pos behind)
      rw [claimed]
      constructor
      · constructor
        · rintro ⟨⟨index, next, success, inside⟩, _⟩
          cases success
          exact absurd inside (Nat.lt_irrefl _)
        · rintro ⟨some_, _⟩
          exact absurd some_ noSlot
      · constructor
        · rintro ⟨code, impossible⟩
          cases impossible
        · rintro ⟨_, occupied⟩
          exact absurd behind occupied
    · have claimed : claimSlot hdr last.area .writer = .error _ := result.trans (if_neg behind)
      rw [claimed]
      constructor
      · constructor
        · rintro ⟨⟨index, next, success, inside⟩, _⟩
          cases success
        · rintro ⟨some_, _⟩
          exact absurd some_ noSlot
      · exact ⟨fun _ => ⟨noSlot, behind⟩, fun _ => ⟨_, rfl⟩⟩

instance (hdr : Header) (area : AssignmentArea) (role : Role) :
    Decidable (SafeAttach hdr area role) :=
  inferInstanceAs (Decidable ((∃ index < hdr.roleBound role, FreeSlot hdr area role index) ∨ ¬_))

instance (hdr : Header) (state : LogBuffer) (call : LogCall) :
    Decidable (state.Permitted hdr call) :=
  match call with
  | .attach role => inferInstanceAs (Decidable (hdr.hasRole role))
  | .detach role threadIndex => inferInstanceAs (Decidable ((role, threadIndex) ∈ state.threads))
  | .getWriteBuffer index _ => inferInstanceAs (Decidable ((Role.writer, index) ∈ state.threads))
  | .store index _ _ => inferInstanceAs (Decidable ((Role.writer, index) ∈ state.threads))
  | .write index _ => inferInstanceAs (Decidable ((Role.writer, index) ∈ state.threads))
  | .refresh reader thread =>
      inferInstanceAs (Decidable ((Role.reader reader, thread) ∈ state.threads))
  | .read reader thread _ =>
      inferInstanceAs (Decidable ((Role.reader reader, thread) ∈ state.threads))
  | .giveBack tag => inferInstanceAs (Decidable
      (tag.readerIndex < hdr.readerCount ∧ tag.segmentIndex < hdr.segmentCount))

instance (hdr : Header) (state : LogBuffer) (call : LogCall) :
    Decidable (state.SafeCall hdr call) :=
  match call with
  | .attach role => inferInstanceAs (Decidable (SafeAttach hdr state.area role))
  | .detach .. | .getWriteBuffer .. | .store .. | .write .. | .refresh .. | .read ..
  | .giveBack _ => inferInstanceAs (Decidable True)

instance (hdr : Header) (state : LogBuffer) (call : LogCall) :
    Decidable (state.StaysInside hdr call) :=
  match call with
  | .attach role => inferInstanceAs (Decidable (AttachFillsInside hdr state.area role))
  | .detach role threadIndex =>
      inferInstanceAs (Decidable (DetachFillsInside hdr state.area role threadIndex))
  | .getWriteBuffer .. | .store .. | .write .. | .refresh .. | .read .. | .giveBack _ =>
      inferInstanceAs (Decidable True)

/-- The thread is no reader thread, or it has found its cache empty. -/
def LogBuffer.foundEmpty (hdr : Header) (state : LogBuffer) : Role × Nat → Bool
  | (.writer, _) => true
  | (.reader reader, thread) => decide (hdr.slot reader thread ∈ state.idle)

instance (hdr : Header) (state : LogBuffer) : Decidable (state.Drained hdr) :=
  decidable_of_iff
    ((∀ segment < hdr.segmentCount, state.area.writerTrailing hdr segment = true →
      ∀ reader < hdr.readerCount, state.taken reader segment = state.committed segment ∧
        state.returned reader segment = state.committed segment) ∧
      ∀ thread ∈ state.threads, state.foundEmpty hdr thread = true)
    ⟨fun parts => ⟨parts.1, fun thread member reader isReader => by
        obtain ⟨role, index⟩ := thread
        cases isReader
        exact of_decide_eq_true (parts.2 _ member)⟩,
      fun drained => ⟨drained.read, fun thread member => by
        obtain ⟨role, index⟩ := thread
        cases role with
        | writer => rfl
        | reader reader => exact decide_eq_true (drained.empty _ member reader rfl)⟩⟩

/-- A buffer for two writer threads and one reader thread. -/
def twoWriterHeader : Header :=
  .ofFields 2 1 1 1 2 8 4 false (by decide)

/-- A reader and a writer attach; one line is written, read and returned; the
writer leaves, and the reader finds nothing more to read. -/
def drainedRun : List LogCall :=
  [.attach (.reader 0), .attach .writer, .getWriteBuffer 0 1, .write 0 [⟨2, 8⟩], .read 0 0 1,
    .giveBack ⟨0, 1, 0, 0⟩, .detach .writer 0, .read 0 0 1]

def zeroData : Nat → Data := fun _ _ => 0

/-- After the reader has left as well, the second segment is there for a writer. -/
theorem segments_reclaimed_run_reader_leaves : ∃ last,
    Run (LogBuffer.step twoWriterHeader)
      (fun state call => state.Permitted twoWriterHeader call ∧
        state.SafeCall twoWriterHeader call ∧ state.StaysInside twoWriterHeader call)
      (.created twoWriterHeader zeroArea zeroData) (drainedRun ++ [.detach (.reader 0) 0]) last ∧
    last.left = [0] ∧
    (∃ index next, fipsBufAttach twoWriterHeader last.area .writer = .ok (index, next) ∧
      index < twoWriterHeader.segmentCount) ∧
    AttachFillsInside twoWriterHeader last.area .writer := by
  have executes : (Run.exec (LogBuffer.step twoWriterHeader)
      (fun state call => state.Permitted twoWriterHeader call ∧
        state.SafeCall twoWriterHeader call ∧ state.StaysInside twoWriterHeader call)
      (.created twoWriterHeader zeroArea zeroData)
      (drainedRun ++ [.detach (.reader 0) 0])).any (fun last : LogBuffer =>
        decide (last.left = [0] ∧ last.threads = [])) = true := by
    decide +kernel
  rcases Run.of_exec_any executes with ⟨last, run, final⟩
  have parts := of_decide_eq_true final
  refine ⟨last, run, parts.1, ?_⟩
  apply (segments_reclaimed_run ⟨fun _ => rfl, fun _ _ => rfl⟩ run).1.mpr
  constructor
  · rw [LogBuffer.writerCount, parts.1, parts.2]
    decide
  · rw [parts.2]
    exact Or.inr fun _ none => absurd none List.not_mem_nil

/-- No segment comes back from its readers, although all lines are returned and the
reader thread is idle.  The only segment of a buffer stays trailing, and the next
writer is handed the cell behind the flags.  In a buffer with two segments the
next writer's attach stores past the end of `active_writers`. -/
theorem segments_reclaimed_fails_drained :
    (∃ last, Run (LogBuffer.step oneSegment)
        (fun state call => state.Permitted oneSegment call ∧
          state.SafeCall oneSegment call ∧ state.StaysInside oneSegment call)
        (.created oneSegment zeroArea zeroData) drainedRun last ∧
      oneSegment.CreatedArea zeroArea ∧
      last.writerCount ≤ oneSegment.segmentCount - 1 ∧ last.Drained oneSegment ∧
      last.committed 0 = 1 ∧
      (∃ next, fipsBufAttach oneSegment last.area .writer = .ok (1, next)) ∧
      oneSegment.segmentCount = 1) ∧
    ∃ last, Run (LogBuffer.step twoWriterHeader)
        (fun state call => state.Permitted twoWriterHeader call ∧
          state.SafeCall twoWriterHeader call ∧ state.StaysInside twoWriterHeader call)
        (.created twoWriterHeader zeroArea zeroData) drainedRun last ∧
      twoWriterHeader.CreatedArea zeroArea ∧
      last.writerCount ≤ twoWriterHeader.segmentCount - 1 ∧ last.Drained twoWriterHeader ∧
      last.committed 0 = 1 ∧ ¬AttachFillsInside twoWriterHeader last.area .writer := by
  constructor
  · have executes : (Run.exec (LogBuffer.step oneSegment)
        (fun state call => state.Permitted oneSegment call ∧
          state.SafeCall oneSegment call ∧ state.StaysInside oneSegment call)
        (.created oneSegment zeroArea zeroData) drainedRun).any (fun last : LogBuffer =>
          decide (last.writerCount ≤ oneSegment.segmentCount - 1 ∧ last.Drained oneSegment ∧
            last.committed 0 = 1) &&
          decide ((fipsBufAttach oneSegment last.area .writer).toOption.map Prod.fst =
            some 1)) = true := by
      decide +kernel
    rcases Run.of_exec_any executes with ⟨last, run, final⟩
    simp only [Bool.and_eq_true, decide_eq_true_eq] at final
    rcases final with ⟨⟨writers, drained, line⟩, handed⟩
    refine ⟨last, run, ⟨fun _ => rfl, fun _ _ => rfl⟩, writers, drained, line, ?_, rfl⟩
    cases attached : fipsBufAttach oneSegment last.area .writer with
    | error code =>
        rw [attached] at handed
        cases handed
    | ok result =>
        rw [attached] at handed
        obtain ⟨index, next⟩ := result
        cases handed
        exact ⟨next, rfl⟩
  · have executes : (Run.exec (LogBuffer.step twoWriterHeader)
        (fun state call => state.Permitted twoWriterHeader call ∧
          state.SafeCall twoWriterHeader call ∧ state.StaysInside twoWriterHeader call)
        (.created twoWriterHeader zeroArea zeroData) drainedRun).any (fun last : LogBuffer =>
          decide (last.writerCount ≤ twoWriterHeader.segmentCount - 1 ∧
            last.Drained twoWriterHeader ∧ last.committed 0 = 1 ∧
            ¬AttachFillsInside twoWriterHeader last.area .writer)) = true := by
      decide +kernel
    rcases Run.of_exec_any executes with ⟨last, run, final⟩
    rcases of_decide_eq_true final with ⟨writers, drained, line, overruns⟩
    exact ⟨last, run, ⟨fun _ => rfl, fun _ _ => rfl⟩, writers, drained, line, overruns⟩

end FipsIpc.FipsBuf
