import FipsIpc.FipsBuf.Removal

/-!
Contract: what every run of calls keeps, and what a call finds there.

Owns: that offsets stay slot numbers and caches stay lists of segments over runs
of all calls with batches of every size, removals included; the trailing
segments a read gives up with lines left; and batches as large as the ring.

A segment is given up when it has too few lines for the batch, not when it has
none.  A batch of as many lines as the ring or more is reduced by the mask
before it is tested, so that it counts for less than it is.

Does not own: runs in which an attach overruns its table.
-/

set_option autoImplicit false

namespace FipsIpc.FipsBuf

open FipsIpc.Lib

/-! ### Offsets -/

theorem Header.wrapLine_lt (hdr : Header) (index : Nat) : hdr.wrapLine index < hdr.lineCount := by
  rw [hdr.wrapLine_eq_mod]
  exact Nat.mod_lt _ hdr.lineCount_pos

section Offsets

variable {hdr : Header}

/-- Both offsets of a reader are slot numbers. -/
structure ReaderPointer.WithinRing (hdr : Header) (reader : ReaderPointer) : Prop where
  head : reader.headOffset < hdr.lineCount
  commit : reader.commitOffset < hdr.lineCount

theorem Segment.WithinRing.reader {segment : Segment} (within : segment.WithinRing hdr)
    (reader : Nat) : (segment.readers reader).WithinRing hdr :=
  ⟨within.readerHead reader, within.readerCommit reader⟩

theorem Segment.WithinRing.setReader {segment : Segment} (within : segment.WithinRing hdr)
    {index : Nat} {reader : ReaderPointer} (inside : reader.WithinRing hdr) :
    { segment with readers := Function.update segment.readers index reader }.WithinRing hdr := by
  refine ⟨within.head, within.commit, ?_, ?_⟩
  all_goals
    intro other
    dsimp only
    by_cases same : other = index
    · subst same
      rw [Function.update_self]
      first
        | exact inside.head
        | exact inside.commit
    · rw [Function.update_of_ne same]
      first
        | exact within.readerHead other
        | exact within.readerCommit other

namespace ReaderPointer.WithinRing

variable {reader : ReaderPointer}

theorem mergeSqe (inside : reader.WithinRing hdr) (current : Nat) :
    (FipsBuf.mergeSqe hdr reader current).WithinRing hdr :=
  ⟨inside.head, hdr.wrapLine_lt _⟩

theorem drainSqe {fuel : Nat} {drained : ReaderPointer} (inside : reader.WithinRing hdr)
    (result : FipsBuf.drainSqe hdr fuel reader = some drained) : drained.WithinRing hdr := by
  induction fuel generalizing reader with
  | zero => cases result
  | succ fuel inductionHypothesis =>
      unfold FipsBuf.drainSqe at result
      split at result
      · cases result
        exact inside
      · split at result
        · exact inductionHypothesis (inside.mergeSqe _) result
        · cases result
          exact inside

theorem enqueueSqe {tag : Range} {queued : ReaderPointer} (inside : reader.WithinRing hdr)
    (result : FipsBuf.enqueueSqe reader tag = some (.ok queued)) : queued.WithinRing hdr := by
  unfold FipsBuf.enqueueSqe at result
  dsimp only at result
  split at result
  · cases result
  · split at result
    · cases result
    · split at result
      · cases result
        exact ⟨inside.head, inside.commit⟩
      · rcases Option.map_eq_some_iff.mp result with ⟨list, -, same⟩
        cases same
        exact ⟨inside.head, inside.commit⟩

theorem fipsBufListAddSqe {tag : Range} {code : Int} {next : ReaderPointer}
    (inside : reader.WithinRing hdr)
    (result : FipsBuf.fipsBufListAddSqe hdr reader tag = some (code, next)) :
    next.WithinRing hdr := by
  rcases Option.bind_eq_some_iff.mp result with ⟨accepted, accept, rest⟩
  cases accepted with
  | error refused =>
      cases rest
      exact inside
  | ok queued =>
      rcases Option.map_eq_some_iff.mp rest with ⟨drained, drain, same⟩
      cases same
      have queuedInside : queued.WithinRing hdr := by
        unfold acceptRange at accept
        split at accept
        · cases accept
          exact ⟨inside.head, hdr.wrapLine_lt _⟩
        · exact inside.enqueueSqe accept
      exact queuedInside.drainSqe drain

end ReaderPointer.WithinRing

theorem Segment.WithinRing.created (hdr : Header) (data : Data) :
    (Segment.created hdr data).WithinRing hdr :=
  ⟨hdr.lineCount_pos, hdr.lineCount_pos, fun _ => hdr.lineCount_pos, fun _ => hdr.lineCount_pos⟩

theorem Segment.WithinRing.takeLines {segment : Segment} (within : segment.WithinRing hdr)
    (index reader iovcnt : Nat) :
    (FipsBuf.takeLines hdr segment index reader iovcnt).2.2.WithinRing hdr :=
  within.setReader ⟨hdr.wrapLine_lt _, within.readerCommit reader⟩

theorem Segment.WithinRing.fipsGetWriteBuffer {segment reserved : Segment}
    (within : segment.WithinRing hdr) {iovcnt : Nat} {iov : List Iovec}
    (result : FipsBuf.fipsGetWriteBuffer hdr segment iovcnt = .ok (iov, reserved)) :
    reserved.WithinRing hdr := by
  rw [fipsGetWriteBuffer_eq] at result
  split at result
  · cases result
  · cases result
    exact ⟨hdr.wrapLine_lt _, within.commit, within.readerHead, within.readerCommit⟩

theorem Segment.WithinRing.fipsBufWrite {segment : Segment} (within : segment.WithinRing hdr)
    (iov : List Iovec) : (FipsBuf.fipsBufWrite hdr segment iov).2.WithinRing hdr := by
  unfold FipsBuf.fipsBufWrite
  dsimp only
  split
  · exact ⟨within.head, within.commit, within.readerHead, within.readerCommit⟩
  · exact ⟨within.head, hdr.wrapLine_lt _, within.readerHead, within.readerCommit⟩

theorem withinRing_update {segments : Nat → Segment}
    (within : ∀ index, (segments index).WithinRing hdr) {index : Nat} {segment : Segment}
    (inside : segment.WithinRing hdr) (other : Nat) :
    (Function.update segments index segment other).WithinRing hdr := by
  by_cases same : other = index
  · subst same
    rw [Function.update_self]
    exact inside
  · rw [Function.update_of_ne same]
    exact within other

theorem readLoop_withinRing {segments : Nat → Segment} {iovcnt cachedCount tries : Nat}
    {thread : ReaderThread} {outcome : ReadOutcome}
    (within : ∀ index, (segments index).WithinRing hdr)
    (result : readLoop hdr segments iovcnt cachedCount tries thread = some outcome) (index : Nat) :
    (outcome.segments index).WithinRing hdr := by
  induction tries generalizing thread with
  | zero =>
      cases result
      exact within index
  | succ tries inductionHypothesis =>
      rcases Option.bind_eq_some_iff.mp result with ⟨visited, -, rest⟩
      dsimp only at rest
      split at rest
      · rcases Option.bind_eq_some_iff.mp rest with ⟨cache, -, later⟩
        exact inductionHypothesis later
      · cases rest
        exact withinRing_update within ((within visited).takeLines _ _ _) index

theorem fipsBufRead_withinRing {area : AssignmentArea} {segments : Nat → Segment}
    {thread : ReaderThread} {iovcnt : Nat} {flags : Int} {outcome : ReadOutcome}
    (within : ∀ index, (segments index).WithinRing hdr)
    (result : fipsBufRead hdr area segments thread iovcnt flags = some outcome) (index : Nat) :
    (outcome.segments index).WithinRing hdr := by
  unfold fipsBufRead at result
  split at result
  · cases result
    exact within index
  · rcases Option.bind_eq_some_iff.mp result with ⟨⟨code, cache⟩, -, refreshed⟩
    dsimp only at refreshed
    split at refreshed
    · cases refreshed
      exact within index
    · exact readLoop_withinRing within refreshed index

theorem fipsBufReturn_withinRing {segments next : Nat → Segment} {tag : Range} {code : Int}
    (within : ∀ index, (segments index).WithinRing hdr)
    (result : fipsBufReturn hdr segments tag = some (code, next)) (index : Nat) :
    (next index).WithinRing hdr := by
  rcases Option.map_eq_some_iff.mp result with ⟨⟨code, reader⟩, added, same⟩
  cases same
  have own := within tag.segmentIndex
  exact withinRing_update within
    (own.setReader ((own.reader tag.readerIndex).fipsBufListAddSqe added)) index

end Offsets

/-! ### Caches -/

/-- The cache is a list of different segments, assigned and then trailing. -/
structure ReaderCache.Keeps (hdr : Header) (assigned trailing : List Nat) (cache : ReaderCache) :
    Prop where
  holds : cache.Holds hdr assigned trailing
  distinct : (assigned ++ trailing).Nodup
  inside : ∀ segment ∈ assigned ++ trailing, segment < hdr.segmentCount

theorem ReaderCache.Lists.keeps {hdr : Header} {assigned trailing : List Nat} {cache : ReaderCache}
    (lists : cache.Lists hdr assigned trailing) : cache.Keeps hdr assigned trailing where
  holds := by
    have room := length_le_segmentCount lists.distinct lists.inside
    refine ⟨?_, ?_, lists.assignedReaderCount, lists.trailingBuffersCount⟩
    · rw [lists.currentSegment, fillCache, List.length_append, List.length_map,
        List.length_replicate]
      exact Nat.add_sub_cancel' room
    · rw [lists.currentSegment]
      exact List.prefix_append _ _
  distinct := lists.distinct
  inside := lists.inside

namespace ReaderCache.Keeps

variable {hdr : Header} {area : AssignmentArea} {assigned trailing : List Nat} {cache : ReaderCache}

/-- The same entries in an array that is null behind them. -/
theorem lists (keeps : cache.Keeps hdr assigned trailing) :
    ({ cache with currentSegment := fillCache hdr (assigned ++ trailing) } : ReaderCache).Lists hdr
      assigned trailing :=
  ⟨rfl, keeps.holds.assignedReaderCount, keeps.holds.trailingBuffersCount, keeps.distinct,
    keeps.inside⟩

/-- A refresh reads only the entries in use. -/
theorem update_eq (keeps : cache.Keeps hdr assigned trailing) (slot : Nat) :
    updateCachedReaderValues hdr area (some slot) cache =
      updateCachedReaderValues hdr area (some slot)
        { cache with currentSegment := fillCache hdr (assigned ++ trailing) } := by
  have entries : trailingEntries hdr area cache = trailingEntries hdr area
      { cache with currentSegment := fillCache hdr (assigned ++ trailing) } := by
    rw [keeps.lists.trailingEntries_eq, trailingEntries]
    have used := keeps.holds.entries_eq
    unfold ReaderCache.entries at used
    rw [used, mapM_id_map_some]
    rfl
  unfold updateCachedReaderValues
  dsimp only
  rw [entries]

theorem refresh (keeps : cache.Keeps hdr assigned trailing) {slot : Nat}
    (scans : area.SlotScans hdr slot) :
    ∃ next resolved kept, updateCachedReaderValues hdr area (some slot) cache =
        some (fipsBufSuccess, next) ∧ next.Keeps hdr resolved kept := by
  rcases keeps.lists.refresh scans with ⟨next, updated, nextLists, -⟩
  refine ⟨next, _, _, ?_, nextLists.keeps⟩
  rw [keeps.update_eq]
  exact updated

theorem sublist (keeps : cache.Keeps hdr assigned trailing) {next : ReaderCache}
    {later : List Nat} (holds : next.Holds hdr assigned later) (fewer : later.Sublist trailing) :
    next.Keeps hdr assigned later where
  holds := holds
  distinct := keeps.distinct.sublist (fewer.append_left assigned)
  inside segment member := keeps.inside segment ((fewer.append_left assigned).subset member)

end ReaderCache.Keeps

/-- The argument of an attached thread, after any number of calls. -/
structure ReaderThread.Caching (hdr : Header) (reader slot : Nat) (thread : ReaderThread) :
    Prop where
  slot_eq : thread.slot = some slot
  readerIndex_eq : thread.readerIndex = reader
  keeps : ∃ assigned trailing, thread.cache.Keeps hdr assigned trailing

namespace ReaderThread.Caching

variable {hdr : Header} {reader slot : Nat} {thread : ReaderThread} {area : AssignmentArea}

theorem of_attached (attached : thread.Attached hdr reader slot) :
    thread.Caching hdr reader slot := by
  rcases attached.lists with ⟨assigned, trailing, lists⟩
  exact ⟨attached.slot_eq, attached.readerIndex_eq, assigned, trailing, lists.keeps⟩

/-- The refresh at the start of a read. -/
theorem refreshCache (caching : thread.Caching hdr reader slot)
    (scans : area.SlotScans hdr slot) :
    ∃ cache assigned trailing,
      FipsBuf.refreshCache hdr area thread = some (fipsBufSuccess, cache) ∧
      cache.Keeps hdr assigned trailing := by
  rcases caching.keeps with ⟨assigned, trailing, keeps⟩
  unfold FipsBuf.refreshCache
  split
  · rw [caching.slot_eq]
    exact keeps.refresh scans
  · exact ⟨thread.cache, assigned, trailing, rfl, keeps⟩

/-- A read keeps the cache a list, also when it removes entries. -/
theorem read (caching : thread.Caching hdr reader slot) (scans : area.SlotScans hdr slot)
    {segments : Nat → Segment} (within : ∀ index, (segments index).WithinRing hdr) {iovcnt : Nat}
    {outcome : ReadOutcome}
    (result : fipsBufRead hdr area segments thread iovcnt 0 = some outcome) :
    outcome.thread.Caching hdr reader slot := by
  have same := fipsBufRead_thread result
  refine ⟨same.1.trans caching.slot_eq, same.2.trans caching.readerIndex_eq, ?_⟩
  rcases caching.refreshCache scans with ⟨cache, assigned, trailing, refreshed, keeps⟩
  cases keeps.holds.readPass refreshed within iovcnt with
  | empty inside order placed short passes returns holds =>
      rw [result] at returns
      cases returns
      exact ⟨assigned, [], keeps.sublist holds (List.nil_sublist _)⟩
  | leaves outside order placed short passes visits position moved returns =>
      rcases returns outcome result with ⟨-, later, fewer, nextHolds⟩
      exact ⟨assigned, later, keeps.sublist nextHolds fewer⟩
  | ready order placed short enough passes visits inRange moved returns success fewer holds =>
      rw [result] at returns
      cases returns
      exact ⟨assigned, _, keeps.sublist holds fewer⟩

end ReaderThread.Caching

/-! ### Runs -/

namespace LogBuffer

variable {hdr : Header} {state next : LogBuffer} {call : LogCall}

/-- What every call keeps: the flags in order, the caches of attached threads
lists of segments, and all offsets inside the ring. -/
structure Upkept (hdr : Header) (state : LogBuffer) : Prop where
  counted : state.Counted hdr
  caching : ∀ process thread, (Role.reader process, thread) ∈ state.threads →
    (state.readers (hdr.slot process thread)).Caching hdr process (hdr.slot process thread)
  within : ∀ index, (state.segments index).WithinRing hdr

namespace Upkept

theorem created {area : AssignmentArea} (created : hdr.CreatedArea area) (data : Nat → Data) :
    (LogBuffer.created hdr area data).Upkept hdr where
  counted := .created created data
  caching _ _ absent := absurd absent List.not_mem_nil
  within index := .created hdr (data index)

theorem slotScans (upkept : state.Upkept hdr) {process thread : Nat}
    (member : (Role.reader process, thread) ∈ state.threads) :
    state.area.SlotScans hdr (hdr.slot process thread) := by
  have parts := (upkept.counted.owned.threads _ _).mp member
  exact (upkept.counted.assigned process parts.1).slotScans parts.2.1 parts.2.2

/-- A call that leaves threads and caches alone. -/
theorem quiet (upkept : state.Upkept hdr) (counted : next.Counted hdr)
    (attachments : next.attachments = state.attachments) (readers : next.readers = state.readers)
    (within : ∀ index, (next.segments index).WithinRing hdr) : next.Upkept hdr where
  counted := counted
  caching process thread member := by
    rw [LogBuffer.threads, attachments] at member
    rw [readers]
    exact upkept.caching process thread member
  within := within

/-- A call by one reader thread. -/
theorem setReader (upkept : state.Upkept hdr) (counted : next.Counted hdr)
    {process thread : Nat} (member : (Role.reader process, thread) ∈ state.threads)
    {after : ReaderThread} (attachments : next.attachments = state.attachments)
    (readers : next.readers = Function.update state.readers (hdr.slot process thread) after)
    (caching : after.Caching hdr process (hdr.slot process thread))
    (within : ∀ index, (next.segments index).WithinRing hdr) : next.Upkept hdr where
  counted := counted
  caching process' thread' member' := by
    rw [LogBuffer.threads, attachments] at member'
    rw [readers]
    by_cases same : hdr.slot process' thread' = hdr.slot process thread
    · have inside := ((upkept.counted.owned.threads _ _).mp member).2.1
      have inside' := ((upkept.counted.owned.threads _ _).mp member').2.1
      rcases hdr.slot_injective inside' inside same with ⟨rfl, rfl⟩
      rw [Function.update_self]
      exact caching
    · rw [Function.update_of_ne same]
      exact upkept.caching process' thread' member'
  within := within

theorem addThread (upkept : state.Upkept hdr) {role : Role} {index : Nat}
    (exists_ : hdr.hasRole role) (inside : index < hdr.roleBound role)
    (free : FreeSlot hdr state.area role index) :
    (state.addThread hdr role index
      ((occupySlot hdr state.area role index).republish hdr)).Upkept hdr := by
  refine ⟨upkept.counted.addThread exists_ inside free, fun process thread member => ?_, ?_⟩
  · rw [addThread_threads] at member
    by_cases before : (Role.reader process, thread) ∈ state.threads
    · rw [upkept.counted.addThread_readers inside free before]
      exact upkept.caching process thread before
    · rcases List.mem_cons.mp member with new | old
      · cases new
        show ReaderThread.Caching hdr process _
          (Function.update state.readers _ (.attached hdr process _) _)
        rw [Function.update_self]
        exact .of_attached (.new hdr process _)
      · exact absurd old before
  · intro other
    cases role <;> exact upkept.within other

theorem removeThread (upkept : state.Upkept hdr) {role : Role} {index : Nat}
    (member : (role, index) ∈ state.threads) : (state.removeThread hdr role index).Upkept hdr := by
  refine ⟨upkept.counted.removeThread member, fun process thread member' => ?_, ?_⟩
  · rw [removeThread_threads] at member'
    have readers : (state.removeThread hdr role index).readers = state.readers := by
      cases role <;> rfl
    rw [readers]
    exact upkept.caching process thread (List.mem_of_mem_erase member')
  · intro other
    cases role <;> exact upkept.within other

theorem read (upkept : state.Upkept hdr) (counted : next.Counted hdr)
    {process thread iovcnt : Nat} (member : (Role.reader process, thread) ∈ state.threads)
    (taken : state.step hdr (.read process thread iovcnt) = some next) : next.Upkept hdr := by
  rcases Option.map_eq_some_iff.mp taken with ⟨outcome, returns, rfl⟩
  have caching := (upkept.caching process thread member).read (upkept.slotScans member)
    upkept.within returns
  have within := fipsBufRead_withinRing upkept.within returns
  unfold LogBuffer.recordRead at counted ⊢
  dsimp only at counted ⊢
  split at counted
  · exact upkept.setReader counted member rfl rfl caching within
  · exact upkept.setReader counted member rfl rfl caching within

theorem refresh (upkept : state.Upkept hdr) (counted : next.Counted hdr)
    {process thread : Nat} (member : (Role.reader process, thread) ∈ state.threads)
    (taken : state.step hdr (.refresh process thread) = some next) : next.Upkept hdr := by
  have caching := upkept.caching process thread member
  rcases caching.keeps with ⟨assigned, trailing, keeps⟩
  rcases keeps.refresh (upkept.slotScans member) with ⟨cache, resolved, kept, updated, nextKeeps⟩
  rcases Option.map_eq_some_iff.mp taken with ⟨result, returns, rfl⟩
  rw [caching.slot_eq, updated] at returns
  cases returns
  exact upkept.setReader counted member rfl rfl
    ⟨caching.slot_eq, caching.readerIndex_eq, resolved, kept, nextKeeps⟩ upkept.within

/-- Every call keeps the invariant. -/
theorem step (upkept : state.Upkept hdr) (permitted : state.Permitted hdr call)
    (safe : state.SafeCall hdr call) (taken : state.step hdr call = some next) :
    next.Upkept hdr := by
  have counted := upkept.counted.step permitted safe taken
  cases call with
  | attach role =>
      rcases step_attach_cases upkept.counted.owned permitted safe taken with
        rfl | ⟨index, inside, free, rfl⟩
      · exact upkept
      · exact upkept.addThread permitted inside free
  | detach role threadIndex =>
      cases taken
      exact upkept.removeThread permitted
  | getWriteBuffer index iovcnt =>
      simp only [LogBuffer.step] at taken
      split at taken
      case h_1 iov segment reserved =>
        cases taken
        exact upkept.quiet counted rfl rfl (withinRing_update upkept.within
          ((upkept.within index).fipsGetWriteBuffer reserved))
      case h_2 =>
        cases taken
        exact upkept
  | store index address byte =>
      cases taken
      have own := upkept.within index
      exact upkept.quiet counted rfl rfl (withinRing_update upkept.within
        ⟨own.head, own.commit, own.readerHead, own.readerCommit⟩)
  | write index iov =>
      cases taken
      exact upkept.quiet counted rfl rfl (withinRing_update upkept.within
        ((upkept.within index).fipsBufWrite iov))
  | refresh process thread => exact upkept.refresh counted permitted taken
  | read process thread iovcnt => exact upkept.read counted permitted taken
  | giveBack tag =>
      rcases Option.map_eq_some_iff.mp taken with ⟨result, returns, rfl⟩
      exact upkept.quiet counted rfl rfl (fipsBufReturn_withinRing upkept.within returns)

end Upkept

end LogBuffer

/-! ### Trailing segments that are given up -/

/-- Every trailing entry that a call removes is of a segment the process has
read to the end.  (Where `memmove` gets a negative length the call does not get
as far.) -/
def RemovesOnlyDrained (hdr : Header) (area : AssignmentArea) (segments : Nat → Segment)
    (thread : ReaderThread) (iovcnt : Nat) : Prop :=
  ∀ visit ∈ readVisits hdr area segments thread iovcnt, ∀ count ∈ visit.moved, 0 ≤ count →
    ∀ index ∈ visit.entry,
      ((segments index).readers thread.readerIndex).headOffset = (segments index).commitOffset

/-- No trailing segment with unread lines, but fewer than the batch counts for,
stands on the way to the first segment that has enough. -/
def NoRestPassed (hdr : Header) (segments : Nat → Segment) (reader iovcnt : Nat)
    (assigned trailing : List Nat) (rotation : Nat) : Prop :=
  ∀ before index after, visitOrder assigned trailing rotation = before ++ index :: after →
    (∀ other ∈ before, (segments other).Short hdr reader iovcnt) → index ∈ trailing →
      (segments index).Short hdr reader iovcnt → (segments index).unreadLines hdr reader = 0

theorem Segment.WithinRing.unreadLines_eq_zero {hdr : Header} {segment : Segment}
    (within : segment.WithinRing hdr) (reader : Nat) :
    segment.unreadLines hdr reader = 0 ↔
      (segment.readers reader).headOffset = segment.commitOffset := by
  have leads := add_distance_mod (within.readerHead reader) within.commit
  unfold Segment.unreadLines
  constructor
  · intro none
    rw [none, Nat.add_zero, Nat.mod_eq_of_lt (within.readerHead reader)] at leads
    exact leads
  · intro same
    rw [same, Nat.add_sub_cancel_left, Nat.mod_self]

/-- Where two lists of the same entries are split at the first entry without a
property and at an entry with it, the second split comes first. -/
theorem mem_before_first {α : Type} {property : α → Prop} {before after before' after' : List α}
    {entry first : α} (same : before ++ entry :: after = before' ++ first :: after')
    (all : ∀ other ∈ before, property other) (here : property entry) (fails : ¬property first) :
    entry ∈ before' := by
  rcases List.append_eq_append_iff.mp same with ⟨middle, rfl, rest⟩ | ⟨middle, rfl, rest⟩
  · cases middle with
    | nil =>
        cases rest
        exact absurd here fails
    | cons head tail =>
        cases rest
        exact List.mem_append_right _ List.mem_cons_self
  · cases middle with
    | nil =>
        cases rest
        exact absurd here fails
    | cons head tail =>
        cases rest
        exact absurd (all _ (List.mem_append_right _ List.mem_cons_self)) fails

namespace ReaderCache.Keeps

variable {hdr : Header} {area : AssignmentArea} {segments : Nat → Segment}
  {thread : ReaderThread} {assigned trailing : List Nat} {iovcnt : Nat} {cache : ReaderCache}

/-- A removal is a visit among the first places of the pass, at a trailing
entry. -/
theorem drained_of_noRest {places : List (Nat × Nat)} {made : List Visit} {rest : List Nat}
    (within : ∀ index, (segments index).WithinRing hdr)
    (order : visitOrder assigned trailing thread.rotation = places.map Prod.fst ++ rest)
    (placed : PlacedIn assigned trailing places)
    (short : ∀ place ∈ places, (segments place.1).Short hdr thread.readerIndex iovcnt)
    (passes : List.Forall₂ (Visit.Passes assigned.length) made places)
    (noRest : NoRestPassed hdr segments thread.readerIndex iovcnt assigned trailing
      thread.rotation) {visit : Visit} (member : visit ∈ made) {count : Int}
    (moved : count ∈ visit.moved) {index : Nat} (entry : index ∈ visit.entry) :
    ((segments index).readers thread.readerIndex).headOffset = (segments index).commitOffset := by
  rcases passes_of_mem passes member with ⟨place, found, parts⟩
  have here : place.1 = index := Option.some.inj (parts.entry_eq.symm.trans entry)
  have late := parts.moved.mp (Option.isSome_of_mem moved)
  rcases List.append_of_mem found with ⟨before, after, rfl⟩
  have split : visitOrder assigned trailing thread.rotation =
      before.map Prod.fst ++ place.1 :: (after.map Prod.fst ++ rest) := by
    rw [order, List.map_append, List.map_cons, List.append_assoc, List.cons_append]
  rw [← here]
  apply ((within place.1).unreadLines_eq_zero thread.readerIndex).mp
  refine noRest _ _ _ split ?_ ((placed place found).2 late) (short place found)
  intro other earlier
  rcases List.mem_map.mp earlier with ⟨previous, listed, rfl⟩
  exact short previous (List.mem_append_left _ listed)

/-- A trailing entry among the first places of the pass is removed. -/
theorem unread_of_removes {places : List (Nat × Nat)} {made : List Visit}
    (keeps : cache.Keeps hdr assigned trailing)
    (within : ∀ index, (segments index).WithinRing hdr)
    (placed : PlacedIn assigned trailing places)
    (passes : List.Forall₂ (Visit.Passes assigned.length) made places)
    (part : ∀ visit ∈ made, visit ∈ readVisits hdr area segments thread iovcnt)
    (removes : RemovesOnlyDrained hdr area segments thread iovcnt) {index : Nat}
    (visited : index ∈ places.map Prod.fst) (isTrailing : index ∈ trailing) :
    (segments index).unreadLines hdr thread.readerIndex = 0 := by
  rcases List.mem_map.mp visited with ⟨place, found, rfl⟩
  rcases passes_at passes found with ⟨visit, member, parts⟩
  have late : assigned.length ≤ place.2 := by
    apply Nat.not_lt.mp
    intro early
    exact (List.nodup_append.mp keeps.distinct).2.2 _ ((placed place found).1 early) _ isTrailing
      rfl
  rcases Option.isSome_iff_exists.mp (parts.moved.mpr late) with ⟨count, moved⟩
  apply ((within place.1).unreadLines_eq_zero thread.readerIndex).mpr
  exact removes visit (part visit member) count moved (parts.inRange.moved count moved) place.1
    parts.entry_eq

/-- Exactly which reads give up only segments that are read to the end. -/
theorem removesOnlyDrained_iff (keeps : cache.Keeps hdr assigned trailing)
    (refreshed : refreshCache hdr area thread = some (fipsBufSuccess, cache))
    (within : ∀ index, (segments index).WithinRing hdr) (iovcnt : Nat) :
    RemovesOnlyDrained hdr area segments thread iovcnt ↔
      NoRestPassed hdr segments thread.readerIndex iovcnt assigned trailing thread.rotation := by
  cases keeps.holds.readPass refreshed within iovcnt with
  | @empty places next inside order placed short passes result holds =>
      constructor
      · intro removes before index after split _ isTrailing _
        apply keeps.unread_of_removes within placed passes (fun _ member => member) removes _
          isTrailing
        rw [order, split]
        exact List.mem_append_right _ List.mem_cons_self
      · intro noRest visit member count moved _ index entry
        exact drained_of_noRest within (order.symm.trans (List.append_nil _).symm) placed short
          passes noRest member moved entry
  | @leaves places made last outside order placed short passes visits position negative holds =>
      constructor
      · intro removes before index after split _ isTrailing _
        apply keeps.unread_of_removes within placed passes _ removes _ isTrailing
        · intro visit member
          rw [visits]
          exact List.mem_append_left _ member
        · rw [order, split]
          exact List.mem_append_right _ List.mem_cons_self
      · intro noRest visit member count moved nonneg index entry
        rw [visits] at member
        rcases List.mem_append.mp member with earlier | isLast
        · exact drained_of_noRest within (order.symm.trans (List.append_nil _).symm) placed short
            passes noRest earlier moved entry
        · rw [List.mem_singleton.mp isLast] at moved
          exact absurd nonneg (Int.not_le.mpr (negative count moved))
  | @ready places first after' later made last outcome order placed short enough passes visits
      inRange unmoved result success fewer holds =>
      constructor
      · intro removes before index after split allShort isTrailing shortHere
        apply keeps.unread_of_removes within placed passes _ removes _ isTrailing
        · intro visit member
          rw [visits]
          exact List.mem_append_left _ member
        · exact mem_before_first (split.symm.trans order.symm) allShort shortHere enough
      · intro noRest visit member count moved _ index entry
        rw [visits] at member
        rcases List.mem_append.mp member with earlier | isLast
        · exact drained_of_noRest within order.symm placed short passes noRest earlier moved entry
        · rw [List.mem_singleton.mp isLast, unmoved] at moved
          cases moved

end ReaderCache.Keeps

/-- In every state that a run of calls reaches, a read by an attached thread
gives up only segments that are read to the end exactly when no trailing segment
with a rest stands on its way. -/
theorem trailing_removed_run {hdr : Header} {area : AssignmentArea}
    (created : hdr.CreatedArea area) {data : Nat → Data} {calls : List LogCall} {last : LogBuffer}
    (run : Run (LogBuffer.step hdr)
      (fun state call => state.Permitted hdr call ∧ state.SafeCall hdr call)
      (.created hdr area data) calls last) {reader thread : Nat}
    (member : (Role.reader reader, thread) ∈ last.threads) :
    ∃ cache assigned trailing,
      refreshCache hdr last.area (last.readers (hdr.slot reader thread)) =
        some (fipsBufSuccess, cache) ∧
      cache.Keeps hdr assigned trailing ∧
      ∀ iovcnt, RemovesOnlyDrained hdr last.area last.segments
          (last.readers (hdr.slot reader thread)) iovcnt ↔
        NoRestPassed hdr last.segments reader iovcnt assigned trailing
          (last.readers (hdr.slot reader thread)).rotation := by
  have upkept : last.Upkept hdr :=
    run.invariant (fun _ _ _ upkept guard taken => upkept.step guard.1 guard.2 taken)
      (.created created data)
  have caching := upkept.caching reader thread member
  rcases caching.refreshCache (upkept.slotScans member) with
    ⟨cache, assigned, trailing, refreshed, keeps⟩
  refine ⟨cache, assigned, trailing, refreshed, keeps, ?_⟩
  intro iovcnt
  have exact_ := keeps.removesOnlyDrained_iff refreshed upkept.within iovcnt
  rw [caching.readerIndex_eq] at exact_
  exact exact_

/-- One line is written and read before the writer leaves. -/
def readToTheEnd : List LogCall :=
  [.attach (.reader 0), .attach .writer, .getWriteBuffer 0 1, .write 0 [⟨2, 8⟩], .read 0 0 1,
    .detach .writer 0]

theorem trailing_removed_run_read : ∃ last,
    Run (LogBuffer.step twoWriterHeader)
      (fun state call => state.Permitted twoWriterHeader call ∧
        state.SafeCall twoWriterHeader call)
      (.created twoWriterHeader zeroArea zeroData) readToTheEnd last ∧
    last.area.writerTrailing twoWriterHeader 0 = true ∧
    RemovesOnlyDrained twoWriterHeader last.area last.segments
      (last.readers (twoWriterHeader.slot 0 0)) 2 := by
  have executes : (Run.exec (LogBuffer.step twoWriterHeader)
      (fun state call => state.Permitted twoWriterHeader call ∧
        state.SafeCall twoWriterHeader call)
      (.created twoWriterHeader zeroArea zeroData) readToTheEnd).any
        (fun last : LogBuffer => decide (last.area.writerTrailing twoWriterHeader 0 = true ∧
          (Role.reader 0, 0) ∈ last.threads ∧
          ∀ index < twoWriterHeader.segmentCount,
            (last.segments index).unreadLines twoWriterHeader 0 = 0)) = true := by
    decide +kernel
  rcases Run.of_exec_any executes with ⟨last, run, final⟩
  rcases of_decide_eq_true final with ⟨trailingFlag, member, drained⟩
  rcases trailing_removed_run ⟨fun _ => rfl, fun _ _ => rfl⟩ run member with
    ⟨cache, assigned, trailing, -, keeps, exactly⟩
  refine ⟨last, run, trailingFlag, (exactly 2).mpr ?_⟩
  intro before index after _ _ isTrailing _
  exact drained index (keeps.inside index (List.mem_append_right _ isTrailing))

/-- One line is written and not read before the writer leaves. -/
def leavesUnread : List LogCall :=
  [.attach (.reader 0), .attach .writer, .getWriteBuffer 0 1, .write 0 [⟨2, 8⟩], .refresh 0 0,
    .detach .writer 0]

/-- A read of two lines removes the segment with its one line. -/
theorem trailing_removed_with_line : ∃ last,
    Run (LogBuffer.step twoWriterHeader)
      (fun state call => state.Permitted twoWriterHeader call ∧
        state.SafeCall twoWriterHeader call)
      (.created twoWriterHeader zeroArea zeroData) leavesUnread last ∧
    twoWriterHeader.CreatedArea zeroArea ∧ (Role.reader 0, 0) ∈ last.threads ∧
    ¬RemovesOnlyDrained twoWriterHeader last.area last.segments
      (last.readers (twoWriterHeader.slot 0 0)) 2 := by
  have executes : (Run.exec (LogBuffer.step twoWriterHeader)
      (fun state call => state.Permitted twoWriterHeader call ∧
        state.SafeCall twoWriterHeader call)
      (.created twoWriterHeader zeroArea zeroData) leavesUnread).any
        (fun last : LogBuffer => decide ((Role.reader 0, 0) ∈ last.threads) &&
          ((readVisits twoWriterHeader last.area last.segments
            (last.readers (twoWriterHeader.slot 0 0)) 2).any fun visit =>
              decide (visit.moved = some 0 ∧ visit.entry = some 0 ∧
                ((last.segments 0).readers
                  (last.readers (twoWriterHeader.slot 0 0)).readerIndex).headOffset ≠
                    (last.segments 0).commitOffset))) = true := by
    decide +kernel
  rcases Run.of_exec_any executes with ⟨last, run, final⟩
  rcases Bool.and_eq_true_iff.mp final with ⟨member, removal⟩
  refine ⟨last, run, ⟨fun _ => rfl, fun _ _ => rfl⟩, of_decide_eq_true member, ?_⟩
  intro removes
  rcases List.any_eq_true.mp removal with ⟨visit, visited, parts⟩
  rcases of_decide_eq_true parts with ⟨moved, entry, unread⟩
  exact unread (removes visit visited 0 moved (Int.le_refl 0) 0 entry)

/-! ### Batches as large as the ring -/

/-- A writer of segment `index` and a thread are both refused a batch, and no
offset changes. -/
structure RefusesBatch (hdr : Header) (area : AssignmentArea) (segments : Nat → Segment)
    (thread : ReaderThread) (index iovcnt : Nat) : Prop where
  writer : ((segments index).afterGetWriteBuffer hdr iovcnt).1 ≠ fipsBufSuccess
  reserved : ((segments index).afterGetWriteBuffer hdr iovcnt).2 = segments index
  reader : ∃ outcome, fipsBufRead hdr area segments thread iovcnt 0 = some outcome ∧
    outcome.code = fipsBufErrorEmpty ∧ outcome.segments = segments

/-- A reservation is refused exactly when it does not fit after the reduction. -/
theorem Segment.WithinRing.refused_iff {hdr : Header} {segment : Segment}
    (within : segment.WithinRing hdr) (blocking : hdr.overwrite = false) (iovcnt : Nat) :
    ((segment.afterGetWriteBuffer hdr iovcnt).1 ≠ fipsBufSuccess ∧
        (segment.afterGetWriteBuffer hdr iovcnt).2 = segment) ↔
      ∃ reader < hdr.readerCount, segment.freeSlots hdr reader < iovcnt % hdr.lineCount := by
  rw [within.afterGetWriteBuffer_eq blocking]
  split
  case isTrue few => exact iff_of_true ⟨success_ne_noSpace.symm, rfl⟩ few
  case isFalse enough => exact iff_of_false (fun both => both.1 rfl) enough

/-- A read returns empty-handed exactly when the pass stays inside the cache and
every segment on it has too few lines after the reduction. -/
theorem ReaderCache.Holds.empty_iff {hdr : Header} {area : AssignmentArea}
    {segments : Nat → Segment} {thread : ReaderThread} {assigned trailing : List Nat}
    {cache : ReaderCache} (holds : cache.Holds hdr assigned trailing)
    (refreshed : refreshCache hdr area thread = some (fipsBufSuccess, cache))
    (within : ∀ index, (segments index).WithinRing hdr) (iovcnt : Nat) :
    (∃ outcome, fipsBufRead hdr area segments thread iovcnt 0 = some outcome ∧
        outcome.code = fipsBufErrorEmpty ∧ outcome.segments = segments) ↔
      (∀ index ∈ visitOrder assigned trailing thread.rotation,
        (segments index).unreadLines hdr thread.readerIndex < iovcnt % hdr.lineCount) ∧
      StaysInside assigned trailing thread.rotation := by
  cases holds.readPass refreshed within iovcnt with
  | empty inside order placed short passes result nextHolds =>
      refine iff_of_true ⟨_, result, rfl, rfl⟩ ⟨?_, inside⟩
      intro index member
      rw [← order] at member
      rcases List.mem_map.mp member with ⟨place, found, rfl⟩
      exact short place found
  | leaves outside order placed short passes visits position moved returns =>
      apply iff_of_false
      · rintro ⟨outcome, result, empty, -⟩
        rw [(returns outcome result).1] at empty
        exact ReaderCache.Holds.success_ne_empty empty
      · rintro ⟨-, inside⟩
        exact outside inside
  | @ready places index after later made visit outcome order placed short enough passes visits
      inRange moved result success fewer nextHolds =>
      apply iff_of_false
      · rintro ⟨other, returns, empty, -⟩
        rw [result] at returns
        cases returns
        rw [success] at empty
        exact ReaderCache.Holds.success_ne_empty empty
      · rintro ⟨all, -⟩
        apply enough
        apply all
        rw [← order]
        exact List.mem_append_right _ List.mem_cons_self

/-- In every state that a run of calls reaches, a batch is refused on both sides
exactly when its remainder by the number of lines does not fit: a writer's
against the free slots, a read against the unread lines of every segment on its
way. -/
theorem batch_refused_run {hdr : Header} (blocking : hdr.overwrite = false)
    {area : AssignmentArea} (created : hdr.CreatedArea area) {data : Nat → Data}
    {calls : List LogCall} {last : LogBuffer}
    (run : Run (LogBuffer.step hdr)
      (fun state call => state.Permitted hdr call ∧ state.SafeCall hdr call)
      (.created hdr area data) calls last) {reader thread : Nat}
    (member : (Role.reader reader, thread) ∈ last.threads) :
    ∃ cache assigned trailing,
      refreshCache hdr last.area (last.readers (hdr.slot reader thread)) =
        some (fipsBufSuccess, cache) ∧
      cache.Keeps hdr assigned trailing ∧
      ∀ index iovcnt, RefusesBatch hdr last.area last.segments
          (last.readers (hdr.slot reader thread)) index iovcnt ↔
        (∃ other < hdr.readerCount,
          (last.segments index).freeSlots hdr other < iovcnt % hdr.lineCount) ∧
        (∀ visited ∈ visitOrder assigned trailing (last.readers (hdr.slot reader thread)).rotation,
          (last.segments visited).unreadLines hdr reader < iovcnt % hdr.lineCount) ∧
        StaysInside assigned trailing (last.readers (hdr.slot reader thread)).rotation := by
  have upkept : last.Upkept hdr :=
    run.invariant (fun _ _ _ upkept guard taken => upkept.step guard.1 guard.2 taken)
      (.created created data)
  have caching := upkept.caching reader thread member
  rcases caching.refreshCache (upkept.slotScans member) with
    ⟨cache, assigned, trailing, refreshed, keeps⟩
  refine ⟨cache, assigned, trailing, refreshed, keeps, ?_⟩
  intro index iovcnt
  have writer := (upkept.within index).refused_iff blocking iovcnt
  have empty := keeps.holds.empty_iff refreshed upkept.within iovcnt
  rw [caching.readerIndex_eq] at empty
  rw [← writer, ← empty]
  constructor
  · exact fun refuses => ⟨⟨refuses.writer, refuses.reserved⟩, refuses.reader⟩
  · exact fun ⟨⟨refused, reserved⟩, read⟩ => ⟨refused, reserved, read⟩

/-- The writer has reserved all the slots it may and committed none. -/
def reservedAll : List LogCall :=
  [.attach (.reader 0), .attach .writer, .getWriteBuffer 0 3]

theorem batch_refused_run_five : ∃ last,
    Run (LogBuffer.step twoWriterHeader)
      (fun state call => state.Permitted twoWriterHeader call ∧
        state.SafeCall twoWriterHeader call)
      (.created twoWriterHeader zeroArea zeroData) reservedAll last ∧
    RefusesBatch twoWriterHeader last.area last.segments
      (last.readers (twoWriterHeader.slot 0 0)) 0 5 := by
  have executes : (Run.exec (LogBuffer.step twoWriterHeader)
      (fun state call => state.Permitted twoWriterHeader call ∧
        state.SafeCall twoWriterHeader call)
      (.created twoWriterHeader zeroArea zeroData) reservedAll).any
        (fun last : LogBuffer => decide ((Role.reader 0, 0) ∈ last.threads ∧
          (last.segments 0).freeSlots twoWriterHeader 0 < 1 ∧
          ∀ index < twoWriterHeader.segmentCount,
            (last.segments index).unreadLines twoWriterHeader 0 < 1) &&
          (refreshCache twoWriterHeader last.area (last.readers (twoWriterHeader.slot 0 0))).all
            fun result => result.2.trailingBuffersCount == 0) = true := by
    decide +kernel
  rcases Run.of_exec_any executes with ⟨last, run, final⟩
  rcases Bool.and_eq_true_iff.mp final with ⟨parts, noTrailing⟩
  rcases of_decide_eq_true parts with ⟨member, full, unread⟩
  rcases batch_refused_run rfl ⟨fun _ => rfl, fun _ _ => rfl⟩ run member with
    ⟨cache, assigned, trailing, refreshed, keeps, exactly⟩
  rw [refreshed, Option.all_some, beq_iff_eq, keeps.holds.trailingBuffersCount] at noTrailing
  have nothing : trailing = [] := List.length_eq_zero_iff.mp noTrailing
  subst nothing
  refine ⟨last, run, (exactly 0 5).mpr ⟨⟨0, by decide, full⟩, ?_, staysInside_nil _ _⟩⟩
  intro index visited
  apply unread index
  apply keeps.inside
  rw [visitOrder_nil, List.mem_append] at visited
  rw [List.append_nil]
  rcases visited with behind | before
  · exact List.mem_of_mem_drop behind
  · exact List.mem_of_mem_take before

/-- Nothing has been written yet. -/
def justAttached : List LogCall :=
  [.attach (.reader 0), .attach .writer]

/-- Of a ring of four empty lines a writer gets four and a reader reads four. -/
theorem batch_of_whole_ring_granted : ∃ last,
    Run (LogBuffer.step twoWriterHeader)
      (fun state call => state.Permitted twoWriterHeader call ∧
        state.SafeCall twoWriterHeader call)
      (.created twoWriterHeader zeroArea zeroData) justAttached last ∧
    twoWriterHeader.overwrite = false ∧ twoWriterHeader.CreatedArea zeroArea ∧
    twoWriterHeader.lineCount ≤ 4 ∧ 1 ≤ twoWriterHeader.readerCount ∧
    (Role.reader 0, 0) ∈ last.threads ∧
    ((last.segments 0).afterGetWriteBuffer twoWriterHeader 4).1 = fipsBufSuccess ∧
    (∃ outcome, fipsBufRead twoWriterHeader last.area last.segments
      (last.readers (twoWriterHeader.slot 0 0)) 4 0 = some outcome ∧
        outcome.code = fipsBufSuccess) ∧
    ¬RefusesBatch twoWriterHeader last.area last.segments
      (last.readers (twoWriterHeader.slot 0 0)) 0 4 := by
  have executes : (Run.exec (LogBuffer.step twoWriterHeader)
      (fun state call => state.Permitted twoWriterHeader call ∧
        state.SafeCall twoWriterHeader call)
      (.created twoWriterHeader zeroArea zeroData) justAttached).any
        (fun last : LogBuffer => decide ((Role.reader 0, 0) ∈ last.threads ∧
          ((last.segments 0).afterGetWriteBuffer twoWriterHeader 4).1 = fipsBufSuccess) &&
          (fipsBufRead twoWriterHeader last.area last.segments
            (last.readers (twoWriterHeader.slot 0 0)) 4 0).any
              fun outcome => decide (outcome.code = fipsBufSuccess)) = true := by
    decide +kernel
  rcases Run.of_exec_any executes with ⟨last, run, final⟩
  rcases Bool.and_eq_true_iff.mp final with ⟨parts, reads⟩
  rcases of_decide_eq_true parts with ⟨member, granted⟩
  rcases (Option.any_eq_true _ _).mp reads with ⟨outcome, returns, success⟩
  exact ⟨last, run, rfl, ⟨fun _ => rfl, fun _ _ => rfl⟩, by decide, by decide, member, granted,
    ⟨outcome, returns, of_decide_eq_true success⟩, fun refuses => refuses.writer granted⟩

end FipsIpc.FipsBuf
