import FipsIpc.FipsBuf.Trailing

/-!
Contract: the unread lines of a writer that has detached.

Owns: which trailing segments the threads of a reader process find after a
refresh, and the condition on `fips_buf_detach` under which none with unread
lines is lost.

A refresh looks for trailing segments only among those the thread has cached.
Whether anybody still finds the segment is therefore decided when its writer
detaches: by then a thread of the process must have refreshed with the segment
in its assignment.

Does not own: the removal of trailing segments by `fips_buf_read`.
-/

set_option autoImplicit false

namespace FipsIpc.FipsBuf

open FipsIpc.Lib

namespace LogBuffer

variable (hdr : Header) (state : LogBuffer) (reader : Nat)

/-- The segment holds lines that the process has not read. -/
def Unread (segment : Nat) : Prop := state.taken reader segment < state.committed segment

/-- An attached thread of the process has the segment in its cache. -/
def Caches (segment : Nat) : Prop :=
  ∃ thread, (Role.reader reader, thread) ∈ state.threads ∧
    some segment ∈ (state.readers (hdr.slot reader thread)).cache.entries

/-- The attached threads of the process. -/
def threadsOf : List Nat :=
  (state.threads.filter fun thread => thread.1 = .reader reader).map Prod.snd

/-- The threads of the process refresh one after the other. -/
def refreshAll : List Nat → LogBuffer → Option LogBuffer
  | [], state => some state
  | thread :: rest, state =>
      (state.step hdr (.refresh reader thread)).bind fun next => refreshAll rest next

/-- After all threads of the process have refreshed, one of them has every
trailing segment with unread lines. -/
def NothingLost : Prop :=
  ∃ refreshed, refreshAll hdr reader (state.threadsOf reader) state = some refreshed ∧
    ∀ segment < hdr.segmentCount, state.area.writerTrailing hdr segment = true →
      state.Unread reader segment → refreshed.Caches hdr reader segment

/-- The threads of the process stay, and a read takes part of a ring and removes
no entry from the cache. -/
def Steady : LogCall → Prop
  | .detach role _ => role ≠ .reader reader
  | .read other thread iovcnt =>
      1 ≤ iovcnt ∧ iovcnt < hdr.lineCount ∧
        ∀ outcome ∈ fipsBufRead hdr state.area state.segments
            (state.readers (hdr.slot other thread)) iovcnt 0,
          ∀ result ∈ refreshCache hdr state.area (state.readers (hdr.slot other thread)),
            outcome.thread.cache = result.2
  | _ => True

/-- A writer leaves a segment that is assigned to a reader thread and that the
process has not read to the end only when a thread of the process has it in its
cache. -/
def LeavesCached : LogCall → Prop
  | .detach .writer index => state.area.AssignedToReader hdr index →
      state.Unread reader index → state.Caches hdr reader index
  | _ => True

end LogBuffer

/-! ### One thread -/

theorem ReaderCache.Lists.mem_entries {hdr : Header} {assigned trailing : List Nat}
    {cache : ReaderCache} (lists : cache.Lists hdr assigned trailing) {segment : Nat} :
    some segment ∈ cache.entries ↔ segment ∈ assigned ++ trailing := by
  rw [ReaderCache.entries, lists.take_eq]
  exact List.mem_map_of_injective (Option.some_injective Nat)

/-- The argument of a thread of process `reader` with assignment slot `slot`. -/
structure ReaderThread.Attached (hdr : Header) (reader slot : Nat) (thread : ReaderThread) :
    Prop where
  slot_eq : thread.slot = some slot
  readerIndex_eq : thread.readerIndex = reader
  lists : ∃ assigned trailing, thread.cache.Lists hdr assigned trailing

/-- What a thread neither loses nor gains: the trailing segments of its cache. -/
def ReaderThread.KeepsTrailing (hdr : Header) (area : AssignmentArea)
    (before after : ReaderThread) : Prop :=
  ∀ segment, area.writerTrailing hdr segment = true →
    (some segment ∈ after.cache.entries ↔ some segment ∈ before.cache.entries)

namespace ReaderThread.Attached

variable {hdr : Header} {reader slot : Nat} {thread : ReaderThread} {area : AssignmentArea}

theorem new (hdr : Header) (reader slot : Nat) :
    (ReaderThread.attached hdr reader slot).Attached hdr reader slot := by
  refine ⟨rfl, rfl, [], [], ?_, rfl, rfl, List.nodup_nil, ?_⟩
  · simp [ReaderThread.attached, fillCache]
  · intro segment absent
    exact absurd absent List.not_mem_nil

/-- A refresh returns and keeps the trailing segments. -/
theorem refresh (attached : thread.Attached hdr reader slot) (scans : area.SlotScans hdr slot) :
    ∃ cache, updateCachedReaderValues hdr area thread.slot thread.cache =
        some (fipsBufSuccess, cache) ∧
      ({ thread with cache := cache } : ReaderThread).Attached hdr reader slot ∧
      thread.KeepsTrailing hdr area { thread with cache := cache } := by
  rcases attached.lists with ⟨assigned, trailing, lists⟩
  rcases lists.refresh scans with ⟨cache, updated, after, _⟩
  refine ⟨cache, ?_, ⟨attached.slot_eq, attached.readerIndex_eq, _, _, after⟩, ?_⟩
  · rw [attached.slot_eq]
    exact updated
  · intro segment isTrailing
    show some segment ∈ cache.entries ↔ _
    rw [after.mem_entries, lists.mem_entries, List.mem_append, List.mem_filter]
    constructor
    · rintro (resolved | old)
      · exact absurd (AssignmentArea.mem_resolve resolved).2
          (AssignmentArea.not_inUse_of_trailing isTrailing)
      · exact old.1
    · exact fun old => Or.inr ⟨old, isTrailing⟩

/-- The refresh at the start of a read. -/
theorem refreshCache (attached : thread.Attached hdr reader slot)
    (scans : area.SlotScans hdr slot) :
    ∃ cache, FipsBuf.refreshCache hdr area thread = some (fipsBufSuccess, cache) ∧
      ({ thread with cache := cache } : ReaderThread).Attached hdr reader slot ∧
      thread.KeepsTrailing hdr area { thread with cache := cache } := by
  unfold FipsBuf.refreshCache
  split
  · exact attached.refresh scans
  · exact ⟨thread.cache, rfl, attached, fun _ _ => Iff.rfl⟩

end ReaderThread.Attached

theorem readLoop_thread {hdr : Header} {segments : Nat → Segment} {iovcnt cachedCount tries : Nat}
    {thread : ReaderThread} {outcome : ReadOutcome}
    (result : readLoop hdr segments iovcnt cachedCount tries thread = some outcome) :
    outcome.thread.slot = thread.slot ∧ outcome.thread.readerIndex = thread.readerIndex := by
  induction tries generalizing thread with
  | zero =>
      cases result
      exact ⟨rfl, rfl⟩
  | succ tries inductionHypothesis =>
      rcases Option.bind_eq_some_iff.mp result with ⟨index, _, visited⟩
      dsimp only at visited
      split at visited
      · rcases Option.bind_eq_some_iff.mp visited with ⟨cache, _, later⟩
        have rest := inductionHypothesis later
        exact rest
      · cases visited
        exact ⟨rfl, rfl⟩

/-- A read keeps the slot and the process of its thread. -/
theorem fipsBufRead_thread {hdr : Header} {area : AssignmentArea} {segments : Nat → Segment}
    {iovcnt : Nat} {flags : Int} {thread : ReaderThread} {outcome : ReadOutcome}
    (result : fipsBufRead hdr area segments thread iovcnt flags = some outcome) :
    outcome.thread.slot = thread.slot ∧ outcome.thread.readerIndex = thread.readerIndex := by
  unfold fipsBufRead at result
  split at result
  · cases result
    exact ⟨rfl, rfl⟩
  · rcases Option.bind_eq_some_iff.mp result with ⟨⟨code, cache⟩, _, refreshed⟩
    dsimp only at refreshed
    split at refreshed
    · cases refreshed
      exact ⟨rfl, rfl⟩
    · have loop := readLoop_thread refreshed
      exact loop

/-! ### The invariant -/

namespace LogBuffer

variable {hdr : Header} {state next : LogBuffer} {call : LogCall} {reader : Nat}

/-- No thread that is attached already has the slot of a new one. -/
theorem Counted.addThread_readers (counted : state.Counted hdr) {role : Role} {index : Nat}
    (inside : index < hdr.roleBound role) (free : FreeSlot hdr state.area role index)
    {process thread : Nat} (member : (Role.reader process, thread) ∈ state.threads) :
    (state.addThread hdr role index ((occupySlot hdr state.area role index).republish
      hdr)).readers (hdr.slot process thread) = state.readers (hdr.slot process thread) := by
  have parts := (counted.owned.threads _ _).mp member
  cases role with
  | writer => rfl
  | reader newProcess =>
      apply Function.update_of_ne
      intro same
      rcases hdr.slot_injective parts.2.1 inside same with ⟨rfl, rfl⟩
      exact freeSlot_not_taken free parts.2.2

/-- The flags are in order, and so are the caches of attached threads. -/
structure Orderly (hdr : Header) (state : LogBuffer) : Prop where
  counted : state.Counted hdr
  attached : ∀ process thread, (Role.reader process, thread) ∈ state.threads →
    (state.readers (hdr.slot process thread)).Attached hdr process (hdr.slot process thread)

theorem Orderly.slotScans (orderly : state.Orderly hdr) {process thread : Nat}
    (member : (Role.reader process, thread) ∈ state.threads) :
    state.area.SlotScans hdr (hdr.slot process thread) := by
  have parts := (orderly.counted.owned.threads _ _).mp member
  exact (orderly.counted.assigned process parts.1).slotScans parts.2.1 parts.2.2

/-- A call by one reader thread. -/
theorem Orderly.setReader (orderly : state.Orderly hdr) (counted : next.Counted hdr)
    {process thread : Nat} (member : (Role.reader process, thread) ∈ state.threads)
    {after : ReaderThread} (attachments : next.attachments = state.attachments)
    (readers : next.readers = Function.update state.readers (hdr.slot process thread) after)
    (attached : after.Attached hdr process (hdr.slot process thread)) : next.Orderly hdr where
  counted := counted
  attached process' thread' member' := by
    rw [LogBuffer.threads, attachments] at member'
    rw [readers]
    by_cases same : hdr.slot process' thread' = hdr.slot process thread
    · have inside := ((orderly.counted.owned.threads _ _).mp member).2.1
      have inside' := ((orderly.counted.owned.threads _ _).mp member').2.1
      rcases hdr.slot_injective inside' inside same with ⟨rfl, rfl⟩
      rw [Function.update_self]
      exact attached
    · rw [Function.update_of_ne same]
      exact orderly.attached process' thread' member'

/-- No trailing segment enters or leaves the caches of a process when a thread
keeps its own. -/
theorem caches_setReader {process thread : Nat} {after : ReaderThread}
    (attachments : next.attachments = state.attachments)
    (readers : next.readers = Function.update state.readers (hdr.slot process thread) after)
    (keeps : (state.readers (hdr.slot process thread)).KeepsTrailing hdr state.area after)
    {segment : Nat} (trailing : state.area.writerTrailing hdr segment = true) :
    next.Caches hdr reader segment ↔ state.Caches hdr reader segment := by
  unfold Caches LogBuffer.threads
  rw [attachments, readers]
  apply exists_congr
  intro holder
  apply and_congr_right
  intro _
  by_cases same : hdr.slot reader holder = hdr.slot process thread
  · rw [same, Function.update_self]
    exact keeps segment trailing
  · rw [Function.update_of_ne same]

/-- One refresh. -/
theorem Orderly.refresh (orderly : state.Orderly hdr) (reader : Nat) {process thread : Nat}
    (member : (Role.reader process, thread) ∈ state.threads) :
    ∃ next, state.step hdr (.refresh process thread) = some next ∧ next.Orderly hdr ∧
      next.attachments = state.attachments ∧ next.taken = state.taken ∧
      next.committed = state.committed ∧
      ∀ segment, state.area.writerTrailing hdr segment = true →
        (next.Caches hdr reader segment ↔ state.Caches hdr reader segment) := by
  rcases (orderly.attached process thread member).refresh (orderly.slotScans member) with
    ⟨cache, updated, after, keeps⟩
  have taken : state.step hdr (.refresh process thread) =
      some (state.setReader (hdr.slot process thread)
        { state.readers (hdr.slot process thread) with cache := cache }) := by
    simp only [LogBuffer.step, updated, Option.map_some]
  have permitted : state.Permitted hdr (.refresh process thread) := member
  have counted := orderly.counted.step permitted trivial taken
  refine ⟨_, taken, orderly.setReader counted member rfl rfl after, rfl, rfl, rfl, ?_⟩
  intro segment trailing
  refine caches_setReader ?_ ?_ keeps trailing
  · rfl
  · rfl

/-- All threads of a process can refresh. -/
theorem Orderly.refreshAll (orderly : state.Orderly hdr) {threads : List Nat}
    (members : ∀ thread ∈ threads, (Role.reader reader, thread) ∈ state.threads) :
    ∃ refreshed, LogBuffer.refreshAll hdr reader threads state = some refreshed ∧
      ∀ segment, state.area.writerTrailing hdr segment = true →
        (refreshed.Caches hdr reader segment ↔ state.Caches hdr reader segment) := by
  induction threads generalizing state with
  | nil => exact ⟨state, rfl, fun _ _ => Iff.rfl⟩
  | cons thread rest inductionHypothesis =>
      have refreshed := orderly.refresh reader (members thread List.mem_cons_self)
      rcases refreshed with ⟨next, step, after, attachments, _, _, same⟩
      have later : ∀ other ∈ rest, (Role.reader reader, other) ∈ next.threads := by
        intro other member
        rw [LogBuffer.threads, attachments]
        exact members other (List.mem_cons_of_mem _ member)
      rcases inductionHypothesis after later with ⟨refreshed, all, sameLater⟩
      refine ⟨refreshed, ?_, ?_⟩
      · rw [LogBuffer.refreshAll, step]
        exact all
      · intro segment trailing
        rw [← same segment trailing]
        apply sameLater
        rw [LogBuffer.area, attachments]
        exact trailing

theorem Orderly.removeThread (orderly : state.Orderly hdr) {role : Role} {index : Nat}
    (member : (role, index) ∈ state.threads) : (state.removeThread hdr role index).Orderly hdr := by
  refine ⟨orderly.counted.removeThread member, fun process thread member' => ?_⟩
  rw [removeThread_threads] at member'
  have readers : (state.removeThread hdr role index).readers = state.readers := by
    cases role <;> rfl
  rw [readers]
  exact orderly.attached process thread (List.mem_of_mem_erase member')

/-- Nothing is lost exactly when every trailing segment with unread lines is in
a cache already. -/
theorem Orderly.nothingLost_iff (orderly : state.Orderly hdr) :
    state.NothingLost hdr reader ↔ ∀ segment < hdr.segmentCount,
      state.area.writerTrailing hdr segment = true → state.Unread reader segment →
        state.Caches hdr reader segment := by
  have members : ∀ thread ∈ state.threadsOf reader,
      (Role.reader reader, thread) ∈ state.threads := by
    intro thread member
    rcases List.mem_map.mp member with ⟨⟨role, index⟩, listed, rfl⟩
    have own := List.mem_filter.mp listed
    rw [← of_decide_eq_true own.2]
    exact own.1
  rcases orderly.refreshAll members with ⟨refreshed, all, same⟩
  unfold NothingLost
  rw [all]
  constructor
  · rintro ⟨_, isRefreshed, found⟩ segment inside trailing unread
    cases isRefreshed
    exact (same segment trailing).mp (found segment inside trailing unread)
  · intro cached
    refine ⟨refreshed, rfl, ?_⟩
    intro segment inside trailing unread
    exact (same segment trailing).mpr (cached segment inside trailing unread)

/-- The invariant of runs: every trailing segment with unread lines is in one of
the caches of the process. -/
structure Kept (hdr : Header) (reader : Nat) (state : LogBuffer) : Prop where
  orderly : state.Orderly hdr
  cached : ∀ segment < hdr.segmentCount, state.area.writerTrailing hdr segment = true →
    state.Unread reader segment → state.Caches hdr reader segment

namespace Kept

theorem created {area : AssignmentArea} (created : hdr.CreatedArea area) (data : Nat → Data) :
    (LogBuffer.created hdr area data).Kept hdr reader where
  orderly := ⟨.created created data, fun _ _ absent => absurd absent List.not_mem_nil⟩
  cached _ _ _ unread := absurd unread (Nat.lt_irrefl 0)

/-- A call that leaves threads and caches alone, and the lines of trailing
segments too. -/
theorem quiet (kept : state.Kept hdr reader) (counted : next.Counted hdr)
    (attachments : next.attachments = state.attachments) (readers : next.readers = state.readers)
    (taken : ∀ segment, state.taken reader segment ≤ next.taken reader segment)
    (committed : ∀ segment < hdr.segmentCount, state.area.writerTrailing hdr segment = true →
      next.committed segment = state.committed segment) : next.Kept hdr reader where
  orderly := by
    refine ⟨counted, fun process thread member => ?_⟩
    rw [LogBuffer.threads, attachments] at member
    rw [readers]
    exact kept.orderly.attached process thread member
  cached segment inside trailing unread := by
    rw [LogBuffer.area, attachments] at trailing
    have before : state.Unread reader segment := by
      unfold Unread at unread ⊢
      rw [committed segment inside trailing] at unread
      exact (taken segment).trans_lt unread
    unfold Caches LogBuffer.threads
    rw [attachments, readers]
    exact kept.cached segment inside trailing before

/-- A call by one reader thread. -/
theorem setReader (kept : state.Kept hdr reader) (counted : next.Counted hdr)
    {process thread : Nat} (member : (Role.reader process, thread) ∈ state.threads)
    {after : ReaderThread} (attachments : next.attachments = state.attachments)
    (readers : next.readers = Function.update state.readers (hdr.slot process thread) after)
    (attached : after.Attached hdr process (hdr.slot process thread))
    (keeps : (state.readers (hdr.slot process thread)).KeepsTrailing hdr state.area after)
    (taken : ∀ segment, state.taken reader segment ≤ next.taken reader segment)
    (committed : next.committed = state.committed) : next.Kept hdr reader where
  orderly := kept.orderly.setReader counted member attachments readers attached
  cached segment inside trailing unread := by
    rw [LogBuffer.area, attachments] at trailing
    have before : state.Unread reader segment := by
      unfold Unread at unread ⊢
      rw [committed] at unread
      exact (taken segment).trans_lt unread
    exact (caches_setReader attachments readers keeps trailing).mpr
      (kept.cached segment inside trailing before)

theorem addThread (kept : state.Kept hdr reader) {role : Role} {index : Nat}
    (exists_ : hdr.hasRole role) (inside : index < hdr.roleBound role)
    (free : FreeSlot hdr state.area role index) :
    (state.addThread hdr role index
      ((occupySlot hdr state.area role index).republish hdr)).Kept hdr reader := by
  have others := fun process thread member =>
    @Counted.addThread_readers hdr state kept.orderly.counted role index inside free process thread
      member
  constructor
  case orderly =>
    refine ⟨kept.orderly.counted.addThread exists_ inside free, fun process thread member => ?_⟩
    rw [addThread_threads] at member
    by_cases before : (Role.reader process, thread) ∈ state.threads
    · rw [others process thread before]
      exact kept.orderly.attached process thread before
    · rcases List.mem_cons.mp member with new | old
      · cases new
        show ReaderThread.Attached hdr process _
          (Function.update state.readers _ (.attached hdr process _) _)
        rw [Function.update_self]
        exact .new hdr process _
      · exact absurd old before
  case cached =>
    intro segment bound trailing unread
    have before : state.area.writerTrailing hdr segment = true := by
      rw [addThread_area] at trailing
      unfold AssignmentArea.writerTrailing at trailing ⊢
      rw [AssignmentArea.writerAssignment_of_lt hdr _ bound] at trailing ⊢
      rw [attach_flags state.area inside] at trailing
      split at trailing
      case isFalse => exact trailing
      case isTrue =>
        by_cases same : segment = index
        · rw [same, Function.update_self] at trailing
          cases trailing
        · rw [Function.update_of_ne same] at trailing
          exact trailing
    have unreadBefore : state.Unread reader segment := by
      cases role <;> exact unread
    rcases kept.cached segment bound before unreadBefore with ⟨holder, holds, entry⟩
    refine ⟨holder, ?_, ?_⟩
    · rw [addThread_threads]
      exact List.mem_cons_of_mem _ holds
    · rw [others reader holder holds]
      exact entry

theorem removeThread (kept : state.Kept hdr reader) {role : Role} {index : Nat}
    (member : (role, index) ∈ state.threads) (stays : role ≠ .reader reader)
    (cached : state.LeavesCached hdr reader (.detach role index)) :
    (state.removeThread hdr role index).Kept hdr reader := by
  have parts := (kept.orderly.counted.owned.threads role index).mp member
  have readers : (state.removeThread hdr role index).readers = state.readers := by
    cases role <;> rfl
  have caches : ∀ segment, state.Caches hdr reader segment →
      (state.removeThread hdr role index).Caches hdr reader segment := by
    rintro segment ⟨holder, holds, entry⟩
    refine ⟨holder, ?_, ?_⟩
    · rw [removeThread_threads]
      refine (List.mem_erase_of_ne ?_).mpr holds
      intro same
      exact stays (Prod.mk.inj same).1.symm
    · rw [readers]
      exact entry
  constructor
  case orderly => exact kept.orderly.removeThread member
  case cached =>
    intro segment bound trailing unread
    apply caches
    cases role with
    | reader process =>
        have flags := (SameOwners.republish hdr (state.area.setAssignment (hdr.slot process index)
          .free)).writerFlags
        have before : state.area.writerTrailing hdr segment = true := by
          unfold AssignmentArea.writerTrailing at trailing ⊢
          rw [AssignmentArea.writerAssignment_of_lt hdr _ bound] at trailing ⊢
          exact (congrFun flags segment) ▸ trailing
        exact kept.cached segment bound before unread
    | writer =>
        have flags := AssignmentArea.detachWriter_flags kept.orderly.counted.assigned parts.2.1
        unfold AssignmentArea.writerTrailing at trailing
        rw [AssignmentArea.writerAssignment_of_lt hdr _ bound, removeThread_area, flags] at trailing
        by_cases same : segment = index
        · subst same
          rw [Function.update_self] at trailing
          split at trailing
          case isTrue assigned => exact cached assigned unread
          case isFalse => cases trailing
        · rw [Function.update_of_ne same] at trailing
          apply kept.cached segment bound _ unread
          unfold AssignmentArea.writerTrailing
          rw [AssignmentArea.writerAssignment_of_lt hdr _ bound]
          exact trailing

/-- A writer commits to its own segment, which is not trailing. -/
theorem committed_of_write (kept : state.Kept hdr reader) {index segment : Nat}
    (member : (Role.writer, index) ∈ state.threads)
    (trailing : state.area.writerTrailing hdr segment = true) : segment ≠ index := by
  intro same
  have used := ((kept.orderly.counted.owned.threads _ _).mp member).2.2
  rw [same] at trailing
  apply AssignmentArea.not_inUse_of_trailing trailing
  exact beq_iff_eq.mpr used

theorem taken_le_addCount (counts : Nat → Nat → Nat) (process index count segment : Nat) :
    counts reader segment ≤ addCount counts process index count reader segment := by
  unfold addCount
  by_cases same : reader = process
  · subst same
    rw [Function.update_self]
    by_cases here : segment = index
    · subst here
      rw [Function.update_self]
      exact Nat.le_add_right _ _
    · rw [Function.update_of_ne here]
  · rw [Function.update_of_ne same]

theorem read (kept : state.Kept hdr reader) (counted : next.Counted hdr)
    {process thread iovcnt : Nat} (member : (Role.reader process, thread) ∈ state.threads)
    (steady : state.Steady hdr reader (.read process thread iovcnt))
    (taken : state.step hdr (.read process thread iovcnt) = some next) :
    next.Kept hdr reader := by
  rcases Option.map_eq_some_iff.mp taken with ⟨outcome, returns, rfl⟩
  have attached := kept.orderly.attached process thread member
  rcases attached.refreshCache (kept.orderly.slotScans member) with ⟨cache, refreshed, after, keeps⟩
  have same := steady.2.2 outcome returns _ refreshed
  have thread_eq := fipsBufRead_thread returns
  have afterRead : outcome.thread.Attached hdr process (hdr.slot process thread) := by
    refine ⟨thread_eq.1.trans attached.slot_eq, thread_eq.2.trans attached.readerIndex_eq, ?_⟩
    rw [same]
    exact after.lists
  have keepsRead : (state.readers (hdr.slot process thread)).KeepsTrailing hdr state.area
      outcome.thread := by
    intro segment trailing
    rw [same]
    exact keeps segment trailing
  unfold LogBuffer.recordRead at counted ⊢
  dsimp only at counted ⊢
  split at counted
  · exact kept.setReader counted member rfl rfl afterRead keepsRead (fun _ => Nat.le_refl _) rfl
  · exact kept.setReader counted member rfl rfl afterRead keepsRead
      (fun _ => taken_le_addCount _ _ _ _ _) rfl

/-- Every call of a steady run keeps the invariant, if writers leave cached
segments only. -/
theorem step (kept : state.Kept hdr reader) (permitted : state.Permitted hdr call)
    (safe : state.SafeCall hdr call) (steady : state.Steady hdr reader call)
    (cached : state.LeavesCached hdr reader call) (taken : state.step hdr call = some next) :
    next.Kept hdr reader := by
  have counted := kept.orderly.counted.step permitted safe taken
  cases call with
  | attach role =>
      rcases step_attach_cases kept.orderly.counted.owned permitted safe taken with
        rfl | ⟨index, inside, free, rfl⟩
      · exact kept
      · exact kept.addThread permitted inside free
  | detach role threadIndex =>
      cases taken
      exact kept.removeThread permitted steady cached
  | getWriteBuffer index iovcnt =>
      simp only [LogBuffer.step] at taken
      split at taken
      · cases taken
        exact kept.quiet counted rfl rfl (fun _ => Nat.le_refl _) fun _ _ _ => rfl
      · cases taken
        exact kept
  | store index address byte =>
      cases taken
      exact kept.quiet counted rfl rfl (fun _ => Nat.le_refl _) fun _ _ _ => rfl
  | write index iov =>
      cases taken
      refine kept.quiet counted rfl rfl (fun _ => Nat.le_refl _) ?_
      intro segment _ trailing
      dsimp only
      split
      · exact Function.update_of_ne (kept.committed_of_write permitted trailing) _ _
      · rfl
  | refresh process thread =>
      have refreshed := kept.orderly.refresh reader permitted
      rcases refreshed with ⟨_, step, after, attachments, taken', committed, same⟩
      rw [step] at taken
      cases taken
      refine ⟨after, ?_⟩
      intro segment inside trailing unread
      rw [LogBuffer.area, attachments] at trailing
      unfold Unread at unread
      rw [taken', committed] at unread
      exact (same segment trailing).mpr (kept.cached segment inside trailing unread)
  | read process thread iovcnt => exact kept.read counted permitted steady taken
  | giveBack tag =>
      rcases Option.map_eq_some_iff.mp taken with ⟨result, _, rfl⟩
      exact kept.quiet counted rfl rfl (fun _ => Nat.le_refl _) fun _ _ _ => rfl

theorem nothingLost (kept : state.Kept hdr reader) : state.NothingLost hdr reader :=
  kept.orderly.nothingLost_iff.mpr kept.cached

/-- A writer that leaves a segment uncached takes its lines with it. -/
theorem leavesCached (kept : state.Kept hdr reader) (permitted : state.Permitted hdr call)
    (taken : state.step hdr call = some next) (found : next.NothingLost hdr reader) :
    state.LeavesCached hdr reader call := by
  cases call with
  | detach role index =>
      cases role with
      | reader process => trivial
      | writer =>
          cases taken
          intro assigned unread
          have inside := ((kept.orderly.counted.owned.threads _ _).mp permitted).2.1
          have flags := AssignmentArea.detachWriter_flags kept.orderly.counted.assigned inside
          have trailing : (state.removeThread hdr .writer index).area.writerTrailing hdr index =
              true := by
            unfold AssignmentArea.writerTrailing
            rw [AssignmentArea.writerAssignment_of_lt hdr _ inside, removeThread_area, flags,
              Function.update_self, if_pos assigned]
            rfl
          have still := (kept.orderly.removeThread permitted).nothingLost_iff.mp found index inside
            trailing unread
          rcases still with ⟨holder, holds, entry⟩
          exact ⟨holder, List.mem_of_mem_erase holds, entry⟩
  | _ => trivial

end Kept

end LogBuffer

/-- In every state of every run of safe and steady calls in which writers leave
unread segments only when a thread of the process has cached them, no trailing
segment with unread lines is lost to the process; and the next call loses none
exactly when it keeps to this rule. -/
theorem trailingLines_kept_run {hdr : Header} {area : AssignmentArea}
    (created : hdr.CreatedArea area) {data : Nat → Data} {reader : Nat} {calls : List LogCall}
    {last : LogBuffer}
    (run : Run (LogBuffer.step hdr)
      (fun state call => (state.Permitted hdr call ∧ state.SafeCall hdr call ∧
        state.Steady hdr reader call) ∧ state.LeavesCached hdr reader call)
      (.created hdr area data) calls last) :
    last.NothingLost hdr reader ∧
      ∀ call next, last.Permitted hdr call → last.SafeCall hdr call →
        last.Steady hdr reader call → last.step hdr call = some next →
        (next.NothingLost hdr reader ↔ last.LeavesCached hdr reader call) := by
  have kept : last.Kept hdr reader :=
    run.invariant (fun _ _ _ kept guard taken =>
      kept.step guard.1.1 guard.1.2.1 guard.1.2.2 guard.2 taken) (.created created data)
  refine ⟨kept.nothingLost, ?_⟩
  intro call next permitted safe steady taken
  constructor
  · exact kept.leavesCached permitted taken
  · intro cached
    exact (kept.step permitted safe steady cached taken).nothingLost

deriving instance DecidableEq for ReaderCache

instance (state : LogBuffer) (reader segment : Nat) :
    Decidable (state.Unread reader segment) :=
  inferInstanceAs (Decidable (_ < _))

instance (hdr : Header) (state : LogBuffer) (reader segment : Nat) :
    Decidable (state.Caches hdr reader segment) :=
  decidable_of_iff (∃ thread ∈ state.threads, thread.1 = .reader reader ∧
      some segment ∈ (state.readers (hdr.slot reader thread.2)).cache.entries)
    ⟨fun ⟨thread, member, own, entry⟩ => ⟨thread.2, own ▸ member, entry⟩,
      fun ⟨_, member, entry⟩ => ⟨_, member, rfl, entry⟩⟩

instance (hdr : Header) (state : LogBuffer) (reader : Nat) (call : LogCall) :
    Decidable (state.Steady hdr reader call) :=
  match call with
  | .detach role _ => inferInstanceAs (Decidable (role ≠ .reader reader))
  | .read other thread iovcnt => inferInstanceAs (Decidable (1 ≤ iovcnt ∧ iovcnt < hdr.lineCount ∧
      ∀ outcome ∈ fipsBufRead hdr state.area state.segments
          (state.readers (hdr.slot other thread)) iovcnt 0,
        ∀ result ∈ refreshCache hdr state.area (state.readers (hdr.slot other thread)),
          outcome.thread.cache = result.2))
  | .attach _ | .getWriteBuffer .. | .store .. | .write .. | .refresh ..
  | .giveBack _ => inferInstanceAs (Decidable True)

instance (hdr : Header) (state : LogBuffer) (reader : Nat) (call : LogCall) :
    Decidable (state.LeavesCached hdr reader call) :=
  match call with
  | .detach .writer index => inferInstanceAs (Decidable (state.area.AssignedToReader hdr index →
      state.Unread reader index → state.Caches hdr reader index))
  | .detach (.reader _) _ | .attach _ | .getWriteBuffer .. | .store .. | .write .. | .refresh ..
  | .read .. | .giveBack _ => inferInstanceAs (Decidable True)

/-- The reader thread reads the first of two lines before the writer leaves. -/
def readBeforeLeaving : List LogCall :=
  [.attach (.reader 0), .attach .writer, .getWriteBuffer 0 2, .write 0 [⟨2, 8⟩, ⟨12, 8⟩],
    .read 0 0 1, .detach .writer 0]

theorem trailingLines_kept_run_read : ∃ last,
    Run (LogBuffer.step twoWriterHeader)
      (fun state call => (state.Permitted twoWriterHeader call ∧
        state.SafeCall twoWriterHeader call ∧ state.Steady twoWriterHeader 0 call) ∧
          state.LeavesCached twoWriterHeader 0 call)
      (.created twoWriterHeader zeroArea zeroData) readBeforeLeaving last ∧
    last.area.writerTrailing twoWriterHeader 0 = true ∧ last.Unread 0 0 ∧
    last.NothingLost twoWriterHeader 0 := by
  have executes : (Run.exec (LogBuffer.step twoWriterHeader)
      (fun state call => (state.Permitted twoWriterHeader call ∧
        state.SafeCall twoWriterHeader call ∧ state.Steady twoWriterHeader 0 call) ∧
          state.LeavesCached twoWriterHeader 0 call)
      (.created twoWriterHeader zeroArea zeroData) readBeforeLeaving).any
        (fun last : LogBuffer => decide (last.area.writerTrailing twoWriterHeader 0 = true ∧
          last.Unread 0 0)) = true := by
    decide +kernel
  rcases Run.of_exec_any executes with ⟨last, run, final⟩
  have parts := of_decide_eq_true final
  exact ⟨last, run, parts.1, parts.2,
    (trailingLines_kept_run ⟨fun _ => rfl, fun _ _ => rfl⟩ run).1⟩

/-- A writer comes, writes a line and leaves between two refreshes. -/
def comesBetweenRefreshes : List LogCall :=
  [.attach (.reader 0), .refresh 0 0, .attach .writer, .getWriteBuffer 0 1, .write 0 [⟨2, 8⟩],
    .detach .writer 0]

/-- The segment is trailing because it was assigned to the reader thread, which
has never had it in its cache and does not find it. -/
theorem trailingLines_lost_between_refreshes : ∃ last,
    Run (LogBuffer.step twoWriterHeader)
      (fun state call => state.Permitted twoWriterHeader call ∧
        state.SafeCall twoWriterHeader call ∧ state.Steady twoWriterHeader 0 call)
      (.created twoWriterHeader zeroArea zeroData) comesBetweenRefreshes last ∧
    twoWriterHeader.CreatedArea zeroArea ∧ last.threadsOf 0 = [0] ∧
    last.area.writerTrailing twoWriterHeader 0 = true ∧ last.Unread 0 0 ∧
    ¬last.NothingLost twoWriterHeader 0 := by
  have executes : (Run.exec (LogBuffer.step twoWriterHeader)
      (fun state call => state.Permitted twoWriterHeader call ∧
        state.SafeCall twoWriterHeader call ∧ state.Steady twoWriterHeader 0 call)
      (.created twoWriterHeader zeroArea zeroData) comesBetweenRefreshes).any
        (fun last : LogBuffer =>
          decide (last.threadsOf 0 = [0]) &&
          decide (last.area.writerTrailing twoWriterHeader 0 = true ∧ last.Unread 0 0) &&
          (LogBuffer.refreshAll twoWriterHeader 0 (last.threadsOf 0) last).all fun refreshed =>
            !decide (refreshed.Caches twoWriterHeader 0 0)) = true := by
    decide +kernel
  rcases Run.of_exec_any executes with ⟨last, run, final⟩
  simp only [Bool.and_eq_true, decide_eq_true_eq] at final
  rcases final with ⟨⟨threads, trailing, unread⟩, absent⟩
  refine ⟨last, run, ⟨fun _ => rfl, fun _ _ => rfl⟩, threads, trailing, unread, ?_⟩
  rintro ⟨refreshed, all, found⟩
  rw [all] at absent
  have cached := found 0 (by decide) trailing unread
  rw [Option.all_some, decide_eq_true cached] at absent
  cases absent

end FipsIpc.FipsBuf
