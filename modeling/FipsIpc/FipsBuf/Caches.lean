import FipsIpc.FipsBuf.Balance
import FipsIpc.FipsBuf.Partition

/-!
Contract: what a reader thread has cached of its assignment.

Owns: the pointer arrays of `fips_buf_thread_arg_t` and the pointer form of
`update_cached_reader_values`, its agreement with the form over segment indices,
and the coherence of every cache whose generation is the present one, over runs
of attach, detach and refresh calls in any order.

A thread argument is zeroed memory, or one that a thread of the same process has
detached with: `fips_buf_attach` allocates new arrays and leaves the counts and
the generation as they are.  Following a null pointer of such an array has
undefined behaviour.

`assignment_generation` is a 64-bit counter of attach and detach calls.  The
fast path of `fips_buf_read` trusts it; the source notes that it should never
wrap around.

Does not own: reading lines from the cached segments.
-/

set_option autoImplicit false

namespace FipsIpc.FipsBuf

open FipsIpc.Lib

/-! ### A refresh over segment indices -/

/-- The cache holds the segments `assigned` and then `trailing`. -/
structure ReaderCache.Lists (hdr : Header) (assigned trailing : List Nat) (cache : ReaderCache) :
    Prop where
  currentSegment : cache.currentSegment = fillCache hdr (assigned ++ trailing)
  assignedReaderCount : cache.assignedReaderCount = assigned.length
  trailingBuffersCount : cache.trailingBuffersCount = trailing.length
  distinct : (assigned ++ trailing).Nodup
  inside : ∀ segment ∈ assigned ++ trailing, segment < hdr.segmentCount

/-- The flag of a segment is `FIPS_BUF_FLAG_TRAILING`. -/
def AssignmentArea.writerTrailing (area : AssignmentArea) (hdr : Header) (segment : Nat) : Bool :=
  area.writerAssignment hdr segment == fipsBufFlagTrailing

/-- A list of different segments is not longer than the buffer. -/
theorem length_le_segmentCount {hdr : Header} {segments : List Nat} (distinct : segments.Nodup)
    (inside : ∀ segment ∈ segments, segment < hdr.segmentCount) :
    segments.length ≤ hdr.segmentCount := by
  have subset : segments ⊆ List.range hdr.segmentCount :=
    fun segment member => List.mem_range.mpr (inside segment member)
  simpa using (List.subperm_of_subset distinct subset).length_le

theorem mapM_id_map_some (segments : List Nat) :
    (segments.map some).mapM id = some segments := by
  induction segments with
  | nil => rfl
  | cons segment rest inductionHypothesis =>
      rw [List.map_cons, List.mapM_cons, inductionHypothesis]
      rfl

namespace ReaderCache.Lists

variable {hdr : Header} {area : AssignmentArea} {assigned trailing : List Nat} {cache : ReaderCache}

/-- The entries in use. -/
theorem take_eq (lists : cache.Lists hdr assigned trailing) :
    cache.currentSegment.take (cache.assignedReaderCount + cache.trailingBuffersCount) =
      (assigned ++ trailing).map some := by
  rw [lists.currentSegment, lists.assignedReaderCount, lists.trailingBuffersCount, fillCache,
    ← List.length_append]
  exact List.take_left' (List.length_map _)

theorem trailingEntries_eq (lists : cache.Lists hdr assigned trailing) :
    trailingEntries hdr area cache =
      some ((assigned ++ trailing).filter (area.writerTrailing hdr)) := by
  rw [trailingEntries, lists.take_eq, mapM_id_map_some]
  rfl

end ReaderCache.Lists

namespace AssignmentArea

variable {hdr : Header} {area : AssignmentArea}

theorem mem_resolve {window : Nat × Nat} {segment : Nat}
    (member : segment ∈ area.resolve hdr window) :
    segment < hdr.segmentCount ∧ area.writerInUse hdr segment = true := by
  have kept := List.mem_filter.mp (List.mem_of_mem_take member)
  exact ⟨List.mem_range.mp kept.1, (Bool.and_eq_true _ _ ▸ kept.2).2⟩

theorem nodup_resolve (window : Nat × Nat) : (area.resolve hdr window).Nodup :=
  (List.nodup_range.filter _).sublist (List.take_sublist _ _)

/-- No segment is in use and trailing. -/
theorem not_inUse_of_trailing {segment : Nat} (trailing : area.writerTrailing hdr segment = true) :
    area.writerInUse hdr segment ≠ true := by
  intro used
  simp only [writerTrailing, writerInUse, beq_iff_eq] at trailing used
  exact absurd (used.symm.trans trailing) (by decide)

/-- The scan of a refresh finds the segments of the slot. -/
def SlotScans (hdr : Header) (area : AssignmentArea) (slot : Nat) : Prop :=
  pickSegments hdr area (hdr.segmentCount + (area.assignments slot).count)
      (area.assignments slot).startSegment (area.assignments slot).count =
    (area.resolve hdr (area.assignments slot).window, true)

theorem length_pickSegments {fuel segment count : Nat} {segments : List Nat}
    (found : pickSegments hdr area fuel segment count = (segments, true)) :
    segments.length = count := by
  induction fuel generalizing segment count segments with
  | zero =>
      cases count with
      | zero => cases found; rfl
      | succ count => cases found
  | succ fuel inductionHypothesis =>
      cases count with
      | zero => cases found; rfl
      | succ count =>
          unfold pickSegments at found
          split at found
          · have parts := Prod.mk.inj found
            rw [← parts.1, List.length_cons]
            exact congrArg Nat.succ (inductionHypothesis (Prod.ext rfl parts.2))
          · split at found
            · cases found
            · exact inductionHypothesis found

/-- Without writers every slot in use is empty. -/
theorem AssignedRow.windows_of_no_writers {reader : Nat} (assigned : area.AssignedRow hdr reader)
    (none : area.getWriterThreadCount hdr = 0) {window : Nat × Nat}
    (member : window ∈ area.threadWindows hdr reader) : window = (0, 0) := by
  have threads : 1 ≤ area.getReaderThreadCount hdr reader := by
    rw [← area.length_threadWindows hdr]
    exact List.length_pos_of_mem member
  have step : area.rowStep hdr (area.getReaderThreadCount hdr reader) =
      fun state => ((0, 0), state) := by
    unfold rowStep
    dsimp only
    rw [if_pos (by omega)]
  rw [assigned threads, step] at member
  have empty : ∀ (count : Nat) (state : LoopState),
      ∀ window ∈ handedOut (fun state => ((0, 0), state)) count state, window = (0, 0) := by
    intro count state
    induction count with
    | zero => exact fun window absent => absurd absent List.not_mem_nil
    | succ count inductionHypothesis =>
        intro window listed
        rcases List.mem_cons.mp listed with first | later
        · exact first
        · exact inductionHypothesis window later
  exact empty _ _ window member

theorem window_mem_threadWindows {reader thread : Nat} (inside : thread < hdr.maxReaderThreadCount)
    (used : (area.assignments (hdr.slot reader thread)).inUse = true) :
    (area.assignments (hdr.slot reader thread)).window ∈ area.threadWindows hdr reader := by
  apply List.mem_map_of_mem
  rw [List.mem_filter]
  exact ⟨List.mem_map_of_mem (mem_rowSlots.mpr ⟨thread, inside, rfl⟩), used⟩

/-- After a redistribution both scans read every stored pair back, with or
without writers. -/
theorem AssignedRow.scans {reader : Nat} (assigned : area.AssignedRow hdr reader) :
    area.ScansResolve hdr reader := by
  intro window member
  rcases Nat.eq_zero_or_pos (area.getWriterThreadCount hdr) with none | segments
  · rw [assigned.windows_of_no_writers none member]
    refine ⟨?_, fun threadIndex => ?_⟩
    · cases hdr.segmentCount + 0 <;> rfl
    · cases (List.range hdr.segmentCount).drop 0 <;> rfl
  · have threads : 1 ≤ area.getReaderThreadCount hdr reader := by
      rw [← area.length_threadWindows hdr]
      exact List.length_pos_of_mem member
    exact assigned.scansResolve threads segments window member

theorem AssignedRow.slotScans {reader thread : Nat} (assigned : area.AssignedRow hdr reader)
    (inside : thread < hdr.maxReaderThreadCount)
    (used : (area.assignments (hdr.slot reader thread)).inUse = true) :
    area.SlotScans hdr (hdr.slot reader thread) :=
  (assigned.scans _ (window_mem_threadWindows inside used)).1

end AssignmentArea

/-- A refresh keeps the cached segments that are trailing behind the present
assignment. -/
theorem ReaderCache.Lists.refresh {hdr : Header} {area : AssignmentArea} {slot : Nat}
    {assigned trailing : List Nat} {cache : ReaderCache}
    (lists : cache.Lists hdr assigned trailing) (scans : area.SlotScans hdr slot) :
    ∃ next, updateCachedReaderValues hdr area (some slot) cache = some (fipsBufSuccess, next) ∧
      next.Lists hdr (area.resolve hdr (area.assignments slot).window)
        ((assigned ++ trailing).filter (area.writerTrailing hdr)) ∧
      next.generation = area.generation := by
  set resolved := area.resolve hdr (area.assignments slot).window with resolvedDef
  set kept := (assigned ++ trailing).filter (area.writerTrailing hdr) with keptDef
  have count : resolved.length = (area.assignments slot).count :=
    AssignmentArea.length_pickSegments scans
  have distinct : (resolved ++ kept).Nodup := by
    refine (area.nodup_resolve _).append (lists.distinct.filter _) ?_
    intro segment first second
    exact AssignmentArea.not_inUse_of_trailing (List.mem_filter.mp second).2
      (AssignmentArea.mem_resolve first).2
  have inside : ∀ segment ∈ resolved ++ kept, segment < hdr.segmentCount := by
    intro segment member
    rcases List.mem_append.mp member with first | second
    · exact (AssignmentArea.mem_resolve first).1
    · exact lists.inside segment (List.mem_of_mem_filter second)
  have room := length_le_segmentCount distinct inside
  rw [List.length_append] at room
  have byte : (area.assignments slot).count % 2 ^ 8 = resolved.length := by
    rw [count]
    exact Nat.mod_eq_of_lt (by have := hdr.segmentCount_lt; omega)
  have noOverrun : ¬(resolved.length > hdr.segmentCount ∨
      ∃ segment ∈ resolved, segment ≥ hdr.segmentCount) := by
    rintro (long | ⟨segment, member, outside⟩)
    · omega
    · exact absurd (inside segment (List.mem_append_left _ member)) (Nat.not_lt.mpr outside)
  refine ⟨⟨fillCache hdr (resolved ++ kept), resolved.length, kept.length, area.generation⟩, ?_,
    ⟨rfl, rfl, rfl, distinct, inside⟩, rfl⟩
  unfold AssignmentArea.SlotScans at scans
  rw [← resolvedDef] at scans
  simp only [updateCachedReaderValues, lists.trailingEntries_eq, scans, byte, ← keptDef,
    Option.bind_eq_bind, Option.bind_some]
  rw [if_neg noOverrun, if_neg (by decide), if_neg (by omega)]

/-! ### Pointers -/

/-- The offset of the pointer pair of `readerIndex` in a segment of the chain. -/
def ShmMemory.readerOffset (memory : ShmMemory) (header : ShmHeader) (readerIndex segment : Nat) :
    Nat :=
  header.getReader (memory.segmentAt (memory.chainOffset header segment)).readersOffset readerIndex

/-- The cache of `fips_buf_thread_arg_t` as it is stored: offsets of segment
headers and of pointer pairs, `none` for a null pointer. -/
structure ReaderArrays where
  currentSegment : List (Option Nat)
  assignedIndex : List (Option Nat)
  assignedReaderCount : Nat
  trailingBuffersCount : Nat
  generation : Nat
deriving DecidableEq

namespace ReaderArrays

/-- A zeroed thread argument. -/
def zero : ReaderArrays := ⟨[], [], 0, 0, 0⟩

/-- The argument after `fips_buf_attach` has allocated its arrays. -/
def allocate (hdr : Header) (arrays : ReaderArrays) : ReaderArrays :=
  { arrays with
    currentSegment := List.replicate hdr.segmentCount none
    assignedIndex := List.replicate hdr.segmentCount none }

def cachedCount (arrays : ReaderArrays) : Nat :=
  arrays.assignedReaderCount + arrays.trailingBuffersCount

end ReaderArrays

/-- `tmp_segments` and `tmp_pointers`: the cached entries whose segment says
that it is trailing. -/
def trailingPointers (hdr : Header) (memory : ShmMemory) (area : AssignmentArea)
    (arrays : ReaderArrays) : Option (List (Nat × Option Nat)) :=
  (((arrays.currentSegment.zip arrays.assignedIndex).take arrays.cachedCount).mapM
    fun entry : Option Nat × Option Nat => entry.1.map fun segment => (segment, entry.2)).map
      fun entries =>
        entries.filter fun entry => area.writerTrailing hdr (memory.segmentAt entry.1).index

/-- An array filled from the start, null after that. -/
def fillPointers (hdr : Header) (entries : List (Option Nat)) : List (Option Nat) :=
  entries ++ List.replicate (hdr.segmentCount - entries.length) none

/-- `update_cached_reader_values` on the arrays of a thread of process
`readerIndex`. -/
def updateCachedReaderArrays (hdr : Header) (header : ShmHeader) (memory : ShmMemory)
    (area : AssignmentArea) (readerIndex : Nat) (slot : Option Nat) (arrays : ReaderArrays) :
    Option (Int × ReaderArrays) :=
  match slot with
  | none => some (-1, arrays)
  | some slot => do
      let assignment := area.assignments slot
      let trailing ← trailingPointers hdr memory area arrays
      let picked := pickSegments hdr area (hdr.segmentCount + assignment.count)
        assignment.startSegment assignment.count
      let segments := picked.1.map fun segment => some (memory.chainOffset header segment)
      let indices := picked.1.map fun segment =>
        some (memory.readerOffset header readerIndex segment)
      if picked.1.length > hdr.segmentCount ∨ ∃ segment ∈ picked.1, segment ≥ hdr.segmentCount then
        none
      else if picked.2 = false then
        some (fipsBufErrorCorrupted,
          { arrays with
            currentSegment := fillPointers hdr segments
            assignedIndex := fillPointers hdr indices
            assignedReaderCount := assignment.count % 2 ^ 8 })
      else if picked.1.length + trailing.length > hdr.segmentCount then none
      else
        some (fipsBufSuccess,
          { currentSegment := fillPointers hdr (segments ++ trailing.map fun entry => some entry.1)
            assignedIndex := fillPointers hdr (indices ++ trailing.map Prod.snd)
            assignedReaderCount := assignment.count % 2 ^ 8
            trailingBuffersCount := trailing.length
            generation := area.generation })

/-- The arrays that stand for a cache of segment indices. -/
def ReaderCache.pointers (memory : ShmMemory) (header : ShmHeader) (readerIndex : Nat)
    (cache : ReaderCache) : ReaderArrays where
  currentSegment := cache.currentSegment.map (Option.map (memory.chainOffset header))
  assignedIndex := cache.currentSegment.map (Option.map (memory.readerOffset header readerIndex))
  assignedReaderCount := cache.assignedReaderCount
  trailingBuffersCount := cache.trailingBuffersCount
  generation := cache.generation

/-- Every segment of the chain carries its own number. -/
def ShmMemory.Linked (memory : ShmMemory) (header : ShmHeader) (segmentCount : Nat) : Prop :=
  ∀ segment < segmentCount,
    (memory.segmentAt (memory.chainOffset header segment)).index = segment

section Pointers

variable {hdr : Header} {header : ShmHeader} {memory : ShmMemory} {area : AssignmentArea}
  {readerIndex : Nat}

theorem ShmMemory.Linked.chainOffset_inj (linked : memory.Linked header hdr.segmentCount)
    {left right : Nat} (leftInside : left < hdr.segmentCount)
    (rightInside : right < hdr.segmentCount)
    (same : memory.chainOffset header left = memory.chainOffset header right) : left = right := by
  rw [← linked left leftInside, same, linked right rightInside]

/-- `setup_shm` numbers the segments along the chain. -/
theorem ShmMemory.linked_setupMemory (arg : FipsBufArg) (memory : ShmMemory) :
    (setupMemory arg memory).Linked (setupHeader arg) arg.maxSegmentCount.toNat := by
  intro segment inside
  rw [chainOffset_setupMemory memory inside]
  exact (setupMemory_setUp memory inside).index_eq

theorem mapM_map_option {Value : Type} (image : Nat → Value) (entries : List (Option Nat)) :
    (entries.mapM fun entry => entry.map image) = (entries.mapM id).map (List.map image) := by
  induction entries with
  | nil => rfl
  | cons entry rest inductionHypothesis =>
      rw [List.mapM_cons, List.mapM_cons, inductionHypothesis]
      cases entry with
      | none => rfl
      | some segment => cases rest.mapM id <;> rfl

theorem mem_of_mapM_id {entries : List (Option Nat)} {segments : List Nat}
    (all : entries.mapM id = some segments) {segment : Nat} (member : segment ∈ segments) :
    some segment ∈ entries := by
  induction entries generalizing segments with
  | nil =>
      cases all
      exact absurd member List.not_mem_nil
  | cons entry rest inductionHypothesis =>
      rw [List.mapM_cons] at all
      cases entry with
      | none => cases all
      | some first =>
          cases later : rest.mapM id with
          | none =>
              rw [later] at all
              cases all
          | some others =>
              rw [later] at all
              cases all
              rcases List.mem_cons.mp member with here | there
              · rw [here]
                exact List.mem_cons_self
              · exact List.mem_cons_of_mem _ (inductionHypothesis later there)

theorem fillPointers_map (segments : List Nat) (offset : Nat → Nat) :
    fillPointers hdr (segments.map fun segment => some (offset segment)) =
      (fillCache hdr segments).map (Option.map offset) := by
  simp [fillPointers, fillCache, Function.comp_def]

theorem trailingPointers_pointers (linked : memory.Linked header hdr.segmentCount)
    {cache : ReaderCache}
    (inside : ∀ segment, some segment ∈ cache.currentSegment → segment < hdr.segmentCount) :
    trailingPointers hdr memory area (cache.pointers memory header readerIndex) =
      (trailingEntries hdr area cache).map (List.map fun segment =>
        (memory.chainOffset header segment,
          some (memory.readerOffset header readerIndex segment))) := by
  have entries : (((cache.pointers memory header readerIndex).currentSegment.zip
      (cache.pointers memory header readerIndex).assignedIndex).take
        (cache.assignedReaderCount + cache.trailingBuffersCount)).mapM
          (fun entry => entry.1.map fun segment => (segment, entry.2)) =
      ((cache.currentSegment.take
        (cache.assignedReaderCount + cache.trailingBuffersCount)).mapM id).map
          (List.map fun segment => (memory.chainOffset header segment,
            some (memory.readerOffset header readerIndex segment))) := by
    rw [← mapM_map_option]
    simp only [ReaderCache.pointers, List.zip_map', ← List.map_take, List.mapM_map]
    congr 1
    funext entry
    cases entry <;> rfl
  unfold trailingPointers trailingEntries ReaderArrays.cachedCount
  dsimp only [ReaderCache.pointers] at entries ⊢
  rw [entries]
  cases all : (cache.currentSegment.take
      (cache.assignedReaderCount + cache.trailingBuffersCount)).mapM id with
  | none => rfl
  | some segments =>
      simp only [Option.map_some, Option.some.injEq, List.filter_map, Function.comp_def]
      congr 1
      apply List.filter_congr
      intro segment member
      have listed := List.mem_of_mem_take (mem_of_mapM_id all member)
      rw [linked segment (inside segment listed)]
      rfl

/-- The pointer form of a refresh does what the form over indices does. -/
theorem updateCachedReaderArrays_pointers (linked : memory.Linked header hdr.segmentCount)
    (slot : Option Nat) {cache : ReaderCache}
    (inside : ∀ segment, some segment ∈ cache.currentSegment → segment < hdr.segmentCount) :
    updateCachedReaderArrays hdr header memory area readerIndex slot
        (cache.pointers memory header readerIndex) =
      (updateCachedReaderValues hdr area slot cache).map fun result =>
        (result.1, result.2.pointers memory header readerIndex) := by
  cases slot with
  | none => rfl
  | some slot =>
      unfold updateCachedReaderArrays updateCachedReaderValues
      dsimp only
      rw [trailingPointers_pointers linked inside]
      cases trailingEntries hdr area cache with
      | none => rfl
      | some trailing =>
          simp only [Option.map_some, Option.bind_eq_bind, Option.bind_some, List.length_map,
            List.map_map, Function.comp_def, ← List.map_append, fillPointers_map]
          split
          · rfl
          · split
            · rfl
            · split
              · rfl
              · rfl

end Pointers

/-! ### Runs -/

/-- The attached threads, the thread argument behind every assignment slot, and
the arguments that threads of a process have detached with. -/
structure CachedBuffer where
  attachments : Attachments
  arrays : Nat → ReaderArrays
  released : List (Nat × ReaderArrays)

inductive CacheCall where
  | attach (role : Role) (arg : ReaderArrays)
  | detach (role : Role) (threadIndex : Nat)
  | refresh (reader thread : Nat)

namespace CachedBuffer

variable (hdr : Header) (header : ShmHeader) (memory : ShmMemory) (state : CachedBuffer)

/-- A buffer that no thread has attached to. -/
def created (area : AssignmentArea) : CachedBuffer := ⟨⟨area, []⟩, fun _ => .zero, []⟩

/-- A new thread with its argument. -/
def addThread (role : Role) (threadIndex : Nat) (area : AssignmentArea) (arg : ReaderArrays) :
    CachedBuffer where
  attachments := ⟨area, (role, threadIndex) :: state.attachments.threads⟩
  arrays :=
    match role with
    | .writer => state.arrays
    | .reader reader =>
        Function.update state.arrays (hdr.slot reader threadIndex) (arg.allocate hdr)
  released :=
    match role with
    | .writer => state.released
    | .reader reader => state.released.erase (reader, arg)

/-- A thread leaves; its argument can be used again. -/
def removeThread (role : Role) (threadIndex : Nat) : CachedBuffer where
  attachments := ⟨fipsBufDetach hdr state.attachments.area role threadIndex,
    state.attachments.threads.erase (role, threadIndex)⟩
  arrays := state.arrays
  released :=
    match role with
    | .writer => state.released
    | .reader reader =>
        (reader, state.arrays (hdr.slot reader threadIndex)) :: state.released

def step : CacheCall → Option CachedBuffer
  | .attach role arg =>
      match fipsBufAttach hdr state.attachments.area role with
      | .ok (threadIndex, area) => some (state.addThread hdr role threadIndex area arg)
      | .error _ => some state
  | .detach role threadIndex => some (state.removeThread hdr role threadIndex)
  | .refresh reader thread =>
      let slot := hdr.slot reader thread
      (updateCachedReaderArrays hdr header memory state.attachments.area reader (some slot)
        (state.arrays slot)).map fun result =>
          { state with arrays := Function.update state.arrays slot result.2 }

/-- Attach finds a free slot within its bound, with an argument that is zeroed
or released; only attached threads detach and refresh. -/
def Permitted : CacheCall → Prop
  | .attach role arg =>
      AttachCall.InBounds hdr state.attachments (.attach role) ∧
        ∀ reader, role = .reader reader → arg = .zero ∨ (reader, arg) ∈ state.released
  | .detach role threadIndex => (role, threadIndex) ∈ state.attachments.threads
  | .refresh reader thread => (.reader reader, thread) ∈ state.attachments.threads

/-- The call does not take `assignment_generation` past its 64 bits. -/
def NoWrap : CacheCall → Prop
  | .refresh .. => True
  | _ => state.attachments.area.generation + 1 < 2 ^ 64

/-- The cache of a thread shows its assignment under the present flags. -/
structure Coherent (reader thread : Nat) : Prop where
  segments :
    let arrays := state.arrays (hdr.slot reader thread)
    arrays.currentSegment.take arrays.assignedReaderCount =
      (state.attachments.area.resolve hdr
        (state.attachments.area.assignments (hdr.slot reader thread)).window).map fun segment =>
          some (memory.chainOffset header segment)
  pointers :
    let arrays := state.arrays (hdr.slot reader thread)
    arrays.assignedIndex.take arrays.assignedReaderCount =
      (state.attachments.area.resolve hdr
        (state.attachments.area.assignments (hdr.slot reader thread)).window).map fun segment =>
          some (memory.readerOffset header reader segment)
  distinct :
    let arrays := state.arrays (hdr.slot reader thread)
    (arrays.currentSegment.take arrays.cachedCount).Nodup
  short : (state.arrays (hdr.slot reader thread)).cachedCount ≤ hdr.segmentCount

end CachedBuffer

/-! ### The generation -/

namespace AssignmentArea

variable (hdr : Header) (area : AssignmentArea)

theorem setWriterAssignment_generation (index flag : Nat) :
    (area.setWriterAssignment hdr index flag).generation = area.generation := by
  unfold setWriterAssignment
  split <;> rfl

theorem addFlagAffectedReaders_generation (threadIndex flags : Nat) (slots : List Nat)
    (affectedReaders : Nat) :
    (addFlagAffectedReaders hdr threadIndex flags slots affectedReaders area).2.generation =
      area.generation := by
  induction slots generalizing affectedReaders area with
  | nil => rfl
  | cons slot rest inductionHypothesis =>
      have flagged : ∀ (count : Nat) (assignment : Assignment),
          (if count = 0 then area else area.setAssignment slot assignment).generation =
            area.generation := by
        intro count assignment
        split <;> rfl
      unfold addFlagAffectedReaders
      dsimp only
      split
      · split
        · rw [inductionHypothesis]
          exact flagged _ _
        · exact flagged _ _
      · exact inductionHypothesis _ _

theorem fipsBufDetach_generation (role : Role) (threadIndex : Nat) :
    (fipsBufDetach hdr area role threadIndex).generation = (area.generation + 1) % 2 ^ 64 := by
  cases role with
  | reader reader => rfl
  | writer =>
      show ((setWriterAssignment hdr _ threadIndex _).generation + 1) % 2 ^ 64 = _
      rw [setWriterAssignment_generation, addFlagAffectedReaders_generation]

theorem occupySlot_generation (role : Role) (index : Nat) :
    (occupySlot hdr area role index).generation = area.generation := by
  cases role with
  | reader reader => rfl
  | writer => exact setWriterAssignment_generation hdr area _ _

end AssignmentArea

/-! ### One thread -/

/-- The arrays hold the segments `assigned` and then `trailing`. -/
def ReaderArrays.Shows (hdr : Header) (header : ShmHeader) (memory : ShmMemory) (reader : Nat)
    (assigned trailing : List Nat) (arrays : ReaderArrays) : Prop :=
  ∃ cache : ReaderCache, cache.Lists hdr assigned trailing ∧
    cache.pointers memory header reader = arrays

namespace ReaderArrays.Shows

variable {hdr : Header} {header : ShmHeader} {memory : ShmMemory} {reader : Nat}
  {assigned trailing : List Nat} {arrays : ReaderArrays}

theorem cachedCount_eq (shows_ : arrays.Shows hdr header memory reader assigned trailing) :
    arrays.cachedCount = (assigned ++ trailing).length := by
  rcases shows_ with ⟨cache, lists, rfl⟩
  rw [List.length_append, ← lists.assignedReaderCount, ← lists.trailingBuffersCount]
  rfl

theorem cachedCount_le (shows_ : arrays.Shows hdr header memory reader assigned trailing) :
    arrays.cachedCount ≤ hdr.segmentCount := by
  rw [shows_.cachedCount_eq]
  rcases shows_ with ⟨cache, lists, rfl⟩
  exact length_le_segmentCount lists.distinct lists.inside

theorem currentSegment_eq (shows_ : arrays.Shows hdr header memory reader assigned trailing) :
    arrays.currentSegment = fillPointers hdr ((assigned ++ trailing).map fun segment =>
      some (memory.chainOffset header segment)) := by
  rcases shows_ with ⟨cache, lists, rfl⟩
  rw [fillPointers_map, ← lists.currentSegment]
  rfl

theorem assignedIndex_eq (shows_ : arrays.Shows hdr header memory reader assigned trailing) :
    arrays.assignedIndex = fillPointers hdr ((assigned ++ trailing).map fun segment =>
      some (memory.readerOffset header reader segment)) := by
  rcases shows_ with ⟨cache, lists, rfl⟩
  rw [fillPointers_map, ← lists.currentSegment]
  rfl

theorem take_assigned (shows_ : arrays.Shows hdr header memory reader assigned trailing)
    (offset : Nat → Nat) :
    (fillPointers hdr ((assigned ++ trailing).map fun segment => some (offset segment))).take
        arrays.assignedReaderCount = assigned.map fun segment => some (offset segment) := by
  have count : arrays.assignedReaderCount = assigned.length := by
    rcases shows_ with ⟨cache, lists, rfl⟩
    exact lists.assignedReaderCount
  rw [fillPointers, List.map_append, List.append_assoc, count]
  exact List.take_left' (List.length_map _)

/-- A refresh of arrays that show segments. -/
theorem refresh {area : AssignmentArea} {slot : Nat}
    (linked : memory.Linked header hdr.segmentCount)
    (shows_ : arrays.Shows hdr header memory reader assigned trailing)
    (scans : area.SlotScans hdr slot) :
    ∃ next, updateCachedReaderArrays hdr header memory area reader (some slot) arrays =
        some (fipsBufSuccess, next) ∧
      next.Shows hdr header memory reader (area.resolve hdr (area.assignments slot).window)
        ((assigned ++ trailing).filter (area.writerTrailing hdr)) ∧
      next.generation = area.generation := by
  rcases shows_ with ⟨cache, lists, rfl⟩
  have inside : ∀ segment, some segment ∈ cache.currentSegment → segment < hdr.segmentCount := by
    intro segment member
    rw [lists.currentSegment, fillCache, List.mem_append, List.mem_map] at member
    rcases member with ⟨same, listed, equal⟩ | null
    · cases equal
      exact lists.inside _ listed
    · cases List.eq_of_mem_replicate null
  rcases lists.refresh scans with ⟨next, updated, nextLists, generation⟩
  refine ⟨next.pointers memory header reader, ?_, ⟨next, nextLists, rfl⟩, generation⟩
  rw [updateCachedReaderArrays_pointers linked _ inside, updated]
  rfl

end ReaderArrays.Shows

/-- New arrays are empty, or a refresh follows a null pointer. -/
theorem ReaderArrays.shows_of_allocate {hdr : Header} {header : ShmHeader} {memory : ShmMemory}
    {area : AssignmentArea} {reader slot : Nat} {arrays : ReaderArrays}
    {result : Int × ReaderArrays}
    (new : arrays.allocate hdr = arrays) (short : arrays.cachedCount ≤ hdr.segmentCount)
    (returns : updateCachedReaderArrays hdr header memory area reader (some slot) arrays =
      some result) : arrays.Shows hdr header memory reader [] [] := by
  have nulls : arrays.currentSegment = List.replicate hdr.segmentCount none ∧
      arrays.assignedIndex = List.replicate hdr.segmentCount none := by
    rw [← new]
    exact ⟨rfl, rfl⟩
  have empty : arrays.cachedCount = 0 := by
    by_contra some_
    have crash : trailingPointers hdr memory area arrays = none := by
      rcases Nat.exists_eq_succ_of_ne_zero some_ with ⟨count, isCount⟩
      rcases Nat.exists_eq_succ_of_ne_zero (by omega : hdr.segmentCount ≠ 0) with ⟨size, isSize⟩
      rw [trailingPointers, nulls.1, nulls.2, isCount, isSize]
      rfl
    simp only [updateCachedReaderArrays, crash] at returns
    cases returns
  have counts : arrays.assignedReaderCount = 0 ∧ arrays.trailingBuffersCount = 0 := by
    unfold ReaderArrays.cachedCount at empty
    omega
  refine ⟨⟨fillCache hdr [], 0, 0, arrays.generation⟩, ⟨rfl, rfl, rfl, List.nodup_nil, ?_⟩, ?_⟩
  · intro segment absent
    exact absurd absent List.not_mem_nil
  · rcases arrays with ⟨currentSegment, assignedIndex, assignedCount, trailingCount, generation⟩
    rcases nulls with ⟨rfl, rfl⟩
    rcases counts with ⟨rfl, rfl⟩
    simp [ReaderCache.pointers, fillCache]

/-- The invariant of one thread: its generation is not ahead, and if it is the
present one then the arrays show the present assignment. -/
structure ReaderArrays.Inv (hdr : Header) (header : ShmHeader) (memory : ShmMemory)
    (area : AssignmentArea) (reader slot : Nat) (arrays : ReaderArrays) : Prop where
  notAhead : arrays.generation ≤ area.generation
  short : arrays.cachedCount ≤ hdr.segmentCount
  filled : arrays.allocate hdr = arrays ∨
    ∃ assigned trailing, arrays.Shows hdr header memory reader assigned trailing
  present : arrays.generation = area.generation → ∃ trailing,
    arrays.Shows hdr header memory reader (area.resolve hdr (area.assignments slot).window) trailing

namespace ReaderArrays.Inv

variable {hdr : Header} {header : ShmHeader} {memory : ShmMemory} {area next : AssignmentArea}
  {reader slot : Nat} {arrays : ReaderArrays}

/-- A later generation makes every cache old. -/
theorem later (inv : arrays.Inv hdr header memory area reader slot)
    (newer : area.generation < next.generation) :
    arrays.Inv hdr header memory next reader slot where
  notAhead := inv.notAhead.trans newer.le
  short := inv.short
  filled := inv.filled
  present same := absurd same (Nat.ne_of_lt (inv.notAhead.trans_lt newer))

theorem refresh (linked : memory.Linked header hdr.segmentCount)
    (inv : arrays.Inv hdr header memory area reader slot) (scans : area.SlotScans hdr slot)
    {result : Int × ReaderArrays}
    (returns : updateCachedReaderArrays hdr header memory area reader (some slot) arrays =
      some result) : result.2.Inv hdr header memory area reader slot := by
  have shown : ∃ assigned trailing, arrays.Shows hdr header memory reader assigned trailing := by
    rcases inv.filled with new | shown
    · exact ⟨[], [], ReaderArrays.shows_of_allocate new inv.short returns⟩
    · exact shown
  rcases shown with ⟨assigned, trailing, shows_⟩
  rcases shows_.refresh linked scans with ⟨after, updated, afterShows, generation⟩
  rw [updated] at returns
  cases returns
  exact ⟨generation.le, afterShows.cachedCount_le, Or.inr ⟨_, _, afterShows⟩,
    fun _ => ⟨_, afterShows⟩⟩

end ReaderArrays.Inv

/-! ### The whole buffer -/

/-- With a free slot within the bound, attach takes one. -/
theorem fipsBufAttach_inBounds {hdr : Header} {state : Attachments} (owned : state.Owned hdr)
    {role : Role} (inBounds : AttachCall.InBounds hdr state (.attach role)) :
    ∃ index < hdr.roleBound role, FreeSlot hdr state.area role index ∧
      fipsBufAttach hdr state.area role =
        .ok (index, (occupySlot hdr state.area role index).republish hdr) := by
  rcases inBounds with ⟨exists_, free, inside, isFree⟩
  rcases fipsBufAttach_cases owned exists_ with found | ⟨none, _⟩
  · exact found
  · exact absurd isFree (none free inside)

namespace CachedBuffer

variable {hdr : Header} {header : ShmHeader} {memory : ShmMemory} {state next : CachedBuffer}
  {call : CacheCall}

theorem step_attach {role : Role} {index : Nat} {area : AssignmentArea}
    (attached : fipsBufAttach hdr state.attachments.area role = .ok (index, area))
    (arg : ReaderArrays) :
    state.step hdr header memory (.attach role arg) =
      some (state.addThread hdr role index area arg) := by
  simp only [step, attached]

/-- The invariant of runs without wrapping. -/
structure Inv (hdr : Header) (header : ShmHeader) (memory : ShmMemory) (state : CachedBuffer) :
    Prop where
  owned : state.attachments.Owned hdr
  assigned : ∀ reader < hdr.readerCount, state.attachments.Assigned hdr reader
  threads : ∀ reader thread, (Role.reader reader, thread) ∈ state.attachments.threads →
    (state.arrays (hdr.slot reader thread)).Inv hdr header memory state.attachments.area reader
      (hdr.slot reader thread)
  released : ∀ entry ∈ state.released,
    entry.2.generation ≤ state.attachments.area.generation ∧
      entry.2.cachedCount ≤ hdr.segmentCount

namespace Inv

theorem created {area : AssignmentArea} (created : hdr.CreatedArea area) :
    (CachedBuffer.created area).Inv hdr header memory where
  owned := .created created
  assigned _ exists_ := .created created exists_
  threads _ _ absent := absurd absent List.not_mem_nil
  released _ absent := absurd absent List.not_mem_nil

/-- A thread attaches to a free slot. -/
theorem addThread (inv : state.Inv hdr header memory) {role : Role} {index : Nat}
    {arg : ReaderArrays} (exists_ : hdr.hasRole role) (inside : index < hdr.roleBound role)
    (free : FreeSlot hdr state.attachments.area role index)
    (usable : ∀ reader, role = .reader reader → arg = .zero ∨ (reader, arg) ∈ state.released)
    (room : state.attachments.area.generation + 1 < 2 ^ 64) :
    (state.addThread hdr role index
      ((occupySlot hdr state.attachments.area role index).republish hdr) arg).Inv
        hdr header memory := by
  have owned := inv.owned.occupy exists_ inside free
  have generation : ((occupySlot hdr state.attachments.area role index).republish hdr).generation =
      state.attachments.area.generation + 1 := by
    show (AssignmentArea.generation _ + 1) % 2 ^ 64 = _
    rw [AssignmentArea.occupySlot_generation]
    exact Nat.mod_eq_of_lt room
  constructor
  case owned => exact owned
  case assigned =>
    intro reader bound
    exact AssignmentArea.republish_assigned hdr _ bound
  case released =>
    intro entry member
    have before : entry ∈ state.released := by
      cases role with
      | writer => exact member
      | reader reader => exact List.mem_of_mem_erase member
    refine ⟨?_, (inv.released entry before).2⟩
    exact (inv.released entry before).1.trans (generation.symm ▸ Nat.le_succ _)
  case threads =>
    intro reader thread member
    have old : (Role.reader reader, thread) ∈ state.attachments.threads →
        (state.arrays (hdr.slot reader thread)).Inv hdr header memory
          ((occupySlot hdr state.attachments.area role index).republish hdr) reader
          (hdr.slot reader thread) := by
      intro attached
      apply (inv.threads reader thread attached).later
      rw [generation]
      exact Nat.lt_succ_self _
    cases role with
    | writer =>
        rcases List.mem_cons.mp member with new | attached
        · cases new
        · exact old attached
    | reader process =>
        show ReaderArrays.Inv hdr header memory _ reader _
          (Function.update state.arrays (hdr.slot process index) (arg.allocate hdr) _)
        by_cases new : (Role.reader reader, thread) = (Role.reader process, index)
        · cases new
          rw [Function.update_self]
          have left : arg.generation ≤ state.attachments.area.generation ∧
              arg.cachedCount ≤ hdr.segmentCount := by
            rcases usable reader rfl with rfl | again
            · exact ⟨Nat.zero_le _, Nat.zero_le _⟩
            · exact inv.released _ again
          have older : arg.generation <
              ((occupySlot hdr state.attachments.area (.reader reader) index).republish
                hdr).generation := by
            rw [generation]
            exact Nat.lt_succ_of_le left.1
          exact ⟨older.le, left.2, Or.inl rfl, fun same => absurd same (Nat.ne_of_lt older)⟩
        · have attached : (Role.reader reader, thread) ∈ state.attachments.threads :=
            (List.mem_cons.mp member).resolve_left new
          have apart : hdr.slot reader thread ≠ hdr.slot process index := by
            intro same
            have bound := ((inv.owned.threads _ _).mp attached).2.1
            rcases hdr.slot_injective bound inside same with ⟨rfl, rfl⟩
            exact new rfl
          rw [Function.update_of_ne apart]
          exact old attached

theorem removeThread (inv : state.Inv hdr header memory) {role : Role} {index : Nat}
    (attached : (role, index) ∈ state.attachments.threads)
    (room : state.attachments.area.generation + 1 < 2 ^ 64) :
    (state.removeThread hdr role index).Inv hdr header memory := by
  have generation : (fipsBufDetach hdr state.attachments.area role index).generation =
      state.attachments.area.generation + 1 := by
    rw [AssignmentArea.fipsBufDetach_generation]
    exact Nat.mod_eq_of_lt room
  constructor
  case owned => exact inv.owned.detach attached
  case assigned =>
    intro reader bound
    exact (inv.assigned reader bound).step bound
      (show attachStep hdr state.attachments (.detach role index) = _ from rfl)
  case threads =>
    intro reader thread member
    apply (inv.threads reader thread (List.mem_of_mem_erase member)).later
    exact generation.symm ▸ Nat.lt_succ_self _
  case released =>
    have later : ∀ entry ∈ state.released,
        entry.2.generation ≤ (fipsBufDetach hdr state.attachments.area role index).generation ∧
          entry.2.cachedCount ≤ hdr.segmentCount := by
      intro entry member
      rw [generation]
      exact ⟨(inv.released entry member).1.trans (Nat.le_succ _), (inv.released entry member).2⟩
    intro entry member
    cases role with
    | writer => exact later entry member
    | reader reader =>
        rcases List.mem_cons.mp member with rfl | before
        · have own := inv.threads reader index attached
          exact ⟨own.notAhead.trans (generation.symm ▸ Nat.le_succ _), own.short⟩
        · exact later entry before

/-- The scan of a refresh by an attached thread. -/
theorem slotScans (inv : state.Inv hdr header memory) {reader thread : Nat}
    (attached : (Role.reader reader, thread) ∈ state.attachments.threads) :
    state.attachments.area.SlotScans hdr (hdr.slot reader thread) := by
  have parts := (inv.owned.threads _ _).mp attached
  exact AssignmentArea.AssignedRow.slotScans (inv.assigned reader parts.1) parts.2.1 parts.2.2

theorem refresh (linked : memory.Linked header hdr.segmentCount)
    (inv : state.Inv hdr header memory) {reader thread : Nat}
    (attached : (Role.reader reader, thread) ∈ state.attachments.threads)
    {result : Int × ReaderArrays}
    (returns : updateCachedReaderArrays hdr header memory state.attachments.area reader
      (some (hdr.slot reader thread)) (state.arrays (hdr.slot reader thread)) = some result) :
    Inv hdr header memory
      { state with arrays := Function.update state.arrays (hdr.slot reader thread) result.2 } where
  owned := inv.owned
  assigned := inv.assigned
  released := inv.released
  threads reader' thread' attached' := by
    show ReaderArrays.Inv hdr header memory _ reader' _
      (Function.update state.arrays (hdr.slot reader thread) result.2 _)
    have inside := ((inv.owned.threads _ _).mp attached).2.1
    have inside' := ((inv.owned.threads _ _).mp attached').2.1
    by_cases same : hdr.slot reader' thread' = hdr.slot reader thread
    · rcases hdr.slot_injective inside' inside same with ⟨rfl, rfl⟩
      rw [Function.update_self]
      exact (inv.threads _ _ attached).refresh linked (inv.slotScans attached) returns
    · rw [Function.update_of_ne same]
      exact inv.threads _ _ attached'

/-- Every call keeps the invariant. -/
theorem step (linked : memory.Linked header hdr.segmentCount) (inv : state.Inv hdr header memory)
    (permitted : state.Permitted hdr call) (room : state.NoWrap call)
    (taken : state.step hdr header memory call = some next) : next.Inv hdr header memory := by
  cases call with
  | attach role arg =>
      rcases fipsBufAttach_inBounds inv.owned permitted.1 with ⟨index, inside, free, result⟩
      rw [step_attach result] at taken
      cases taken
      exact inv.addThread permitted.1.1 inside free permitted.2 room
  | detach role threadIndex =>
      cases taken
      exact inv.removeThread permitted room
  | refresh reader thread =>
      rcases Option.map_eq_some_iff.mp taken with ⟨result, returns, rfl⟩
      exact inv.refresh linked permitted returns

theorem coherent (linked : memory.Linked header hdr.segmentCount)
    (inv : state.Inv hdr header memory) {reader thread : Nat}
    (attached : (Role.reader reader, thread) ∈ state.attachments.threads)
    (current : (state.arrays (hdr.slot reader thread)).generation =
      state.attachments.area.generation) :
    state.Coherent hdr header memory reader thread := by
  rcases (inv.threads reader thread attached).present current with ⟨trailing, shows_⟩
  constructor
  case segments =>
    dsimp only
    rw [shows_.currentSegment_eq]
    exact shows_.take_assigned _
  case pointers =>
    dsimp only
    rw [shows_.assignedIndex_eq]
    exact shows_.take_assigned _
  case distinct =>
    dsimp only
    rw [shows_.currentSegment_eq, shows_.cachedCount_eq, fillPointers,
      List.take_left' (List.length_map _)]
    rcases shows_ with ⟨cache, lists, _⟩
    refine List.Nodup.map_on ?_ lists.distinct
    intro left leftMember right rightMember same
    exact linked.chainOffset_inj (lists.inside left leftMember) (lists.inside right rightMember)
      (Option.some.inj same)
  case short => exact shows_.cachedCount_le

end Inv

end CachedBuffer

/-- The header of a buffer with `readerCount` reader processes. -/
def FipsBufArg.toHeader (arg : FipsBufArg) (exponent : arg.lineCountExp.toNat ≤ 30)
    {readerCount : Nat} (processes : readerCount ≤ arg.maxReaderCount.toNat) : Header where
  segmentCount := arg.maxSegmentCount.toNat
  maxReaderCount := arg.maxReaderCount.toNat
  maxReaderThreadCount := arg.maxReaderThreadCount.toNat
  readerCount := readerCount
  lineCountExp := arg.lineCountExp.toNat
  lineSize := arg.lineSize.toNat
  maxSqeCount := arg.maxSqeCount.toNat
  overwrite := arg.flags.toNat % 2 == 1
  segmentCount_lt := arg.maxSegmentCount.toNat_lt
  maxReaderCount_lt := arg.maxReaderCount.toNat_lt
  maxReaderThreadCount_lt := arg.maxReaderThreadCount.toNat_lt
  readerCount_le := processes
  lineCountExp_le := exponent
  lineSize_lt := arg.lineSize.toNat_lt
  maxSqeCount_lt := arg.maxSqeCount.toNat_lt

/-- In every state of every run without wrapping, a cache with the present
generation shows the present assignment. -/
theorem readerCaches_coherent_run (arg : FipsBufArg) (exponent : arg.lineCountExp.toNat ≤ 30)
    {readerCount : Nat} (processes : readerCount ≤ arg.maxReaderCount.toNat)
    (memory : ShmMemory) {area : AssignmentArea}
    (created : (arg.toHeader exponent processes).CreatedArea area) {calls : List CacheCall}
    {last : CachedBuffer}
    (run : Run (CachedBuffer.step (arg.toHeader exponent processes) (setupHeader arg)
        (setupMemory arg memory))
      (fun state call => state.Permitted (arg.toHeader exponent processes) call ∧
        state.NoWrap call) (.created area) calls last)
    {reader thread : Nat}
    (attached : (Role.reader reader, thread) ∈ last.attachments.threads)
    (current : (last.arrays ((arg.toHeader exponent processes).slot reader thread)).generation =
      last.attachments.area.generation) :
    last.Coherent (arg.toHeader exponent processes) (setupHeader arg) (setupMemory arg memory)
      reader thread := by
  have linked := ShmMemory.linked_setupMemory arg memory
  have inv : last.Inv (arg.toHeader exponent processes) (setupHeader arg)
      (setupMemory arg memory) :=
    run.invariant (fun _ _ _ inv guard taken => inv.step linked guard.1 guard.2 taken)
      (.created created)
  exact inv.coherent linked attached current

instance (hdr : Header) (state : CachedBuffer) (call : CacheCall) :
    Decidable (state.Permitted hdr call ∧ state.NoWrap call) :=
  match call with
  | .attach .writer _ => decidable_of_iff
      (AttachCall.InBounds hdr state.attachments (.attach .writer) ∧
        state.attachments.area.generation + 1 < 2 ^ 64)
      ⟨fun parts => ⟨⟨parts.1, fun _ other => nomatch other⟩, parts.2⟩,
        fun parts => ⟨parts.1.1, parts.2⟩⟩
  | .attach (.reader reader) arg => decidable_of_iff
      (AttachCall.InBounds hdr state.attachments (.attach (.reader reader)) ∧
        (arg = .zero ∨ (reader, arg) ∈ state.released) ∧
        state.attachments.area.generation + 1 < 2 ^ 64)
      ⟨fun parts => ⟨⟨parts.1, fun _ same => Role.reader.inj same ▸ parts.2.1⟩, parts.2.2⟩,
        fun parts => ⟨parts.1.1, parts.1.2 reader rfl, parts.2⟩⟩
  | .detach role threadIndex => inferInstanceAs (Decidable
      ((role, threadIndex) ∈ state.attachments.threads ∧
        state.attachments.area.generation + 1 < 2 ^ 64))
  | .refresh reader thread => inferInstanceAs (Decidable
      ((Role.reader reader, thread) ∈ state.attachments.threads ∧ True))

/-- A buffer for one writer thread and one reader thread. -/
def oneSegmentArg : FipsBufArg where
  shmName := [102]
  flags := 0
  lineCountExp := 2
  maxReaderCount := 1
  maxReaderThreadCount := 1
  maxSegmentCount := 1
  lineSize := 8
  maxSqeCount := 4

def oneSegment : Header := oneSegmentArg.toHeader (by decide) (by decide : 1 ≤ _)

/-- Memory before `setup_shm`. -/
def blankMemory : ShmMemory := ⟨fun _ => ⟨0, 0, 0, 0, 0⟩, fun _ => 0⟩

theorem readerCaches_coherent_run_refresh : ∃ last,
    Run (CachedBuffer.step oneSegment (setupHeader oneSegmentArg)
        (setupMemory oneSegmentArg blankMemory))
      (fun state call => state.Permitted oneSegment call ∧ state.NoWrap call) (.created zeroArea)
      [.attach .writer .zero, .attach (.reader 0) .zero, .refresh 0 0] last ∧
    last.Coherent oneSegment (setupHeader oneSegmentArg)
      (setupMemory oneSegmentArg blankMemory) 0 0 := by
  have executes : (Run.exec (CachedBuffer.step oneSegment (setupHeader oneSegmentArg)
      (setupMemory oneSegmentArg blankMemory))
      (fun state call => state.Permitted oneSegment call ∧ state.NoWrap call) (.created zeroArea)
      [.attach .writer .zero, .attach (.reader 0) .zero, .refresh 0 0]).any (fun last =>
        decide ((Role.reader 0, 0) ∈ last.attachments.threads ∧
          (last.arrays (oneSegment.slot 0 0)).generation =
            last.attachments.area.generation)) = true := by
    decide
  rcases Run.of_exec_any executes with ⟨last, run, final⟩
  have parts := of_decide_eq_true final
  exact ⟨last, run, readerCaches_coherent_run oneSegmentArg (by decide) (by decide) blankMemory
    ⟨fun _ => rfl, fun _ _ => rfl⟩ run parts.1 parts.2⟩

/-- One writer and no reader, at some generation. -/
def oneWriterArea (generation : Nat) : AssignmentArea :=
  ⟨Function.update (fun _ => fipsBufFlagFree) 0 fipsBufFlagInUse, fun _ => .free, generation⟩

def oneReaderArea (generation : Nat) : AssignmentArea :=
  { oneWriterArea generation with
    assignments := Function.update (fun _ => .free) 0 ⟨0, 1, fipsBufFlagInUse⟩ }

theorem republish_oneWriterArea (generation : Nat) :
    (oneWriterArea generation).republish oneSegment =
      oneWriterArea ((generation + 1) % 2 ^ 64) := by
  have none : (oneWriterArea generation).getReaderThreadCount oneSegment 0 = 0 :=
    (by decide : (oneWriterArea 0).getReaderThreadCount oneSegment 0 = 0)
  have row : (oneWriterArea generation).reassaignRow oneSegment 0 = oneWriterArea generation := by
    unfold AssignmentArea.reassaignRow
    dsimp only
    rw [none]
    rfl
  show ({ (oneWriterArea generation).reassaignRow oneSegment 0 with
    generation := (generation + 1) % 2 ^ 64 } : AssignmentArea) = _
  rw [row]
  rfl

theorem detach_oneReaderArea (generation : Nat) :
    fipsBufDetach oneSegment (oneReaderArea generation) (.reader 0) 0 =
      oneWriterArea ((generation + 1) % 2 ^ 64) := by
  have cleared : (oneReaderArea generation).setAssignment (oneSegment.slot 0 0) .free =
      oneWriterArea generation := by
    show ({ oneWriterArea generation with
      assignments := Function.update (Function.update _ 0 _) 0 .free } : AssignmentArea) = _
    rw [Function.update_idem, Function.update_eq_self_iff.mpr rfl]
    rfl
  rw [← republish_oneWriterArea, ← cleared]
  rfl

theorem attach_oneWriterArea (generation : Nat) :
    fipsBufAttach oneSegment (oneWriterArea generation) (.reader 0) =
      .ok (0, oneReaderArea ((generation + 1) % 2 ^ 64)) := by
  let marked : AssignmentArea := { oneWriterArea generation with
    assignments := Function.update (fun _ => .free) 0 ⟨0, 0, fipsBufFlagInUse⟩ }
  have search : (List.range oneSegment.maxReaderThreadCount).findIdx (fun thread =>
      !((oneWriterArea generation).assignments (oneSegment.slot 0 thread)).inUse) = 0 :=
    (by decide : (List.range oneSegment.maxReaderThreadCount).findIdx (fun thread =>
      !((oneWriterArea 0).assignments (oneSegment.slot 0 thread)).inUse) = 0)
  have attached : fipsBufAttach oneSegment (oneWriterArea generation) (.reader 0) =
      .ok (0, marked.republish oneSegment) := by
    simp only [fipsBufAttach, claimSlot, search]
    rfl
  have threads : marked.getReaderThreadCount oneSegment 0 = 1 :=
    (by decide : AssignmentArea.getReaderThreadCount oneSegment { oneWriterArea 0 with
      assignments := Function.update (fun _ => .free) 0 ⟨0, 0, fipsBufFlagInUse⟩ } 0 = 1)
  have writers : marked.getWriterThreadCount oneSegment = 1 :=
    (by decide : AssignmentArea.getWriterThreadCount oneSegment (oneWriterArea 0) = 1)
  have active : marked.activeWriters oneSegment = [0] :=
    (by decide : AssignmentArea.activeWriters oneSegment (oneWriterArea 0) = [0])
  have row : marked.reassaignRow oneSegment 0 = oneReaderArea generation := by
    have filled : marked.assignments =
        Function.update (fun _ => .free) 0 ⟨0, 0, fipsBufFlagInUse⟩ := rfl
    have slots : AssignmentArea.rowSlots oneSegment 0 = [0] := by decide
    unfold AssignmentArea.reassaignRow AssignmentArea.rowStep AssignmentArea.rowStart
    simp only [threads, writers, active, slots, filled, assignLoop]
    simp [Assignment.inUse, moreWritersStep, fipsBufFlagInUse]
    rfl
  rw [attached]
  show Except.ok (0, ({ marked.reassaignRow oneSegment 0 with
    generation := (generation + 1) % 2 ^ 64 } : AssignmentArea)) = _
  rw [row]
  rfl

/-- The reader thread comes and goes. -/
def comesAndGoes : List CacheCall := [.attach (.reader 0) .zero, .detach (.reader 0) 0]

theorem run_comesAndGoes (memory : ShmMemory) (count : Nat) {state : CachedBuffer}
    {generation : Nat}
    (idle : state.attachments = ⟨oneWriterArea (generation % 2 ^ 64), [(.writer, 0)]⟩) :
    ∃ last, Run (CachedBuffer.step oneSegment (setupHeader oneSegmentArg) memory)
        (CachedBuffer.Permitted oneSegment) state (List.replicate count comesAndGoes).flatten last ∧
      last.attachments = ⟨oneWriterArea ((generation + 2 * count) % 2 ^ 64), [(.writer, 0)]⟩ := by
  induction count generalizing state generation with
  | zero => exact ⟨state, .nil _, idle⟩
  | succ count inductionHypothesis =>
      have attached := attach_oneWriterArea (generation % 2 ^ 64)
      rw [Nat.mod_add_mod] at attached
      have detached := detach_oneReaderArea ((generation + 1) % 2 ^ 64)
      rw [Nat.mod_add_mod] at detached
      let present := state.addThread oneSegment (.reader 0) 0
        (oneReaderArea ((generation + 1) % 2 ^ 64)) .zero
      have gone : (present.removeThread oneSegment (.reader 0) 0).attachments =
          ⟨oneWriterArea ((generation + 2) % 2 ^ 64), [(.writer, 0)]⟩ := by
        show Attachments.mk (fipsBufDetach _ (oneReaderArea _) _ _)
          (((Role.reader 0, 0) :: state.attachments.threads).erase (.reader 0, 0)) = _
        rw [detached, idle, List.erase_cons_head]
      rcases inductionHypothesis gone with ⟨last, run, final⟩
      refine ⟨last, .cons ⟨⟨by decide, 0, by decide, ?_⟩, fun _ _ => Or.inl rfl⟩ ?_
        (.cons ?_ rfl run), ?_⟩
      · rw [idle]
        rfl
      · exact CachedBuffer.step_attach (by rw [idle]; exact attached) _
      · exact List.mem_cons_self
      · rw [final]
        congr 3
        omega

/-- After 2 ^ 64 calls the generation is 0 again, which is where every zeroed
thread argument starts: the thread that made the last of them takes its empty
cache for the present one. -/
theorem readerCaches_coherent_fails_wrapped : ∃ calls last,
    oneSegment.CreatedArea zeroArea ∧
    Run (CachedBuffer.step oneSegment (setupHeader oneSegmentArg)
        (setupMemory oneSegmentArg blankMemory))
      (CachedBuffer.Permitted oneSegment) (.created zeroArea) calls last ∧
    (Role.reader 0, 0) ∈ last.attachments.threads ∧
    (last.arrays (oneSegment.slot 0 0)).generation = last.attachments.area.generation ∧
    ¬last.Coherent oneSegment (setupHeader oneSegmentArg)
      (setupMemory oneSegmentArg blankMemory) 0 0 := by
  have writer : fipsBufAttach oneSegment zeroArea .writer = .ok (0, oneWriterArea 1) :=
    congrArg (fun area => Except.ok (0, area)) (republish_oneWriterArea 0)
  let start :=
    (CachedBuffer.created zeroArea).addThread oneSegment .writer 0 (oneWriterArea 1) .zero
  have begins : Run (CachedBuffer.step oneSegment (setupHeader oneSegmentArg)
      (setupMemory oneSegmentArg blankMemory)) (CachedBuffer.Permitted oneSegment)
      (.created zeroArea) [.attach .writer .zero] start :=
    .single ⟨⟨trivial, 0, by decide, rfl⟩, fun _ other => nomatch other⟩
      (CachedBuffer.step_attach writer _)
  have circles := run_comesAndGoes (setupMemory oneSegmentArg blankMemory) (2 ^ 63 - 1)
    (show start.attachments = ⟨oneWriterArea (1 % 2 ^ 64), [(.writer, 0)]⟩ from rfl)
  rcases circles with ⟨almost, run, idle⟩
  have attached : fipsBufAttach oneSegment almost.attachments.area (.reader 0) =
      .ok (0, oneReaderArea 0) := by
    rw [idle]
    exact attach_oneWriterArea _
  have ends : Run (CachedBuffer.step oneSegment (setupHeader oneSegmentArg)
      (setupMemory oneSegmentArg blankMemory)) (CachedBuffer.Permitted oneSegment)
      almost [.attach (.reader 0) .zero]
      (almost.addThread oneSegment (.reader 0) 0 (oneReaderArea 0) .zero) := by
    refine .single ⟨⟨by decide, 0, by decide, ?_⟩, fun _ _ => Or.inl rfl⟩
      (CachedBuffer.step_attach attached _)
    rw [idle]
    rfl
  refine ⟨_, _, ⟨fun _ => rfl, fun _ _ => rfl⟩, begins.append (run.append ends),
    List.mem_cons_self, rfl, ?_⟩
  intro coherent
  have lengths := congrArg List.length coherent.segments
  rw [List.length_map] at lengths
  have empty : 0 = ((oneReaderArea 0).resolve oneSegment
    ((oneReaderArea 0).assignments 0).window).length := lengths
  exact absurd empty (by decide)

end FipsIpc.FipsBuf
