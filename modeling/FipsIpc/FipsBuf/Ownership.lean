import FipsIpc.FipsBuf.Assignment
import FipsIpc.Lib.Run
import Mathlib.Data.List.Nodup
import Mathlib.Data.List.Range

/-!
Contract: who owns which slot of the assignment area.

Owns: the set of attached threads next to the area, the runs of attach and
detach calls, the effect of a redistribution on the slots, and exclusive
ownership over every run.

The search of `fips_buf_attach` stops at its bound, and the cell there decides
between success and error: the padding of the flag bytes, the next row, or the
first segment header.  `SafeAttach` says when that cell does no harm.

Does not own: which segments a reader thread is given.
-/

set_option autoImplicit false

namespace FipsIpc.FipsBuf

open FipsIpc.Lib

/-! ### Redistribution leaves ownership alone -/

namespace Assignment

@[simp] theorem inUse_free : free.inUse = false := rfl

/-- `FIPS_BUF_FLAG_TRAILING` is not the bit of `FIPS_BUF_FLAG_IN_USE`. -/
theorem inUse_addTrailing (assignment : Assignment) :
    ({ assignment with flags := assignment.flags ||| fipsBufFlagTrailing } : Assignment).inUse =
      assignment.inUse := by
  unfold inUse
  have masked : (assignment.flags ||| fipsBufFlagTrailing) &&& fipsBufFlagInUse =
      assignment.flags &&& fipsBufFlagInUse := by
    rw [Nat.and_or_distrib_right]
    exact Nat.or_zero _
  rw [masked]

end Assignment

/-- What a redistribution may change: the segments of slots in use. -/
structure SameOwners (before after : AssignmentArea) : Prop where
  writerFlags : after.writerFlags = before.writerFlags
  inUse : ∀ word, (after.assignments word).inUse = (before.assignments word).inUse
  idle : ∀ word, (before.assignments word).inUse = false →
    after.assignments word = before.assignments word

namespace SameOwners

variable {before middle after : AssignmentArea}

theorem refl (area : AssignmentArea) : SameOwners area area :=
  ⟨rfl, fun _ => rfl, fun _ _ => rfl⟩

theorem trans (left : SameOwners before middle) (right : SameOwners middle after) :
    SameOwners before after where
  writerFlags := right.writerFlags.trans left.writerFlags
  inUse word := (right.inUse word).trans (left.inUse word)
  idle word unused := by
    rw [right.idle word ((left.inUse word).trans unused), left.idle word unused]

/-- Rewriting a slot in use to a slot in use. -/
theorem setAssignment (area : AssignmentArea) {slot : Nat} {assignment : Assignment}
    (used : (area.assignments slot).inUse = true) (stays : assignment.inUse = true) :
    SameOwners area (area.setAssignment slot assignment) where
  writerFlags := rfl
  inUse word := by
    by_cases same : word = slot
    · subst same
      simp [AssignmentArea.setAssignment, used, stays]
    · simp [AssignmentArea.setAssignment, same]
  idle word unused := by
    have other : word ≠ slot := by
      intro same
      rw [same, used] at unused
      cases unused
    simp [AssignmentArea.setAssignment, other]

theorem generation (area : AssignmentArea) (generation : Nat) :
    SameOwners area { area with generation := generation } :=
  ⟨rfl, fun _ => rfl, fun _ _ => rfl⟩

/-- The loop over a row. -/
theorem assignLoop (step : LoopState → (Nat × Nat) × LoopState) (slots : List Nat)
    (state : LoopState) (area : AssignmentArea) :
    SameOwners area
      { area with assignments := FipsBuf.assignLoop step slots state area.assignments } := by
  induction slots generalizing state area with
  | nil => exact refl area
  | cons slot rest inductionHypothesis =>
      unfold FipsBuf.assignLoop
      split
      case isTrue used =>
        have stays : ({ area.assignments slot with
            startSegment := (step state).1.1, count := (step state).1.2 } : Assignment).inUse =
              true := used
        exact (setAssignment area used stays).trans
          (inductionHypothesis (step state).2 (area.setAssignment slot _))
      case isFalse => exact inductionHypothesis state area

theorem reassaignRow (hdr : Header) (area : AssignmentArea) (reader : Nat) :
    SameOwners area (area.reassaignRow hdr reader) := by
  unfold AssignmentArea.reassaignRow
  dsimp only
  split
  · exact refl area
  · exact assignLoop _ _ _ area

theorem reassaignRows (hdr : Header) (readers : List Nat) (area : AssignmentArea) :
    SameOwners area (readers.foldl (fun area reader => area.reassaignRow hdr reader) area) := by
  induction readers generalizing area with
  | nil => exact refl area
  | cons reader rest inductionHypothesis =>
      exact (reassaignRow hdr area reader).trans (inductionHypothesis _)

theorem republish (hdr : Header) (area : AssignmentArea) :
    SameOwners area (area.republish hdr) :=
  (reassaignRows hdr _ area).trans (generation _ _)

theorem addFlagAffectedReaders (hdr : Header) (threadIndex : Nat) (slots : List Nat)
    (affectedReaders : Nat) (area : AssignmentArea) :
    SameOwners area (FipsBuf.addFlagAffectedReaders hdr threadIndex fipsBufFlagTrailing slots
      affectedReaders area).2 := by
  induction slots generalizing affectedReaders area with
  | nil => exact refl area
  | cons slot rest inductionHypothesis =>
      unfold FipsBuf.addFlagAffectedReaders
      dsimp only
      split
      case isFalse => exact inductionHypothesis _ _
      case isTrue used =>
        have flagged : ∀ count : Nat, SameOwners area
            (if count = 0 then area else area.setAssignment slot
              { area.assignments slot with
                flags := (area.assignments slot).flags ||| fipsBufFlagTrailing }) := by
          intro count
          split
          · exact refl area
          · exact setAssignment area used ((Assignment.inUse_addTrailing _).trans used)
        split
        · exact (flagged _).trans (inductionHypothesis _ _)
        · exact flagged _

end SameOwners

/-! ### Slots and threads -/

/-- The number of threads a role has room for. -/
def Header.roleBound (hdr : Header) : Role → Nat
  | .writer => hdr.segmentCount
  | .reader _ => hdr.maxReaderThreadCount

/-- The reader process of the role exists. -/
def Header.hasRole (hdr : Header) : Role → Prop
  | .writer => True
  | .reader readerIndex => readerIndex < hdr.readerCount

/-- The cell of a thread is free. -/
def FreeSlot (hdr : Header) (area : AssignmentArea) : Role → Nat → Prop
  | .writer, index => area.writerAssignment hdr index = fipsBufFlagFree
  | .reader readerIndex, index => area.assignments (hdr.slot readerIndex index) = .free

/-- The cell of a thread carries `FIPS_BUF_FLAG_IN_USE`. -/
def TakenSlot (hdr : Header) (area : AssignmentArea) : Role → Nat → Prop
  | .writer, index => area.writerAssignment hdr index = fipsBufFlagInUse
  | .reader readerIndex, index => (area.assignments (hdr.slot readerIndex index)).inUse = true

instance (hdr : Header) (area : AssignmentArea) (role : Role) (index : Nat) :
    Decidable (FreeSlot hdr area role index) :=
  match role with
  | .writer => inferInstanceAs (Decidable (area.writerAssignment hdr index = _))
  | .reader readerIndex =>
      inferInstanceAs (Decidable (area.assignments (hdr.slot readerIndex index) = _))

instance (hdr : Header) (role : Role) : Decidable (hdr.hasRole role) :=
  match role with
  | .writer => inferInstanceAs (Decidable True)
  | .reader readerIndex => inferInstanceAs (Decidable (readerIndex < hdr.readerCount))

/-- The memory a thread owns: a segment, or a word of the reader rows. -/
def Header.ownedCell (hdr : Header) : Role × Nat → Nat ⊕ Nat
  | (.writer, index) => .inl index
  | (.reader readerIndex, index) => .inr (hdr.slot readerIndex index)

/-- Rows do not overlap. -/
theorem Header.slot_injective (hdr : Header) {reader reader' thread thread' : Nat}
    (bound : thread < hdr.maxReaderThreadCount) (bound' : thread' < hdr.maxReaderThreadCount)
    (same : hdr.slot reader thread = hdr.slot reader' thread') :
    reader = reader' ∧ thread = thread' := by
  unfold Header.slot at same
  have positive : 0 < hdr.maxReaderThreadCount := by omega
  have readers : reader = reader' := by
    have divided := congrArg (· / hdr.maxReaderThreadCount) same
    simpa [Nat.mul_comm _ hdr.maxReaderThreadCount, Nat.mul_add_div positive,
      Nat.div_eq_of_lt bound, Nat.div_eq_of_lt bound'] using divided
  subst readers
  exact ⟨rfl, by omega⟩

theorem Header.slot_lt (hdr : Header) {reader thread : Nat} (readerBound : reader < hdr.readerCount)
    (threadBound : thread < hdr.maxReaderThreadCount) :
    hdr.slot reader thread < hdr.maxReaderCount * hdr.maxReaderThreadCount := by
  have last : reader + 1 ≤ hdr.maxReaderCount := readerBound.trans_le hdr.readerCount_le
  calc hdr.slot reader thread < (reader + 1) * hdr.maxReaderThreadCount := by
        rw [Nat.succ_mul]
        exact Nat.add_lt_add_left threadBound _
    _ ≤ hdr.maxReaderCount * hdr.maxReaderThreadCount := Nat.mul_le_mul_right _ last

theorem Header.ownedCell_injective (hdr : Header) {left right : Role × Nat}
    (leftBound : left.2 < hdr.roleBound left.1) (rightBound : right.2 < hdr.roleBound right.1)
    (same : hdr.ownedCell left = hdr.ownedCell right) : left = right := by
  rcases left with ⟨_ | reader, index⟩ <;> rcases right with ⟨_ | reader', index'⟩ <;>
    simp only [Header.ownedCell, Sum.inl.injEq, Sum.inr.injEq, reduceCtorEq] at same
  · rw [same]
  · obtain ⟨rfl, sameIndex⟩ := hdr.slot_injective leftBound rightBound same
    exact congrArg _ sameIndex

namespace AssignmentArea

variable (hdr : Header) (area : AssignmentArea)

/-- Inside the bound a flag is a flag byte. -/
theorem writerAssignment_of_lt {index : Nat} (inside : index < hdr.segmentCount) :
    area.writerAssignment hdr index = area.writerFlags index := by
  have padded : index < hdr.paddedSegmentCount := by
    unfold Header.paddedSegmentCount
    omega
  simp [writerAssignment, padded]

theorem setWriterAssignment_of_lt {index : Nat} (flag : Nat) (inside : index < hdr.segmentCount) :
    area.setWriterAssignment hdr index flag =
      { area with writerFlags := Function.update area.writerFlags index flag } := by
  have padded : index < hdr.paddedSegmentCount := by
    unfold Header.paddedSegmentCount
    omega
  simp [setWriterAssignment, padded]

end AssignmentArea

/-- A redistribution keeps the taken slots. -/
theorem SameOwners.takenSlot {before after : AssignmentArea} (same : SameOwners before after)
    {hdr : Header} {role : Role} {index : Nat} (inside : index < hdr.roleBound role) :
    TakenSlot hdr after role index ↔ TakenSlot hdr before role index := by
  cases role with
  | writer =>
      show after.writerAssignment hdr index = _ ↔ before.writerAssignment hdr index = _
      rw [after.writerAssignment_of_lt hdr inside, before.writerAssignment_of_lt hdr inside,
        same.writerFlags]
  | reader reader =>
      show (after.assignments _).inUse = true ↔ (before.assignments _).inUse = true
      rw [same.inUse]

/-! ### The system -/

/-- The assignment area and the threads attached to it. -/
structure Attachments where
  area : AssignmentArea
  threads : List (Role × Nat)

/-- A call made under `assignment_lock`. -/
inductive AttachCall where
  | attach (role : Role)
  | detach (role : Role) (threadIndex : Nat)
deriving DecidableEq, Repr

/-- The effect of a call. -/
def attachStep (hdr : Header) (state : Attachments) : AttachCall → Option Attachments
  | .attach role =>
      match fipsBufAttach hdr state.area role with
      | .ok (threadIndex, area) => some ⟨area, (role, threadIndex) :: state.threads⟩
      | .error _ => some state
  | .detach role threadIndex =>
      some ⟨fipsBufDetach hdr state.area role threadIndex, state.threads.erase (role, threadIndex)⟩

/-- Threads belong to existing processes, and only an attached thread detaches. -/
def AttachCall.Permitted (hdr : Header) (state : Attachments) : AttachCall → Prop
  | .attach role => hdr.hasRole role
  | .detach role threadIndex => (role, threadIndex) ∈ state.threads

/-- A slot within the bound is free, or the cell at the bound is not. -/
def SafeAttach (hdr : Header) (area : AssignmentArea) (role : Role) : Prop :=
  (∃ index < hdr.roleBound role, FreeSlot hdr area role index) ∨
    ¬FreeSlot hdr area role (hdr.roleBound role)

/-- A permitted call that meets `SafeAttach` when it attaches. -/
def AttachCall.Safe (hdr : Header) (state : Attachments) (call : AttachCall) : Prop :=
  call.Permitted hdr state ∧ ∀ role, call = .attach role → SafeAttach hdr state.area role

/-- The shared memory of `setup_shm`: all flags and slots are zero.  Behind the
slots lie the segment headers. -/
def Header.CreatedArea (hdr : Header) (area : AssignmentArea) : Prop :=
  (∀ index, area.writerFlags index = fipsBufFlagFree) ∧
    ∀ word < hdr.maxReaderCount * hdr.maxReaderThreadCount, area.assignments word = .free

/-! ### What attach promises -/

/-- A successful attach yields a free slot of the role, and an error means that
there is none. -/
def AttachSpec (hdr : Header) (area : AssignmentArea) (role : Role) : Prop :=
  match fipsBufAttach hdr area role with
  | .ok (threadIndex, _) =>
      threadIndex < hdr.roleBound role ∧ FreeSlot hdr area role threadIndex
  | .error code =>
      code = fipsBufErrorNoFreeSegment ∧
        ∀ index < hdr.roleBound role, ¬FreeSlot hdr area role index

/-- Attached threads are within their bounds and own different cells. -/
def Attachments.Exclusive (hdr : Header) (state : Attachments) : Prop :=
  (∀ thread ∈ state.threads, thread.2 < hdr.roleBound thread.1) ∧
    (state.threads.map hdr.ownedCell).Nodup

/-! ### Single calls -/

/-- The area after the free slot `index` was marked. -/
def occupySlot (hdr : Header) (area : AssignmentArea) : Role → Nat → AssignmentArea
  | .writer, index => area.setWriterAssignment hdr index fipsBufFlagInUse
  | .reader readerIndex, index =>
      area.setAssignment (hdr.slot readerIndex index)
        { Assignment.free with flags := fipsBufFlagInUse }

/-- A reader slot that is not in use is free. -/
def IdleFree (hdr : Header) (area : AssignmentArea) : Prop :=
  ∀ reader < hdr.readerCount, ∀ thread < hdr.maxReaderThreadCount,
    (area.assignments (hdr.slot reader thread)).inUse = false →
      area.assignments (hdr.slot reader thread) = .free

/-- The invariant of safe runs: the attached threads are the slots in use. -/
structure Attachments.Owned (hdr : Header) (state : Attachments) : Prop where
  threads : ∀ role index, (role, index) ∈ state.threads ↔
    hdr.hasRole role ∧ index < hdr.roleBound role ∧ TakenSlot hdr state.area role index
  nodup : state.threads.Nodup
  idle : IdleFree hdr state.area

/-- A search that stops at its bound. -/
theorem findIdx_range_cases (bound : Nat) (found : Nat → Bool) :
    (∃ index < bound, (List.range bound).findIdx found = index ∧ found index = true) ∨
      ((List.range bound).findIdx found = bound ∧ ∀ index < bound, found index = false) := by
  by_cases inside : (List.range bound).findIdx found < (List.range bound).length
  · refine Or.inl ⟨_, by simpa using inside, rfl, ?_⟩
    have holds := List.findIdx_getElem (w := inside)
    simpa using holds
  · have atEnd : (List.range bound).findIdx found = (List.range bound).length :=
      Nat.le_antisymm List.findIdx_le_length (Nat.le_of_not_lt inside)
    refine Or.inr ⟨by simpa using atEnd, fun index below => ?_⟩
    simpa using List.findIdx_eq_length.mp atEnd index (List.mem_range.mpr below)

/-- The search of `fips_buf_attach`: it marks a free slot within the bound, or there
is none and the cell at the bound decides. -/
theorem claimSlot_cases {hdr : Header} {state : Attachments} (owned : state.Owned hdr)
    {role : Role} (exists_ : hdr.hasRole role) :
    (∃ index < hdr.roleBound role, FreeSlot hdr state.area role index ∧
      claimSlot hdr state.area role = .ok (index, occupySlot hdr state.area role index)) ∨
    ((∀ index < hdr.roleBound role, ¬FreeSlot hdr state.area role index) ∧
      claimSlot hdr state.area role =
        if FreeSlot hdr state.area role (hdr.roleBound role) then
          .ok (hdr.roleBound role, occupySlot hdr state.area role (hdr.roleBound role))
        else .error fipsBufErrorNoFreeSegment) := by
  cases role with
  | writer =>
      rcases findIdx_range_cases hdr.segmentCount
          (fun segment => state.area.writerAssignment hdr segment == fipsBufFlagFree) with
        ⟨index, inside, search, holds⟩ | ⟨search, none⟩
      · have free : state.area.writerAssignment hdr index = fipsBufFlagFree := by
          simpa using holds
        refine Or.inl ⟨index, inside, free, ?_⟩
        simp only [claimSlot, search, free, if_true]
        rfl
      · refine Or.inr ⟨fun index inside free => ?_, ?_⟩
        · have taken := none index inside
          simp only [beq_eq_false_iff_ne] at taken
          exact taken free
        · simp only [claimSlot, search]
          rfl
  | reader reader =>
      rcases findIdx_range_cases hdr.maxReaderThreadCount
          (fun thread => !(state.area.assignments (hdr.slot reader thread)).inUse) with
        ⟨index, inside, search, holds⟩ | ⟨search, none⟩
      · have free : state.area.assignments (hdr.slot reader index) = .free :=
          owned.idle reader exists_ index inside (by simpa using holds)
        refine Or.inl ⟨index, inside, free, ?_⟩
        simp only [claimSlot, search, free, if_true]
        rfl
      · refine Or.inr ⟨fun index inside free => ?_, ?_⟩
        · have taken := none index inside
          rw [show state.area.assignments (hdr.slot reader index) = .free from free] at taken
          cases taken
        · simp only [claimSlot, search]
          split
          case isTrue free =>
            rw [free]
            exact (if_pos free).symm
          case isFalse occupied => exact (if_neg occupied).symm

/-- What `fips_buf_attach` does. -/
theorem fipsBufAttach_cases {hdr : Header} {state : Attachments} (owned : state.Owned hdr)
    {role : Role} (exists_ : hdr.hasRole role) :
    (∃ index < hdr.roleBound role, FreeSlot hdr state.area role index ∧
      fipsBufAttach hdr state.area role =
        .ok (index, (occupySlot hdr state.area role index).republish hdr)) ∨
    ((∀ index < hdr.roleBound role, ¬FreeSlot hdr state.area role index) ∧
      fipsBufAttach hdr state.area role =
        if FreeSlot hdr state.area role (hdr.roleBound role) then
          .ok (hdr.roleBound role,
            (occupySlot hdr state.area role (hdr.roleBound role)).republish hdr)
        else .error fipsBufErrorNoFreeSegment) := by
  unfold fipsBufAttach
  rcases claimSlot_cases owned exists_ with ⟨index, inside, free, result⟩ | ⟨none, result⟩
  · refine Or.inl ⟨index, inside, free, ?_⟩
    rw [result]
  · refine Or.inr ⟨none, ?_⟩
    rw [result]
    by_cases free : FreeSlot hdr state.area role (hdr.roleBound role)
    · rw [if_pos free, if_pos free]
    · rw [if_neg free, if_neg free]

/-- Attach keeps its promise exactly when it is safe. -/
theorem attachSpec_iff {hdr : Header} {state : Attachments} (owned : state.Owned hdr)
    {role : Role} (exists_ : hdr.hasRole role) :
    AttachSpec hdr state.area role ↔ SafeAttach hdr state.area role := by
  unfold AttachSpec
  rcases fipsBufAttach_cases owned exists_ with ⟨index, inside, free, result⟩ | ⟨none, result⟩
  · rw [result]
    exact ⟨fun _ => Or.inl ⟨index, inside, free⟩, fun _ => ⟨inside, free⟩⟩
  · rw [result]
    split
    case h_1 threadIndex area success =>
      split at success
      case isFalse => cases success
      case isTrue free =>
        cases success
        constructor
        · rintro ⟨outside, _⟩
          exact absurd outside (Nat.lt_irrefl _)
        · rintro (⟨index, inside, slotFree⟩ | occupied)
          · exact absurd slotFree (none index inside)
          · exact absurd free occupied
    case h_2 code failure =>
      split at failure
      case isTrue => cases failure
      case isFalse occupied =>
        cases failure
        exact ⟨fun _ => Or.inr occupied, fun _ => ⟨rfl, none⟩⟩

theorem freeSlot_not_taken {hdr : Header} {area : AssignmentArea} {role : Role} {index : Nat}
    (free : FreeSlot hdr area role index) : ¬TakenSlot hdr area role index := by
  intro taken
  cases role with
  | writer => exact absurd (free.symm.trans taken) (by decide)
  | reader reader =>
      have used : (area.assignments (hdr.slot reader index)).inUse = true := taken
      rw [show area.assignments (hdr.slot reader index) = .free from free] at used
      cases used

/-- Storing a flag byte decides about its segment only. -/
theorem takenSlot_setWriterAssignment {hdr : Header} (area : AssignmentArea) {index : Nat}
    (flag : Nat) (inside : index < hdr.segmentCount) {role : Role} {other : Nat}
    (otherInside : other < hdr.roleBound role) :
    TakenSlot hdr (area.setWriterAssignment hdr index flag) role other ↔
      if (role, other) = (.writer, index) then flag = fipsBufFlagInUse
      else TakenSlot hdr area role other := by
  rw [area.setWriterAssignment_of_lt hdr flag inside]
  cases role with
  | reader reader =>
      rw [if_neg (by simp)]
      exact Iff.rfl
  | writer =>
      show AssignmentArea.writerAssignment hdr _ other = _ ↔ _
      rw [AssignmentArea.writerAssignment_of_lt hdr _ otherInside]
      by_cases same : other = index
      · subst same
        simp
      · rw [if_neg (by simpa using same)]
        show Function.update area.writerFlags index flag other = _ ↔
          area.writerAssignment hdr other = _
        rw [Function.update_of_ne same, area.writerAssignment_of_lt hdr otherInside]

/-- Storing a reader slot decides about that slot only. -/
theorem takenSlot_setAssignment {hdr : Header} (area : AssignmentArea) {reader index : Nat}
    (assignment : Assignment) (inside : index < hdr.maxReaderThreadCount) {role : Role}
    {other : Nat} (otherInside : other < hdr.roleBound role) :
    TakenSlot hdr (area.setAssignment (hdr.slot reader index) assignment) role other ↔
      if (role, other) = (.reader reader, index) then assignment.inUse = true
      else TakenSlot hdr area role other := by
  cases role with
  | writer =>
      rw [if_neg (by simp)]
      show AssignmentArea.writerAssignment hdr _ other = _ ↔ area.writerAssignment hdr other = _
      rw [AssignmentArea.writerAssignment_of_lt hdr _ otherInside,
        AssignmentArea.writerAssignment_of_lt hdr _ otherInside]
      exact Iff.rfl
  | reader reader' =>
      show (Function.update area.assignments (hdr.slot reader index) assignment
        (hdr.slot reader' other)).inUse = true ↔ _
      by_cases same : (Role.reader reader', other) = (Role.reader reader, index)
      · cases same
        simp
      · have apart : hdr.slot reader' other ≠ hdr.slot reader index := by
          intro equal
          obtain ⟨rfl, rfl⟩ := hdr.slot_injective otherInside inside equal
          exact same rfl
        rw [Function.update_of_ne apart, if_neg same]
        exact Iff.rfl

namespace IdleFree

variable {hdr : Header} {area next : AssignmentArea}

theorem sameOwners (idle : IdleFree hdr area) (same : SameOwners area next) :
    IdleFree hdr next := by
  intro reader readerBound thread threadBound unused
  have unusedBefore := (same.inUse _).symm.trans unused
  rw [same.idle _ unusedBefore]
  exact idle reader readerBound thread threadBound unusedBefore

theorem setWriterAssignment (idle : IdleFree hdr area) {index : Nat} (flag : Nat)
    (inside : index < hdr.segmentCount) :
    IdleFree hdr (area.setWriterAssignment hdr index flag) := by
  rw [area.setWriterAssignment_of_lt hdr flag inside]
  exact idle

theorem setAssignment (idle : IdleFree hdr area) (slot : Nat) {assignment : Assignment}
    (valid : assignment.inUse = false → assignment = .free) :
    IdleFree hdr (area.setAssignment slot assignment) := by
  intro reader readerBound thread threadBound
  show (Function.update area.assignments slot assignment _).inUse = false →
    Function.update area.assignments slot assignment _ = .free
  by_cases same : hdr.slot reader thread = slot
  · rw [same, Function.update_self]
    exact valid
  · rw [Function.update_of_ne same]
    exact idle reader readerBound thread threadBound

end IdleFree

/-- A call that decides about the slot of one thread, and lists the thread
accordingly, keeps the invariant. -/
theorem Attachments.Owned.decide_thread {hdr : Header} {state next : Attachments}
    (owned : state.Owned hdr) (thread : Role × Nat) (used : Prop)
    (exists_ : hdr.hasRole thread.1) (inside : thread.2 < hdr.roleBound thread.1)
    (slots : ∀ role index, index < hdr.roleBound role →
      (TakenSlot hdr next.area role index ↔
        if (role, index) = thread then used else TakenSlot hdr state.area role index))
    (members : ∀ other,
      other ∈ next.threads ↔ if other = thread then used else other ∈ state.threads)
    (nodup : next.threads.Nodup) (idle : IdleFree hdr next.area) : next.Owned hdr where
  threads role index := by
    rw [members]
    by_cases same : (role, index) = thread
    · subst same
      have slot := slots role index inside
      rw [if_pos rfl] at slot ⊢
      exact ⟨fun holds => ⟨exists_, inside, slot.mpr holds⟩, fun parts => slot.mp parts.2.2⟩
    · rw [if_neg same, owned.threads]
      refine and_congr_right fun _ => and_congr_right fun bound => ?_
      rw [slots role index bound, if_neg same]
  nodup := nodup
  idle := idle

/-! ### Runs -/

namespace Attachments.Owned

variable {hdr : Header} {state : Attachments} {role : Role} {index : Nat}

/-- A newly created area has no threads. -/
theorem created {area : AssignmentArea} (created : hdr.CreatedArea area) :
    Attachments.Owned hdr ⟨area, []⟩ where
  nodup := List.nodup_nil
  threads role index := by
    refine ⟨fun member => absurd member List.not_mem_nil, fun parts => ?_⟩
    rcases parts with ⟨exists_, inside, taken⟩
    have free : FreeSlot hdr area role index := by
      cases role with
      | writer =>
          show area.writerAssignment hdr index = _
          rw [area.writerAssignment_of_lt hdr inside]
          exact created.1 index
      | reader reader => exact created.2 _ (hdr.slot_lt exists_ inside)
    exact absurd taken (freeSlot_not_taken free)
  idle reader readerBound thread threadBound _ := created.2 _ (hdr.slot_lt readerBound threadBound)

/-- Marking a free slot within the bound. -/
theorem occupy (owned : state.Owned hdr) (exists_ : hdr.hasRole role)
    (inside : index < hdr.roleBound role) (free : FreeSlot hdr state.area role index) :
    Attachments.Owned hdr ⟨(occupySlot hdr state.area role index).republish hdr,
      (role, index) :: state.threads⟩ := by
  have same := SameOwners.republish hdr (occupySlot hdr state.area role index)
  refine owned.decide_thread (role, index) True exists_ inside ?slots ?members ?nodup ?idle
  case slots =>
    intro role' index' inside'
    rw [same.takenSlot inside']
    cases role with
    | writer =>
        rw [occupySlot, takenSlot_setWriterAssignment state.area _ inside inside']
        simp
    | reader reader =>
        rw [occupySlot, takenSlot_setAssignment state.area _ inside inside']
        exact Iff.of_eq (by congr 1; exact eq_true rfl)
  case members =>
    intro other
    rw [List.mem_cons]
    split <;> simp [*]
  case nodup =>
    refine List.nodup_cons.mpr ⟨fun member => ?_, owned.nodup⟩
    exact freeSlot_not_taken free ((owned.threads role index).mp member).2.2
  case idle =>
    refine IdleFree.sameOwners ?_ same
    cases role with
    | writer => exact owned.idle.setWriterAssignment _ inside
    | reader reader => exact owned.idle.setAssignment _ (fun unused => by cases unused)

/-- `fips_buf_detach` gives the slot of its thread up. -/
theorem detach (owned : state.Owned hdr) (attached : (role, index) ∈ state.threads) :
    Attachments.Owned hdr ⟨fipsBufDetach hdr state.area role index,
      state.threads.erase (role, index)⟩ := by
  obtain ⟨exists_, inside, _⟩ := (owned.threads role index).mp attached
  refine owned.decide_thread (role, index) False exists_ inside ?slots ?members
    (owned.nodup.erase _) ?idle
  case slots =>
    intro role' index' inside'
    cases role with
    | writer =>
        have flagged := SameOwners.addFlagAffectedReaders hdr index hdr.allSlots 0 state.area
        unfold fipsBufDetach releaseSlot
        dsimp only
        rw [(SameOwners.republish hdr _).takenSlot inside',
          takenSlot_setWriterAssignment _ _ inside inside', flagged.takenSlot inside']
        exact Iff.of_eq (by congr 1; exact eq_false (by split <;> decide))
    | reader reader =>
        unfold fipsBufDetach releaseSlot
        dsimp only
        rw [(SameOwners.republish hdr _).takenSlot inside',
          takenSlot_setAssignment state.area _ inside inside']
        simp
  case members =>
    intro other
    rw [owned.nodup.mem_erase_iff]
    split <;> simp [*]
  case idle =>
    cases role with
    | writer =>
        have flagged := SameOwners.addFlagAffectedReaders hdr index hdr.allSlots 0 state.area
        exact ((owned.idle.sameOwners flagged).setWriterAssignment _ inside).sameOwners
          (SameOwners.republish hdr _)
    | reader reader =>
        exact (owned.idle.setAssignment _ (fun _ => rfl)).sameOwners (SameOwners.republish hdr _)

/-- Every safe call keeps the invariant. -/
theorem step {call : AttachCall} {next : Attachments} (owned : state.Owned hdr)
    (safe : call.Safe hdr state) (taken : attachStep hdr state call = some next) :
    next.Owned hdr := by
  cases call with
  | detach role threadIndex =>
      cases taken
      exact owned.detach safe.1
  | attach role =>
      simp only [attachStep] at taken
      rcases fipsBufAttach_cases owned safe.1 with ⟨index, inside, free, result⟩ | ⟨none, result⟩
      · rw [result] at taken
        cases taken
        exact owned.occupy safe.1 inside free
      · have occupied : ¬FreeSlot hdr state.area role (hdr.roleBound role) := by
          rcases safe.2 role rfl with ⟨index, inside, free⟩ | occupied
          · exact absurd free (none index inside)
          · exact occupied
        rw [result, if_neg occupied] at taken
        cases taken
        exact owned

/-- Different threads own different cells. -/
theorem exclusive (owned : state.Owned hdr) : state.Exclusive hdr := by
  have inside : ∀ thread ∈ state.threads, thread.2 < hdr.roleBound thread.1 :=
    fun thread member => ((owned.threads thread.1 thread.2).mp member).2.1
  refine ⟨inside, List.Nodup.map_on ?_ owned.nodup⟩
  intro left leftMember right rightMember same
  exact hdr.ownedCell_injective (inside left leftMember) (inside right rightMember) same

end Attachments.Owned

/-- Over every run whose attaches are safe, attached threads own different
cells within their bounds, and in each state attach keeps its promise exactly
when it is safe. -/
theorem exclusiveOwnership_run {hdr : Header} {area : AssignmentArea}
    (created : hdr.CreatedArea area) {calls : List AttachCall} {last : Attachments}
    (run : Run (attachStep hdr) (fun state call => call.Safe hdr state) ⟨area, []⟩ calls last) :
    last.Exclusive hdr ∧ ∀ role, hdr.hasRole role →
      (AttachSpec hdr last.area role ↔ SafeAttach hdr last.area role) := by
  have owned : last.Owned hdr :=
    run.invariant (fun _ _ _ owned safe taken => Attachments.Owned.step owned safe taken)
      (Attachments.Owned.created created)
  exact ⟨owned.exclusive, fun role exists_ => attachSpec_iff owned exists_⟩

/-- A buffer for one writer thread and two reader processes of one thread. -/
def oneWriterHeader : Header :=
  .ofFields 1 2 1 2 2 8 4 false (by decide)

def zeroArea : AssignmentArea := ⟨fun _ => fipsBufFlagFree, fun _ => .free, 0⟩

theorem exclusiveOwnership_run_reattach : ∃ last,
    Run (attachStep oneWriterHeader) (fun state call => call.Safe oneWriterHeader state)
      ⟨zeroArea, []⟩ [.attach .writer, .attach (.reader 1), .detach .writer 0] last ∧
    last.Exclusive oneWriterHeader := by
  have created : oneWriterHeader.CreatedArea zeroArea := ⟨fun _ => rfl, fun _ _ => rfl⟩
  have run : ∃ last, Run (attachStep oneWriterHeader)
      (fun state call => call.Safe oneWriterHeader state) ⟨zeroArea, []⟩
      [.attach .writer, .attach (.reader 1), .detach .writer 0] last := by
    refine ⟨_, .cons ⟨trivial, ?_⟩ rfl (.cons ⟨(by decide : 1 < 2), ?_⟩ rfl
      (.cons ⟨(by decide : (Role.writer, 0) ∈ [(Role.reader 1, 0), (Role.writer, 0)]), ?_⟩ rfl
        (.nil _)))⟩
    · intro role attaching
      cases attaching
      exact Or.inl ⟨0, by decide, rfl⟩
    · intro role attaching
      cases attaching
      exact Or.inl ⟨0, by decide, rfl⟩
    · intro role attaching
      cases attaching
  obtain ⟨last, run⟩ := run
  exact ⟨last, run, (exclusiveOwnership_run created run).1⟩

/-- With every segment taken, the search stops at the padding, which is zero:
the second writer attaches to a segment that does not exist.  A second thread of
reader process 0 takes the slot of process 1 in the same way. -/
theorem exclusiveOwnership_fails_full :
    oneWriterHeader.CreatedArea zeroArea ∧
    (∃ last, Run (attachStep oneWriterHeader)
        (fun state call => call.Permitted oneWriterHeader state)
      ⟨zeroArea, []⟩ [.attach .writer, .attach .writer] last ∧
      last.threads = [(.writer, 1), (.writer, 0)] ∧ ¬last.Exclusive oneWriterHeader) ∧
    ∃ last, Run (attachStep oneWriterHeader)
      (fun state call => call.Permitted oneWriterHeader state) ⟨zeroArea, []⟩
      [.attach (.reader 0), .attach (.reader 0)] last ∧
      last.threads = [(.reader 0, 1), (.reader 0, 0)] ∧ ¬last.Exclusive oneWriterHeader := by
  refine ⟨⟨fun _ => rfl, fun _ _ => rfl⟩,
    ⟨_, .cons trivial rfl (.cons trivial rfl (.nil _)), rfl, ?_⟩,
    ⟨_, .cons (by decide : 0 < 2) rfl (.cons (by decide : 0 < 2) rfl (.nil _)), rfl, ?_⟩⟩
  · intro exclusive
    exact absurd (exclusive.1 (.writer, 1) List.mem_cons_self) (by decide)
  · intro exclusive
    exact absurd (exclusive.1 (.reader 0, 1) List.mem_cons_self) (by decide)

end FipsIpc.FipsBuf
