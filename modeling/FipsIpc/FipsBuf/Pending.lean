import FipsIpc.FipsBuf.Returns
import FipsIpc.FipsBuf.Space
import FipsIpc.Lib.Pass

/-!
Contract: the slots of the pending-return list of one reader.

Owns: how many ranges have been queued out of order and how many merged, over
any sequence of `fips_buf_list_add_sqe` calls; that the list stays a chain while
no linked slot is reused; and when the test for a full list tells how many
ranges are pending.

Slots are given out in ring order.  The index they are compared with is the read
index, which every merge moves by the size of an entry, and by that amount
without the ring; entries are merged in the order of their ranges.

Does not own: which lines a merge releases.
-/

set_option autoImplicit false

namespace FipsIpc.FipsBuf

open FipsIpc.Lib

/-! ### Counting queued and merged ranges -/

/-- How many entries `drainSqe` merges. -/
def drainCount (hdr : Header) : (fuel : Nat) → ReaderPointer → Nat
  | 0, _ => 0
  | fuel + 1, reader =>
      match reader.list.first with
      | none => 0
      | some current =>
          if (reader.list.data current).range.startIndex = reader.commitOffset then
            drainCount hdr fuel (mergeSqe hdr reader current) + 1
          else 0

/-- A reader with the number of ranges that were queued and of those that were
merged since. -/
structure ReturnLog where
  reader : ReaderPointer
  queued : Nat
  merged : Nat

namespace ReturnLog

/-- A reader after `setup_shm`, wherever its offsets stand. -/
def created (capacity headOffset commitOffset : Nat) (data : Nat → Sqe) : ReturnLog :=
  ⟨⟨headOffset, commitOffset, ⟨capacity, 0, 0, none, data⟩⟩, 0, 0⟩

variable (hdr : Header) (state : ReturnLog) (tag : Range)

/-- The ranges that were queued and not merged. -/
def pending : Nat := state.queued - state.merged

/-- The range does not continue the returned lines, so that it needs a slot. -/
def Queues : Prop := state.reader.commitOffset ≠ tag.startIndex

instance : Decidable (state.Queues tag) := inferInstanceAs (Decidable (_ ≠ _))

/-- How many entries a call merges. -/
def mergedBy : Nat :=
  match acceptRange hdr state.reader tag with
  | some (.ok reader) => drainCount hdr (reader.list.capacity + 2) reader
  | _ => 0

/-- One call of `fips_buf_list_add_sqe`. -/
def step : Option ReturnLog :=
  (fipsBufListAddSqe hdr state.reader tag).map fun (code, reader) =>
    ⟨reader, if code = fipsBufSuccess ∧ state.Queues tag then state.queued + 1 else state.queued,
      state.merged + state.mergedBy hdr tag⟩

/-- What a call should do with the slots. -/
structure SlotsManaged : Prop where
  fresh : state.Queues tag → ∀ reader,
    fipsBufListAddSqe hdr state.reader tag = some (fipsBufSuccess, reader) →
      state.reader.list.writeIndex ∉ state.reader.list.linked
  noSpace : state.Queues tag →
    ((∃ reader, fipsBufListAddSqe hdr state.reader tag = some (fipsBufErrorNoSpace, reader)) ↔
      state.pending = state.reader.list.capacity - 1)
  unchanged : ∀ reader, fipsBufListAddSqe hdr state.reader tag =
    some (fipsBufErrorNoSpace, reader) → reader = state.reader
  acyclic : ∃ code reader cells, fipsBufListAddSqe hdr state.reader tag = some (code, reader) ∧
    Chain reader.list.next reader.list.first cells

/-- The next slot is the one before 16 times the merged ranges exactly when the
list lacks one range to be full; and when it is another one, it is not linked. -/
def SlotFree : Prop :=
  state.Queues tag →
    ((state.queued + 1) % state.reader.list.capacity = 16 * state.merged % 2 ^ 64 ↔
      state.pending = state.reader.list.capacity - 1) ∧
    ((state.queued + 1) % state.reader.list.capacity ≠ 16 * state.merged % 2 ^ 64 →
      state.queued % state.reader.list.capacity ∉ state.reader.list.linked)

instance : Decidable (state.SlotFree tag) := inferInstanceAs (Decidable (_ → _))

end ReturnLog

/-! ### Queueing -/

namespace SqeList

@[simp] theorem link_readIndex (list : SqeList) (prev : Option Nat) (index : Nat) :
    (list.link prev index).readIndex = list.readIndex := by
  cases prev <;> rfl

@[simp] theorem putBefore_readIndex (list : SqeList) (prev : Option Nat) (index current : Nat) :
    (list.putBefore prev index current).readIndex = list.readIndex :=
  list.link_readIndex prev index

variable {list : SqeList} {cells : List Nat}

/-- The search links the new entry, and keeps or drops the last. -/
theorem Linked.insertSqe (linked : list.Linked cells) {index current : Nat}
    (first : list.first = some current) (fresh : index ∉ cells) (inside : index < list.capacity)
    (ends : list.next index = none) (startIndex : Nat) :
    ∃ after cells', list.insertSqe index startIndex (list.capacity + 1) none current = some after ∧
      after.Linked cells' ∧ cells' ⊆ index :: cells ∧ after.capacity = list.capacity ∧
      after.writeIndex = list.writeIndex ∧ after.readIndex = list.readIndex := by
  have short := SqeList.length_le_capacity linked.chain linked.below
  rcases all_or_first (fun cell => (list.data cell).range.startIndex ≤ startIndex) cells with
    all | ⟨middle, later, rest, rfl, earlier, isLater⟩
  · rcases List.eq_nil_or_concat cells with rfl | ⟨middle, last, rfl⟩
    · have none : list.first = none := linked.chain
      rw [none] at first
      cases first
    · rw [List.concat_eq_append] at linked fresh all short ⊢
      rw [List.length_append, List.length_singleton] at short
      have chain := SqeList.chain_linkAtEnd linked.chain fresh ends
      have subset : middle ++ [index] ⊆ index :: (middle ++ [last]) := by
        intro cell member
        rcases List.mem_append.mp member with old | new
        · exact List.mem_cons_of_mem _ (List.mem_append_left _ old)
        · rw [List.mem_singleton.mp new]
          exact List.mem_cons_self
      exact ⟨_, middle ++ [index], SqeList.insertSqe_atEnd linked.chain all (by omega) first,
        linked.of_subset chain subset inside (by simp), subset, by simp, by simp, by simp⟩
  · rw [List.length_append, List.length_cons] at short
    have chain := SqeList.chain_putBefore linked.chain fresh
    have subset : middle ++ index :: later :: rest ⊆ index :: (middle ++ later :: rest) :=
      List.perm_middle.subset
    exact ⟨_, middle ++ index :: later :: rest,
      SqeList.insertSqe_before linked.chain earlier (Nat.not_le.mp isLater) (by omega) first,
      linked.of_subset chain subset inside (by simp), subset, by simp, by simp, by simp⟩

end SqeList

/-- A call that queues its range in a slot that is not linked. -/
theorem enqueueSqe_fresh {reader : ReaderPointer} {cells : List Nat}
    (linked : reader.list.Linked cells) (inside : reader.list.writeIndex < reader.list.capacity)
    (room : reader.list.readIndex ≠ (reader.list.writeIndex + 1) % reader.list.capacity)
    (fresh : reader.list.writeIndex ∉ cells) (tag : Range) :
    ∃ queued cells', enqueueSqe reader tag = some (.ok queued) ∧ queued.list.Linked cells' ∧
      cells' ⊆ reader.list.writeIndex :: cells ∧
      queued.list.capacity = reader.list.capacity ∧
      queued.list.writeIndex = (reader.list.writeIndex + 1) % reader.list.capacity ∧
      queued.list.readIndex = reader.list.readIndex := by
  have positive : reader.list.capacity ≠ 0 := by omega
  have staged := linked.stage fresh tag
  have ends : (reader.list.stage tag).next reader.list.writeIndex = none := by
    rw [SqeList.stage_next, Function.update_self]
  unfold enqueueSqe
  dsimp only
  rw [if_neg positive, if_neg room]
  cases isFirst : reader.list.first with
  | none =>
      refine ⟨_, [reader.list.writeIndex], rfl, ⟨⟨rfl, ends⟩, ?_⟩, ?_, rfl, rfl, rfl⟩
      · intro cell member
        rw [List.mem_singleton.mp member]
        exact inside
      · intro cell member
        rw [List.mem_singleton.mp member]
        exact List.mem_cons_self
  | some current =>
      rcases staged.insertSqe isFirst fresh inside ends tag.startIndex with
        ⟨after, cells', result, afterLinked, subset, capacity, write, read⟩
      have search : (reader.list.stage tag).insertSqe reader.list.writeIndex tag.startIndex
          (reader.list.capacity + 1) none current = some after := result
      refine ⟨{ reader with list := after }, cells', ?_, afterLinked, subset, capacity, write,
        read⟩
      dsimp only
      rw [search]
      rfl

/-! ### Merging -/

/-- The draining loop takes entries off the front of the chain and counts each
with 16. -/
theorem drainSqe_linked {hdr : Header} {reader : ReaderPointer} {cells : List Nat}
    (linked : reader.list.Linked cells) {fuel merged : Nat} (enough : cells.length < fuel)
    (read : reader.list.readIndex = 16 * merged % 2 ^ 64) :
    ∃ drained rest, drainSqe hdr fuel reader = some drained ∧ drained.list.Linked rest ∧
      rest ⊆ cells ∧ drained.list.capacity = reader.list.capacity ∧
      drained.list.writeIndex = reader.list.writeIndex ∧
      drained.list.readIndex = 16 * (merged + drainCount hdr fuel reader) % 2 ^ 64 := by
  induction fuel generalizing reader cells merged with
  | zero => exact absurd enough (Nat.not_lt_zero _)
  | succ fuel inductionHypothesis =>
      rw [drainSqe, drainCount]
      cases isFirst : reader.list.first with
      | none => exact ⟨reader, cells, rfl, linked, List.Subset.refl _, rfl, rfl, read⟩
      | some current =>
          dsimp only
          by_cases here : (reader.list.data current).range.startIndex = reader.commitOffset
          · rw [if_pos here, if_pos here]
            cases cells with
            | nil =>
                have none : reader.list.first = none := linked.chain
                rw [none] at isFirst
                cases isFirst
            | cons cell rest =>
                obtain rfl : current = cell :=
                  Option.some.inj (isFirst.symm.trans linked.chain.1)
                have counted : (mergeSqe hdr reader current).list.readIndex =
                    16 * (merged + 1) % 2 ^ 64 := by
                  unfold mergeSqe
                  dsimp only
                  rw [read, Nat.mod_add_mod, Nat.mul_add]
                rcases inductionHypothesis (linked.merge hdr) (Nat.lt_of_succ_lt_succ enough)
                    counted with
                  ⟨drained, left, result, leftLinked, subset, capacity, write, readAfter⟩
                refine ⟨drained, left, result, leftLinked, List.subset_cons_of_subset _ subset,
                  capacity, write, ?_⟩
                rw [readAfter, Nat.add_assoc, Nat.add_comm 1]
          · rw [if_neg here, if_neg here]
            exact ⟨reader, cells, rfl, linked, List.Subset.refl _, rfl, rfl, read⟩

/-! ### Calls -/

section Calls

variable {hdr : Header} {reader : ReaderPointer} {tag : Range}

/-- A call whose range was accepted drains the list and succeeds. -/
theorem listAddSqe_accepted {accepted : ReaderPointer} {cells : List Nat} {merged : Nat}
    (accept : acceptRange hdr reader tag = some (.ok accepted))
    (linked : accepted.list.Linked cells)
    (read : accepted.list.readIndex = 16 * merged % 2 ^ 64) :
    ∃ drained rest, fipsBufListAddSqe hdr reader tag = some (fipsBufSuccess, drained) ∧
      drained.list.Linked rest ∧ rest ⊆ cells ∧
      drained.list.capacity = accepted.list.capacity ∧
      drained.list.writeIndex = accepted.list.writeIndex ∧
      drained.list.readIndex =
        16 * (merged + drainCount hdr (accepted.list.capacity + 2) accepted) % 2 ^ 64 := by
  have short := SqeList.length_le_capacity linked.chain linked.below
  have enough : cells.length < accepted.list.capacity + 2 := by omega
  rcases drainSqe_linked linked enough read with ⟨drained, rest, drain, parts⟩
  refine ⟨drained, rest, ?_, parts⟩
  unfold fipsBufListAddSqe
  rw [accept, Option.bind_some]
  dsimp only
  rw [drain, Option.map_some]

/-- A full list refuses a range that needs a slot and changes nothing. -/
theorem acceptRange_full (hdr : Header) (queues : reader.commitOffset ≠ tag.startIndex)
    (positive : reader.list.capacity ≠ 0)
    (full : reader.list.readIndex = (reader.list.writeIndex + 1) % reader.list.capacity) :
    acceptRange hdr reader tag = some (.error fipsBufErrorNoSpace) := by
  unfold acceptRange enqueueSqe
  dsimp only
  rw [if_neg queues, if_neg positive, if_pos full]

/-- Only the test for a full list refuses a range. -/
theorem acceptRange_error {code : Int}
    (accept : acceptRange hdr reader tag = some (.error code)) :
    reader.commitOffset ≠ tag.startIndex ∧
      reader.list.readIndex = (reader.list.writeIndex + 1) % reader.list.capacity ∧
      code = fipsBufErrorNoSpace := by
  unfold acceptRange at accept
  split at accept
  · cases accept
  case isFalse queues =>
    unfold enqueueSqe at accept
    dsimp only at accept
    split at accept
    · cases accept
    split at accept
    case isTrue full =>
      cases accept
      exact ⟨queues, full, rfl⟩
    case isFalse =>
      split at accept
      · cases accept
      · rcases Option.map_eq_some_iff.mp accept with ⟨_, -, same⟩
        cases same

/-- A call succeeds or finds the list full. -/
theorem listAddSqe_code {code : Int} {next : ReaderPointer}
    (result : fipsBufListAddSqe hdr reader tag = some (code, next)) :
    code = fipsBufSuccess ∨ code = fipsBufErrorNoSpace := by
  rcases Option.bind_eq_some_iff.mp result with ⟨accepted, accept, rest⟩
  cases accepted with
  | ok queued =>
      rcases Option.map_eq_some_iff.mp rest with ⟨drained, -, same⟩
      exact Or.inl (Prod.mk.inj same).1.symm
  | error refused =>
      cases rest
      exact Or.inr (acceptRange_error accept).2.2

/-- No other call is refused. -/
theorem listAddSqe_refused {next : ReaderPointer}
    (result : fipsBufListAddSqe hdr reader tag = some (fipsBufErrorNoSpace, next)) :
    reader.commitOffset ≠ tag.startIndex ∧
      reader.list.readIndex = (reader.list.writeIndex + 1) % reader.list.capacity ∧
      next = reader := by
  rcases Option.bind_eq_some_iff.mp result with ⟨accepted, accept, rest⟩
  cases accepted with
  | ok queued =>
      rcases Option.map_eq_some_iff.mp rest with ⟨drained, -, same⟩
      exact absurd (Prod.mk.inj same).1 success_ne_noSpace
  | error code =>
      cases rest
      have parts := acceptRange_error accept
      exact ⟨parts.1, parts.2.1, rfl⟩

end Calls

/-! ### Runs -/

namespace ReturnLog

/-- The indices follow the counts, and the list is a chain; before the first
merge it holds only slots that were given out. -/
structure Tracked (capacity : Nat) (cells : List Nat) (state : ReturnLog) : Prop where
  positive : capacity ≠ 0
  capacity_eq : state.reader.list.capacity = capacity
  write : state.reader.list.writeIndex = state.queued % capacity
  read : state.reader.list.readIndex = 16 * state.merged % 2 ^ 64
  linked : state.reader.list.Linked cells
  unmerged : state.merged = 0 → state.queued < capacity ∧ ∀ cell ∈ cells, cell < state.queued

namespace Tracked

variable {hdr : Header} {capacity : Nat} {cells : List Nat} {state : ReturnLog} {tag : Range}

theorem created {capacity : Nat} (positive : 1 ≤ capacity) (headOffset commitOffset : Nat)
    (data : Nat → Sqe) : (ReturnLog.created capacity headOffset commitOffset data).Tracked
      capacity [] where
  positive := by omega
  capacity_eq := rfl
  write := (Nat.zero_mod _).symm
  read := rfl
  linked := ⟨rfl, fun _ absent => absurd absent List.not_mem_nil⟩
  unmerged _ := ⟨positive, fun _ absent => absurd absent List.not_mem_nil⟩

/-- The test for a full list in terms of the counts. -/
theorem full_iff (tracked : state.Tracked capacity cells) :
    state.reader.list.readIndex =
        (state.reader.list.writeIndex + 1) % state.reader.list.capacity ↔
      (state.queued + 1) % state.reader.list.capacity = 16 * state.merged % 2 ^ 64 := by
  rw [tracked.read, tracked.write, tracked.capacity_eq, Nat.mod_add_mod]
  exact eq_comm

theorem fresh (tracked : state.Tracked capacity cells)
    (unlinked : state.queued % state.reader.list.capacity ∉ state.reader.list.linked) :
    state.reader.list.writeIndex ∉ cells := by
  rw [tracked.write, ← tracked.capacity_eq]
  rw [tracked.linked.linked_eq] at unlinked
  exact unlinked

/-- A call whose range is accepted, in order or into a slot. -/
theorem accepted (tracked : state.Tracked capacity cells) {accepted : ReaderPointer}
    {cells' : List Nat} (accept : acceptRange hdr state.reader tag = some (.ok accepted))
    (linked : accepted.list.Linked cells')
    (capacity_eq : accepted.list.capacity = capacity)
    (write : accepted.list.writeIndex =
      (if state.Queues tag then state.queued + 1 else state.queued) % capacity)
    (read : accepted.list.readIndex = state.reader.list.readIndex)
    (unmerged : state.merged = 0 →
      (if state.Queues tag then state.queued + 1 else state.queued) < capacity ∧
        ∀ cell ∈ cells', cell < if state.Queues tag then state.queued + 1 else state.queued) :
    ∃ next rest, state.step hdr tag = some next ∧
      fipsBufListAddSqe hdr state.reader tag = some (fipsBufSuccess, next.reader) ∧
      next.Tracked capacity rest := by
  have by_ : state.mergedBy hdr tag = drainCount hdr (accepted.list.capacity + 2) accepted := by
    unfold mergedBy
    rw [accept]
  rcases listAddSqe_accepted accept linked (read.trans tracked.read) with
    ⟨drained, rest, result, restLinked, subset, sameCapacity, sameWrite, readAfter⟩
  refine ⟨⟨drained, if state.Queues tag then state.queued + 1 else state.queued,
    state.merged + state.mergedBy hdr tag⟩, rest, ?_, result, ?_⟩
  · unfold step
    rw [result, Option.map_some]
    simp only [true_and]
  · refine ⟨tracked.positive, sameCapacity.trans capacity_eq, sameWrite.trans write, ?_,
      restLinked, ?_⟩
    · rw [by_]
      exact readAfter
    · intro none
      have before : state.merged = 0 := Nat.eq_zero_of_add_eq_zero_right none
      exact ⟨(unmerged before).1, fun cell member => (unmerged before).2 cell (subset member)⟩

/-- A call that needs no slot. -/
theorem inOrder (tracked : state.Tracked capacity cells) (hdr : Header)
    (inOrder : ¬state.Queues tag) :
    ∃ next rest, state.step hdr tag = some next ∧
      fipsBufListAddSqe hdr state.reader tag = some (fipsBufSuccess, next.reader) ∧
      next.Tracked capacity rest := by
  have accept : acceptRange hdr state.reader tag = some (.ok { state.reader with
      commitOffset := hdr.wrapLine (state.reader.commitOffset + tag.count) }) :=
    if_pos (not_not.mp inOrder)
  apply tracked.accepted accept tracked.linked tracked.capacity_eq _ rfl
  · rw [if_neg inOrder]
    exact tracked.unmerged
  · rw [if_neg inOrder]
    exact tracked.write

/-- A call that queues its range in a slot that is not linked. -/
theorem queue (tracked : state.Tracked capacity cells) (hdr : Header) (queues : state.Queues tag)
    (room : (state.queued + 1) % state.reader.list.capacity ≠ 16 * state.merged % 2 ^ 64)
    (unlinked : state.queued % state.reader.list.capacity ∉ state.reader.list.linked) :
    ∃ next rest, state.step hdr tag = some next ∧
      fipsBufListAddSqe hdr state.reader tag = some (fipsBufSuccess, next.reader) ∧
      next.Tracked capacity rest := by
  have inside : state.reader.list.writeIndex < state.reader.list.capacity := by
    rw [tracked.write, tracked.capacity_eq]
    exact Nat.mod_lt _ (Nat.pos_of_ne_zero tracked.positive)
  have notFull := fun full => room (tracked.full_iff.mp full)
  rcases enqueueSqe_fresh tracked.linked inside notFull (tracked.fresh unlinked) tag with
    ⟨queued, cells', enqueue, linked, subset, sameCapacity, write, read⟩
  have accept : acceptRange hdr state.reader tag = some (.ok queued) := by
    unfold acceptRange
    rw [if_neg queues]
    exact enqueue
  apply tracked.accepted accept linked (sameCapacity.trans tracked.capacity_eq) _ read
  · rw [if_pos queues]
    intro none
    have before := tracked.unmerged none
    have slot : state.queued % capacity = state.queued := Nat.mod_eq_of_lt before.1
    rw [none, Nat.mul_zero, Nat.zero_mod, tracked.capacity_eq] at room
    have notLast : state.queued + 1 ≠ capacity := by
      intro last
      rw [last, Nat.mod_self] at room
      exact room rfl
    refine ⟨by omega, ?_⟩
    intro cell member
    rcases List.mem_cons.mp (subset member) with rfl | old
    · rw [tracked.write, slot]
      exact Nat.lt_succ_self _
    · exact Nat.lt_succ_of_lt (before.2 cell old)
  · rw [if_pos queues, write, tracked.write, tracked.capacity_eq, Nat.mod_add_mod]

/-- A call that finds the list full. -/
theorem full (tracked : state.Tracked capacity cells) (hdr : Header) (queues : state.Queues tag)
    (noRoom : (state.queued + 1) % state.reader.list.capacity = 16 * state.merged % 2 ^ 64) :
    state.step hdr tag = some state ∧
      fipsBufListAddSqe hdr state.reader tag = some (fipsBufErrorNoSpace, state.reader) := by
  have positive : state.reader.list.capacity ≠ 0 := by
    rw [tracked.capacity_eq]
    exact tracked.positive
  have accept := acceptRange_full hdr queues positive (tracked.full_iff.mpr noRoom)
  have result : fipsBufListAddSqe hdr state.reader tag =
      some (fipsBufErrorNoSpace, state.reader) := by
    unfold fipsBufListAddSqe
    rw [accept, Option.bind_some]
  have nothing : state.mergedBy hdr tag = 0 := by
    unfold mergedBy
    rw [accept]
  refine ⟨?_, result⟩
  unfold step
  rw [result, Option.map_some, nothing]
  exact congrArg some (congrArg (ReturnLog.mk state.reader · state.merged)
    (if_neg fun both => success_ne_noSpace both.1.symm))

/-- Every call of a run keeps the counts and the chain. -/
theorem step (tracked : state.Tracked capacity cells) (hdr : Header) (free : state.SlotFree tag) :
    ∃ next rest, state.step hdr tag = some next ∧ next.Tracked capacity rest := by
  by_cases queues : state.Queues tag
  · have parts := free queues
    by_cases noRoom :
        (state.queued + 1) % state.reader.list.capacity = 16 * state.merged % 2 ^ 64
    · exact ⟨state, cells, (tracked.full hdr queues noRoom).1, tracked⟩
    · rcases tracked.queue hdr queues noRoom (parts.2 noRoom) with
        ⟨next, rest, taken, -, nextTracked⟩
      exact ⟨next, rest, taken, nextTracked⟩
  · rcases tracked.inOrder hdr queues with ⟨next, rest, taken, -, nextTracked⟩
    exact ⟨next, rest, taken, nextTracked⟩

/-- Before the first merge every call finds its slot free or the list full. -/
theorem slotFree_unmerged (tracked : state.Tracked capacity cells) (none : state.merged = 0)
    (tag : Range) : state.SlotFree tag := by
  intro _
  have before := tracked.unmerged none
  unfold pending
  rw [none, tracked.capacity_eq, tracked.linked.linked_eq, Nat.mul_zero, Nat.zero_mod,
    Nat.mod_eq_of_lt before.1]
  refine ⟨?_, ?_⟩
  · rcases Nat.lt_or_ge (state.queued + 1) capacity with earlier | last
    · rw [Nat.mod_eq_of_lt earlier]
      omega
    · have whole : state.queued + 1 = capacity := by omega
      rw [whole, Nat.mod_self]
      omega
  · intro _ member
    exact absurd (before.2 _ member) (Nat.lt_irrefl _)

/-- The list is full, as the code tests it, exactly when a call is refused. -/
theorem refused_iff (tracked : state.Tracked capacity cells) (hdr : Header)
    (queues : state.Queues tag) :
    (∃ reader, fipsBufListAddSqe hdr state.reader tag = some (fipsBufErrorNoSpace, reader)) ↔
      (state.queued + 1) % state.reader.list.capacity = 16 * state.merged % 2 ^ 64 := by
  constructor
  · rintro ⟨reader, result⟩
    exact tracked.full_iff.mp (listAddSqe_refused result).2.1
  · intro noRoom
    exact ⟨_, (tracked.full hdr queues noRoom).2⟩

theorem slot_eq (tracked : state.Tracked capacity cells) :
    state.reader.list.writeIndex = state.queued % state.reader.list.capacity := by
  rw [tracked.capacity_eq]
  exact tracked.write

/-- A call manages the slots exactly when its slot is free. -/
theorem slotsManaged_iff (tracked : state.Tracked capacity cells) (hdr : Header) (tag : Range) :
    state.SlotsManaged hdr tag ↔ state.SlotFree tag := by
  constructor
  · intro managed queues
    have refused := tracked.refused_iff hdr queues
    refine ⟨refused.symm.trans (managed.noSpace queues), ?_⟩
    intro room
    rw [← tracked.slot_eq]
    rcases managed.acyclic with ⟨code, reader, _, result, -⟩
    rcases listAddSqe_code result with rfl | rfl
    · exact managed.fresh queues reader result
    · exact absurd (refused.mp ⟨reader, result⟩) room
  · intro free
    constructor
    case fresh =>
      intro queues reader result
      rw [tracked.slot_eq]
      apply (free queues).2
      intro noRoom
      rw [(tracked.full hdr queues noRoom).2] at result
      exact success_ne_noSpace (Prod.mk.inj (Option.some.inj result)).1.symm
    case noSpace =>
      intro queues
      exact (tracked.refused_iff hdr queues).trans (free queues).1
    case unchanged =>
      intro reader result
      exact (listAddSqe_refused result).2.2
    case acyclic =>
      by_cases queues : state.Queues tag
      · by_cases noRoom :
            (state.queued + 1) % state.reader.list.capacity = 16 * state.merged % 2 ^ 64
        · exact ⟨_, _, cells, (tracked.full hdr queues noRoom).2, tracked.linked.chain⟩
        · rcases tracked.queue hdr queues noRoom ((free queues).2 noRoom) with
            ⟨next, rest, -, result, nextTracked⟩
          exact ⟨_, _, rest, result, nextTracked.linked.chain⟩
      · rcases tracked.inOrder hdr queues with ⟨next, rest, -, result, nextTracked⟩
        exact ⟨_, _, rest, result, nextTracked.linked.chain⟩

end Tracked

end ReturnLog

/-- In every run whose calls find their slot free, the list stays a chain, and
the next call manages the slots exactly when it finds its slot free too; until
an entry has been merged every call does. -/
theorem slots_managed_run {hdr : Header} {capacity : Nat} (positive : 1 ≤ capacity)
    {headOffset commitOffset : Nat} {data : Nat → Sqe} {tags : List Range} {last : ReturnLog}
    (run : Run (ReturnLog.step hdr) ReturnLog.SlotFree
      (.created capacity headOffset commitOffset data) tags last) :
    (∃ cells, Chain last.reader.list.next last.reader.list.first cells) ∧
      (∀ tag, last.SlotsManaged hdr tag ↔ last.SlotFree tag) ∧
      (last.merged = 0 → ∀ tag, last.SlotFree tag) := by
  have kept : ∃ cells, last.Tracked capacity cells := by
    apply run.invariant _ ⟨[], .created positive headOffset commitOffset data⟩
    rintro state tag next ⟨cells, tracked⟩ free taken
    rcases tracked.step hdr free with ⟨other, rest, same, nextTracked⟩
    rw [same] at taken
    cases taken
    exact ⟨rest, nextTracked⟩
  rcases kept with ⟨cells, tracked⟩
  exact ⟨⟨cells, tracked.linked.chain⟩, tracked.slotsManaged_iff hdr,
    tracked.slotFree_unmerged⟩

/-- Eight lines and two slots. -/
def twoSlotHeader : Header :=
  .ofFields 1 1 1 1 3 8 2 false (by decide)

/-- The list of a reader that has returned nothing. -/
def twoSlots : ReturnLog := .created twoSlotHeader.maxSqeCount 0 0 fun _ => ⟨.zero, none⟩

/-- The second line is returned before the first and merged after it. -/
theorem slots_managed_run_swapped : ∃ last,
    Run (ReturnLog.step twoSlotHeader) ReturnLog.SlotFree twoSlots
      [⟨1, 1, 0, 0⟩, ⟨0, 1, 0, 0⟩] last ∧
    last.merged = 1 ∧ last.SlotsManaged twoSlotHeader ⟨3, 1, 0, 0⟩ := by
  have executes : (Run.exec (ReturnLog.step twoSlotHeader) ReturnLog.SlotFree twoSlots
      [⟨1, 1, 0, 0⟩, ⟨0, 1, 0, 0⟩]).any (fun last : ReturnLog =>
        decide (last.merged = 1 ∧ last.SlotFree ⟨3, 1, 0, 0⟩)) = true := by
    decide +kernel
  rcases Run.of_exec_any executes with ⟨last, run, final⟩
  rcases of_decide_eq_true final with ⟨merged, free⟩
  exact ⟨last, run, merged, ((slots_managed_run (by decide) run).2.1 _).mpr free⟩

/-- After one merge, two more lines are queued where there is room for one.  The
third goes into the slot of the first, which is linked, and closes a cycle. -/
theorem slots_fail_after_merge : ∃ last,
    Run (ReturnLog.step twoSlotHeader) (fun _ _ => True) twoSlots
      [⟨1, 1, 0, 0⟩, ⟨0, 1, 0, 0⟩, ⟨5, 1, 0, 0⟩, ⟨4, 1, 0, 0⟩] last ∧
    last.pending = 2 ∧ last.reader.list.capacity = 2 ∧
    last.reader.list.writeIndex ∈ last.reader.list.linked ∧
    (∃ reader, fipsBufListAddSqe twoSlotHeader last.reader ⟨3, 1, 0, 0⟩ =
        some (fipsBufSuccess, reader) ∧
      reader.list.next 0 = some 1 ∧ reader.list.next 1 = some 0) ∧
    ¬last.SlotsManaged twoSlotHeader ⟨3, 1, 0, 0⟩ := by
  have executes : (Run.exec (ReturnLog.step twoSlotHeader) (fun _ _ => True) twoSlots
      [⟨1, 1, 0, 0⟩, ⟨0, 1, 0, 0⟩, ⟨5, 1, 0, 0⟩, ⟨4, 1, 0, 0⟩]).any (fun last : ReturnLog =>
        decide (last.pending = 2 ∧ last.reader.list.capacity = 2 ∧
          last.reader.list.writeIndex ∈ last.reader.list.linked ∧
          last.Queues ⟨3, 1, 0, 0⟩) &&
        (fipsBufListAddSqe twoSlotHeader last.reader ⟨3, 1, 0, 0⟩).any fun result =>
          decide (result.1 = fipsBufSuccess ∧ result.2.list.next 0 = some 1 ∧
            result.2.list.next 1 = some 0)) = true := by
    decide +kernel
  rcases Run.of_exec_any executes with ⟨last, run, final⟩
  rcases Bool.and_eq_true_iff.mp final with ⟨parts, call⟩
  rcases of_decide_eq_true parts with ⟨pending, capacity, linked, queues⟩
  rcases (Option.any_eq_true _ _).mp call with ⟨⟨code, reader⟩, result, facts⟩
  rcases of_decide_eq_true facts with ⟨rfl, next0, next1⟩
  exact ⟨last, run, pending, capacity, linked, ⟨reader, result, next0, next1⟩,
    fun managed => managed.fresh queues reader result linked⟩

end FipsIpc.FipsBuf
