import FipsIpc.Lib.AckWindow
import FipsIpc.Lib.Chain
import FipsIpc.Lib.Pass
import FipsIpc.FipsBuf.Buffer

/-!
Contract: the list of pending returns of one reader.

Owns: the chain of linked entries, what `fips_buf_list_add_sqe` does to it as a
list of ranges, and that a reader with a chain of the pending ranges of a window
still has one after a return that is queued where it belongs.

Filling an entry and linking it are separate: the entry is written first, beside
the chain.  The search never looks at it.

Does not own: which calls meet the conditions, `FipsBuf.Returns` and
`FipsBuf.RingOrder`, and when slots are reused, `FipsBuf.Pending`.
-/

set_option autoImplicit false

namespace FipsIpc.FipsBuf

open FipsIpc.Lib

/-- The entries linked from `first_offset` on. -/
def SqeList.linked (list : SqeList) : List Nat :=
  follow (list.capacity + 1) list.first
where
  follow : Nat → Option Nat → List Nat
    | fuel + 1, some cell => cell :: follow fuel (list.data cell).next
    | _, _ => []

/-! ### Linked entries -/

namespace SqeList

/-- The successor function of the entries. -/
def next (list : SqeList) (cell : Nat) : Option Nat := (list.data cell).next

/-- The ranges of linked entries. -/
def rangesOf (list : SqeList) (cells : List Nat) : List Range :=
  cells.map fun cell => (list.data cell).range

theorem follow_of_chain {list : SqeList} {cells : List Nat} :
    ∀ {fuel : Nat} {first : Option Nat}, Chain list.next first cells → cells.length ≤ fuel →
      linked.follow list fuel first = cells := by
  induction cells with
  | nil =>
      intro fuel first chain _
      obtain rfl : first = none := chain
      cases fuel <;> rfl
  | cons cell rest inductionHypothesis =>
      intro fuel first chain enough
      obtain ⟨rfl, tail⟩ := chain
      cases fuel with
      | zero => simp at enough
      | succ fuel =>
          rw [linked.follow]
          exact congrArg (cell :: ·)
            (inductionHypothesis tail (by simpa using enough))

/-- Cells of a chain are distinct, so they fit in the capacity. -/
theorem length_le_capacity {list : SqeList} {first : Option Nat} {cells : List Nat}
    (chain : Chain list.next first cells) (below : ∀ cell ∈ cells, cell < list.capacity) :
    cells.length ≤ list.capacity := by
  have inside : cells ⊆ List.range list.capacity := fun cell member =>
    List.mem_range.mpr (below cell member)
  simpa using (List.subperm_of_subset chain.nodup inside).length_le

theorem linked_eq {list : SqeList} {cells : List Nat} (chain : Chain list.next list.first cells)
    (below : ∀ cell ∈ cells, cell < list.capacity) : list.linked = cells :=
  follow_of_chain chain ((length_le_capacity chain below).trans (Nat.le_succ _))

@[simp] theorem link_capacity (list : SqeList) (prev : Option Nat) (index : Nat) :
    (list.link prev index).capacity = list.capacity := by
  cases prev <;> rfl

@[simp] theorem link_writeIndex (list : SqeList) (prev : Option Nat) (index : Nat) :
    (list.link prev index).writeIndex = list.writeIndex := by
  cases prev <;> rfl

/-- Linking redirects one pointer. -/
theorem next_link_some (list : SqeList) (prev index : Nat) :
    (list.link (some prev) index).next = Function.update list.next prev (some index) := by
  funext cell
  unfold next link
  by_cases same : cell = prev
  · subst same
    simp
  · simp [Function.update_of_ne same]

theorem range_link (list : SqeList) (prev : Option Nat) (index cell : Nat) :
    ((list.link prev index).data cell).range = (list.data cell).range := by
  cases prev with
  | none => rfl
  | some prev =>
      unfold link
      by_cases same : cell = prev
      · subst same
        simp
      · simp [Function.update_of_ne same]

/-- The list after entry `index` was put before entry `current`. -/
def putBefore (list : SqeList) (prev : Option Nat) (index current : Nat) : SqeList :=
  { list.link prev index with
    data := Function.update (list.link prev index).data index
      { (list.link prev index).data index with next := some current } }

@[simp] theorem putBefore_capacity (list : SqeList) (prev : Option Nat) (index current : Nat) :
    (list.putBefore prev index current).capacity = list.capacity :=
  list.link_capacity prev index

@[simp] theorem putBefore_writeIndex (list : SqeList) (prev : Option Nat) (index current : Nat) :
    (list.putBefore prev index current).writeIndex = list.writeIndex :=
  list.link_writeIndex prev index

theorem next_putBefore (list : SqeList) (prev : Option Nat) (index current : Nat) :
    (list.putBefore prev index current).next =
      Function.update (list.link prev index).next index (some current) := by
  funext cell
  unfold putBefore next
  by_cases same : cell = index
  · subst same
    simp
  · simp [Function.update_of_ne same]

theorem range_putBefore (list : SqeList) (prev : Option Nat) (index current cell : Nat) :
    ((list.putBefore prev index current).data cell).range = (list.data cell).range := by
  rw [← list.range_link prev index cell]
  unfold putBefore
  by_cases same : cell = index
  · subst same
    simp
  · simp [Function.update_of_ne same]

/-- The search passes the entries that start no later. -/
theorem insertSqe_pass {list : SqeList} {index startIndex target fuel : Nat} {rest : List Nat} :
    ∀ {middle left : List Nat} {current : Nat},
      Chain list.next list.first (left ++ (middle ++ target :: rest)) →
      (∀ cell ∈ middle, (list.data cell).range.startIndex ≤ startIndex) →
      (middle ++ target :: rest).head? = some current →
      list.insertSqe index startIndex (middle.length + fuel) left.getLast? current =
        list.insertSqe index startIndex fuel (left ++ middle).getLast? target := by
  intro middle
  induction middle with
  | nil =>
      intro left current chain _ isCurrent
      obtain rfl : target = current := by simpa using isCurrent
      rw [List.length_nil, Nat.zero_add, List.append_nil]
  | cons cell middle inductionHypothesis =>
      intro left current chain earlier isCurrent
      obtain rfl : cell = current := by simpa using isCurrent
      have notLater := earlier cell (by simp)
      obtain ⟨following, isFollowing⟩ : ∃ following,
          (middle ++ target :: rest).head? = some following := by
        cases middle with
        | nil => exact ⟨target, rfl⟩
        | cons head tail => exact ⟨head, rfl⟩
      have step : (list.data cell).next = some following := by
        rw [← isFollowing]
        exact Chain.next_eq chain
      have chainNext : Chain list.next list.first
          ((left ++ [cell]) ++ (middle ++ target :: rest)) := by
        simpa using chain
      have passed := inductionHypothesis chainNext
        (fun other member => earlier other (by simp [member])) isFollowing
      rw [List.length_cons, Nat.add_right_comm, insertSqe, if_neg (by omega), step]
      simpa using passed

/-- The new entry goes before the first entry that starts later. -/
theorem insertSqe_before {list : SqeList} {index startIndex later fuel current : Nat}
    {middle rest : List Nat} (chain : Chain list.next list.first (middle ++ later :: rest))
    (earlier : ∀ cell ∈ middle, (list.data cell).range.startIndex ≤ startIndex)
    (isLater : startIndex < (list.data later).range.startIndex) (enough : middle.length < fuel)
    (isCurrent : list.first = some current) :
    list.insertSqe index startIndex fuel none current =
      some (list.putBefore middle.getLast? index later) := by
  have head : (middle ++ later :: rest).head? = some current := chain.first_eq ▸ isCurrent
  obtain ⟨spare, rfl⟩ := Nat.exists_eq_add_of_lt enough
  have passed : list.insertSqe index startIndex (middle.length + (spare + 1))
      ([] : List Nat).getLast? current = _ := insertSqe_pass chain earlier head
  rw [Nat.add_assoc]
  apply passed.trans
  rw [insertSqe, if_pos isLater, List.nil_append]
  rfl

/-- Without a later entry the last one is passed and unlinked. -/
theorem insertSqe_atEnd {list : SqeList} {index startIndex last fuel current : Nat}
    {middle : List Nat} (chain : Chain list.next list.first (middle ++ [last]))
    (earlier : ∀ cell ∈ middle ++ [last], (list.data cell).range.startIndex ≤ startIndex)
    (enough : middle.length < fuel) (isCurrent : list.first = some current) :
    list.insertSqe index startIndex fuel none current =
      some ((list.link (some last) index).link middle.getLast? index) := by
  have head : (middle ++ [last]).head? = some current := chain.first_eq ▸ isCurrent
  have notLater := earlier last (by simp)
  have step : (list.data last).next = none := Chain.next_eq chain
  obtain ⟨spare, rfl⟩ := Nat.exists_eq_add_of_lt enough
  have passed : list.insertSqe index startIndex (middle.length + (spare + 1))
      ([] : List Nat).getLast? current = _ :=
    insertSqe_pass chain (fun cell member => earlier cell (by simp [member])) head
  rw [Nat.add_assoc]
  apply passed.trans
  rw [insertSqe, if_neg (by omega), step, List.nil_append]

theorem stage_next (list : SqeList) (tag : Range) :
    (list.stage tag).next = Function.update list.next list.writeIndex none := by
  funext cell
  unfold next stage
  by_cases same : cell = list.writeIndex
  · subst same
    simp
  · simp [Function.update_of_ne same]

theorem stage_range_self (list : SqeList) (tag : Range) :
    ((list.stage tag).data list.writeIndex).range = tag := by
  simp [stage]

theorem stage_range_of_ne (list : SqeList) (tag : Range) {cell : Nat}
    (different : cell ≠ list.writeIndex) :
    ((list.stage tag).data cell).range = (list.data cell).range := by
  simp [stage, Function.update_of_ne different]

theorem stage_rangesOf (list : SqeList) (tag : Range) {cells : List Nat}
    (outside : list.writeIndex ∉ cells) :
    (list.stage tag).rangesOf cells = list.rangesOf cells :=
  List.map_congr_left fun _ member =>
    stage_range_of_ne list tag (ne_of_mem_of_not_mem member outside)

/-- Linking the staged entry in front of `later` puts it there in the chain. -/
theorem chain_putBefore {list : SqeList} {index later : Nat} {middle rest : List Nat}
    (chain : Chain list.next list.first (middle ++ later :: rest))
    (outside : index ∉ middle ++ later :: rest) :
    Chain (list.putBefore middle.getLast? index later).next
      (list.putBefore middle.getLast? index later).first (middle ++ index :: later :: rest) := by
  rw [next_putBefore]
  rcases List.eq_nil_or_concat middle with rfl | ⟨before, prev, rfl⟩
  · have first : list.first = some later := chain.1
    have pushed := chain.push outside
    rw [first] at pushed
    exact pushed
  · have different : index ≠ prev := fun same => outside (by simp [same])
    rw [List.concat_eq_append, List.append_assoc, List.singleton_append] at chain outside
    have inserted := chain.insertAfter outside
    rw [List.concat_eq_append, List.getLast?_concat, next_link_some,
      Function.update_comm different.symm, List.append_assoc]
    exact inserted

/-- Appending redirects the predecessor of the last entry too, which takes the
last entry out of the chain. -/
theorem chain_linkAtEnd {list : SqeList} {index last : Nat} {middle : List Nat}
    (chain : Chain list.next list.first (middle ++ [last])) (outside : index ∉ middle ++ [last])
    (ends : list.next index = none) :
    Chain ((list.link (some last) index).link middle.getLast? index).next
      ((list.link (some last) index).link middle.getLast? index).first (middle ++ [index]) := by
  have notLast : index ≠ last := fun same => outside (by simp [same])
  have single : Chain (list.link (some last) index).next (some index) [index] := by
    refine ⟨rfl, ?_⟩
    rw [SqeList.next_link_some, Function.update_of_ne notLast]
    exact ends
  rcases List.eq_nil_or_concat middle with rfl | ⟨before, prev, rfl⟩
  · exact single
  · have notPrev : index ≠ prev := fun same => outside (by simp [same])
    rw [List.concat_eq_append] at chain ⊢
    have appended : Chain (list.link (some last) index).next list.first
        (before ++ prev :: [last, index]) := by
      rw [SqeList.next_link_some] at single ⊢
      have redirected := chain.redirect single
      simpa using redirected
    rw [List.getLast?_concat, SqeList.next_link_some, List.append_assoc]
    exact appended.redirect (single.update_of_not_mem (by simpa using notPrev.symm))

theorem rangesOf_putBefore (list : SqeList) (prev : Option Nat) (index later : Nat)
    (cells : List Nat) :
    (list.putBefore prev index later).rangesOf cells = list.rangesOf cells :=
  List.map_congr_left fun cell _ => list.range_putBefore prev index later cell

/-- The ranges of the list when the staged one is linked in. -/
theorem rangesOf_stage_putBefore {list : SqeList} {tag : Range} {previous : Option Nat}
    {middle rest : List Nat} {laterCell : Nat}
    (outside : list.writeIndex ∉ middle ++ laterCell :: rest) :
    ((list.stage tag).putBefore previous list.writeIndex laterCell).rangesOf
        (middle ++ list.writeIndex :: laterCell :: rest) =
      list.rangesOf middle ++ tag :: list.rangesOf (laterCell :: rest) := by
  have middleOutside : list.writeIndex ∉ middle := fun member => outside (by simp [member])
  have tailOutside : list.writeIndex ∉ laterCell :: rest :=
    fun member => outside (List.mem_append_right _ member)
  rw [rangesOf_putBefore, rangesOf, List.map_append, List.map_cons, stage_range_self]
  change (list.stage _).rangesOf middle ++ tag :: (list.stage _).rangesOf (laterCell :: rest) = _
  rw [stage_rangesOf _ _ middleOutside, stage_rangesOf _ _ tailOutside]

/-- A list that can be followed to its end, inside the capacity. -/
structure Linked (list : SqeList) (cells : List Nat) : Prop where
  chain : Chain list.next list.first cells
  below : ∀ cell ∈ cells, cell < list.capacity

theorem Linked.linked_eq {list : SqeList} {cells : List Nat} (linked : list.Linked cells) :
    list.linked = cells :=
  SqeList.linked_eq linked.chain linked.below

variable {list : SqeList} {cells : List Nat}

/-- The new entry is filled in beside the chain. -/
theorem Linked.stage (linked : list.Linked cells) (fresh : list.writeIndex ∉ cells) (tag : Range) :
    (list.stage tag).Linked cells where
  chain := by
    rw [stage_next]
    exact linked.chain.update_of_not_mem fresh
  below := linked.below

/-- A chain through the old entries and one more. -/
theorem Linked.of_subset {after : SqeList} {cells' : List Nat} {index : Nat}
    (linked : list.Linked cells) (chain : Chain after.next after.first cells')
    (subset : cells' ⊆ index :: cells) (inside : index < list.capacity)
    (capacity : after.capacity = list.capacity) : after.Linked cells' where
  chain := chain
  below cell member := by
    rw [capacity]
    rcases List.mem_cons.mp (subset member) with rfl | old
    · exact inside
    · exact linked.below cell old

theorem Linked.merge {reader : ReaderPointer} {current : Nat} {rest : List Nat}
    (linked : reader.list.Linked (current :: rest)) (hdr : Header) :
    (mergeSqe hdr reader current).list.Linked rest where
  chain := by
    have outside : current ∉ rest := (List.nodup_cons.mp linked.chain.nodup).1
    apply linked.chain.2.frame
    intro cell member
    unfold SqeList.next mergeSqe
    dsimp only
    rw [Function.update_of_ne (ne_of_mem_of_not_mem member outside)]
  below cell member := linked.below cell (List.mem_cons_of_mem _ member)

end SqeList

/-! ### The pending list as a list of ranges -/

/-- The drain on the ranges of the list. -/
def drainRanges (hdr : Header) : (commitOffset : Nat) → List Range → Nat × List Range
  | commitOffset, [] => (commitOffset, [])
  | commitOffset, range :: rest =>
      if range.startIndex = commitOffset then
        drainRanges hdr (hdr.wrapLine (commitOffset + range.count)) rest
      else (commitOffset, range :: rest)

/-- The insertion in front of the first range that starts later. -/
def insertRange (tag : Range) : List Range → List Range
  | [] => [tag]
  | range :: rest =>
      if tag.startIndex < range.startIndex then tag :: range :: rest
      else range :: insertRange tag rest

section Refinement

variable {hdr : Header} {reader : ReaderPointer} {cells : List Nat} {tag : Range}

theorem insertRange_split {before after : List Range} {later : Range}
    (earlier : ∀ range ∈ before, range.startIndex ≤ tag.startIndex)
    (isLater : tag.startIndex < later.startIndex) :
    insertRange tag (before ++ later :: after) = before ++ tag :: later :: after := by
  induction before with
  | nil =>
      show insertRange tag (later :: after) = _
      rw [insertRange, if_pos isLater]
      rfl
  | cons range rest inductionHypothesis =>
      rw [List.forall_mem_cons] at earlier
      show insertRange tag (range :: (rest ++ later :: after)) = _
      rw [insertRange, if_neg (Nat.not_lt.mpr earlier.1), inductionHypothesis earlier.2]
      rfl

/-- The drain of the linked list is that of its ranges. -/
theorem drainSqe_ranges (linked : reader.list.Linked cells) {fuel : Nat}
    (enough : cells.length < fuel) :
    ∃ drained rest, drainSqe hdr fuel reader = some drained ∧ drained.list.Linked rest ∧
      (drained.commitOffset, drained.list.rangesOf rest) =
        drainRanges hdr reader.commitOffset (reader.list.rangesOf cells) ∧
      drained.list.capacity = reader.list.capacity ∧
      drained.list.writeIndex = reader.list.writeIndex := by
  induction cells generalizing reader fuel with
  | nil =>
      have empty : reader.list.first = none := linked.chain
      cases fuel with
      | zero => exact absurd enough (Nat.not_lt_zero _)
      | succ fuel =>
          refine ⟨reader, [], ?_, linked, rfl, rfl, rfl⟩
          rw [drainSqe, empty]
  | cons cell rest inductionHypothesis =>
      have first : reader.list.first = some cell := linked.chain.1
      have outside : cell ∉ rest := (List.nodup_cons.mp linked.chain.nodup).1
      cases fuel with
      | zero => exact absurd enough (Nat.not_lt_zero _)
      | succ fuel =>
          have ranges_eq : reader.list.rangesOf (cell :: rest) =
              (reader.list.data cell).range :: reader.list.rangesOf rest := rfl
          rw [drainSqe, first, ranges_eq, drainRanges]
          dsimp only
          by_cases here : (reader.list.data cell).range.startIndex = reader.commitOffset
          · have kept : (mergeSqe hdr reader cell).list.rangesOf rest =
                reader.list.rangesOf rest := by
              apply List.map_congr_left
              intro other member
              unfold mergeSqe
              dsimp only
              rw [Function.update_of_ne (ne_of_mem_of_not_mem member outside)]
            rcases inductionHypothesis (linked.merge hdr) (Nat.lt_of_succ_lt_succ enough) with
              ⟨drained, left, result, leftLinked, same, fields⟩
            rw [kept] at same
            rw [if_pos here, if_pos here]
            exact ⟨drained, left, result, leftLinked, same, fields⟩
          · rw [if_neg here, if_neg here]
            exact ⟨reader, cell :: rest, rfl, linked, rfl, rfl, rfl⟩

/-- What queueing a range does to the ranges of the list. -/
structure Queues (reader : ReaderPointer) (cells : List Nat) (tag : Range)
    (queued : ReaderPointer) (cells' : List Nat) : Prop where
  result : enqueueSqe reader tag = some (.ok queued)
  linked : queued.list.Linked cells'
  ranges : queued.list.rangesOf cells' = insertRange tag (reader.list.rangesOf cells)
  commit : queued.commitOffset = reader.commitOffset
  capacity : queued.list.capacity = reader.list.capacity
  write : queued.list.writeIndex = (reader.list.writeIndex + 1) % reader.list.capacity

/-- The list is empty. -/
theorem queues_first (empty : reader.list.first = none)
    (inside : reader.list.writeIndex < reader.list.capacity)
    (room : reader.list.readIndex ≠ (reader.list.writeIndex + 1) % reader.list.capacity) :
    Queues reader [] tag
      { reader with list := { reader.list.stage tag with first := some reader.list.writeIndex } }
      [reader.list.writeIndex] where
  result := by
    unfold enqueueSqe
    rw [if_neg (by omega), if_neg room, empty]
  linked := by
    refine ⟨⟨rfl, ?_⟩, ?_⟩
    · show (reader.list.stage tag).next reader.list.writeIndex = none
      rw [SqeList.stage_next, Function.update_self]
    · intro other single
      rw [List.mem_singleton.mp single]
      exact inside
  ranges := by
    show [((reader.list.stage tag).data reader.list.writeIndex).range] = [tag]
    rw [SqeList.stage_range_self]
  commit := rfl
  capacity := rfl
  write := rfl

/-- The search stops in front of the first entry that starts later. -/
theorem insertSqe_stage {middle rest : List Nat} {later current : Nat}
    (linked : reader.list.Linked (middle ++ later :: rest))
    (fresh : reader.list.writeIndex ∉ middle ++ later :: rest)
    (earlier : ∀ cell ∈ middle, (reader.list.data cell).range.startIndex ≤ tag.startIndex)
    (isLater : tag.startIndex < (reader.list.data later).range.startIndex)
    (isCurrent : reader.list.first = some current) :
    (reader.list.stage tag).insertSqe reader.list.writeIndex tag.startIndex
      (reader.list.capacity + 1) none current =
      some ((reader.list.stage tag).putBefore middle.getLast? reader.list.writeIndex later) := by
  have staged := linked.stage fresh tag
  have notWritten : ∀ cell ∈ middle ++ later :: rest, cell ≠ reader.list.writeIndex :=
    fun cell member => ne_of_mem_of_not_mem member fresh
  have few := SqeList.length_le_capacity linked.chain linked.below
  rw [List.length_append, List.length_cons] at few
  apply SqeList.insertSqe_before staged.chain _ _ (by omega) isCurrent
  · intro cell member
    rw [SqeList.stage_range_of_ne _ _ (notWritten cell (by simp [member]))]
    exact earlier cell member
  · rw [SqeList.stage_range_of_ne _ _ (notWritten later (by simp))]
    exact isLater

/-- Some entry starts later. -/
theorem queues_before {middle rest : List Nat} {later : Nat}
    (linked : reader.list.Linked (middle ++ later :: rest))
    (inside : reader.list.writeIndex < reader.list.capacity)
    (room : reader.list.readIndex ≠ (reader.list.writeIndex + 1) % reader.list.capacity)
    (fresh : reader.list.writeIndex ∉ middle ++ later :: rest)
    (earlier : ∀ cell ∈ middle, (reader.list.data cell).range.startIndex ≤ tag.startIndex)
    (isLater : tag.startIndex < (reader.list.data later).range.startIndex) :
    Queues reader (middle ++ later :: rest) tag
      { reader with
        list := (reader.list.stage tag).putBefore middle.getLast? reader.list.writeIndex later }
      (middle ++ reader.list.writeIndex :: later :: rest) where
  result := by
    obtain ⟨current, isCurrent⟩ : ∃ current, reader.list.first = some current := by
      rw [linked.chain.first_eq]
      cases middle <;> exact ⟨_, rfl⟩
    unfold enqueueSqe
    dsimp only
    rw [if_neg (by omega), if_neg room, isCurrent]
    exact congrArg (Option.map _) (insertSqe_stage linked fresh earlier isLater isCurrent)
  linked := by
    apply linked.of_subset (SqeList.chain_putBefore (linked.stage fresh tag).chain fresh) _
      inside (SqeList.putBefore_capacity _ _ _ _)
    exact List.perm_middle.subset
  ranges := by
    have whole : reader.list.rangesOf (middle ++ later :: rest) =
        reader.list.rangesOf middle ++
          (reader.list.data later).range :: reader.list.rangesOf rest := by
      simp [SqeList.rangesOf]
    rw [SqeList.rangesOf_stage_putBefore fresh, whole, insertRange_split _ isLater]
    · rfl
    · intro range isRange
      rcases List.mem_map.mp isRange with ⟨cell, member, rfl⟩
      exact earlier cell member
  commit := rfl
  capacity := SqeList.putBefore_capacity _ _ _ _
  write := SqeList.putBefore_writeIndex _ _ _ _

/-- No entry starts later: the last one is passed and unlinked. -/
theorem enqueueSqe_atEnd {middle : List Nat} {last : Nat}
    (linked : reader.list.Linked (middle ++ [last])) (positive : reader.list.capacity ≠ 0)
    (room : reader.list.readIndex ≠ (reader.list.writeIndex + 1) % reader.list.capacity)
    (fresh : reader.list.writeIndex ∉ middle ++ [last])
    (notLater : ∀ cell ∈ middle ++ [last],
      (reader.list.data cell).range.startIndex ≤ tag.startIndex) :
    enqueueSqe reader tag = some (.ok { reader with
      list := ((reader.list.stage tag).link (some last) reader.list.writeIndex).link
        middle.getLast? reader.list.writeIndex }) := by
  have staged := linked.stage fresh tag
  have few := SqeList.length_le_capacity linked.chain linked.below
  rw [List.length_append, List.length_singleton] at few
  obtain ⟨current, isCurrent⟩ : ∃ current, reader.list.first = some current := by
    rw [linked.chain.first_eq]
    cases middle <;> exact ⟨_, rfl⟩
  have stagedNotLater : ∀ cell ∈ middle ++ [last],
      ((reader.list.stage tag).data cell).range.startIndex ≤ tag.startIndex := by
    intro cell member
    rw [SqeList.stage_range_of_ne _ _ (ne_of_mem_of_not_mem member fresh)]
    exact notLater cell member
  have search : (reader.list.stage tag).insertSqe reader.list.writeIndex tag.startIndex
      (reader.list.capacity + 1) none current = _ :=
    SqeList.insertSqe_atEnd staged.chain stagedNotLater (by omega) isCurrent
  unfold enqueueSqe
  dsimp only
  rw [if_neg positive, if_neg room, isCurrent]
  exact congrArg (Option.map _) search

/-- A call that queues its range, not at the end of a nonempty list. -/
theorem exists_queues (linked : reader.list.Linked cells)
    (inside : reader.list.writeIndex < reader.list.capacity)
    (room : reader.list.readIndex ≠ (reader.list.writeIndex + 1) % reader.list.capacity)
    (fresh : reader.list.writeIndex ∉ cells)
    (notLast : reader.list.first = none ∨
      ∃ cell ∈ cells, tag.startIndex < (reader.list.data cell).range.startIndex) :
    ∃ queued cells', Queues reader cells tag queued cells' := by
  rcases notLast with empty | ⟨cell, member, isLater⟩
  · obtain rfl : cells = [] := (empty ▸ linked.chain).unique rfl
    exact ⟨_, _, queues_first empty inside room⟩
  · rcases all_or_first (fun cell => (reader.list.data cell).range.startIndex ≤ tag.startIndex)
        cells with all | ⟨middle, later, rest, rfl, earlier, first⟩
    · exact absurd isLater (Nat.not_lt.mpr (all cell member))
    · exact ⟨_, _, queues_before linked inside room fresh earlier (Nat.not_le.mp first)⟩

/-- A call whose range is accepted drains the list. -/
theorem listAddSqe_ranges {accepted : ReaderPointer}
    (accept : acceptRange hdr reader tag = some (.ok accepted))
    (linked : accepted.list.Linked cells) :
    ∃ drained rest, fipsBufListAddSqe hdr reader tag = some (fipsBufSuccess, drained) ∧
      drained.list.Linked rest ∧
      (drained.commitOffset, drained.list.rangesOf rest) =
        drainRanges hdr accepted.commitOffset (accepted.list.rangesOf cells) ∧
      drained.list.capacity = accepted.list.capacity ∧
      drained.list.writeIndex = accepted.list.writeIndex := by
  have short := SqeList.length_le_capacity linked.chain linked.below
  have enough : cells.length < accepted.list.capacity + 2 := by omega
  rcases @drainSqe_ranges hdr _ _ linked _ enough with ⟨drained, rest, drain, parts⟩
  refine ⟨drained, rest, ?_, parts⟩
  unfold fipsBufListAddSqe
  rw [accept, Option.bind_some]
  dsimp only
  rw [drain, Option.map_some]

end Refinement

/-! ### Windows of consecutive ranges -/

/-- Consecutive ranges of fewer lines than the ring has: range number `item`
starts at `place item`, and the last one ends at `place bound`. -/
structure RangeSeq (hdr : Header) where
  bound : Nat
  range : Nat → Range
  place : Nat → Nat
  starts : ∀ item < bound, (range item).startIndex = place item
  apart : ∀ item < bound, ∀ low ≤ bound, place item = place low → item = low
  advances : ∀ item < bound, hdr.wrapLine (place item + (range item).count) = place (item + 1)

/-- The insertion goes by the numbers of the ranges where these agree with the
start indices. -/
theorem insertRange_insertItem {range : Nat → Range} {index : Nat} {pending : List Nat}
    (agree : ∀ item ∈ pending, (range index).startIndex < (range item).startIndex ↔
      index < item) :
    insertRange (range index) (pending.map range) =
      (AckWindow.insertItem index pending).map range := by
  induction pending with
  | nil => rfl
  | cons item rest inductionHypothesis =>
      rw [List.forall_mem_cons] at agree
      rw [List.map_cons, insertRange, AckWindow.insertItem]
      simp only [agree.1]
      split
      · rfl
      · rw [inductionHypothesis agree.2]
        rfl

namespace RangeSeq

variable {hdr : Header} (ranges : RangeSeq hdr)

/-- The drain absorbs the pending ranges that continue the gap. -/
theorem drainRanges_absorb {low : Nat} {pending : List Nat} (low_le : low ≤ ranges.bound)
    (pending_lt : ∀ item ∈ pending, item < ranges.bound) :
    drainRanges hdr (ranges.place low) (pending.map ranges.range) =
      (ranges.place (AckWindow.absorb low pending).1,
        (AckWindow.absorb low pending).2.map ranges.range) := by
  induction pending generalizing low with
  | nil => rfl
  | cons item rest inductionHypothesis =>
      rw [List.forall_mem_cons] at pending_lt
      rw [List.map_cons, drainRanges, AckWindow.absorb, ranges.starts item pending_lt.1]
      by_cases same : item = low
      · rw [if_pos (congrArg ranges.place same), if_pos same, ← same,
          ranges.advances item pending_lt.1]
        exact inductionHypothesis pending_lt.1 pending_lt.2
      · have elsewhere : ranges.place item ≠ ranges.place low :=
          fun equal => same (ranges.apart item pending_lt.1 low low_le equal)
        rw [if_neg elsewhere, if_neg same]
        rfl

/-- The reader holds an acknowledgement window of the ranges: the linked entries
are its pending ranges in order, and `commit_offset` is where range `low` starts. -/
structure Holds (reader : ReaderPointer) (window : AckWindow) (cells : List Nat) : Prop where
  commit : reader.commitOffset = ranges.place window.low
  low_le : window.low ≤ ranges.bound
  pending_lt : ∀ item ∈ window.pending, item < ranges.bound
  linked : reader.list.Linked cells
  held : reader.list.rangesOf cells = window.pending.map ranges.range
  write_lt : reader.list.capacity ≠ 0 → reader.list.writeIndex < reader.list.capacity

variable {ranges} {reader drained : ReaderPointer} {window : AckWindow} {cells rest : List Nat}

/-- The drained list of a window that absorbed its pending ranges. -/
theorem holds_of_drained {low : Nat} {pending : List Nat} (linked : drained.list.Linked rest)
    (same : (drained.commitOffset, drained.list.rangesOf rest) =
      drainRanges hdr (ranges.place low) (pending.map ranges.range))
    (low_le : low ≤ ranges.bound) (pending_lt : ∀ item ∈ pending, item < ranges.bound)
    (isWindow : AckWindow.absorb low pending = (window.low, window.pending))
    (acked : ∀ item, window.Acked item → item < low ∨ item ∈ pending)
    (write_lt : drained.list.capacity ≠ 0 → drained.list.writeIndex < drained.list.capacity) :
    ranges.Holds drained window rest := by
  rw [ranges.drainRanges_absorb low_le pending_lt, isWindow] at same
  rcases Prod.mk.inj same with ⟨commit, held⟩
  have acked_lt : ∀ item, window.Acked item → item < ranges.bound := by
    intro item isAcked
    rcases acked item isAcked with before | member
    · exact Nat.lt_of_lt_of_le before low_le
    · exact pending_lt item member
  refine ⟨commit, ?_, ?_, linked, held, write_lt⟩
  · by_contra beyond
    exact Nat.lt_irrefl _ (acked_lt _ (Or.inl (Nat.not_le.mp beyond)))
  · intro item member
    exact acked_lt item (Or.inr member)

/-- The range at the gap, and the pending ones behind it. -/
theorem Holds.inOrder (holds : ranges.Holds reader window cells)
    (below : window.low < ranges.bound) :
    ∃ drained rest,
      fipsBufListAddSqe hdr reader (ranges.range window.low) = some (fipsBufSuccess, drained) ∧
      ranges.Holds drained window.ackLow rest := by
  have isStart := ranges.starts window.low below
  have accept : acceptRange hdr reader (ranges.range window.low) = some (.ok { reader with
      commitOffset := hdr.wrapLine (reader.commitOffset + (ranges.range window.low).count) }) :=
    if_pos (holds.commit.trans isStart.symm)
  rcases listAddSqe_ranges accept holds.linked with
    ⟨drained, rest, result, linked, same, capacity, write⟩
  dsimp only at same capacity write
  rw [holds.commit, ranges.advances window.low below, holds.held] at same
  refine ⟨drained, rest, result, holds_of_drained linked same below holds.pending_lt rfl ?_ ?_⟩
  · intro item isAcked
    rcases (window.acked_ackLow item).mp isAcked with rfl | before | pending
    · exact Or.inl (Nat.lt_succ_self _)
    · exact Or.inl (Nat.lt_succ_of_lt before)
    · exact Or.inr pending
  · rw [capacity, write]
    exact holds.write_lt

/-- A range that is queued where it belongs. -/
theorem Holds.queued (holds : ranges.Holds reader window cells) {index : Nat}
    (below : index < ranges.bound) (later : window.low < index) (fresh : index ∉ window.pending)
    (positive : reader.list.capacity ≠ 0)
    (room : reader.list.readIndex ≠ (reader.list.writeIndex + 1) % reader.list.capacity)
    (unlinked : reader.list.writeIndex ∉ cells)
    (notLast : reader.list.first = none ∨ ∃ cell ∈ cells,
      (ranges.range index).startIndex < (reader.list.data cell).range.startIndex)
    (agree : ∀ item ∈ window.pending,
      (ranges.range index).startIndex < (ranges.range item).startIndex ↔ index < item) :
    ∃ drained rest,
      fipsBufListAddSqe hdr reader (ranges.range index) = some (fipsBufSuccess, drained) ∧
      ranges.Holds drained (window.ackLater index later fresh) rest := by
  have outOfOrder : reader.commitOffset ≠ (ranges.range index).startIndex := by
    rw [holds.commit, ranges.starts index below]
    intro same
    exact later.ne' (ranges.apart index below window.low holds.low_le same.symm)
  rcases exists_queues holds.linked (holds.write_lt positive) room unlinked notLast with
    ⟨queued, newCells, queues⟩
  have accept : acceptRange hdr reader (ranges.range index) = some (.ok queued) :=
    (if_neg outOfOrder).trans queues.result
  rcases listAddSqe_ranges accept queues.linked with
    ⟨drained, rest, result, linked, same, capacity, write⟩
  rw [queues.ranges, queues.commit, holds.commit, holds.held, insertRange_insertItem agree] at same
  refine ⟨drained, rest, result, holds_of_drained linked same holds.low_le ?_
    (AckWindow.absorb_of_above (window.ackLater index later fresh).above)
    (fun _ isAcked => isAcked) ?_⟩
  · intro item member
    rcases AckWindow.mem_insertItem.mp member with rfl | old
    · exact below
    · exact holds.pending_lt item old
  · rw [capacity, write, queues.capacity, queues.write]
    exact fun _ => Nat.mod_lt _ (Nat.pos_of_ne_zero positive)

end RangeSeq

end FipsIpc.FipsBuf
