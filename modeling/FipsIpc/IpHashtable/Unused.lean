import FipsIpc.IpHashtable.Refinement

/-!
Contract: calls on the hash table return, whatever the unused entries hold.

Owns: two tables that agree but for the contents of entries outside the bins,
the values that calls return on both, and that every call on a well-formed
table returns, whatever the system answers.

A new entry takes over the key bytes that its memory held behind an IPv4
address, so the keys of unused entries have to be the same in both tables; the
other fields are overwritten.

Does not own: what the returned values are.
-/

set_option autoImplicit false

namespace FipsIpc.IpHashtable

open FipsIpc.Lib

/-- The table over other entries. -/
def Table.withEntries (table : Table) (memory : Nat → Entry) : Table :=
  { table with entries := memory }

/-- `memory` has the keys of the table, and its entries in the bins. -/
structure Alike (table : Table) (memory : Nat → Entry) (bins : BitVec 16 → List Nat)
    (free : List Nat) : Prop extends Shape table bins free where
  keys : ∀ entry < table.allocated, (memory entry).key = (table.entries entry).key
  same : ∀ index, ∀ entry ∈ bins index, memory entry = table.entries entry

/-- A call returns the same value on both tables and leaves them alike. -/
def ReturnsAlike (call : Table → Option (Int × Table)) (table : Table) (memory : Nat → Entry) :
    Prop :=
  ∃ result next nextMemory nextBins nextFree, call table = some (result, next) ∧
    call (table.withEntries memory) = some (result, next.withEntries nextMemory) ∧
    Alike next nextMemory nextBins nextFree

namespace Alike

variable {table : Table} {memory : Nat → Entry} {bins : BitVec 16 → List Nat} {free : List Nat}

theorem refl (shape : Shape table bins free) : Alike table table.entries bins free :=
  ⟨shape, fun _ _ => rfl, fun _ _ _ => rfl⟩

theorem search (address : Address) {cells : List Nat} {cursor : Option Nat}
    (chain : Chain table.next cursor cells)
    (same : ∀ entry ∈ cells, memory entry = table.entries entry) (fuel : Nat)
    (prev : Option Nat) :
    (table.withEntries memory).search address fuel prev cursor =
      table.search address fuel prev cursor := by
  induction fuel generalizing cells prev cursor with
  | zero => cases cursor <;> rfl
  | succ fuel inductionHypothesis =>
      cases cells with
      | nil =>
          cases chain
          rfl
      | cons entry rest =>
          cases chain.1
          have later := inductionHypothesis chain.2
            (fun cell member => same cell (List.mem_cons_of_mem _ member)) (some entry)
          have entries : (table.withEntries memory).entries entry = table.entries entry :=
            same entry List.mem_cons_self
          unfold Table.search
          rw [entries]
          split
          · rfl
          · exact later

theorem find (alike : Alike table memory bins free) (address : Address) :
    (table.withEntries memory).find address = table.find address :=
  search address (alike.bin address.hashIp) (alike.same address.hashIp) _ none

/-- Both tables store the same value in an entry of a bin. -/
theorem setEntry (alike : Alike table memory bins free) (entry : Nat) (value : Entry) :
    Alike (table.setEntry entry value) (Function.update memory entry value) bins free where
  toShape := alike.toShape.setEntry entry value
  keys cell inside := by
    show (Function.update memory entry value cell).key =
      (Function.update table.entries entry value cell).key
    by_cases equal : cell = entry
    · rw [equal, Function.update_self, Function.update_self]
    · rw [Function.update_of_ne equal, Function.update_of_ne equal]
      exact alike.keys cell inside
  same index cell member := by
    show Function.update memory entry value cell = Function.update table.entries entry value cell
    by_cases equal : cell = entry
    · rw [equal, Function.update_self, Function.update_self]
    · rw [Function.update_of_ne equal, Function.update_of_ne equal]
      exact alike.same index cell member

theorem linkFree_withEntries (table : Table) (memory : Nat → Entry) (base count : Nat) :
    (table.withEntries memory).linkFree base count =
      (table.linkFree base count).withEntries memory := by
  induction count with
  | zero => rfl
  | succ count inductionHypothesis =>
      simp only [Table.linkFree, inductionHypothesis]
      rfl

theorem stock_withEntries (table : Table) (memory : Nat → Entry) (count : Nat) :
    (table.withEntries memory).stock count = (table.stock count).withEntries memory := by
  unfold Table.stock
  rw [linkFree_withEntries]
  rfl

theorem refill_withEntries (table : Table) (memory : Nat → Entry) :
    (table.withEntries memory).refill = table.refill.withEntries
      ((table.withEntries memory).mapZero (getpagesize / entrySize)).entries :=
  stock_withEntries (table.mapZero (getpagesize / entrySize)) _ (getpagesize / entrySize)

/-- The table with a free entry to take. -/
abbrev stocked (table : Table) : Table :=
  if table.freeListSize = 0 then table.refill else table

/-- New pages are zero in both tables, so there is always a free entry. -/
theorem stocked_alike (alike : Alike table memory bins free) :
    ∃ entry rest nextMemory, Alike (stocked table) nextMemory bins (entry :: rest) ∧
      stocked (table.withEntries memory) = (stocked table).withEntries nextMemory := by
  have size : (table.withEntries memory).freeListSize = table.freeListSize := rfl
  unfold stocked
  rw [size]
  cases free with
  | cons entry rest =>
      have nonempty : table.freeListSize ≠ 0 := by
        rw [alike.size]
        simp
      rw [if_neg nonempty, if_neg nonempty]
      exact ⟨entry, rest, memory, alike, rfl⟩
  | nil =>
      have empty : table.freeListSize = 0 := alike.size
      rw [if_pos empty, if_pos empty]
      have entries : table.refill.entries =
          (table.mapZero (getpagesize / entrySize)).entries :=
        (table.mapZero (getpagesize / entrySize)).linkFree_entries _ _
      have shape : Shape table.refill bins _ := (alike.mapZero _).stock _
      refine ⟨_, _, _, ⟨shape, ?_, ?_⟩, refill_withEntries table memory⟩
      · intro entry inside
        rw [entries]
        show (if table.allocated ≤ entry ∧ entry < table.allocated + getpagesize / entrySize then
            Entry.zero else memory entry).key =
          (if table.allocated ≤ entry ∧ entry < table.allocated + getpagesize / entrySize then
            Entry.zero else table.entries entry).key
        split
        · rfl
        case isFalse old =>
          have below : entry < table.allocated + getpagesize / entrySize := inside
          exact alike.keys entry (by omega)
      · intro index entry member
        have inside := alike.binInside index entry member
        have old : ¬(table.allocated ≤ entry ∧
            entry < table.allocated + getpagesize / entrySize) := by omega
        rw [entries]
        show (if table.allocated ≤ entry ∧ entry < table.allocated + getpagesize / entrySize then
            Entry.zero else memory entry) =
          (if table.allocated ≤ entry ∧ entry < table.allocated + getpagesize / entrySize then
            Entry.zero else table.entries entry)
        rw [if_neg old, if_neg old]
        exact alike.same index entry member

theorem linkNew {entry : Nat} (alike : Alike table memory bins (entry :: free))
    (address : Address) (accessTime : Int) :
    Alike (table.linkNew address entry accessTime)
      ((table.withEntries memory).linkNew address entry accessTime).entries
      (Function.update bins address.hashIp (entry :: bins address.hashIp)) free := by
  have key := alike.keys entry (alike.freeInside entry List.mem_cons_self)
  have stored : ((table.withEntries memory).linkNew address entry accessTime).entries =
      Function.update memory entry ((table.linkNew address entry accessTime).entries entry) := by
    simp only [Table.linkNew, Table.withEntries, Function.update_self, key]
  rw [stored]
  refine ⟨alike.toShape.linkNew address accessTime, ?_, ?_⟩
  · intro cell inside
    by_cases equal : cell = entry
    · rw [equal, Function.update_self]
    · rw [Function.update_of_ne equal]
      simp only [Table.linkNew, Function.update_of_ne equal]
      exact alike.keys cell inside
  · intro index cell member
    by_cases equal : cell = entry
    · rw [equal, Function.update_self]
    · rw [Function.update_of_ne equal]
      simp only [Table.linkNew, Function.update_of_ne equal]
      rcases Shape.mem_update.mp member with ⟨_, new⟩ | ⟨_, old⟩
      · rcases List.mem_cons.mp new with here | old
        · exact absurd here equal
        · exact alike.same _ cell old
      · exact alike.same index cell old

/-- Other pointers, when the bins keep no more than they had. -/
theorem ofShape {next : Table} {nextBins : BitVec 16 → List Nat} {nextFree : List Nat}
    (alike : Alike table memory bins free) (shape : Shape next nextBins nextFree)
    (entries : next.entries = table.entries) (allocated : next.allocated = table.allocated)
    (kept : ∀ index, ∀ entry ∈ nextBins index, entry ∈ bins index) :
    Alike next memory nextBins nextFree where
  toShape := shape
  keys entry inside := by
    rw [entries]
    exact alike.keys entry (allocated ▸ inside)
  same index entry member := by
    rw [entries]
    exact alike.same index entry (kept index entry member)

/-! ### Calls -/

theorem insert (alike : Alike table memory bins free) (answers : Answers)
    (key : Option (BitVec 128)) (domain accessTime : Int) :
    ReturnsAlike (fun table => table.ipHashtableInsert answers key domain accessTime) table
      memory := by
  unfold ReturnsAlike Table.ipHashtableInsert
  cases Address.ofArguments key domain with
  | none => exact ⟨_, table, memory, bins, free, rfl, rfl, alike⟩
  | some address =>
      dsimp only
      rw [alike.find]
      by_cases locked : answers.binLock = false
      · rw [if_pos locked, if_pos locked]
        exact ⟨_, table, memory, bins, free, rfl, rfl, alike⟩
      rw [if_neg locked, if_neg locked]
      rcases alike.toShape.find_cases address with
        ⟨_, found⟩ | ⟨left, entry, right, split, _, _, found⟩
      · rw [found]
        simp only [Option.bind_eq_bind, Option.bind_some]
        by_cases freeLocked : answers.freeListLock = false
        · rw [if_pos freeLocked, if_pos freeLocked]
          exact ⟨_, table, memory, bins, free, rfl, rfl, alike⟩
        rw [if_neg freeLocked, if_neg freeLocked]
        by_cases full : table.freeListSize = 0 ∧ answers.mmap = false
        · have fullToo : (table.withEntries memory).freeListSize = 0 ∧ answers.mmap = false := full
          rw [if_pos full, if_pos fullToo]
          exact ⟨_, table, memory, bins, free, rfl, rfl, alike⟩
        have fullNeither : ¬((table.withEntries memory).freeListSize = 0 ∧ answers.mmap = false) :=
          full
        rw [if_neg full, if_neg fullNeither]
        obtain ⟨entry, rest, nextMemory, stock, equal⟩ := alike.stocked_alike
        have taken : (stocked table).freeList = some entry := stock.freeChain.1
        refine ⟨1, _, _, _, _, ?_, ?_, stock.linkNew address accessTime⟩
        · rw [taken]
          rfl
        · show ((stocked (table.withEntries memory)).freeList.bind fun entry =>
            some (1, (stocked (table.withEntries memory)).linkNew address entry accessTime)) = _
          rw [equal]
          show (stocked table).freeList.bind _ = _
          rw [taken]
          rfl
      · have value : memory entry = table.entries entry :=
          alike.same _ entry (mem_middle split)
        rw [found]
        refine ⟨_, _, _, _, _, rfl, ?_, alike.setEntry entry _⟩
        simp only [Option.bind_eq_bind, Option.bind_some, Table.withEntries, Table.countAccess,
          value]
        rfl

theorem set (alike : Alike table memory bins free) (answers : Answers)
    (key : Option (BitVec 128)) (domain : Int) (value : UInt32) (accessTime : Int) :
    ReturnsAlike (fun table => table.ipHashtableSet answers key domain value accessTime) table
      memory := by
  unfold ReturnsAlike Table.ipHashtableSet
  cases Address.ofArguments key domain with
  | none => exact ⟨_, table, memory, bins, free, rfl, rfl, alike⟩
  | some address =>
      dsimp only
      rw [alike.find]
      by_cases locked : answers.binLock = false
      · rw [if_pos locked, if_pos locked]
        exact ⟨_, table, memory, bins, free, rfl, rfl, alike⟩
      rw [if_neg locked, if_neg locked]
      rcases alike.toShape.find_cases address with
        ⟨_, found⟩ | ⟨left, entry, right, split, _, _, found⟩
      · rw [found]
        exact ⟨_, table, memory, bins, free, rfl, rfl, alike⟩
      · have same : memory entry = table.entries entry := alike.same _ entry (mem_middle split)
        rw [found]
        refine ⟨_, _, _, _, _, rfl, ?_, alike.setEntry entry _⟩
        simp only [Option.bind_eq_bind, Option.bind_some, Table.withEntries, same]
        rfl

theorem remove (alike : Alike table memory bins free) (answers : Answers)
    (key : Option (BitVec 128)) (domain : Int) :
    ReturnsAlike (fun table => table.ipHashtableRemove answers key domain) table memory := by
  unfold ReturnsAlike Table.ipHashtableRemove
  cases Address.ofArguments key domain with
  | none => exact ⟨_, table, memory, bins, free, rfl, rfl, alike⟩
  | some address =>
      dsimp only
      rw [alike.find]
      by_cases locked : answers.binLock = false
      · rw [if_pos locked, if_pos locked]
        exact ⟨_, table, memory, bins, free, rfl, rfl, alike⟩
      rw [if_neg locked, if_neg locked]
      rcases alike.toShape.find_cases address with
        ⟨_, found⟩ | ⟨left, entry, right, split, _, _, found⟩
      · rw [found]
        exact ⟨_, table, memory, bins, free, rfl, rfl, alike⟩
      · have same : memory entry = table.entries entry := alike.same _ entry (mem_middle split)
        have unlinked : (table.withEntries memory).unlink address left.getLast? entry =
            (table.unlink address left.getLast? entry).withEntries memory := by
          cases left.getLast? <;> rfl
        have entries : (table.unlink address left.getLast? entry).entries = table.entries := by
          cases left.getLast? <;> rfl
        have allocated :
            (table.unlink address left.getLast? entry).allocated = table.allocated := by
          cases left.getLast? <;> rfl
        have kept : ∀ index, ∀ cell ∈ Function.update bins address.hashIp (left ++ right) index,
            cell ∈ bins index := fun _ _ member => ((alike.mem_unlink split).mp member).1
        rw [found]
        simp only [Option.bind_eq_bind, Option.bind_some, unlinked]
        by_cases freeLocked : answers.freeListLock = false
        · rw [if_pos freeLocked, if_pos freeLocked]
          exact ⟨_, _, memory, _, _, rfl, rfl,
            alike.ofShape (alike.toShape.unlink split) entries allocated kept⟩
        · rw [if_neg freeLocked, if_neg freeLocked]
          refine ⟨_, _, memory, _, _, rfl, ?_,
            alike.ofShape (alike.toShape.remove split) entries allocated kept⟩
          simp only [Table.withEntries, same]
          rfl

theorem serve (alike : Alike table memory bins free) (answers : Answers) (request : Request) :
    ReturnsAlike (fun table => table.serve answers request) table memory := by
  cases request with
  | insert address accessTime => exact alike.insert answers _ _ _
  | remove address => exact alike.remove answers _ _
  | set address value accessTime => exact alike.set answers _ _ _ _

end Alike

/-! ### Every call returns -/

namespace Shape

variable {table : Table} {bins : BitVec 16 → List Nat} {free : List Nat}

theorem insert_returns (shape : Shape table bins free) (answers : Answers)
    (key : Option (BitVec 128)) (domain accessTime : Int) :
    ∃ result next nextBins nextFree,
      table.ipHashtableInsert answers key domain accessTime = some (result, next) ∧
        Shape next nextBins nextFree := by
  obtain ⟨result, next, _, nextBins, nextFree, returned, _, alike⟩ :=
    (Alike.refl shape).insert answers key domain accessTime
  exact ⟨result, next, nextBins, nextFree, returned, alike.toShape⟩

theorem set_returns (shape : Shape table bins free) (answers : Answers)
    (key : Option (BitVec 128)) (domain : Int) (value : UInt32) (accessTime : Int) :
    ∃ result next nextBins nextFree,
      table.ipHashtableSet answers key domain value accessTime = some (result, next) ∧
        Shape next nextBins nextFree := by
  obtain ⟨result, next, _, nextBins, nextFree, returned, _, alike⟩ :=
    (Alike.refl shape).set answers key domain value accessTime
  exact ⟨result, next, nextBins, nextFree, returned, alike.toShape⟩

end Shape

end FipsIpc.IpHashtable
