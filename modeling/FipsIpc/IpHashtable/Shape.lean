import FipsIpc.IpHashtable.Table
import FipsIpc.Lib.Chain
import Mathlib.Data.List.Nodup
import Mathlib.Data.List.Range
import Mathlib.Data.List.Perm.Subperm

/-!
Contract: the pointer structure of the hash table.

Owns: the bins and the free list as disjoint chains of entries, the search
through a chain, and what each pointer operation makes of the chains.

Does not own: what the entries hold.
-/

set_option autoImplicit false

namespace FipsIpc.IpHashtable

open FipsIpc.Lib

/-! ### Searching a chain -/

namespace Table

variable (table : Table) (address : Address)

def matchesEntry (entry : Nat) : Bool := address.matchesKey (table.entries entry).key

theorem search_none {cells : List Nat} {fuel : Nat} {prev cursor : Option Nat}
    (chain : Chain table.next cursor cells) (fuelled : cells.length ≤ fuel)
    (noMatch : ∀ entry ∈ cells, table.matchesEntry address entry = false) :
    table.search address fuel prev cursor = some none := by
  induction cells generalizing fuel prev cursor with
  | nil =>
      cases chain
      unfold search
      rfl
  | cons entry rest inductionHypothesis =>
      cases chain.1
      cases fuel with
      | zero => exact absurd fuelled (by simp)
      | succ fuel =>
          have other : address.matchesKey (table.entries entry).key = false :=
            noMatch entry List.mem_cons_self
          rw [search, if_neg (by simp [other])]
          exact inductionHypothesis chain.2 (by simpa using fuelled)
            fun later member => noMatch later (List.mem_cons_of_mem _ member)

theorem search_some {left right : List Nat} {entry fuel : Nat} {prev cursor : Option Nat}
    (chain : Chain table.next cursor (left ++ entry :: right))
    (fuelled : (left ++ entry :: right).length ≤ fuel)
    (noMatch : ∀ earlier ∈ left, table.matchesEntry address earlier = false)
    (isMatch : table.matchesEntry address entry = true) :
    table.search address fuel prev cursor = some (some (left.getLast?.or prev, entry)) := by
  induction left generalizing fuel prev cursor with
  | nil =>
      cases chain.1
      cases fuel with
      | zero => exact absurd fuelled (by simp)
      | succ fuel =>
          have matches_ : address.matchesKey (table.entries entry).key = true := isMatch
          rw [search, if_pos matches_]
          rfl
  | cons first left inductionHypothesis =>
      cases chain.1
      cases fuel with
      | zero => exact absurd fuelled (by simp)
      | succ fuel =>
          have other : address.matchesKey (table.entries first).key = false :=
            noMatch first List.mem_cons_self
          rw [search, if_neg (by simp [other]), inductionHypothesis chain.2 (by simpa using fuelled)
            fun later member => noMatch later (List.mem_cons_of_mem _ member)]
          cases last : left.getLast? <;> simp [List.getLast?_cons, last]

end Table

theorem mem_middle {cells left right : List Nat} {entry : Nat}
    (split : cells = left ++ entry :: right) : entry ∈ cells := by
  rw [split]
  exact List.mem_append_right _ List.mem_cons_self

/-! ### The chains -/

/-- Bins and free list are disjoint chains of allocated entries. -/
structure Shape (table : Table) (bins : BitVec 16 → List Nat) (free : List Nat) : Prop where
  bin : ∀ index, Chain table.next (table.bins index) (bins index)
  freeChain : Chain table.next table.freeList free
  apart : ∀ index other, index ≠ other → ∀ entry ∈ bins index, entry ∉ bins other
  used : ∀ index, ∀ entry ∈ bins index, entry ∉ free
  size : table.freeListSize = free.length
  binInside : ∀ index, ∀ entry ∈ bins index, entry < table.allocated
  freeInside : ∀ entry ∈ free, entry < table.allocated

namespace Shape

variable {table : Table} {bins : BitVec 16 → List Nat} {free : List Nat} {address : Address}

theorem length_le (shape : Shape table bins free) (index : BitVec 16) :
    (bins index).length ≤ table.allocated := by
  have inside : bins index ⊆ List.range table.allocated := fun entry member =>
    List.mem_range.mpr (shape.binInside index entry member)
  have bound := (List.subperm_of_subset (shape.bin index).nodup inside).length_le
  simpa using bound

/-- The two outcomes of a lookup. -/
theorem find_cases (shape : Shape table bins free) (address : Address) :
    ((∀ entry ∈ bins address.hashIp, table.matchesEntry address entry = false) ∧
      table.find address = some none) ∨
    ∃ left entry right, bins address.hashIp = left ++ entry :: right ∧
      (∀ earlier ∈ left, table.matchesEntry address earlier = false) ∧
      table.matchesEntry address entry = true ∧
      table.find address = some (some (left.getLast?, entry)) := by
  have chain := shape.bin address.hashIp
  have length := shape.length_le address.hashIp
  cases first : (bins address.hashIp).find? (table.matchesEntry address) with
  | none =>
      have noMatch : ∀ entry ∈ bins address.hashIp, table.matchesEntry address entry = false := by
        simpa using first
      exact Or.inl ⟨noMatch, table.search_none address chain length noMatch⟩
  | some entry =>
      obtain ⟨isMatch, left, right, split, earlier⟩ := List.find?_eq_some_iff_append.mp first
      have noMatch : ∀ cell ∈ left, table.matchesEntry address cell = false := by
        simpa using earlier
      rw [split] at chain length
      refine Or.inr ⟨left, entry, right, split, noMatch, isMatch, ?_⟩
      rw [Table.find, table.search_some address chain length noMatch isMatch, Option.or_none]

/-- Entry contents do not matter. -/
theorem setEntry (shape : Shape table bins free) (entry : Nat) (value : Entry) :
    Shape (table.setEntry entry value) bins free where
  bin := shape.bin
  freeChain := shape.freeChain
  apart := shape.apart
  used := shape.used
  size := shape.size
  binInside := shape.binInside
  freeInside := shape.freeInside

end Shape

/-! ### The free list -/

namespace Table

variable (table : Table) (base : Nat)

theorem linkFree_next_of_lt (count : Nat) {entry : Nat} (below : entry < base) :
    (table.linkFree base count).next entry = table.next entry := by
  induction count with
  | zero => rfl
  | succ count inductionHypothesis =>
      show Function.update _ (base + count) _ entry = _
      rw [Function.update_of_ne (by omega)]
      exact inductionHypothesis

theorem linkFree_bins (count : Nat) : (table.linkFree base count).bins = table.bins := by
  induction count with
  | zero => rfl
  | succ count inductionHypothesis => exact inductionHypothesis

theorem linkFree_entries (count : Nat) : (table.linkFree base count).entries = table.entries := by
  induction count with
  | zero => rfl
  | succ count inductionHypothesis => exact inductionHypothesis

/-- The pointers after the loop, in closed form. -/
theorem linkFree_eq (count : Nat) :
    table.linkFree base count =
      { table with
        next := fun entry =>
          if base ≤ entry ∧ entry < base + count then
            if entry = base then table.freeList else some (entry - 1)
          else table.next entry
        freeList := if count = 0 then table.freeList else some (base + count - 1) } := by
  induction count with
  | zero =>
      have outside : ∀ entry, ¬(base ≤ entry ∧ entry < base + 0) := by omega
      simp only [linkFree, outside, if_false, if_true]
  | succ count inductionHypothesis =>
      rw [linkFree, inductionHypothesis]
      congr 1
      funext entry
      by_cases last : entry = base + count
      · subst last
        rw [Function.update_self]
        by_cases first : count = 0
        · simp [first]
        · simp [first]
      · rw [Function.update_of_ne last]
        have same : (base ≤ entry ∧ entry < base + (count + 1)) ↔
            (base ≤ entry ∧ entry < base + count) := by omega
        simp only [same]

/-- The table of `ip_hashtable_init`, in closed form. -/
theorem ipHashtableInit_eq (memory : Nat → Entry) (searchTime : Int) :
    ipHashtableInit memory searchTime =
      { entries := memory
        next := fun entry =>
          if entry < nbins then if entry = 0 then none else some (entry - 1) else none
        bins := fun _ => none
        freeList := some (nbins - 1)
        freeListSize := nbins
        searchTime := searchTime
        allocated := nbins } := by
  have pointers := linkFree_eq
    ⟨memory, fun _ => none, fun _ => none, none, 0, searchTime, 0⟩ 0 nbins
  have next : ∀ entry, (if 0 ≤ entry ∧ entry < 0 + nbins then
      if entry = 0 then (none : Option Nat) else some (entry - 1) else none) =
      if entry < nbins then if entry = 0 then none else some (entry - 1) else none := by
    intro entry
    simp only [Nat.zero_le, true_and, Nat.zero_add]
  unfold ipHashtableInit stock
  dsimp only
  rw [pointers]
  dsimp only
  simp only [next]
  rw [if_neg (by decide : ¬nbins = 0), Nat.zero_add]

theorem linkFree_searchTime (count : Nat) :
    (table.linkFree base count).searchTime = table.searchTime := by
  induction count with
  | zero => rfl
  | succ count inductionHypothesis => exact inductionHypothesis

/-- The entries that `linkFree` puts on the free list, the last one first. -/
def linked (base count : Nat) : List Nat := ((List.range count).map (base + ·)).reverse

theorem linked_succ (count : Nat) :
    linked base (count + 1) = (base + count) :: linked base count := by
  simp [linked, List.range_succ]

theorem mem_linked {count entry : Nat} :
    entry ∈ linked base count ↔ base ≤ entry ∧ entry < base + count := by
  unfold linked
  rw [List.mem_reverse, List.mem_map]
  constructor
  · rintro ⟨index, member, rfl⟩
    have := List.mem_range.mp member
    omega
  · rintro ⟨low, high⟩
    exact ⟨entry - base, List.mem_range.mpr (by omega), by omega⟩

theorem linkFree_chain {free : List Nat} (chain : Chain table.next table.freeList free)
    (below : ∀ entry ∈ free, entry < base) (count : Nat) :
    Chain (table.linkFree base count).next (table.linkFree base count).freeList
      (linked base count ++ free) := by
  induction count with
  | zero => exact chain
  | succ count inductionHypothesis =>
      rw [linked_succ]
      apply inductionHypothesis.push
      intro member
      rcases List.mem_append.mp member with new | old
      · have := (mem_linked base).mp new
        omega
      · have := below _ old
        omega

end Table

namespace Shape

variable {table : Table} {bins : BitVec 16 → List Nat} {free : List Nat}

/-- Entries from the end of memory on the free list. -/
theorem stock (shape : Shape table bins free) (count : Nat) :
    Shape (table.stock count) bins (Table.linked table.allocated count ++ free) where
  bin index := by
    show Chain (table.linkFree table.allocated count).next
      ((table.linkFree table.allocated count).bins index) (bins index)
    rw [Table.linkFree_bins]
    exact (shape.bin index).frame fun entry member =>
      table.linkFree_next_of_lt _ _ (shape.binInside index entry member)
  freeChain := table.linkFree_chain _ shape.freeChain shape.freeInside count
  apart := shape.apart
  used index entry member new := by
    have old := shape.binInside index entry member
    rcases List.mem_append.mp new with fresh | earlier
    · have := (Table.mem_linked _).mp fresh
      omega
    · exact shape.used index entry member earlier
  size := by
    show table.freeListSize + count = _
    rw [shape.size]
    simp [Table.linked, Nat.add_comm]
  binInside index entry member :=
    (shape.binInside index entry member).trans_le (Nat.le_add_right _ _)
  freeInside entry member := by
    rcases List.mem_append.mp member with fresh | earlier
    · exact ((Table.mem_linked _).mp fresh).2
    · exact (shape.freeInside entry earlier).trans_le (Nat.le_add_right _ _)

/-- A new table: all bins are empty. -/
theorem init (memory : Nat → Entry) (searchTime : Int) :
    Shape (.ipHashtableInit memory searchTime) (fun _ => [])
      (Table.linked 0 nbins ++ []) := by
  have nothing : Shape ⟨memory, fun _ => none, fun _ => none, none, 0, searchTime, 0⟩
      (fun _ => []) [] :=
    ⟨fun _ => rfl, rfl, fun _ _ _ _ member => absurd member List.not_mem_nil,
      fun _ _ member => absurd member List.not_mem_nil, rfl,
      fun _ _ member => absurd member List.not_mem_nil,
      fun _ member => absurd member List.not_mem_nil⟩
  exact nothing.stock nbins

/-- Entry contents do not matter to the chains. -/
theorem mapZero (shape : Shape table bins free) (count : Nat) :
    Shape (table.mapZero count) bins free :=
  ⟨shape.bin, shape.freeChain, shape.apart, shape.used, shape.size, shape.binInside,
    shape.freeInside⟩

/-! ### Linking and unlinking -/

theorem mem_update {index changed : BitVec 16} {cells : List Nat} {entry : Nat} :
    entry ∈ Function.update bins changed cells index ↔
      (index = changed ∧ entry ∈ cells) ∨ (index ≠ changed ∧ entry ∈ bins index) := by
  by_cases same : index = changed
  · subst same
    simp
  · simp [same]

/-- Replacing one bin keeps the bins apart, when its entries were there before
or in no bin. -/
theorem apart_update (shape : Shape table bins free) {changed : BitVec 16} {cells : List Nat}
    (origin : ∀ entry ∈ cells, entry ∈ bins changed ∨ ∀ other, entry ∉ bins other)
    (index other : BitVec 16) (different : index ≠ other) :
    ∀ entry ∈ Function.update bins changed cells index,
      entry ∉ Function.update bins changed cells other := by
  intro entry member otherMember
  rcases mem_update.mp member with ⟨rfl, new⟩ | ⟨notIndex, old⟩
  · rcases mem_update.mp otherMember with ⟨equal, _⟩ | ⟨_, otherOld⟩
    · exact different equal.symm
    · rcases origin entry new with here | nowhere
      · exact shape.apart _ _ different entry here otherOld
      · exact nowhere other otherOld
  · rcases mem_update.mp otherMember with ⟨rfl, new⟩ | ⟨_, otherOld⟩
    · rcases origin entry new with here | nowhere
      · exact shape.apart _ _ different entry old here
      · exact nowhere index old
    · exact shape.apart _ _ different entry old otherOld

variable {address : Address} {entry : Nat}

/-- The first free entry moves to the front of a bin. -/
theorem linkNew (shape : Shape table bins (entry :: free)) (address : Address) (accessTime : Int) :
    Shape (table.linkNew address entry accessTime)
      (Function.update bins address.hashIp (entry :: bins address.hashIp)) free := by
  have outside : ∀ other, entry ∉ bins other := fun other member =>
    shape.used other entry member List.mem_cons_self
  have notFree : entry ∉ free := (List.nodup_cons.mp shape.freeChain.nodup).1
  constructor
  case bin =>
    intro index
    show Chain (Function.update table.next entry (table.bins address.hashIp))
      (Function.update table.bins address.hashIp (some entry) index) _
    by_cases same : index = address.hashIp
    · subst same
      rw [Function.update_self, Function.update_self]
      exact (shape.bin address.hashIp).push (outside _)
    · rw [Function.update_of_ne same, Function.update_of_ne same]
      exact (shape.bin index).update_of_not_mem (outside index)
  case freeChain => exact shape.freeChain.2.update_of_not_mem notFree
  case apart =>
    apply shape.apart_update
    intro cell member
    rcases List.mem_cons.mp member with rfl | old
    · exact Or.inr outside
    · exact Or.inl old
  case used =>
    intro index cell member
    rcases mem_update.mp member with ⟨_, new⟩ | ⟨_, old⟩
    · rcases List.mem_cons.mp new with rfl | old
      · exact notFree
      · exact fun inFree => shape.used _ cell old (List.mem_cons_of_mem _ inFree)
    · exact fun inFree => shape.used _ cell old (List.mem_cons_of_mem _ inFree)
  case size =>
    show table.freeListSize - 1 = _
    rw [shape.size]
    rfl
  case binInside =>
    intro index cell member
    rcases mem_update.mp member with ⟨_, new⟩ | ⟨_, old⟩
    · rcases List.mem_cons.mp new with rfl | old
      · exact shape.freeInside cell List.mem_cons_self
      · exact shape.binInside _ cell old
    · exact shape.binInside _ cell old
  case freeInside =>
    exact fun cell member => shape.freeInside cell (List.mem_cons_of_mem _ member)

/-- The chain of a bin without one of its entries. -/
theorem chain_unlink (shape : Shape table bins free) {left right : List Nat}
    (split : bins address.hashIp = left ++ entry :: right) :
    Chain (table.unlink address left.getLast? entry).next
      ((table.unlink address left.getLast? entry).bins address.hashIp) (left ++ right) := by
  have chain := shape.bin address.hashIp
  rw [split] at chain
  rcases List.eq_nil_or_concat left with rfl | ⟨front, before, rfl⟩
  · show Chain table.next (Function.update table.bins address.hashIp (table.next entry) _) right
    rw [Function.update_self]
    exact chain.2
  · have successor := chain.next_eq
    rw [List.concat_eq_append, List.append_assoc, List.singleton_append] at chain
    rw [List.concat_eq_append, List.getLast?_concat, List.append_assoc, List.singleton_append]
    show Chain (Function.update table.next before (table.next entry)) _ _
    rw [successor]
    exact chain.removeAfter

/-- Other chains do not notice. -/
theorem chain_unlink_of_not_mem {prev : Option Nat} {first : Option Nat} {cells : List Nat}
    (chain : Chain table.next first cells) (outside : ∀ before ∈ prev, before ∉ cells) :
    Chain (table.unlink address prev entry).next first cells := by
  cases prev with
  | none => exact chain
  | some before => exact chain.update_of_not_mem (outside before rfl)

/-- An entry leaves its bin. -/
theorem unlink (shape : Shape table bins free) {left right : List Nat}
    (split : bins address.hashIp = left ++ entry :: right) :
    Shape (table.unlink address left.getLast? entry)
      (Function.update bins address.hashIp (left ++ right)) free := by
  have kept : ∀ cell ∈ left ++ right, cell ∈ bins address.hashIp := by
    intro cell member
    rw [split]
    rcases List.mem_append.mp member with inLeft | inRight
    · exact List.mem_append_left _ inLeft
    · exact List.mem_append_right _ (List.mem_cons_of_mem _ inRight)
  have fromBin : ∀ before ∈ left.getLast?, before ∈ bins address.hashIp := fun before last =>
    kept before (List.mem_append_left _ (List.mem_of_getLast? last))
  have fields : (table.unlink address left.getLast? entry).freeList = table.freeList ∧
      (table.unlink address left.getLast? entry).freeListSize = table.freeListSize ∧
      (table.unlink address left.getLast? entry).allocated = table.allocated ∧
      ∀ index ≠ address.hashIp,
        (table.unlink address left.getLast? entry).bins index = table.bins index := by
    cases left.getLast? with
    | none => exact ⟨rfl, rfl, rfl, fun index different => Function.update_of_ne different _ _⟩
    | some before => exact ⟨rfl, rfl, rfl, fun _ _ => rfl⟩
  obtain ⟨freeList, freeListSize, allocated, otherBins⟩ := fields
  constructor
  case bin =>
    intro index
    by_cases same : index = address.hashIp
    · subst same
      rw [Function.update_self]
      exact shape.chain_unlink split
    · rw [Function.update_of_ne same, otherBins index same]
      exact chain_unlink_of_not_mem (shape.bin index) fun before last =>
        shape.apart _ _ (Ne.symm same) before (fromBin before last)
  case freeChain =>
    rw [freeList]
    exact chain_unlink_of_not_mem shape.freeChain fun before last =>
      shape.used _ before (fromBin before last)
  case apart => exact shape.apart_update fun cell member => Or.inl (kept cell member)
  case used =>
    intro index cell member
    rcases mem_update.mp member with ⟨_, new⟩ | ⟨_, old⟩
    · exact shape.used _ cell (kept cell new)
    · exact shape.used _ cell old
  case size => exact freeListSize.trans shape.size
  case binInside =>
    intro index cell member
    rw [allocated]
    rcases mem_update.mp member with ⟨_, new⟩ | ⟨_, old⟩
    · exact shape.binInside _ cell (kept cell new)
    · exact shape.binInside _ cell old
  case freeInside =>
    rw [allocated]
    exact shape.freeInside

/-- An entry of no chain goes on the free list. -/
theorem recycle (shape : Shape table bins free) (outside : ∀ index, entry ∉ bins index)
    (notFree : entry ∉ free) (inside : entry < table.allocated) :
    Shape (table.recycle entry) bins (entry :: free) where
  bin index := (shape.bin index).update_of_not_mem (outside index)
  freeChain := shape.freeChain.push notFree
  apart := shape.apart
  used index cell member inFree := by
    rcases List.mem_cons.mp inFree with rfl | old
    · exact outside index member
    · exact shape.used index cell member old
  size := by
    show table.freeListSize + 1 = _
    rw [shape.size]
    rfl
  binInside := shape.binInside
  freeInside cell member := by
    rcases List.mem_cons.mp member with rfl | old
    · exact inside
    · exact shape.freeInside cell old

/-- The entries of the bins without the one that left. -/
theorem mem_unlink (shape : Shape table bins free) {left right : List Nat}
    (split : bins address.hashIp = left ++ entry :: right) {index : BitVec 16} {cell : Nat} :
    cell ∈ Function.update bins address.hashIp (left ++ right) index ↔
      cell ∈ bins index ∧ cell ≠ entry := by
  have distinct := (shape.bin address.hashIp).nodup
  rw [split, List.nodup_middle] at distinct
  have notKept : entry ∉ left ++ right := (List.nodup_cons.mp distinct).1
  rw [mem_update]
  by_cases same : index = address.hashIp
  · subst same
    rw [split]
    simp only [true_and, ne_eq, not_true, false_and, or_false]
    constructor
    · intro kept
      refine ⟨?_, ne_of_mem_of_not_mem kept notKept⟩
      rcases List.mem_append.mp kept with inLeft | inRight
      · exact List.mem_append_left _ inLeft
      · exact List.mem_append_right _ (List.mem_cons_of_mem _ inRight)
    · intro old
      rcases List.mem_append.mp old.1 with inLeft | inRight
      · exact List.mem_append_left _ inLeft
      · rcases List.mem_cons.mp inRight with equal | later
        · exact absurd equal old.2
        · exact List.mem_append_right _ later
  · have member : entry ∈ bins address.hashIp := mem_middle split
    simp only [same, false_and, ne_eq, not_false_eq_true, true_and, false_or]
    constructor
    · intro old
      refine ⟨old, fun equal => ?_⟩
      exact shape.apart _ _ same cell old (equal ▸ member)
    · exact fun old => old.1

/-- A removed entry: out of its bin and on the free list. -/
theorem remove (shape : Shape table bins free) {left right : List Nat}
    (split : bins address.hashIp = left ++ entry :: right) :
    Shape ((table.unlink address left.getLast? entry).recycle entry)
      (Function.update bins address.hashIp (left ++ right)) (entry :: free) := by
  have member : entry ∈ bins address.hashIp := mem_middle split
  have outside : ∀ index, entry ∉ Function.update bins address.hashIp (left ++ right) index :=
    fun _ inBin => ((shape.mem_unlink split).mp inBin).2 rfl
  apply (shape.unlink split).recycle outside (shape.used _ entry member)
  have inside := shape.binInside _ entry member
  cases left.getLast? with
  | none => exact inside
  | some before => exact inside

end Shape

end FipsIpc.IpHashtable
