import FipsIpc.IpHashtable.Errors

/-!
Contract: the free list of the hash table over every run of calls.

Owns: where the entries of a table are, and that calls from `ip_hashtable_init`
on keep every entry in one place and the counter of the free list right.

The calls may fail in any way but one: a removal whose lock of the free list
fails loses its entry, see `IpHashtable.Errors`.

Does not own: what the entries hold.
-/

set_option autoImplicit false

namespace FipsIpc.IpHashtable

open FipsIpc.Lib

/-- Every allocated entry is in one chain, the chains end, and the counter says
whether there is a free entry. -/
structure Accounts (table : Table) (bins : BitVec 16 → List Nat) (free : List Nat) : Prop where
  binChain : ∀ index, Chain table.next (table.bins index) (bins index) ∧ (bins index).Nodup
  freeChain : Chain table.next table.freeList free ∧ free.Nodup
  size : table.freeListSize = free.length
  somewhere : ∀ entry, entry < table.allocated ↔ entry ∈ free ∨ ∃ index, entry ∈ bins index
  oneBin : ∀ entry index other, entry ∈ bins index → entry ∈ bins other → index = other
  notBoth : ∀ entry index, entry ∈ bins index → entry ∉ free
  empty : table.freeListSize = 0 ↔ table.freeList = none

/-- An insertion allocates exactly when it needs an entry and none is free. -/
def RefillsWhenEmpty (table : Table) : Prop :=
  ∀ answers key domain accessTime code next,
    table.call answers (.insert key domain accessTime) = some (code, next) →
    (next.allocated ≠ table.allocated ↔
      table.target answers (.insert key domain accessTime) = none ∧ 0 < code ∧
        table.freeList = none)

/-- The call does not lose an entry. -/
def KeepsEntries (request : Answers × HtCall) : Prop :=
  match request.2 with
  | .remove _ _ => request.1.freeListLock = true
  | _ => True

/-! ### Chains with all entries -/

/-- Chains that hold every allocated entry. -/
structure FullShape (table : Table) (bins : BitVec 16 → List Nat) (free : List Nat) : Prop
    extends Shape table bins free where
  everywhere : ∀ entry < table.allocated, entry ∈ free ∨ ∃ index, entry ∈ bins index

section FullShapes

variable {table next : Table} {bins : BitVec 16 → List Nat} {free newFree : List Nat}
  {address : Address} {entry : Nat}

theorem Shape.empty_iff (shape : Shape table bins free) :
    table.freeListSize = 0 ↔ table.freeList = none := by
  rw [shape.size, shape.freeChain.first_eq]
  cases free <;> simp

theorem FullShape.accounts (full : FullShape table bins free) : Accounts table bins free where
  binChain index := ⟨full.bin index, (full.bin index).nodup⟩
  freeChain := ⟨full.freeChain, full.freeChain.nodup⟩
  size := full.size
  somewhere entry := by
    constructor
    · exact full.everywhere entry
    · rintro (inFree | ⟨index, inBin⟩)
      · exact full.freeInside entry inFree
      · exact full.binInside index entry inBin
  oneBin entry index other inBin inOther := by
    by_contra different
    exact full.apart index other different entry inBin inOther
  notBoth entry index inBin := full.used index entry inBin
  empty := full.toShape.empty_iff

theorem FullShape.init (memory : Nat → Entry) (searchTime : Int) :
    FullShape (.ipHashtableInit memory searchTime) (fun _ => []) (Table.linked 0 nbins ++ []) where
  toShape := Shape.init memory searchTime
  everywhere entry inside := by
    rw [Table.ipHashtableInit_eq] at inside
    exact Or.inl (List.mem_append_left _ ((Table.mem_linked 0).mpr ⟨Nat.zero_le _, by
      simpa using inside⟩))

theorem stocked_of_empty (empty : table.freeListSize = 0) :
    table.stocked = table.refill := if_pos empty

theorem stocked_of_nonempty (nonempty : table.freeListSize ≠ 0) : table.stocked = table :=
  if_neg nonempty

/-- The free list of a stocked table, whichever way it is found. -/
theorem FullShape.stocked (full : FullShape table bins free)
    (ready : Shape table.stocked bins newFree) : FullShape table.stocked bins newFree where
  toShape := ready
  everywhere entry inside := by
    by_cases empty : table.freeListSize = 0
    · have none : free = [] := List.length_eq_zero_iff.mp (full.size.symm.trans empty)
      have refilled := (full.toShape.mapZero (getpagesize / entrySize)).stock
        (getpagesize / entrySize)
      rw [stocked_of_empty empty] at ready inside
      have sameFree := ready.freeChain.unique refilled.freeChain
      rw [none, List.append_nil] at sameFree
      rw [sameFree]
      by_cases old : entry < table.allocated
      · rcases full.everywhere entry old with inFree | inBin
        · rw [none] at inFree
          cases inFree
        · exact Or.inr inBin
      · exact Or.inl ((Table.mem_linked _).mpr ⟨Nat.le_of_not_lt old, inside⟩)
    · rw [stocked_of_nonempty empty] at ready inside
      rw [ready.freeChain.unique full.freeChain]
      exact full.everywhere entry inside

theorem FullShape.linkNew (full : FullShape table bins (entry :: free)) (address : Address)
    (accessTime : Int) :
    FullShape (table.linkNew address entry accessTime)
      (Function.update bins address.hashIp (entry :: bins address.hashIp)) free where
  toShape := full.toShape.linkNew address accessTime
  everywhere cell inside := by
    rcases full.everywhere cell inside with inFree | ⟨index, inBin⟩
    · rcases List.mem_cons.mp inFree with rfl | later
      · exact Or.inr ⟨address.hashIp, by simp⟩
      · exact Or.inl later
    · refine Or.inr ⟨index, Shape.mem_update.mpr ?_⟩
      by_cases same : index = address.hashIp
      · exact Or.inl ⟨same, List.mem_cons_of_mem _ (same ▸ inBin)⟩
      · exact Or.inr ⟨same, inBin⟩

theorem FullShape.remove (full : FullShape table bins free) {left right : List Nat}
    (split : bins address.hashIp = left ++ entry :: right) :
    FullShape ((table.unlink address left.getLast? entry).recycle entry)
      (Function.update bins address.hashIp (left ++ right)) (entry :: free) where
  toShape := full.toShape.remove split
  everywhere cell inside := by
    have allocated : ((table.unlink address left.getLast? entry).recycle entry).allocated =
        table.allocated := by
      cases left.getLast? <;> rfl
    rw [allocated] at inside
    by_cases same : cell = entry
    · exact Or.inl (same ▸ List.mem_cons_self)
    · rcases full.everywhere cell inside with inFree | ⟨index, inBin⟩
      · exact Or.inl (List.mem_cons_of_mem _ inFree)
      · exact Or.inr ⟨index, (full.mem_unlink split).mpr ⟨inBin, same⟩⟩

theorem FullShape.setEntry (full : FullShape table bins free) (entry : Nat) (value : Entry) :
    FullShape (table.setEntry entry value) bins free :=
  ⟨full.toShape.setEntry entry value, full.everywhere⟩

/-- A call that keeps its entry keeps all entries. -/
theorem FullShape.effect {answers : Answers} {call : HtCall} {code : Int}
    (full : FullShape table bins free) (keeps : KeepsEntries (answers, call))
    (effect : Effect answers table bins call code next) :
    ∃ nextBins nextFree, FullShape next nextBins nextFree := by
  cases effect with
  | refused => exact ⟨_, _, full⟩
  | added _ _ ready => exact ⟨_, _, (full.stocked ready).linkNew _ _⟩
  | counted => exact ⟨_, _, full.setEntry _ _⟩
  | lost _ _ failed =>
      have locked : answers.freeListLock = true := keeps
      rw [failed] at locked
      cases locked
  | removed _ split _ => exact ⟨_, _, full.remove split⟩
  | assigned => exact ⟨_, _, full.setEntry _ _⟩

/-- The branch with `mmap` is the one that allocates. -/
theorem Shape.refillsWhenEmpty (shape : Shape table bins free) : RefillsWhenEmpty table := by
  intro answers key domain accessTime code next returned
  rcases shape.effect answers (.insert key domain accessTime) with ⟨_, _, again, effect⟩
  cases returned.symm.trans again
  cases effect with
  | refused _ negative => simp [Int.not_lt.mpr (Int.le_of_lt negative)]
  | @added _ _ _ address entry _ _ target _ =>
      have linked : (table.stocked.linkNew address entry accessTime).allocated =
          table.stocked.allocated := rfl
      rw [linked, ← shape.empty_iff]
      simp only [target, true_and, Int.zero_lt_one]
      by_cases empty : table.freeListSize = 0
      · have grown : table.stocked.allocated = table.allocated + getpagesize / entrySize := by
          rw [stocked_of_empty empty]
          rfl
        have some : 0 < getpagesize / entrySize := by decide
        simp only [grown, empty, iff_true]
        omega
      · simp [stocked_of_nonempty empty, empty]
  | counted target => simp [target, Table.setEntry]

end FullShapes

/-- The free list over every run of calls that keep their entries. -/
theorem free_list_accounts {memory : Nat → Entry} {searchTime : Int}
    {requests : List (Answers × HtCall)} {table : Table}
    (run : Lib.Run Table.answered (fun _ request => KeepsEntries request)
      (.ipHashtableInit memory searchTime) requests table) :
    (∃ bins free, Accounts table bins free) ∧ RefillsWhenEmpty table := by
  have full : ∃ bins free, FullShape table bins free := by
    apply run.invariant
    · rintro table ⟨answers, call⟩ next ⟨bins, free, full⟩ keeps taken
      rcases full.toShape.effect answers call with ⟨code, after, returned, effect⟩
      rcases Option.map_eq_some_iff.mp taken with ⟨result, again, rfl⟩
      cases returned.symm.trans again
      exact full.effect keeps effect
    · exact ⟨_, _, FullShape.init memory searchTime⟩
  rcases full with ⟨bins, free, full⟩
  exact ⟨⟨bins, free, full.accounts⟩, full.toShape.refillsWhenEmpty⟩

/-- A client comes and goes. -/
theorem free_list_accounts_comes_and_goes :
    ∃ table, Lib.Run Table.answered (fun _ request => KeepsEntries request)
        (.ipHashtableInit (fun _ => .zero) 600)
        [(.succeed, .insert (some 1) afInet 0), (.succeed, .remove (some 1) afInet)] table ∧
      (∃ bins free, Accounts table bins free) ∧ RefillsWhenEmpty table := by
  have removed : singleEntry.answered (.succeed, .remove (some 1) afInet) =
      some ((singleEntry.unlink (.v4 1) none 65535).recycle 65535) := by
    unfold singleEntry
    rw [Table.ipHashtableInit_eq]
    rfl
  have run : Lib.Run Table.answered (fun _ request => KeepsEntries request)
      (.ipHashtableInit (fun _ => .zero) 600)
      [(.succeed, .insert (some 1) afInet 0), (.succeed, .remove (some 1) afInet)]
      ((singleEntry.unlink (.v4 1) none 65535).recycle 65535) :=
    .cons trivial inserted_singleEntry (.single rfl removed)
  exact ⟨_, run, free_list_accounts run⟩

end FipsIpc.IpHashtable
