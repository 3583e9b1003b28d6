import FipsIpc.IpHashtable.Unused
import Mathlib.Tactic.IntervalCases

/-!
Contract: the benchmarked hash table `htb/v3/v3.c` against the deployed one.

Owns: `hash_ip` and the calls of `v3.c`, the byte swap that takes the bins of
one table to those of the other, and the theorem that both return the same
values.

The two files differ in `hash_ip` alone: `v3.c` swaps the two bytes that the
deployed table takes as they lie in memory, for both families.  Entries that
were never used may differ in everything but their keys, which an IPv4 address
overwrites in part only.

Does not own: what the values mean.
-/

set_option autoImplicit false

namespace FipsIpc.IpHashtable

namespace V3

/-! ### `v3.c` -/

/-- `ntohl` on a little-endian machine. -/
def ntohl (word : BitVec 32) : BitVec 32 :=
  word <<< 24 ||| (word &&& 0xFF00) <<< 8 ||| (word >>> 8 &&& 0xFF00) ||| word >>> 24

/-- `ntohs` on a little-endian machine. -/
def ntohs (half : BitVec 16) : BitVec 16 := half <<< 8 ||| half >>> 8

def hashIp : Address → BitVec 16
  | .v4 ipv4 => (ntohl ipv4 &&& 0xFFFF).setWidth 16
  | .v6 ipv6 => ntohs (ipv6.setWidth 16) &&& 0xFFFF

/-- `ip_hashtable_init`. -/
def ipHashtableInit (memory : Nat → Entry) (searchTime : Int) : Table :=
  let table : Table := ⟨memory, fun _ => none, fun _ => none, none, 0, searchTime, 0⟩
  table.stock nbins

/-- The loop over the bin of an address. -/
def find (table : Table) (address : Address) : Option (Option (Option Nat × Nat)) :=
  table.search address table.allocated none (table.bins (hashIp address))

/-- The new entry in front of its bin. -/
def linkNew (table : Table) (address : Address) (entry : Nat) (accessTime : Int) : Table :=
  { table with
    entries := Function.update table.entries entry
      ⟨address.storeKey (table.entries entry).key, address.domain, accessTime, 1⟩
    next := Function.update table.next entry (table.bins (hashIp address))
    bins := Function.update table.bins (hashIp address) (some entry)
    freeList := table.next entry
    freeListSize := table.freeListSize - 1 }

/-- Take an entry out of its chain. -/
def unlink (table : Table) (address : Address) (prev : Option Nat) (entry : Nat) : Table :=
  match prev with
  | some before => { table with next := Function.update table.next before (table.next entry) }
  | none => { table with bins := Function.update table.bins (hashIp address) (table.next entry) }

variable (answers : Answers) (table : Table)

def ipHashtableInsert (key : Option (BitVec 128)) (domain accessTime : Int) :
    Option (Int × Table) :=
  match Address.ofArguments key domain with
  | none => some (ipHtableArgErr, table)
  | some address =>
      if answers.binLock = false then some (ipHtableMutexErr, table)
      else do
        match ← find table address with
        | some (_, entry) =>
            let counted := table.countAccess (table.entries entry) accessTime
            some (intOfCount counted.count, table.setEntry entry counted)
        | none =>
            if answers.freeListLock = false then some (ipHtableMutexErr, table)
            else if table.freeListSize = 0 ∧ answers.mmap = false then some (ipHtableMemErr, table)
            else
              let stocked := if table.freeListSize = 0 then table.refill else table
              let entry ← stocked.freeList
              some (1, linkNew stocked address entry accessTime)

def ipHashtableRemove (key : Option (BitVec 128)) (domain : Int) : Option (Int × Table) :=
  match Address.ofArguments key domain with
  | none => some (ipHtableArgErr, table)
  | some address =>
      if answers.binLock = false then some (ipHtableMutexErr, table)
      else do
        match ← find table address with
        | some (prev, entry) =>
            let unlinked := unlink table address prev entry
            if answers.freeListLock = false then some (ipHtableMutexErr, unlinked)
            else some (intOfCount (table.entries entry).count, unlinked.recycle entry)
        | none => some (ipHtableNoexist, table)

def ipHashtableSet (key : Option (BitVec 128)) (domain : Int) (value : UInt32)
    (accessTime : Int) : Option (Int × Table) :=
  match Address.ofArguments key domain with
  | none => some (ipHtableArgErr, table)
  | some address =>
      if answers.binLock = false then some (ipHtableMutexErr, table)
      else do
        match ← find table address with
        | some (_, entry) =>
            some (intOfCount (table.entries entry).count, table.setEntry entry
              { table.entries entry with count := value, lastAccess := accessTime })
        | none => some (ipHtableNoexist, table)

def serve : Request → Option (Int × Table)
  | .insert address accessTime =>
      ipHashtableInsert answers table (some address.memory) address.domain accessTime
  | .remove address => ipHashtableRemove answers table (some address.memory) address.domain
  | .set address value accessTime =>
      ipHashtableSet answers table (some address.memory) address.domain value accessTime

end V3

/-- The values that calls return in their order, each with the answers of the
system it gets. -/
def returns (serve : Answers → Table → Request → Option (Int × Table)) :
    Table → List (Answers × Request) → Option (List Int)
  | _, [] => some []
  | table, (answers, request) :: rest => do
      let (result, next) ← serve answers table request
      let results ← returns serve next rest
      some (result :: results)

theorem returns_cons (serve : Answers → Table → Request → Option (Int × Table)) (table : Table)
    (answers : Answers) (request : Request) (rest : List (Answers × Request)) :
    returns serve table ((answers, request) :: rest) =
      (serve answers table request).bind fun served =>
        (returns serve served.2 rest).map fun results => served.1 :: results := by
  rw [returns]
  refine Option.bind_congr fun served _ => ?_
  rw [Option.map_eq_bind]
  rfl

namespace V3

/-! ### The bins -/

theorem ntohs_ntohs (half : BitVec 16) : ntohs (ntohs half) = half := by
  apply BitVec.eq_of_getLsbD_eq
  intro bit inside
  interval_cases bit <;> simp [ntohs]

/-- The bins of the two tables, byte by byte. -/
theorem hashIp_eq_ntohs (address : Address) : hashIp address = ntohs address.hashIp := by
  cases address with
  | v4 ipv4 =>
      apply BitVec.eq_of_getLsbD_eq
      intro bit inside
      interval_cases bit <;> simp [hashIp, Address.hashIp, ntohs, ntohl]
  | v6 ipv6 =>
      apply BitVec.eq_of_getLsbD_eq
      intro bit inside
      interval_cases bit <;> simp [hashIp, Address.hashIp, ntohs]

/-- The table with the bytes of every bin number swapped. -/
def swapBins (table : Table) : Table := { table with bins := fun index => table.bins (ntohs index) }

theorem swapBins_freeList (table : Table) : (swapBins table).freeList = table.freeList := rfl

theorem swap_update (bins : BitVec 16 → Option Nat) (address : Address) (first : Option Nat) :
    (fun index => Function.update bins address.hashIp first (ntohs index)) =
      Function.update (fun index => bins (ntohs index)) (hashIp address) first := by
  funext index
  by_cases same : index = hashIp address
  · rw [same, Function.update_self, hashIp_eq_ntohs, ntohs_ntohs, Function.update_self]
  · have different : ntohs index ≠ address.hashIp := by
      intro equal
      apply same
      rw [hashIp_eq_ntohs, ← equal, ntohs_ntohs]
    rw [Function.update_of_ne same, Function.update_of_ne different]

theorem search_swapBins (table : Table) (address : Address) (fuel : Nat)
    (prev cursor : Option Nat) :
    (swapBins table).search address fuel prev cursor = table.search address fuel prev cursor := by
  induction fuel generalizing prev cursor with
  | zero => cases cursor <;> rfl
  | succ fuel inductionHypothesis =>
      cases cursor with
      | none => rfl
      | some entry =>
          unfold Table.search
          rw [inductionHypothesis]
          rfl

theorem find_swapBins (table : Table) (address : Address) :
    find (swapBins table) address = table.find address := by
  unfold find Table.find
  rw [search_swapBins]
  simp only [swapBins, hashIp_eq_ntohs, ntohs_ntohs]

theorem linkNew_swapBins (table : Table) (address : Address) (entry : Nat) (accessTime : Int) :
    linkNew (swapBins table) address entry accessTime =
      swapBins (table.linkNew address entry accessTime) := by
  have first : (swapBins table).bins (hashIp address) = table.bins address.hashIp := by
    simp only [swapBins, hashIp_eq_ntohs, ntohs_ntohs]
  unfold linkNew
  rw [first]
  simp only [swapBins, Table.linkNew, swap_update]

theorem unlink_swapBins (table : Table) (address : Address) (prev : Option Nat) (entry : Nat) :
    unlink (swapBins table) address prev entry = swapBins (table.unlink address prev entry) := by
  cases prev with
  | some before => rfl
  | none => simp only [unlink, Table.unlink, swapBins, swap_update]

theorem linkFree_swapBins (table : Table) (base count : Nat) :
    (swapBins table).linkFree base count = swapBins (table.linkFree base count) := by
  induction count with
  | zero => rfl
  | succ count inductionHypothesis =>
      simp only [Table.linkFree, inductionHypothesis]
      rfl

theorem stock_swapBins (table : Table) (count : Nat) :
    (swapBins table).stock count = swapBins (table.stock count) := by
  unfold Table.stock
  rw [linkFree_swapBins]
  rfl

theorem refill_swapBins (table : Table) : (swapBins table).refill = swapBins table.refill :=
  stock_swapBins (table.mapZero (getpagesize / entrySize)) (getpagesize / entrySize)

theorem stocked_swapBins (table : Table) :
    (if (swapBins table).freeListSize = 0 then (swapBins table).refill else swapBins table) =
      swapBins (if table.freeListSize = 0 then table.refill else table) := by
  have size : (swapBins table).freeListSize = table.freeListSize := rfl
  rw [size, refill_swapBins]
  split <;> rfl

theorem insert_swapBins (answers : Answers) (table : Table) (key : Option (BitVec 128))
    (domain accessTime : Int) :
    ipHashtableInsert answers (swapBins table) key domain accessTime =
      (table.ipHashtableInsert answers key domain accessTime).map
        fun served => (served.1, swapBins served.2) := by
  unfold ipHashtableInsert Table.ipHashtableInsert
  cases Address.ofArguments key domain with
  | none => rfl
  | some address =>
      dsimp only
      rw [find_swapBins, stocked_swapBins]
      by_cases locked : answers.binLock = false
      · rw [if_pos locked, if_pos locked]
        rfl
      · rw [if_neg locked, if_neg locked]
        cases table.find address with
        | none => rfl
        | some outcome =>
            cases outcome with
            | some place => rfl
            | none =>
                simp only [Option.bind_eq_bind, Option.bind_some]
                by_cases free : answers.freeListLock = false
                · rw [if_pos free, if_pos free]
                  rfl
                · rw [if_neg free, if_neg free]
                  by_cases memory : table.freeListSize = 0 ∧ answers.mmap = false
                  · have swapped : (swapBins table).freeListSize = 0 ∧ answers.mmap = false :=
                      memory
                    rw [if_pos swapped, if_pos memory]
                    rfl
                  · have swapped : ¬((swapBins table).freeListSize = 0 ∧ answers.mmap = false) :=
                      memory
                    rw [if_neg swapped, if_neg memory, swapBins_freeList]
                    cases (if table.freeListSize = 0 then table.refill else table).freeList with
                    | none => rfl
                    | some entry =>
                        simp only [Option.bind_some, Option.map_some, linkNew_swapBins]

theorem remove_swapBins (answers : Answers) (table : Table) (key : Option (BitVec 128))
    (domain : Int) :
    ipHashtableRemove answers (swapBins table) key domain =
      (table.ipHashtableRemove answers key domain).map
        fun served => (served.1, swapBins served.2) := by
  unfold ipHashtableRemove Table.ipHashtableRemove
  cases Address.ofArguments key domain with
  | none => rfl
  | some address =>
      dsimp only
      rw [find_swapBins]
      by_cases locked : answers.binLock = false
      · rw [if_pos locked, if_pos locked]
        rfl
      · rw [if_neg locked, if_neg locked]
        cases table.find address with
        | none => rfl
        | some outcome =>
            cases outcome with
            | none => rfl
            | some place =>
                simp only [Option.bind_eq_bind, Option.bind_some, unlink_swapBins]
                by_cases free : answers.freeListLock = false
                · rw [if_pos free, if_pos free]
                  rfl
                · rw [if_neg free, if_neg free]
                  rfl

theorem set_swapBins (answers : Answers) (table : Table) (key : Option (BitVec 128))
    (domain : Int) (value : UInt32) (accessTime : Int) :
    ipHashtableSet answers (swapBins table) key domain value accessTime =
      (table.ipHashtableSet answers key domain value accessTime).map
        fun served => (served.1, swapBins served.2) := by
  unfold ipHashtableSet Table.ipHashtableSet
  cases Address.ofArguments key domain with
  | none => rfl
  | some address =>
      dsimp only
      rw [find_swapBins]
      by_cases locked : answers.binLock = false
      · rw [if_pos locked, if_pos locked]
        rfl
      · rw [if_neg locked, if_neg locked]
        cases table.find address with
        | none => rfl
        | some outcome =>
            cases outcome with
            | none => rfl
            | some place => rfl

/-- `v3.c` does to the table with swapped bins what the deployed table does. -/
theorem serve_swapBins (answers : Answers) (table : Table) (request : Request) :
    serve answers (swapBins table) request =
      (table.serve answers request).map fun served => (served.1, swapBins served.2) := by
  cases request with
  | insert address accessTime => exact insert_swapBins answers table _ _ _
  | remove address => exact remove_swapBins answers table _ _
  | set address value accessTime => exact set_swapBins answers table _ _ _ _

/-- Whole histories return the same values on tables with swapped bins. -/
theorem returns_swapBins (table : Table) (calls : List (Answers × Request)) :
    returns serve (swapBins table) calls = returns Table.serve table calls := by
  induction calls generalizing table with
  | nil => rfl
  | cons call rest inductionHypothesis =>
      obtain ⟨answers, request⟩ := call
      rw [returns_cons, returns_cons, serve_swapBins, Option.bind_map]
      refine Option.bind_congr fun served _ => ?_
      exact congrArg (Option.map _) (inductionHypothesis served.2)

theorem init_eq_swapBins (memory : Nat → Entry) (searchTime : Int) :
    ipHashtableInit memory searchTime = swapBins (.ipHashtableInit memory searchTime) :=
  stock_swapBins ⟨memory, fun _ => none, fun _ => none, none, 0, searchTime, 0⟩ nbins

end V3

/-! ### Histories -/

/-- Tables that differ in unused entries return the same values. -/
theorem Alike.returns {table : Table} {memory : Nat → Entry} {bins : BitVec 16 → List Nat}
    {free : List Nat} (alike : Alike table memory bins free) (calls : List (Answers × Request)) :
    ∃ results, returns Table.serve table calls = some results ∧
      returns Table.serve (table.withEntries memory) calls = some results := by
  induction calls generalizing table memory bins free with
  | nil => exact ⟨[], rfl, rfl⟩
  | cons call rest inductionHypothesis =>
      obtain ⟨answers, request⟩ := call
      obtain ⟨result, next, nextMemory, nextBins, nextFree, deployed, other, kept⟩ :=
        alike.serve answers request
      obtain ⟨results, returned, otherReturned⟩ := inductionHypothesis kept
      have step : Table.serve answers table request = some (result, next) := deployed
      have otherStep : Table.serve answers (table.withEntries memory) request =
          some (result, next.withEntries nextMemory) := other
      refine ⟨result :: results, ?_, ?_⟩
      · rw [returns_cons, step, Option.bind_some, returned, Option.map_some]
      · rw [returns_cons, otherStep, Option.bind_some, otherReturned, Option.map_some]

theorem Table.stock_entries (table : Table) (count : Nat) :
    (table.stock count).entries = table.entries :=
  table.linkFree_entries _ count

theorem Table.stock_allocated (table : Table) (count : Nat) :
    (table.stock count).allocated = table.allocated + count :=
  rfl

/-- Fresh tables whose free entries have the same keys. -/
theorem Alike.init {memory other : Nat → Entry}
    (sameKeys : ∀ entry < nbins, (other entry).key = (memory entry).key) (searchTime : Int) :
    Alike (.ipHashtableInit memory searchTime) other (fun _ => []) (Table.linked 0 nbins ++ []) ∧
      Table.ipHashtableInit other searchTime =
        (Table.ipHashtableInit memory searchTime).withEntries other := by
  let table : Table := ⟨memory, fun _ => none, fun _ => none, none, 0, searchTime, 0⟩
  have entries : (Table.ipHashtableInit memory searchTime).entries = memory :=
    table.stock_entries nbins
  have allocated : (Table.ipHashtableInit memory searchTime).allocated = nbins :=
    (table.stock_allocated nbins).trans (Nat.zero_add nbins)
  refine ⟨⟨Shape.init memory searchTime, ?_, ?_⟩, Alike.stock_withEntries table other nbins⟩
  · intro entry inside
    rw [allocated] at inside
    rw [entries]
    exact sameKeys entry inside
  · intro index entry member
    exact absurd member List.not_mem_nil

/-- The deployed table and the benchmarked one return the same values on every
history of calls, of whatever families, whatever the system answers. -/
theorem deployed_returns_benchmarked {memory benchMemory : Nat → Entry}
    (sameKeys : ∀ entry < nbins, (benchMemory entry).key = (memory entry).key) (searchTime : Int)
    (calls : List (Answers × Request)) :
    ∃ results,
      returns Table.serve (.ipHashtableInit memory searchTime) calls = some results ∧
      returns V3.serve (V3.ipHashtableInit benchMemory searchTime) calls = some results := by
  obtain ⟨alike, other⟩ := Alike.init sameKeys searchTime
  obtain ⟨results, deployed, benchmarked⟩ := alike.returns calls
  refine ⟨results, deployed, ?_⟩
  rw [V3.init_eq_swapBins, V3.returns_swapBins, other]
  exact benchmarked

/-- Clients of both families with equal leading bytes, removed and set. -/
def mixedCalls : List (Answers × Request) :=
  [(.succeed, .insert (.v4 0x0101A8C0) 0), (.succeed, .insert (.v6 0x0101A8C0) 1),
    (.succeed, .insert (.v4 0x0101A8C0) 2), (.succeed, .set (.v6 0x0101A8C0) 7 3),
    (.succeed, .remove (.v4 0x0101A8C0))]

/-- The memory `malloc` returned to the benchmark: the deployed table's keys, other data. -/
def staleMemory : Nat → Entry := fun _ => ⟨0, 2, 5, 9⟩

theorem staleMemory_key (entry : Nat) (_ : entry < nbins) :
    (staleMemory entry).key = Entry.zero.key := rfl

theorem deployed_returns_benchmarked_mixed :
    (∀ entry < nbins, (staleMemory entry).key = Entry.zero.key) ∧
    ∃ results,
      returns Table.serve (.ipHashtableInit (fun _ => .zero) 60) mixedCalls = some results ∧
      returns V3.serve (V3.ipHashtableInit staleMemory 60) mixedCalls = some results :=
  ⟨staleMemory_key,
    @deployed_returns_benchmarked (fun _ => .zero) staleMemory staleMemory_key 60 mixedCalls⟩

end FipsIpc.IpHashtable
