import FipsIpc.IpHashtable.Shape
import FipsIpc.Lib.Run

/-!
Contract: calls of the hash table that report an error.

Owns: the calls with their raw arguments, everything such a call can do to a
table, and which calls return a negative number although the table changed.

Two kinds of calls do.  `ip_hashtable_remove` takes the entry out of its bin
before it tries the lock of the free list.  And the `uint32_t` count of an entry
is returned as an `int`, so a count of `2 ^ 31` or more reads as an error.

Does not own: runs of calls.
-/

set_option autoImplicit false

namespace FipsIpc.IpHashtable

open FipsIpc.Lib

/-! ### Calls -/

/-- A call with its arguments; a null `key` is `none`. -/
inductive HtCall where
  | insert (key : Option (BitVec 128)) (domain accessTime : Int)
  | remove (key : Option (BitVec 128)) (domain : Int)
  | set (key : Option (BitVec 128)) (domain : Int) (value : UInt32) (accessTime : Int)

/-- The address that the arguments stand for. -/
def HtCall.address : HtCall → Option Address
  | .insert key domain _ => Address.ofArguments key domain
  | .remove key domain => Address.ofArguments key domain
  | .set key domain _ _ => Address.ofArguments key domain

namespace Table

def call (answers : Answers) (table : Table) : HtCall → Option (Int × Table)
  | .insert key domain accessTime => table.ipHashtableInsert answers key domain accessTime
  | .remove key domain => table.ipHashtableRemove answers key domain
  | .set key domain value accessTime => table.ipHashtableSet answers key domain value accessTime

/-- The entry of the address, when the call gets to search for it. -/
def target (answers : Answers) (table : Table) (call : HtCall) : Option Nat :=
  match call.address with
  | none => none
  | some address =>
      if answers.binLock = false then none
      else
        match table.find address with
        | some (some (_, entry)) => some entry
        | _ => none

/-- The table with a free entry to take. -/
def stocked (table : Table) : Table := if table.freeListSize = 0 then table.refill else table

end Table

/-! ### What a call can do -/

/-- The outcomes of a call on a table with these chains. -/
inductive Effect (answers : Answers) (table : Table) (bins : BitVec 16 → List Nat) :
    HtCall → Int → Table → Prop where
  | refused {call : HtCall} {code : Int} (target : table.target answers call = none)
      (negative : code < 0) : Effect answers table bins call code table
  | added {key : Option (BitVec 128)} {domain accessTime : Int} {address : Address} {entry : Nat}
      {free : List Nat} (isAddress : Address.ofArguments key domain = some address)
      (target : table.target answers (.insert key domain accessTime) = none)
      (shape : Shape table.stocked bins (entry :: free)) :
      Effect answers table bins (.insert key domain accessTime) 1
        (table.stocked.linkNew address entry accessTime)
  | counted {key : Option (BitVec 128)} {domain accessTime : Int} {index : BitVec 16} {entry : Nat}
      (target : table.target answers (.insert key domain accessTime) = some entry)
      (member : entry ∈ bins index) :
      Effect answers table bins (.insert key domain accessTime)
        (intOfCount (table.countAccess (table.entries entry) accessTime).count)
        (table.setEntry entry (table.countAccess (table.entries entry) accessTime))
  | lost {key : Option (BitVec 128)} {domain : Int} {address : Address} {left right : List Nat}
      {entry : Nat} (target : table.target answers (.remove key domain) = some entry)
      (split : bins address.hashIp = left ++ entry :: right)
      (failed : answers.freeListLock = false) :
      Effect answers table bins (.remove key domain) ipHtableMutexErr
        (table.unlink address left.getLast? entry)
  | removed {key : Option (BitVec 128)} {domain : Int} {address : Address} {left right : List Nat}
      {entry : Nat} (target : table.target answers (.remove key domain) = some entry)
      (split : bins address.hashIp = left ++ entry :: right)
      (locked : answers.freeListLock = true) :
      Effect answers table bins (.remove key domain) (intOfCount (table.entries entry).count)
        ((table.unlink address left.getLast? entry).recycle entry)
  | assigned {key : Option (BitVec 128)} {domain : Int} {value : UInt32} {accessTime : Int}
      {index : BitVec 16} {entry : Nat}
      (target : table.target answers (.set key domain value accessTime) = some entry)
      (member : entry ∈ bins index) :
      Effect answers table bins (.set key domain value accessTime)
        (intOfCount (table.entries entry).count)
        (table.setEntry entry
          { table.entries entry with count := value, lastAccess := accessTime })

section Effects

variable {answers : Answers} {table next : Table} {bins : BitVec 16 → List Nat} {free : List Nat}
  {call : HtCall} {code : Int}

/-- There is always a free entry to take. -/
theorem Shape.stocked (shape : Shape table bins free) :
    ∃ entry rest, Shape table.stocked bins (entry :: rest) := by
  unfold Table.stocked
  cases free with
  | nil =>
      have size : table.freeListSize = 0 := shape.size
      rw [if_pos size]
      have refilled := (shape.mapZero (getpagesize / entrySize)).stock (getpagesize / entrySize)
      exact ⟨_, _, refilled⟩
  | cons entry rest =>
      have size : table.freeListSize ≠ 0 := by
        rw [shape.size]
        simp
      rw [if_neg size]
      exact ⟨entry, rest, shape⟩

theorem target_of_found {address : Address} {prev : Option Nat} {entry : Nat}
    (isAddress : call.address = some address) (locked : answers.binLock = true)
    (found : table.find address = some (some (prev, entry))) :
    table.target answers call = some entry := by
  simp [Table.target, isAddress, locked, found]

theorem target_of_missing {address : Address} (isAddress : call.address = some address)
    (missing : table.find address = some none) : table.target answers call = none := by
  simp [Table.target, isAddress, missing]

/-- Invalid arguments and a failing bin lock are reported first. -/
theorem call_refused (unsearched : call.address = none ∨ answers.binLock = false) :
    ∃ code, table.call answers call = some (code, table) ∧ code < 0 ∧
      table.target answers call = none := by
  cases isAddress : call.address with
  | none =>
      refine ⟨ipHtableArgErr, ?_, by decide, by simp [Table.target, isAddress]⟩
      cases call <;>
        simp_all [Table.call, HtCall.address, Table.ipHashtableInsert, Table.ipHashtableRemove,
          Table.ipHashtableSet]
  | some address =>
      have failed : answers.binLock = false := by simpa [isAddress] using unsearched
      refine ⟨ipHtableMutexErr, ?_, by decide, by simp [Table.target, isAddress, failed]⟩
      cases call <;>
        simp_all [Table.call, HtCall.address, Table.ipHashtableInsert, Table.ipHashtableRemove,
          Table.ipHashtableSet]

theorem Shape.effect_insert (shape : Shape table bins free) {key : Option (BitVec 128)}
    {domain accessTime : Int} {address : Address}
    (isAddress : Address.ofArguments key domain = some address)
    (locked : answers.binLock = true) :
    ∃ code next, table.call answers (.insert key domain accessTime) = some (code, next) ∧
      Effect answers table bins (.insert key domain accessTime) code next := by
  rcases shape.find_cases address with
    ⟨_, missing⟩ | ⟨left, entry, right, split, _, _, found⟩
  · have target : table.target answers (.insert key domain accessTime) = none :=
      target_of_missing isAddress missing
    by_cases listFailed : answers.freeListLock = false
    · refine ⟨ipHtableMutexErr, table, ?_, .refused target (by decide)⟩
      simp [Table.call, Table.ipHashtableInsert, isAddress, locked, missing, listFailed]
    by_cases mapFailed : table.freeListSize = 0 ∧ answers.mmap = false
    · refine ⟨ipHtableMemErr, table, ?_, .refused target (by decide)⟩
      simp [Table.call, Table.ipHashtableInsert, isAddress, locked, missing, listFailed, mapFailed]
    · rcases shape.stocked with ⟨entry, rest, ready⟩
      have taken : table.stocked.freeList = some entry := ready.freeChain.first_eq
      refine ⟨1, _, ?_, .added isAddress target ready⟩
      unfold Table.stocked at taken ⊢
      simp [Table.call, Table.ipHashtableInsert, isAddress, locked, missing, listFailed, mapFailed,
        taken]
  · refine ⟨_, _, ?_, .counted (target_of_found isAddress locked found) (mem_middle split)⟩
    simp [Table.call, Table.ipHashtableInsert, isAddress, locked, found]

theorem Shape.effect_remove (shape : Shape table bins free) {key : Option (BitVec 128)}
    {domain : Int} {address : Address} (isAddress : Address.ofArguments key domain = some address)
    (locked : answers.binLock = true) :
    ∃ code next, table.call answers (.remove key domain) = some (code, next) ∧
      Effect answers table bins (.remove key domain) code next := by
  rcases shape.find_cases address with
    ⟨_, missing⟩ | ⟨left, entry, right, split, _, _, found⟩
  · refine ⟨ipHtableNoexist, table, ?_, .refused (target_of_missing isAddress missing) (by decide)⟩
    simp [Table.call, Table.ipHashtableRemove, isAddress, locked, missing]
  · have target : table.target answers (.remove key domain) = some entry :=
      target_of_found isAddress locked found
    cases list : answers.freeListLock with
    | false =>
        refine ⟨_, _, ?_, .lost target split list⟩
        simp [Table.call, Table.ipHashtableRemove, isAddress, locked, found, list]
    | true =>
        refine ⟨_, _, ?_, .removed target split list⟩
        simp [Table.call, Table.ipHashtableRemove, isAddress, locked, found, list]

theorem Shape.effect_set (shape : Shape table bins free) {key : Option (BitVec 128)}
    {domain accessTime : Int} {value : UInt32} {address : Address}
    (isAddress : Address.ofArguments key domain = some address)
    (locked : answers.binLock = true) :
    ∃ code next, table.call answers (.set key domain value accessTime) = some (code, next) ∧
      Effect answers table bins (.set key domain value accessTime) code next := by
  rcases shape.find_cases address with
    ⟨_, missing⟩ | ⟨left, entry, right, split, _, _, found⟩
  · refine ⟨ipHtableNoexist, table, ?_, .refused (target_of_missing isAddress missing) (by decide)⟩
    simp [Table.call, Table.ipHashtableSet, isAddress, locked, missing]
  · refine ⟨_, _, ?_, .assigned (target_of_found isAddress locked found) (mem_middle split)⟩
    simp [Table.call, Table.ipHashtableSet, isAddress, locked, found]

/-- A call returns with one of the outcomes. -/
theorem Shape.effect (shape : Shape table bins free) (answers : Answers) (call : HtCall) :
    ∃ code next, table.call answers call = some (code, next) ∧
      Effect answers table bins call code next := by
  by_cases unsearched : call.address = none ∨ answers.binLock = false
  · rcases call_refused unsearched with ⟨code, returned, negative, target⟩
    exact ⟨code, table, returned, .refused target negative⟩
  · rw [not_or, Bool.not_eq_false] at unsearched
    rcases Option.ne_none_iff_exists'.mp unsearched.1 with ⟨address, isAddress⟩
    cases call with
    | insert key domain accessTime => exact shape.effect_insert isAddress unsearched.2
    | remove key domain => exact shape.effect_remove isAddress unsearched.2
    | set key domain value accessTime => exact shape.effect_set isAddress unsearched.2

end Effects

/-! ### Unchanged tables -/

/-- Key, count and access time of an entry. -/
def Table.record (table : Table) (entry : Nat) : BitVec 128 × UInt32 × Int :=
  ((table.entries entry).key, (table.entries entry).count, (table.entries entry).lastAccess)

/-- Every bin has its entries with their contents, and the free list has its
entries. -/
structure Unchanged (before after : Table) : Prop where
  bins : ∀ index cells, Chain before.next (before.bins index) cells →
    Chain after.next (after.bins index) cells ∧
      ∀ entry ∈ cells, after.record entry = before.record entry
  free : ∀ cells, Chain before.next before.freeList cells →
    ∃ others, Chain after.next after.freeList others ∧ ∀ entry, entry ∈ others ↔ entry ∈ cells

/-- The call returns an error only if the table is unchanged. -/
def ErrorKeeps (answers : Answers) (table : Table) (call : HtCall) : Prop :=
  ∀ code next, table.call answers call = some (code, next) → code < 0 → Unchanged table next

/-- The entry of the address, if the call finds one, is not lost between bin and
free list, and the count to return is no negative `int`, or it is and nothing is
set. -/
def Harmless (answers : Answers) (table : Table) (call : HtCall) : Prop :=
  ∀ entry, table.target answers call = some entry →
    match call with
    | .insert _ _ accessTime =>
        (table.entries entry).lastAccess + table.searchTime < accessTime ∨
          ((table.entries entry).count + 1).toNat < 2 ^ 31
    | .remove _ _ => answers.freeListLock = true ∧ (table.entries entry).count.toNat < 2 ^ 31
    | .set _ _ value accessTime =>
        (table.entries entry).count.toNat < 2 ^ 31 ∨
          ((table.entries entry).count = value ∧ (table.entries entry).lastAccess = accessTime)

section Errors

variable {answers : Answers} {table next : Table} {bins : BitVec 16 → List Nat} {free : List Nat}
  {call : HtCall} {code : Int} {index : BitVec 16} {entry : Nat}

theorem intOfCount_neg_iff (count : UInt32) : intOfCount count < 0 ↔ ¬ count.toNat < 2 ^ 31 := by
  have below := count.toNat_lt
  unfold intOfCount
  split <;> omega

theorem Unchanged.refl (table : Table) : Unchanged table table :=
  ⟨fun _ _ chain => ⟨chain, fun _ _ => rfl⟩, fun cells chain => ⟨cells, chain, fun _ => Iff.rfl⟩⟩

/-- Assigning to an entry of a bin shows unless nothing is new. -/
theorem Shape.unchanged_setEntry_iff (shape : Shape table bins free) (member : entry ∈ bins index)
    (value : Entry) : Unchanged table (table.setEntry entry value) ↔
      (value.key, value.count, value.lastAccess) = table.record entry := by
  have assigned : (table.setEntry entry value).record entry =
      (value.key, value.count, value.lastAccess) := by
    simp [Table.record, Table.setEntry]
  constructor
  · intro unchanged
    have same := (unchanged.bins index _ (shape.bin index)).2 entry member
    rwa [assigned] at same
  · intro same
    refine ⟨?_, fun cells chain => ⟨cells, chain, fun _ => Iff.rfl⟩⟩
    intro other cells chain
    refine ⟨chain, ?_⟩
    intro cell _
    by_cases equal : cell = entry
    · rw [equal, assigned, same]
    · simp [Table.record, Table.setEntry, Function.update_of_ne equal]

/-- A bin without one of its entries has changed. -/
theorem Shape.changed_of_shorter (shape : Shape table bins free) {left right : List Nat}
    {nextFree : List Nat} (split : bins index = left ++ entry :: right)
    (after : Shape next (Function.update bins index (left ++ right)) nextFree) :
    ¬ Unchanged table next := by
  intro unchanged
  have whole := (unchanged.bins index _ (shape.bin index)).1
  have shorter := after.bin index
  rw [Function.update_self] at shorter
  have same := congrArg List.length (whole.unique shorter)
  rw [split] at same
  simp only [List.length_append, List.length_cons] at same
  omega

/-- Counting once more changes the count. -/
theorem succ_count_ne (count : UInt32) : count + 1 ≠ count := by
  intro same
  have below := count.toNat_lt
  have values := congrArg UInt32.toNat same
  rw [UInt32.toNat_add] at values
  have one : (1 : UInt32).toNat = 1 := rfl
  omega

theorem errorKeeps_iff (returned : table.call answers call = some (code, next)) :
    ErrorKeeps answers table call ↔ (code < 0 → Unchanged table next) := by
  constructor
  · intro keeps
    exact keeps code next returned
  · intro keeps otherCode other again negative
    cases returned.symm.trans again
    exact keeps negative

/-- An error leaves a table of chains unchanged exactly if the call is harmless. -/
theorem Shape.errorKeeps_iff_harmless (shape : Shape table bins free) (answers : Answers)
    (call : HtCall) : ErrorKeeps answers table call ↔ Harmless answers table call := by
  rcases shape.effect answers call with ⟨code, next, returned, effect⟩
  rw [errorKeeps_iff returned]
  unfold Harmless
  cases effect with
  | refused target negative =>
      simp [target, Unchanged.refl]
  | added isAddress target ready =>
      simp [target]
  | @counted key domain accessTime index entry target member =>
      rw [intOfCount_neg_iff, shape.unchanged_setEntry_iff member]
      simp only [target, Option.some.injEq, forall_eq']
      by_cases expired : (table.entries entry).lastAccess + table.searchTime < accessTime
      · have one : (1 : UInt32).toNat = 1 := rfl
        simp [Table.countAccess, expired, one]
      · have counts := succ_count_ne (table.entries entry).count
        simp [Table.countAccess, expired, Table.record, counts]
  | lost target split failed =>
      have changed := shape.changed_of_shorter split (shape.unlink split)
      have negative : ipHtableMutexErr < 0 := by decide
      simp [target, failed, changed, negative]
  | removed target split locked =>
      have changed := shape.changed_of_shorter split (shape.remove split)
      simp [target, locked, changed, intOfCount_neg_iff]
  | @assigned key domain value accessTime index entry target member =>
      rw [intOfCount_neg_iff, shape.unchanged_setEntry_iff member]
      simp only [target, Option.some.injEq, forall_eq', Table.record, Prod.mk.injEq, true_and]
      rw [← Decidable.or_iff_not_imp_left, eq_comm, @eq_comm _ accessTime]

end Errors

/-! ### Runs -/

/-- A call and what the operating system answers to it. -/
def Table.answered (table : Table) (request : Answers × HtCall) : Option Table :=
  (table.call request.1 request.2).map Prod.snd

/-- Chains stay chains, whatever fails. -/
theorem Effect.shape {answers : Answers} {table next : Table} {bins : BitVec 16 → List Nat}
    {free : List Nat} {call : HtCall} {code : Int}
    (effect : Effect answers table bins call code next)
    (shape : Shape table bins free) : ∃ nextBins nextFree, Shape next nextBins nextFree := by
  cases effect with
  | refused => exact ⟨_, _, shape⟩
  | added _ _ ready => exact ⟨_, _, ready.linkNew _ _⟩
  | counted => exact ⟨_, _, shape.setEntry _ _⟩
  | lost _ split _ => exact ⟨_, _, shape.unlink split⟩
  | removed _ split _ => exact ⟨_, _, shape.remove split⟩
  | assigned => exact ⟨_, _, shape.setEntry _ _⟩

/-- Every table that calls lead to consists of chains. -/
theorem exists_shape_of_run {memory : Nat → Entry} {searchTime : Int}
    {requests : List (Answers × HtCall)} {table : Table}
    (run : Lib.Run Table.answered (fun _ _ => True) (.ipHashtableInit memory searchTime) requests
      table) : ∃ bins free, Shape table bins free := by
  apply run.invariant
  · rintro table ⟨answers, call⟩ next ⟨bins, free, shape⟩ _ taken
    rcases shape.effect answers call with ⟨code, after, returned, effect⟩
    rcases Option.map_eq_some_iff.mp taken with ⟨result, again, rfl⟩
    cases returned.symm.trans again
    exact effect.shape shape
  · exact ⟨_, _, Shape.init memory searchTime⟩

/-- After any calls, whatever failed in them, an error leaves the table unchanged
exactly if the call is harmless. -/
theorem errorKeeps_iff_of_run {memory : Nat → Entry} {searchTime : Int}
    {requests : List (Answers × HtCall)} {table : Table}
    (run : Lib.Run Table.answered (fun _ _ => True) (.ipHashtableInit memory searchTime) requests
      table) (answers : Answers) (call : HtCall) :
    ErrorKeeps answers table call ↔ Harmless answers table call := by
  rcases exists_shape_of_run run with ⟨bins, free, shape⟩
  exact shape.errorKeeps_iff_harmless answers call

/-- A table with one client. -/
def singleEntry : Table :=
  (Table.ipHashtableInit (fun _ => .zero) 600).linkNew (.v4 1) 65535 0

theorem inserted_singleEntry : (Table.ipHashtableInit (fun _ => .zero) 600).answered
    (.succeed, .insert (some 1) afInet 0) = some singleEntry := by
  unfold singleEntry
  rw [Table.ipHashtableInit_eq]
  rfl

theorem shape_singleEntry :
    Shape singleEntry (Function.update (fun _ => []) (Address.v4 1).hashIp [65535])
      (Table.linked 0 65535 ++ []) := by
  have shape := Shape.init (fun _ => .zero) 600
  have first : Table.linked 0 nbins ++ [] = 65535 :: (Table.linked 0 65535 ++ []) :=
    congrArg (· ++ []) (Table.linked_succ 0 65535)
  rw [first] at shape
  exact shape.linkNew (.v4 1) 0

/-- Removing the client with all locks, and with a bin lock that fails. -/
theorem errorKeeps_iff_of_run_singleEntry :
    ErrorKeeps .succeed singleEntry (.remove (some 1) afInet) ∧
      singleEntry.call ⟨false, true, true⟩ (.remove (some 1) afInet) =
        some (ipHtableMutexErr, singleEntry) ∧
      ErrorKeeps ⟨false, true, true⟩ singleEntry (.remove (some 1) afInet) := by
  have run : Lib.Run Table.answered (fun _ _ => True)
      (Table.ipHashtableInit (fun _ => .zero) 600) [(.succeed, .insert (some 1) afInet 0)]
      singleEntry := .single trivial inserted_singleEntry
  refine ⟨(errorKeeps_iff_of_run run .succeed (.remove (some 1) afInet)).mpr ?_, rfl,
    (errorKeeps_iff_of_run run ⟨false, true, true⟩ (.remove (some 1) afInet)).mpr ?_⟩
  · intro entry target
    have found : singleEntry.target .succeed (.remove (some 1) afInet) = some 65535 := by
      unfold singleEntry
      rw [Table.ipHashtableInit_eq]
      rfl
    cases found.symm.trans target
    exact ⟨rfl, by decide⟩
  · intro entry target
    cases target

/-- The entry is lost when the lock of the free list fails. -/
theorem errorKeeps_fails_lost_entry :
    ¬ ∀ (memory : Nat → Entry) (searchTime : Int) (requests : List (Answers × HtCall))
      (table : Table),
      Lib.Run Table.answered (fun _ _ => True) (.ipHashtableInit memory searchTime) requests table →
      ∀ (answers : Answers) (call : HtCall), ErrorKeeps answers table call := by
  intro claim
  have keeps := claim _ _ _ _ (.single trivial inserted_singleEntry) ⟨true, false, true⟩
    (.remove (some 1) afInet)
  have removed : singleEntry.call ⟨true, false, true⟩ (.remove (some 1) afInet) =
      some (ipHtableMutexErr, singleEntry.unlink (.v4 1) none 65535) := by
    unfold singleEntry
    rw [Table.ipHashtableInit_eq]
    rfl
  have unchanged := keeps _ _ removed (by decide)
  have split : Function.update (fun _ => []) (Address.v4 1).hashIp [65535]
      (Address.v4 1).hashIp = [] ++ 65535 :: [] := Function.update_self _ _ _
  exact shape_singleEntry.changed_of_shorter split (shape_singleEntry.unlink split) unchanged

end FipsIpc.IpHashtable
