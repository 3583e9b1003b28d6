import Mathlib.Algebra.Group.Int.Defs
import Mathlib.Algebra.Group.Nat.Defs
import Mathlib.Logic.Function.Basic
import Mathlib.Data.List.Basic

/-!
Contract: the hash table of client addresses, `lib/ip_hashtable.c`.

Owns: entries, bins and free list as they lie in memory, `hash_ip`,
`ip_hashtable_init`, `ip_hashtable_insert`, `ip_hashtable_remove` and
`ip_hashtable_set`, each as one call under its bin lock.

An entry is a number; `next` holds the `next` pointers, `entries` the other
fields.  The key union is sixteen bytes, read as a little-endian number: an IPv4
key occupies the low 32 bits, and the rest keeps what was there.  A call yields
nothing when the C code does not return: a chain that runs in a circle, or a
null free list with a positive size.

`time_t` sums are taken without overflow, which C leaves undefined.
`free_list_size` counts entries in memory and does not wrap.

Does not own: `ip_hashtable_destroy`, null table pointers, and unlocking.
-/

set_option autoImplicit false

namespace FipsIpc.IpHashtable

/-! ### Codes -/

def ipHtableArgErr : Int := -1
def ipHtableMemErr : Int := -3
def ipHtableMutexErr : Int := -4
def ipHtableNoexist : Int := -5

def afInet : Int := 2
def afInet6 : Int := 10

def nbins : Nat := 65536

def getpagesize : Nat := 4096

/-- `sizeof(struct ip_hashtable_entry_t)`. -/
def entrySize : Nat := 48

/-- A `uint32_t` assigned to an `int`: the number itself below `2 ^ 31`. -/
def intOfCount (count : UInt32) : Int :=
  if count.toNat < 2 ^ 31 then count.toNat else (count.toNat : Int) - 2 ^ 32

/-! ### Addresses -/

/-- A key together with its domain; IPv4 and IPv6 addresses are read as
little-endian numbers. -/
inductive Address where
  | v4 (ipv4 : BitVec 32)
  | v6 (ipv6 : BitVec 128)
deriving DecidableEq, Repr

namespace Address

def domain : Address → Int
  | .v4 _ => afInet
  | .v6 _ => afInet6

/-- `hash_ip`. -/
def hashIp : Address → BitVec 16
  | .v4 ipv4 => (ipv4 >>> 16).setWidth 16
  | .v6 ipv6 => (ipv6 &&& 0xFFFF).setWidth 16

/-- The `memcmp` of a lookup: as many bytes as the address has. -/
def matchesKey : Address → BitVec 128 → Bool
  | .v4 ipv4, key => key.setWidth 32 == ipv4
  | .v6 ipv6, key => key == ipv6

/-- The key union after the address was assigned to its member. -/
def storeKey : Address → BitVec 128 → BitVec 128
  | .v4 ipv4, key => key.extractLsb' 32 96 ++ ipv4
  | .v6 ipv6, _ => ipv6

/-- The sixteen bytes at a pointer to the address; behind an IPv4 address
nothing is read. -/
def memory : Address → BitVec 128
  | .v4 ipv4 => ipv4.setWidth 128
  | .v6 ipv6 => ipv6

/-- The address that valid arguments stand for. -/
def ofArguments : Option (BitVec 128) → Int → Option Address
  | none, _ => none
  | some key, domain =>
      if domain = afInet then some (.v4 (key.setWidth 32))
      else if domain = afInet6 then some (.v6 key)
      else none

end Address

/-! ### Memory -/

/-- `struct ip_hashtable_entry_t` without its `next` pointer. -/
structure Entry where
  key : BitVec 128
  domain : Int
  lastAccess : Int
  count : UInt32

def Entry.zero : Entry := ⟨0, 0, 0, 0⟩

/-- `struct ip_hashtable_t`.  Entries below `allocated` belong to the table. -/
structure Table where
  entries : Nat → Entry
  next : Nat → Option Nat
  bins : BitVec 16 → Option Nat
  freeList : Option Nat
  freeListSize : Nat
  searchTime : Int
  allocated : Nat

namespace Table

/-- The loops that put `count` consecutive entries from `base` on on the free
list, one after the other. -/
def linkFree (table : Table) (base : Nat) : (count : Nat) → Table
  | 0 => table
  | count + 1 =>
      let linked := table.linkFree base count
      { linked with
        next := Function.update linked.next (base + count) linked.freeList
        freeList := some (base + count) }

/-- The next `count` entries in memory, put on the free list. -/
def stock (table : Table) (count : Nat) : Table :=
  { table.linkFree table.allocated count with
    freeListSize := table.freeListSize + count
    allocated := table.allocated + count }

/-- `ip_hashtable_init`; the entries from `malloc` hold anything. -/
def ipHashtableInit (memory : Nat → Entry) (searchTime : Int) : Table :=
  let table : Table := ⟨memory, fun _ => none, fun _ => none, none, 0, searchTime, 0⟩
  table.stock nbins

/-- `count` new entries at the end of memory; anonymous mappings are zero. -/
def mapZero (table : Table) (count : Nat) : Table :=
  { table with
    entries := fun entry =>
      if table.allocated ≤ entry ∧ entry < table.allocated + count then .zero
      else table.entries entry }

/-- A new page of entries. -/
def refill (table : Table) : Table :=
  (table.mapZero (getpagesize / entrySize)).stock (getpagesize / entrySize)

/-- The loop over a chain: the first entry that matches and the one before it.
A chain of more than `fuel` entries runs in a circle. -/
def search (table : Table) (address : Address) :
    (fuel : Nat) → (prev cursor : Option Nat) → Option (Option (Option Nat × Nat))
  | _, _, none => some none
  | 0, _, some _ => none
  | fuel + 1, prev, some entry =>
      if address.matchesKey (table.entries entry).key then some (some (prev, entry))
      else table.search address fuel (some entry) (table.next entry)

/-- The search in the bin of the address. -/
def find (table : Table) (address : Address) : Option (Option (Option Nat × Nat)) :=
  table.search address table.allocated none (table.bins address.hashIp)

def setEntry (table : Table) (entry : Nat) (value : Entry) : Table :=
  { table with entries := Function.update table.entries entry value }

/-- An entry after another access. -/
def countAccess (table : Table) (entry : Entry) (accessTime : Int) : Entry :=
  if entry.lastAccess + table.searchTime < accessTime then
    { entry with count := 1, lastAccess := accessTime }
  else { entry with count := entry.count + 1 }

/-- Take the first free entry and put the address into it, in front of its
bin. -/
def linkNew (table : Table) (address : Address) (entry : Nat) (accessTime : Int) : Table :=
  { table with
    entries := Function.update table.entries entry
      ⟨address.storeKey (table.entries entry).key, address.domain, accessTime, 1⟩
    next := Function.update table.next entry (table.bins address.hashIp)
    bins := Function.update table.bins address.hashIp (some entry)
    freeList := table.next entry
    freeListSize := table.freeListSize - 1 }

/-- Take an entry out of its chain. -/
def unlink (table : Table) (address : Address) (prev : Option Nat) (entry : Nat) : Table :=
  match prev with
  | some before => { table with next := Function.update table.next before (table.next entry) }
  | none =>
      { table with bins := Function.update table.bins address.hashIp (table.next entry) }

/-- Put an entry on the free list. -/
def recycle (table : Table) (entry : Nat) : Table :=
  { table with
    next := Function.update table.next entry table.freeList
    freeList := some entry
    freeListSize := table.freeListSize + 1 }

end Table

/-! ### Calls -/

/-- What the operating system answers to a call. -/
structure Answers where
  binLock : Bool
  freeListLock : Bool
  mmap : Bool

def Answers.succeed : Answers := ⟨true, true, true⟩

namespace Table

variable (answers : Answers) (table : Table)

/-- `ip_hashtable_insert`. -/
def ipHashtableInsert (key : Option (BitVec 128)) (domain accessTime : Int) :
    Option (Int × Table) :=
  match Address.ofArguments key domain with
  | none => some (ipHtableArgErr, table)
  | some address =>
      if answers.binLock = false then some (ipHtableMutexErr, table)
      else do
        match ← table.find address with
        | some (_, entry) =>
            let counted := table.countAccess (table.entries entry) accessTime
            some (intOfCount counted.count, table.setEntry entry counted)
        | none =>
            if answers.freeListLock = false then some (ipHtableMutexErr, table)
            else if table.freeListSize = 0 ∧ answers.mmap = false then some (ipHtableMemErr, table)
            else
              let stocked := if table.freeListSize = 0 then table.refill else table
              let entry ← stocked.freeList
              some (1, stocked.linkNew address entry accessTime)

/-- `ip_hashtable_remove`. -/
def ipHashtableRemove (key : Option (BitVec 128)) (domain : Int) : Option (Int × Table) :=
  match Address.ofArguments key domain with
  | none => some (ipHtableArgErr, table)
  | some address =>
      if answers.binLock = false then some (ipHtableMutexErr, table)
      else do
        match ← table.find address with
        | some (prev, entry) =>
            let unlinked := table.unlink address prev entry
            if answers.freeListLock = false then some (ipHtableMutexErr, unlinked)
            else some (intOfCount (table.entries entry).count, unlinked.recycle entry)
        | none => some (ipHtableNoexist, table)

/-- `ip_hashtable_set`. -/
def ipHashtableSet (key : Option (BitVec 128)) (domain : Int) (value : UInt32)
    (accessTime : Int) : Option (Int × Table) :=
  match Address.ofArguments key domain with
  | none => some (ipHtableArgErr, table)
  | some address =>
      if answers.binLock = false then some (ipHtableMutexErr, table)
      else do
        match ← table.find address with
        | some (_, entry) =>
            some (intOfCount (table.entries entry).count, table.setEntry entry
              { table.entries entry with count := value, lastAccess := accessTime })
        | none => some (ipHtableNoexist, table)

end Table

/-- A call with valid arguments. -/
inductive Request where
  | insert (address : Address) (accessTime : Int)
  | remove (address : Address)
  | set (address : Address) (value : UInt32) (accessTime : Int)
deriving DecidableEq, Repr

def Request.address : Request → Address
  | .insert address _ => address
  | .remove address => address
  | .set address _ _ => address

namespace Table

def serve (answers : Answers) (table : Table) : Request → Option (Int × Table)
  | .insert address accessTime =>
      table.ipHashtableInsert answers (some address.memory) address.domain accessTime
  | .remove address => table.ipHashtableRemove answers (some address.memory) address.domain
  | .set address value accessTime =>
      table.ipHashtableSet answers (some address.memory) address.domain value accessTime

/-- The results of calls in their order, when locks and `mmap` succeed. -/
def run (table : Table) : List Request → Option (List Int × Table)
  | [] => some ([], table)
  | request :: rest => do
      let (result, next) ← table.serve .succeed request
      let (results, last) ← next.run rest
      some (result :: results, last)

end Table

end FipsIpc.IpHashtable
