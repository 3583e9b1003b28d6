import FipsIpc.IpHashtable.Shape
import FipsIpc.Lib.Run

/-!
Contract: the hash table refines a map from addresses to counters.

Owns: the map as the abstract meaning of a table, the representation of a map
by bins and free list, one lemma per pointer operation, the simulation of one
call, and the refinement over every history of one address family.

A lookup compares only as many bytes as its own address has.  The simulation
therefore asks that the entry it finds, if any, was stored by the same family;
within one family that is always so.

Does not own: histories that mix the families.
-/

set_option autoImplicit false

namespace FipsIpc.IpHashtable

open FipsIpc.Lib

/-! ### The abstract map -/

/-- What the table keeps about an address. -/
structure Counter where
  count : UInt32
  lastAccess : Int
deriving DecidableEq, Repr

/-- The counters of the addresses that are present. -/
abbrev AddressMap : Type := Address → Option Counter

namespace AddressMap

def empty : AddressMap := fun _ => none

/-- The result of a request and the map after it. -/
def serve (searchTime : Int) (map : AddressMap) : Request → Int × AddressMap
  | .insert address accessTime =>
      match map address with
      | none => (1, Function.update map address (some ⟨1, accessTime⟩))
      | some counter =>
          if counter.lastAccess + searchTime < accessTime then
            (1, Function.update map address (some ⟨1, accessTime⟩))
          else
            (intOfCount (counter.count + 1),
              Function.update map address (some ⟨counter.count + 1, counter.lastAccess⟩))
  | .remove address =>
      match map address with
      | none => (ipHtableNoexist, map)
      | some counter => (intOfCount counter.count, Function.update map address none)
  | .set address value accessTime =>
      match map address with
      | none => (ipHtableNoexist, map)
      | some counter =>
          (intOfCount counter.count, Function.update map address (some ⟨value, accessTime⟩))

/-- The results of a history and the map at its end. -/
def run (searchTime : Int) (map : AddressMap) : List Request → List Int × AddressMap
  | [] => ([], map)
  | request :: rest =>
      let served := map.serve searchTime request
      let later := served.2.run searchTime rest
      (served.1 :: later.1, later.2)

/-- Only addresses of the domain are present. -/
def InFamily (domain : Int) (map : AddressMap) : Prop :=
  ∀ address, map address ≠ none → address.domain = domain

/-- A request leaves the counters of other addresses alone. -/
theorem serve_of_ne (searchTime : Int) (map : AddressMap) (request : Request) {other : Address}
    (different : other ≠ request.address) :
    (map.serve searchTime request).2 other = map other := by
  cases request with
  | insert address accessTime =>
      simp only [serve]
      split
      · exact Function.update_of_ne different _ _
      · split <;> exact Function.update_of_ne different _ _
  | remove address =>
      simp only [serve]
      split
      · rfl
      · exact Function.update_of_ne different _ _
  | set address value accessTime =>
      simp only [serve]
      split
      · rfl
      · exact Function.update_of_ne different _ _

theorem InFamily.serve {domain searchTime : Int} {map : AddressMap} {request : Request}
    (family : map.InFamily domain) (same : request.address.domain = domain) :
    (map.serve searchTime request).2.InFamily domain := by
  intro address present
  by_cases equal : address = request.address
  · rw [equal]
    exact same
  · rw [map.serve_of_ne searchTime request equal] at present
    exact family address present

end AddressMap

/-! ### Addresses and keys -/

namespace Address

@[simp] theorem ofArguments_memory (address : Address) :
    ofArguments (some address.memory) address.domain = some address := by
  cases address with
  | v4 ipv4 => simp [ofArguments, memory, domain]
  | v6 ipv6 => simp [ofArguments, memory, domain, afInet, afInet6]

theorem matchesKey_storeKey (address : Address) (key : BitVec 128) :
    address.matchesKey (address.storeKey key) = true := by
  cases address with
  | v4 ipv4 =>
      simp only [matchesKey, storeKey, beq_iff_eq]
      exact BitVec.setWidth_append_eq_right
  | v6 ipv6 => simp [matchesKey, storeKey]

theorem domain_ne : afInet ≠ afInet6 := by decide

end Address

/-- The entry was stored for the address. -/
def Entry.holds (entry : Entry) (address : Address) : Bool :=
  entry.domain == address.domain && address.matchesKey entry.key

namespace Entry

variable {entry : Entry} {address other : Address}

theorem holds_iff : entry.holds address = true ↔
    entry.domain = address.domain ∧ address.matchesKey entry.key = true := by
  simp [holds]

/-- An entry is stored for one address. -/
theorem holds_unique (left : entry.holds address = true) (right : entry.holds other = true) :
    address = other := by
  obtain ⟨domain, key⟩ := holds_iff.mp left
  obtain ⟨otherDomain, otherKey⟩ := holds_iff.mp right
  have same : address.domain = other.domain := domain.symm.trans otherDomain
  cases address <;> cases other <;>
    simp_all [Address.domain, Address.matchesKey, Address.domain_ne, Address.domain_ne.symm]

/-- Only domain and key matter. -/
theorem holds_congr {value : Entry} (key : value.key = entry.key)
    (domain : value.domain = entry.domain) (address : Address) :
    value.holds address = entry.holds address := by
  unfold holds
  rw [key, domain]

def counter (entry : Entry) : Counter := ⟨entry.count, entry.lastAccess⟩

end Entry

/-! ### Representation -/

/-- The bins hold the map: every entry is in the bin of its address, no address
has two entries, and the map has the counters of the entries. -/
structure Represents (table : Table) (bins : BitVec 16 → List Nat) (free : List Nat)
    (map : AddressMap) : Prop extends Shape table bins free where
  placed : ∀ index, ∀ entry ∈ bins index,
    ∃ address : Address, address.hashIp = index ∧ (table.entries entry).holds address = true
  unique : ∀ address : Address, ∀ entry ∈ bins address.hashIp, ∀ other ∈ bins address.hashIp,
    (table.entries entry).holds address = true → (table.entries other).holds address = true →
      entry = other
  present : ∀ address : Address, ∀ entry ∈ bins address.hashIp,
    (table.entries entry).holds address = true → map address = some (table.entries entry).counter
  absent : ∀ address : Address,
    (∀ entry ∈ bins address.hashIp, (table.entries entry).holds address = false) →
      map address = none

namespace Represents

variable {table next : Table} {bins : BitVec 16 → List Nat} {free nextFree : List Nat}
  {map : AddressMap} {address : Address} {entry : Nat}

theorem init (memory : Nat → Entry) (searchTime : Int) :
    Represents (.ipHashtableInit memory searchTime) (fun _ => []) (Table.linked 0 nbins ++ [])
      .empty where
  toShape := Shape.init memory searchTime
  placed _ _ member := absurd member List.not_mem_nil
  unique _ _ member := absurd member List.not_mem_nil
  present _ _ member := absurd member List.not_mem_nil
  absent _ _ := rfl

/-- The free list and entries outside the bins do not matter. -/
theorem congr (represents : Represents table bins free map) (shape : Shape next bins nextFree)
    (same : ∀ index, ∀ cell ∈ bins index, next.entries cell = table.entries cell) :
    Represents next bins nextFree map where
  toShape := shape
  placed index cell member := by
    rw [same index cell member]
    exact represents.placed index cell member
  unique target cell member other otherMember := by
    rw [same _ cell member, same _ other otherMember]
    exact represents.unique target cell member other otherMember
  present target cell member := by
    rw [same _ cell member]
    exact represents.present target cell member
  absent target none := by
    apply represents.absent target
    intro cell member
    rw [← same _ cell member]
    exact none cell member

theorem refill (represents : Represents table bins [] map) :
    Represents table.refill bins
      (Table.linked table.allocated (getpagesize / entrySize) ++ []) map := by
  refine represents.congr ((represents.mapZero _).stock _) fun index cell member => ?_
  have inside := represents.binInside index cell member
  unfold Table.refill Table.stock
  rw [Table.linkFree_entries]
  exact if_neg (by omega)

/-- Another counter for an entry. -/
theorem setEntry (represents : Represents table bins free map)
    (member : entry ∈ bins address.hashIp) (holds : (table.entries entry).holds address = true)
    {value : Entry} (key : value.key = (table.entries entry).key)
    (domain : value.domain = (table.entries entry).domain) :
    Represents (table.setEntry entry value) bins free
      (Function.update map address (some value.counter)) := by
  have sameHolds : ∀ (cell : Nat) (target : Address),
      ((table.setEntry entry value).entries cell).holds target =
        (table.entries cell).holds target := by
    intro cell target
    show (Function.update table.entries entry value cell).holds target = _
    by_cases equal : cell = entry
    · rw [equal, Function.update_self]
      exact Entry.holds_congr key domain target
    · rw [Function.update_of_ne equal]
  refine ⟨represents.toShape.setEntry entry value, ?_, ?_, ?_, ?_⟩
  · simpa only [sameHolds] using represents.placed
  · simpa only [sameHolds] using represents.unique
  · intro target cell cellMember cellHolds
    rw [sameHolds] at cellHolds
    show Function.update map address _ target =
      some (Function.update table.entries entry value cell).counter
    by_cases equal : cell = entry
    · subst equal
      obtain rfl := Entry.holds_unique holds cellHolds
      rw [Function.update_self, Function.update_self]
    · have different : target ≠ address := by
        intro equal
        subst equal
        exact equal (represents.unique target cell cellMember entry member cellHolds holds)
      rw [Function.update_of_ne different, Function.update_of_ne equal]
      exact represents.present target cell cellMember cellHolds
  · intro target none
    have different : target ≠ address := by
      intro equal
      subst equal
      have missing := none entry member
      rw [sameHolds, holds] at missing
      cases missing
    rw [Function.update_of_ne different]
    exact represents.absent target fun cell cellMember => by
      rw [← sameHolds]
      exact none cell cellMember

/-- An address that the map does not have, has no entry. -/
theorem not_holds (represents : Represents table bins free map) (missing : map address = none)
    {cell : Nat} (member : cell ∈ bins address.hashIp) :
    (table.entries cell).holds address = false := by
  cases holds : (table.entries cell).holds address with
  | false => rfl
  | true =>
      rw [represents.present address cell member holds] at missing
      cases missing

theorem linkNew_entry (table : Table) (address : Address) (entry : Nat) (accessTime : Int) :
    (table.linkNew address entry accessTime).entries entry =
      ⟨address.storeKey (table.entries entry).key, address.domain, accessTime, 1⟩ :=
  Function.update_self _ _ _

/-- The new entry is stored for the address. -/
theorem linkNew_holds (table : Table) (address : Address) (entry : Nat) (accessTime : Int) :
    ((table.linkNew address entry accessTime).entries entry).holds address = true := by
  rw [linkNew_entry]
  exact Entry.holds_iff.mpr ⟨rfl, address.matchesKey_storeKey _⟩

/-- The entries of the bins stay as they are. -/
theorem linkNew_old (represents : Represents table bins (entry :: free) map) (address : Address)
    (accessTime : Int) {index : BitVec 16} {cell : Nat} (member : cell ∈ bins index) :
    (table.linkNew address entry accessTime).entries cell = table.entries cell := by
  have different : cell ≠ entry := by
    intro equal
    subst equal
    exact represents.used index cell member List.mem_cons_self
  exact Function.update_of_ne different _ _

/-- An entry of a bin is the new one, in the bin of the address, or an old one. -/
theorem mem_linkNew {index : BitVec 16} {cell : Nat} :
    cell ∈ Function.update bins address.hashIp (entry :: bins address.hashIp) index ↔
      (cell = entry ∧ index = address.hashIp) ∨ cell ∈ bins index := by
  rw [Shape.mem_update, List.mem_cons]
  by_cases same : index = address.hashIp
  · simp [same]
  · simp [same]

/-- A new entry for an address that has none. -/
theorem linkNew (represents : Represents table bins (entry :: free) map)
    (missing : map address = none) (accessTime : Int) :
    Represents (table.linkNew address entry accessTime)
      (Function.update bins address.hashIp (entry :: bins address.hashIp)) free
      (Function.update map address (some ⟨1, accessTime⟩)) := by
  have newHolds := linkNew_holds table address entry accessTime
  -- no old entry is stored for the address, and no other address has the new one
  have notOld : ∀ cell ∈ bins address.hashIp,
      ((table.linkNew address entry accessTime).entries cell).holds address ≠ true := by
    intro cell old holds
    rw [represents.linkNew_old address accessTime old, represents.not_holds missing old] at holds
    cases holds
  refine ⟨represents.toShape.linkNew address accessTime, ?_, ?_, ?_, ?_⟩
  · intro index cell member
    rcases mem_linkNew.mp member with ⟨rfl, rfl⟩ | old
    · exact ⟨address, rfl, newHolds⟩
    · rw [represents.linkNew_old address accessTime old]
      exact represents.placed index cell old
  · intro target cell member other otherMember cellHolds otherHolds
    rcases mem_linkNew.mp member with ⟨rfl, _⟩ | old
    · rcases mem_linkNew.mp otherMember with ⟨rfl, _⟩ | otherOld
      · rfl
      · obtain rfl := Entry.holds_unique newHolds cellHolds
        exact absurd otherHolds (notOld other otherOld)
    · rcases mem_linkNew.mp otherMember with ⟨rfl, _⟩ | otherOld
      · obtain rfl := Entry.holds_unique newHolds otherHolds
        exact absurd cellHolds (notOld cell old)
      · rw [represents.linkNew_old address accessTime old] at cellHolds
        rw [represents.linkNew_old address accessTime otherOld] at otherHolds
        exact represents.unique target cell old other otherOld cellHolds otherHolds
  · intro target cell member cellHolds
    rcases mem_linkNew.mp member with ⟨rfl, _⟩ | old
    · obtain rfl := Entry.holds_unique newHolds cellHolds
      rw [Function.update_self, linkNew_entry]
      rfl
    · have different : target ≠ address := by
        intro equal
        subst equal
        exact notOld cell old cellHolds
      rw [represents.linkNew_old address accessTime old] at cellHolds ⊢
      rw [Function.update_of_ne different]
      exact represents.present target cell old cellHolds
  · intro target none
    have different : target ≠ address := by
      intro equal
      subst equal
      have notThere := none entry (mem_linkNew.mpr (Or.inl ⟨rfl, rfl⟩))
      rw [newHolds] at notThere
      cases notThere
    rw [Function.update_of_ne different]
    apply represents.absent target
    intro cell old
    rw [← represents.linkNew_old address accessTime old]
    exact none cell (mem_linkNew.mpr (Or.inr old))

/-- The entry of an address leaves its bin. -/
theorem remove (represents : Represents table bins free map) {left right : List Nat}
    (split : bins address.hashIp = left ++ entry :: right)
    (holds : (table.entries entry).holds address = true) :
    Represents ((table.unlink address left.getLast? entry).recycle entry)
      (Function.update bins address.hashIp (left ++ right)) (entry :: free)
      (Function.update map address none) := by
  have entries : ((table.unlink address left.getLast? entry).recycle entry).entries =
      table.entries := by
    cases left.getLast? <;> rfl
  have member : entry ∈ bins address.hashIp := mem_middle split
  refine ⟨represents.toShape.remove split, ?_, ?_, ?_, ?_⟩ <;> rw [entries]
  · intro index cell inBin
    exact represents.placed index cell ((represents.mem_unlink split).mp inBin).1
  · intro target cell inBin other otherInBin
    exact represents.unique target cell ((represents.mem_unlink split).mp inBin).1 other
      ((represents.mem_unlink split).mp otherInBin).1
  · intro target cell inBin cellHolds
    have old := (represents.mem_unlink split).mp inBin
    have different : target ≠ address := by
      intro equal
      subst equal
      exact old.2 (represents.unique target cell old.1 entry member cellHolds holds)
    rw [Function.update_of_ne different]
    exact represents.present target cell old.1 cellHolds
  · intro target missing
    by_cases same : target = address
    · rw [same, Function.update_self]
    · rw [Function.update_of_ne same]
      apply represents.absent target
      intro cell old
      by_cases equal : cell = entry
      · subst equal
        cases cellHolds : (table.entries cell).holds target with
        | false => rfl
        | true => exact absurd (Entry.holds_unique cellHolds holds) same
      · exact missing cell ((represents.mem_unlink split).mpr ⟨old, equal⟩)

end Represents

/-! ### Single calls -/

/-- The entry that a lookup of the address finds, if any, was stored by the
family of the address. -/
def Table.OwnFamily (table : Table) (address : Address) : Prop :=
  ∀ prev entry, table.find address = some (some (prev, entry)) →
    (table.entries entry).domain = address.domain

instance (table : Table) (address : Address) : Decidable (table.OwnFamily address) :=
  match found : table.find address with
  | some (some (_, entry)) =>
      decidable_of_iff ((table.entries entry).domain = address.domain)
        ⟨fun same prev entry result => by
          cases found.symm.trans result
          exact same, fun own => own _ _ found⟩
  | some none => isTrue fun _ _ result => by cases found.symm.trans result
  | none => isTrue fun _ _ result => by cases found.symm.trans result

namespace Represents

variable {table : Table} {bins : BitVec 16 → List Nat} {free : List Nat} {map : AddressMap}
  {address : Address}

/-- A lookup finds what the map has. -/
theorem find_cases (represents : Represents table bins free map) (own : table.OwnFamily address) :
    (map address = none ∧ table.find address = some none) ∨
    ∃ left entry right, bins address.hashIp = left ++ entry :: right ∧
      (table.entries entry).holds address = true ∧
      map address = some (table.entries entry).counter ∧
      table.find address = some (some (left.getLast?, entry)) := by
  rcases represents.toShape.find_cases address with
    ⟨noMatch, found⟩ | ⟨left, entry, right, split, _, isMatch, found⟩
  · have none : ∀ cell ∈ bins address.hashIp, (table.entries cell).holds address = false := by
      intro cell member
      cases cellHolds : (table.entries cell).holds address with
      | false => rfl
      | true =>
          have different := noMatch cell member
          rw [Table.matchesEntry, (Entry.holds_iff.mp cellHolds).2] at different
          cases different
    exact Or.inl ⟨represents.absent address none, found⟩
  · have holds : (table.entries entry).holds address = true :=
      Entry.holds_iff.mpr ⟨own _ _ found, isMatch⟩
    have member : entry ∈ bins address.hashIp := mem_middle split
    exact Or.inr ⟨left, entry, right, split, holds, represents.present address entry member holds,
      found⟩

/-- There is always a free entry to take. -/
theorem stocked (represents : Represents table bins free map) :
    ∃ entry rest, Represents (if table.freeListSize = 0 then table.refill else table) bins
      (entry :: rest) map := by
  cases free with
  | nil =>
      have size : table.freeListSize = 0 := represents.size
      rw [if_pos size]
      exact ⟨_, _, represents.refill⟩
  | cons entry rest =>
      have size : table.freeListSize ≠ 0 := by
        rw [represents.size]
        simp
      rw [if_neg size]
      exact ⟨entry, rest, represents⟩

end Represents

namespace Table

variable {table : Table} {address : Address} {prev : Option Nat} {entry : Nat}

theorem insert_present (found : table.find address = some (some (prev, entry)))
    (accessTime : Int) :
    table.serve .succeed (.insert address accessTime) =
      some (intOfCount (table.countAccess (table.entries entry) accessTime).count,
        table.setEntry entry (table.countAccess (table.entries entry) accessTime)) := by
  simp [serve, ipHashtableInsert, found, Answers.succeed]

theorem insert_missing (found : table.find address = some none)
    (taken : (if table.freeListSize = 0 then table.refill else table).freeList = some entry)
    (accessTime : Int) :
    table.serve .succeed (.insert address accessTime) =
      some (1, (if table.freeListSize = 0 then table.refill else table).linkNew address entry
        accessTime) := by
  simp [serve, ipHashtableInsert, found, Answers.succeed, taken]

theorem remove_present (found : table.find address = some (some (prev, entry))) :
    table.serve .succeed (.remove address) =
      some (intOfCount (table.entries entry).count,
        (table.unlink address prev entry).recycle entry) := by
  simp [serve, ipHashtableRemove, found, Answers.succeed]

theorem remove_missing (found : table.find address = some none) :
    table.serve .succeed (.remove address) = some (ipHtableNoexist, table) := by
  simp [serve, ipHashtableRemove, found, Answers.succeed]

theorem set_present (found : table.find address = some (some (prev, entry))) (value : UInt32)
    (accessTime : Int) :
    table.serve .succeed (.set address value accessTime) =
      some (intOfCount (table.entries entry).count, table.setEntry entry
        { table.entries entry with count := value, lastAccess := accessTime }) := by
  simp [serve, ipHashtableSet, found, Answers.succeed]

theorem set_missing (found : table.find address = some none) (value : UInt32) (accessTime : Int) :
    table.serve .succeed (.set address value accessTime) = some (ipHtableNoexist, table) := by
  simp [serve, ipHashtableSet, found, Answers.succeed]

theorem stock_searchTime (table : Table) (count : Nat) :
    (table.stock count).searchTime = table.searchTime :=
  table.linkFree_searchTime _ count

theorem refill_searchTime (table : Table) : table.refill.searchTime = table.searchTime :=
  stock_searchTime _ _

theorem unlink_searchTime (table : Table) (address : Address) (prev : Option Nat) (entry : Nat) :
    (table.unlink address prev entry).searchTime = table.searchTime := by
  cases prev <;> rfl

end Table

/-- A request acts on the table as on the map. -/
theorem Represents.serve {table : Table} {bins : BitVec 16 → List Nat} {free : List Nat}
    {map : AddressMap} (represents : Represents table bins free map) (request : Request)
    (own : table.OwnFamily request.address) : ∃ next nextBins nextFree,
      table.serve .succeed request = some ((map.serve table.searchTime request).1, next) ∧
      Represents next nextBins nextFree (map.serve table.searchTime request).2 ∧
      next.searchTime = table.searchTime := by
  rcases represents.find_cases own with ⟨missing, found⟩ |
    ⟨left, entry, right, split, holds, counter, found⟩
  · cases request with
    | insert address accessTime =>
        obtain ⟨entry, rest, stocked⟩ := represents.stocked
        have served : map.serve table.searchTime (.insert address accessTime) =
            (1, Function.update map address (some ⟨1, accessTime⟩)) := by
          simp only [AddressMap.serve, show map address = none from missing]
        rw [served]
        refine ⟨_, _, _, Table.insert_missing found stocked.freeChain.1 accessTime,
          stocked.linkNew missing accessTime, ?_⟩
        show (if table.freeListSize = 0 then table.refill else table).searchTime = _
        split
        · exact table.refill_searchTime
        · rfl
    | remove address =>
        have served : map.serve table.searchTime (.remove address) = (ipHtableNoexist, map) := by
          simp only [AddressMap.serve, show map address = none from missing]
        rw [served]
        exact ⟨table, bins, free, Table.remove_missing found, represents, rfl⟩
    | set address value accessTime =>
        have served : map.serve table.searchTime (.set address value accessTime) =
            (ipHtableNoexist, map) := by
          simp only [AddressMap.serve, show map address = none from missing]
        rw [served]
        exact ⟨table, bins, free, Table.set_missing found value accessTime, represents, rfl⟩
  · have member : entry ∈ bins request.address.hashIp := mem_middle split
    cases request with
    | insert address accessTime =>
        have served : map.serve table.searchTime (.insert address accessTime) =
            (intOfCount (table.countAccess (table.entries entry) accessTime).count,
              Function.update map address
                (some (table.countAccess (table.entries entry) accessTime).counter)) := by
          simp only [AddressMap.serve, Table.countAccess,
            show map address = some _ from counter, Entry.counter]
          split <;> rfl
        rw [served]
        refine ⟨_, _, _, Table.insert_present found accessTime,
          represents.setEntry member holds ?_ ?_, rfl⟩
        · unfold Table.countAccess
          split <;> rfl
        · unfold Table.countAccess
          split <;> rfl
    | remove address =>
        have served : map.serve table.searchTime (.remove address) =
            (intOfCount (table.entries entry).count, Function.update map address none) := by
          simp only [AddressMap.serve, show map address = some _ from counter, Entry.counter]
        rw [served]
        exact ⟨_, _, _, Table.remove_present found, represents.remove split holds,
          table.unlink_searchTime _ _ _⟩
    | set address value accessTime =>
        have served : map.serve table.searchTime (.set address value accessTime) =
            (intOfCount (table.entries entry).count,
              Function.update map address (some ⟨value, accessTime⟩)) := by
          simp only [AddressMap.serve, show map address = some _ from counter, Entry.counter]
        rw [served]
        exact ⟨_, _, _, Table.set_present found value accessTime,
          represents.setEntry member holds rfl rfl, rfl⟩

/-! ### Histories -/

namespace Table

/-- The table after a request that returns. -/
def step (table : Table) (request : Request) : Option Table :=
  (table.serve .succeed request).map Prod.snd

/-- A history in which every lookup finds entries of its own family only. -/
def OwnFamilyRun (table : Table) (requests : List Request) (last : Table) : Prop :=
  Run step (fun table request => table.OwnFamily request.address) table requests last

/-- The counter that a lookup of the address finds. -/
def contents (table : Table) (address : Address) : Option Counter :=
  match table.find address with
  | some (some (_, entry)) => some (table.entries entry).counter
  | _ => none

theorem setEntry_entries (table : Table) (entry : Nat) (value : Entry) :
    (table.setEntry entry value).entries = Function.update table.entries entry value := rfl

/-- A lookup reads the keys alone. -/
theorem search_setEntry (table : Table) (address : Address) {entry : Nat} {value : Entry}
    (key : value.key = (table.entries entry).key) (fuel : Nat) (prev cursor : Option Nat) :
    (table.setEntry entry value).search address fuel prev cursor =
      table.search address fuel prev cursor := by
  have keys (cell : Nat) : ((table.setEntry entry value).entries cell).key =
      (table.entries cell).key := by
    by_cases same : cell = entry
    · rw [same, setEntry_entries, Function.update_self, key]
    · rw [setEntry_entries, Function.update_of_ne same]
  induction fuel generalizing prev cursor with
  | zero => cases cursor <;> rfl
  | succ fuel inductionHypothesis =>
      cases cursor with
      | none => rfl
      | some cell =>
          unfold search
          rw [keys, inductionHypothesis]
          rfl

theorem countAccess_key (table : Table) (entry : Entry) (accessTime : Int) :
    (table.countAccess entry accessTime).key = entry.key := by
  unfold countAccess
  split <;> rfl

/-- The counter of an entry that was counted. -/
theorem contents_setEntry {table : Table} {address : Address} {prev : Option Nat} {entry : Nat}
    {value : Entry} (found : table.find address = some (some (prev, entry)))
    (key : value.key = (table.entries entry).key) :
    (table.setEntry entry value).contents address = some value.counter := by
  have same : (table.setEntry entry value).find address = some (some (prev, entry)) :=
    (search_setEntry table address key _ _ _).trans found
  unfold contents
  rw [same]
  dsimp only
  rw [setEntry_entries, Function.update_self]

/-- The counter of an address that was new, if the memory has room for it. -/
theorem contents_linkNew {table : Table} {address : Address} {entry : Nat} {accessTime : Int}
    {counter : Counter}
    (found : (table.linkNew address entry accessTime).contents address = some counter) :
    counter.count = 1 := by
  have first : (table.linkNew address entry accessTime).bins address.hashIp = some entry :=
    Function.update_self ..
  have stored : (table.linkNew address entry accessTime).entries entry =
      ⟨address.storeKey (table.entries entry).key, address.domain, accessTime, 1⟩ :=
    Function.update_self ..
  unfold contents find at found
  rw [first] at found
  cases room : (table.linkNew address entry accessTime).allocated with
  | zero =>
      rw [room] at found
      cases found
  | succ fuel =>
      rw [room] at found
      unfold search at found
      rw [stored, address.matchesKey_storeKey, if_pos rfl] at found
      dsimp only at found
      rw [stored] at found
      cases found
      rfl

/-- After `ip_hashtable_insert` a lookup finds the counter it has returned. -/
theorem contents_insert {table next : Table} {answers : Answers} {key : BitVec 128}
    {domain accessTime result : Int} {address : Address} {counter : Counter}
    (argument : Address.ofArguments (some key) domain = some address)
    (inserted : table.ipHashtableInsert answers (some key) domain accessTime =
      some (result, next)) (positive : 1 ≤ result)
    (found : next.contents address = some counter) : intOfCount counter.count = result := by
  unfold ipHashtableInsert at inserted
  rw [argument] at inserted
  dsimp only at inserted
  split at inserted
  case isTrue =>
    cases inserted
    cases positive
  case isFalse =>
    obtain ⟨outcome, looked, taken⟩ := Option.bind_eq_some_iff.mp inserted
    cases outcome with
    | some place =>
        obtain ⟨prev, entry⟩ := place
        cases taken
        rw [contents_setEntry looked (countAccess_key _ _ _)] at found
        cases found
        rfl
    | none =>
        dsimp only at taken
        split at taken
        case isTrue =>
          cases taken
          cases positive
        case isFalse =>
          split at taken
          case isTrue =>
            cases taken
            cases positive
          case isFalse =>
            obtain ⟨entry, _, linked⟩ := Option.bind_eq_some_iff.mp taken
            cases linked
            rw [contents_linkNew found]
            rfl

theorem ipHashtableInit_searchTime (memory : Nat → Entry) (searchTime : Int) :
    (ipHashtableInit memory searchTime).searchTime = searchTime :=
  stock_searchTime _ nbins

end Table

namespace Represents

variable {table : Table} {bins : BitVec 16 → List Nat} {free : List Nat} {map : AddressMap}

theorem contents (represents : Represents table bins free map) {address : Address}
    (own : table.OwnFamily address) : table.contents address = map address := by
  unfold Table.contents
  rcases represents.find_cases own with ⟨missing, found⟩ | ⟨_, _, _, _, _, counter, found⟩
  · rw [found, missing]
  · rw [found, counter]

/-- Within one family a lookup finds entries of its own family. -/
theorem ownFamily (represents : Represents table bins free map) {domain : Int}
    (family : map.InFamily domain) {address : Address} (same : address.domain = domain) :
    table.OwnFamily address := by
  intro prev entry result
  rcases represents.toShape.find_cases address with
    ⟨_, found⟩ | ⟨left, first, right, split, _, _, found⟩
  · rw [found] at result
    cases result
  · rw [found] at result
    cases result
    have member : entry ∈ bins address.hashIp := mem_middle split
    -- the entry counts for some address of the map, and the map has one family
    obtain ⟨stored, placed, holds⟩ := represents.placed _ entry member
    have present := represents.present stored entry (placed ▸ member) holds
    have storedFamily := family stored (by rw [present]; exact Option.some_ne_none _)
    rw [(Entry.holds_iff.mp holds).1, storedFamily, same]

/-- A history of lookups within their families gives the results of the map. -/
theorem run (represents : Represents table bins free map) {requests : List Request} {last : Table}
    (history : table.OwnFamilyRun requests last) :
    table.run requests = some ((map.run table.searchTime requests).1, last) ∧
      ∃ lastBins lastFree,
        Represents last lastBins lastFree (map.run table.searchTime requests).2 := by
  induction history generalizing bins free map with
  | nil table => exact ⟨rfl, bins, free, represents⟩
  | @cons table next last request rest own taken _ inductionHypothesis =>
      obtain ⟨next', nextBins, nextFree, served, kept, time⟩ := represents.serve request own
      have same : next' = next := by
        rw [Table.step, served] at taken
        exact Option.some.inj taken
      subst same
      obtain ⟨results, represented⟩ := inductionHypothesis kept
      rw [time] at results represented
      refine ⟨?_, represented⟩
      rw [Table.run, served]
      simp only [Option.bind_eq_bind, Option.bind_some]
      rw [results]
      rfl

/-- A history of one family. -/
theorem exists_ownFamilyRun (represents : Represents table bins free map) {domain : Int}
    (family : map.InFamily domain) {requests : List Request}
    (same : ∀ request ∈ requests, request.address.domain = domain) :
    ∃ last, table.OwnFamilyRun requests last := by
  induction requests generalizing table bins free map with
  | nil => exact ⟨table, .nil table⟩
  | cons request rest inductionHypothesis =>
      have first := same request List.mem_cons_self
      have own := represents.ownFamily family first
      obtain ⟨next, nextBins, nextFree, served, kept, _⟩ := represents.serve request own
      obtain ⟨last, later⟩ := inductionHypothesis kept (family.serve first)
        fun other member => same other (List.mem_cons_of_mem _ member)
      have taken : table.step request = some next := by
        rw [Table.step, served]
        rfl
      exact ⟨last, .cons own taken later⟩

end Represents

namespace AddressMap

theorem InFamily.run {domain searchTime : Int} {map : AddressMap} (family : map.InFamily domain)
    {requests : List Request} (same : ∀ request ∈ requests, request.address.domain = domain) :
    (map.run searchTime requests).2.InFamily domain := by
  induction requests generalizing map with
  | nil => exact family
  | cons request rest inductionHypothesis =>
      exact inductionHypothesis (family.serve (same request List.mem_cons_self))
        fun other member => same other (List.mem_cons_of_mem _ member)

end AddressMap

/-- Every history of one address family has the results of the map, and ends
with the counters of the map. -/
theorem ipHashtable_refines_map (memory : Nat → Entry) (searchTime domain : Int)
    {requests : List Request} (family : ∀ request ∈ requests, request.address.domain = domain) :
    ∃ last, (Table.ipHashtableInit memory searchTime).run requests =
        some ((AddressMap.empty.run searchTime requests).1, last) ∧
      ∀ address : Address, address.domain = domain →
        last.contents address = (AddressMap.empty.run searchTime requests).2 address := by
  have represents := Represents.init memory searchTime
  have nothing : AddressMap.empty.InFamily domain := fun _ present => absurd rfl present
  obtain ⟨last, history⟩ := represents.exists_ownFamilyRun nothing family
  obtain ⟨results, lastBins, lastFree, represented⟩ := represents.run history
  rw [Table.ipHashtableInit_searchTime] at results represented
  refine ⟨last, results, fun address same => ?_⟩
  exact represented.contents (represented.ownFamily (nothing.run family) same)

/-- A client is counted, returns after the search time, and is removed. -/
def oneClient : List Request :=
  [.insert (.v4 0x0101A8C0) 0, .insert (.v4 0x0101A8C0) 60, .insert (.v4 0x0201A8C0) 61,
    .insert (.v4 0x0101A8C0) 61, .set (.v4 0x0101A8C0) 10 61, .remove (.v4 0x0101A8C0),
    .remove (.v4 0x0101A8C0)]

theorem ipHashtable_refines_map_oneClient :
    ∃ last, (Table.ipHashtableInit (fun _ => .zero) 60).run oneClient =
      some ([1, 2, 1, 1, 1, 10, ipHtableNoexist], last) := by
  have family : ∀ request ∈ oneClient, request.address.domain = afInet := by decide
  obtain ⟨last, results, _⟩ := ipHashtable_refines_map (fun _ => .zero) 60 afInet family
  have expected : (AddressMap.empty.run 60 oneClient).1 = [1, 2, 1, 1, 1, 10, ipHtableNoexist] := by
    decide
  rw [expected] at results
  exact ⟨last, results⟩

end FipsIpc.IpHashtable
