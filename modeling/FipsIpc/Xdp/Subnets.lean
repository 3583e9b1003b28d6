import FipsIpc.Lib.Run
import Mathlib.Algebra.Group.Nat.Defs
import Mathlib.Data.List.Infix
import Mathlib.Logic.Function.Basic

/-!
Contract: blocking IPv6 subnets from user space, `cmdline_prog`.

Owns: the map calls of user space, `blacklist_subnet_modify`, what it does to
the entries of one prefix, and how subnet cache and subnet blacklist agree over
every sequence of calls.

A map call fails when its flag does not fit the presence of the key.  Updates may
also be refused for lack of room or memory (`blacklistv6subnet` is not
preallocated, and both maps are bounded); a refused update changes nothing.  The
cached counts are `__u64` values and wrap around.

The blacklist holds counters of the kernel, one for each CPU, which start at zero.
Looking them up writes one `__u64` for each possible CPU into the single
`value_next`, so the machine has one; with more, a DEL that empties a prefix
overruns the stack.  `key6` is an address that `inet_pton` could read; for any
other text the function prints a message and goes on with an uninitialised
`key6`.

Does not own: parsing the address, messages, and the kernel's use of the maps.
-/

set_option autoImplicit false

namespace FipsIpc.Xdp

open FipsIpc.Lib

/-! ### Maps -/

/-- A map of the kernel as user space sees it. -/
abbrev BpfMap (Key Value : Type) : Type := Key → Option Value

inductive UpdateFlag where
  | noexist
  | exist
deriving DecidableEq, Repr

section MapCalls

variable {Key Value : Type} [DecidableEq Key]

def bpfMapUpdateElem (map : BpfMap Key Value) (key : Key) (value : Value) (flag : UpdateFlag) :
    Int × BpfMap Key Value :=
  match flag, map key with
  | .noexist, some _ => (-1, map)
  | .exist, none => (-1, map)
  | _, _ => (0, Function.update map key (some value))

def bpfMapDeleteElem (map : BpfMap Key Value) (key : Key) : Int × BpfMap Key Value :=
  match map key with
  | none => (-1, map)
  | some _ => (0, Function.update map key none)

/-- An update for which the kernel may have no room. -/
def bpfMapTryUpdateElem (room : Bool) (map : BpfMap Key Value) (key : Key) (value : Value)
    (flag : UpdateFlag) : Int × BpfMap Key Value :=
  match room with
  | true => bpfMapUpdateElem map key value flag
  | false => (-1, map)

variable {map : BpfMap Key Value} {key : Key} {held : Value}

theorem update_noexist_absent (value : Value) (absent : map key = none) :
    bpfMapUpdateElem map key value .noexist = (0, Function.update map key (some value)) := by
  simp only [bpfMapUpdateElem, absent]

theorem update_noexist_present (value : Value) (present : map key = some held) :
    bpfMapUpdateElem map key value .noexist = (-1, map) := by
  simp only [bpfMapUpdateElem, present]

theorem update_exist_present (value : Value) (present : map key = some held) :
    bpfMapUpdateElem map key value .exist = (0, Function.update map key (some value)) := by
  simp only [bpfMapUpdateElem, present]

theorem delete_present (present : map key = some held) :
    bpfMapDeleteElem map key = (0, Function.update map key none) := by
  simp only [bpfMapDeleteElem, present]

variable (map key) (value : Value) (flag : UpdateFlag)

@[simp]
theorem bpfMapTryUpdateElem_true :
    bpfMapTryUpdateElem true map key value flag = bpfMapUpdateElem map key value flag := rfl

@[simp]
theorem bpfMapTryUpdateElem_false : bpfMapTryUpdateElem false map key value flag = (-1, map) := rfl

end MapCalls

/-! ### `blacklist_subnet_modify` -/

def exitOk : Int := 0
def exitFailOption : Int := 2
def exitFailMapKey : Int := 21

def subnetThreshold : UInt64 := 3

inductive Action where
  | add
  | del
  | other
deriving DecidableEq, Repr

/-- The subnet cache and the subnet blacklist. -/
structure SubnetMaps where
  cache : BpfMap (BitVec 64) UInt64
  blacklist : BpfMap (BitVec 64) UInt64

def SubnetMaps.empty : SubnetMaps := ⟨fun _ => none, fun _ => none⟩

/-- `(__u64) key6`: on a little-endian machine the first eight bytes. -/
def subnetKey (key6 : BitVec 128) : BitVec 64 := key6.setWidth 64

/-- Whether the kernel has the room for an update of either map. -/
structure Room where
  cache : Bool
  blacklist : Bool
deriving DecidableEq, Repr

def Room.ample : Room := ⟨true, true⟩

/-- `blacklist_subnet_modify` on a kernel with this room. -/
def Room.blacklistSubnetModify (room : Room) (maps : SubnetMaps) (key6 : BitVec 128)
    (action : Action) : Int × SubnetMaps :=
  let key := subnetKey key6
  match action with
  | .add =>
      match maps.cache key with
      | none =>
          let updated := bpfMapTryUpdateElem room.cache maps.cache key 1 .noexist
          if updated.1 = -1 then (exitFailMapKey, { maps with cache := updated.2 })
          else (exitOk, { maps with cache := updated.2 })
      | some valuePrev =>
          let valueNext := valuePrev + 1
          let updated := bpfMapTryUpdateElem room.cache maps.cache key valueNext .exist
          let maps := { maps with cache := updated.2 }
          if updated.1 = -1 then (exitFailMapKey, maps)
          else if valueNext = subnetThreshold then
            let blocked := bpfMapTryUpdateElem room.blacklist maps.blacklist key 0 .noexist
            let maps := { maps with blacklist := blocked.2 }
            if blocked.1 = -1 then (exitFailMapKey, maps) else (exitOk, maps)
          else (exitOk, maps)
  | .del =>
      match maps.cache key with
      | none => (exitFailMapKey, maps)
      | some valuePrev =>
          let valueNext := valuePrev - 1
          if valueNext = 0 then
            let deleted := bpfMapDeleteElem maps.cache key
            let maps := { maps with cache := deleted.2 }
            if deleted.1 = -1 then (exitFailMapKey, maps)
            else
              match maps.blacklist key with
              | none => (exitOk, maps)
              | some _ =>
                  let unblocked := bpfMapDeleteElem maps.blacklist key
                  let maps := { maps with blacklist := unblocked.2 }
                  if unblocked.1 = -1 then (exitFailMapKey, maps) else (exitOk, maps)
          else
            let updated := bpfMapTryUpdateElem room.cache maps.cache key valueNext .exist
            let maps := { maps with cache := updated.2 }
            if updated.1 = -1 then (exitFailMapKey, maps) else (exitOk, maps)
  | .other => (exitFailOption, maps)

/-- The call when there is room for every update. -/
def blacklistSubnetModify (maps : SubnetMaps) (key6 : BitVec 128) (action : Action) :
    Int × SubnetMaps :=
  Room.ample.blacklistSubnetModify maps key6 action

/-! ### One prefix -/

/-- The cached count of a prefix, and whether it is in the blacklist. -/
structure Entry where
  count : Option UInt64
  blocked : Bool
deriving DecidableEq, Repr

def SubnetMaps.entry (maps : SubnetMaps) (key : BitVec 64) : Entry :=
  ⟨maps.cache key, (maps.blacklist key).isSome⟩

/-- What a call does to the entry of its prefix. -/
def Entry.modify (entry : Entry) : Action → Entry
  | .add =>
      match entry.count with
      | none => { entry with count := some 1 }
      | some count =>
          ⟨some (count + 1), entry.blocked || decide (count + 1 = subnetThreshold)⟩
  | .del =>
      match entry.count with
      | none => entry
      | some count =>
          if count - 1 = 0 then ⟨none, false⟩ else { entry with count := some (count - 1) }
  | .other => entry

theorem success_ne : ¬(0 : Int) = -1 := by decide

/-- The maps after a call, in terms of the entry of its prefix. -/
theorem modify_maps (maps : SubnetMaps) (key6 : BitVec 128) (action : Action) :
    (blacklistSubnetModify maps key6 action).2.cache =
        Function.update maps.cache (subnetKey key6)
          ((maps.entry (subnetKey key6)).modify action).count ∧
      ((blacklistSubnetModify maps key6 action).2.blacklist (subnetKey key6)).isSome =
        ((maps.entry (subnetKey key6)).modify action).blocked ∧
      ∀ key, key ≠ subnetKey key6 →
        (blacklistSubnetModify maps key6 action).2.blacklist key = maps.blacklist key := by
  unfold blacklistSubnetModify Room.blacklistSubnetModify Room.ample
  simp only [bpfMapTryUpdateElem_true]
  generalize subnetKey key6 = key
  cases action with
  | add =>
      dsimp only
      cases cached : maps.cache key with
      | none =>
          dsimp only
          simp only [update_noexist_absent 1 cached]
          simp [Entry.modify, SubnetMaps.entry, cached]
      | some valuePrev =>
          dsimp only
          simp only [update_exist_present (valuePrev + 1) cached, if_neg success_ne]
          by_cases reaches : valuePrev + 1 = subnetThreshold
          · rw [if_pos reaches]
            cases blocked : maps.blacklist key with
            | none =>
                rw [update_noexist_absent 0 blocked]
                simp +contextual [Entry.modify, SubnetMaps.entry, cached, reaches,
                  Function.update_of_ne]
            | some counter =>
                rw [update_noexist_present 0 blocked]
                dsimp only
                rw [if_pos rfl]
                simp [Entry.modify, SubnetMaps.entry, cached, blocked]
          · rw [if_neg reaches]
            simp [Entry.modify, SubnetMaps.entry, cached, reaches]
  | del =>
      dsimp only
      cases cached : maps.cache key with
      | none =>
          have same : Function.update maps.cache key none = maps.cache := by
            rw [← cached, Function.update_eq_self]
          simp [Entry.modify, SubnetMaps.entry, cached, same]
      | some valuePrev =>
          dsimp only
          by_cases empties : valuePrev - 1 = 0
          · rw [if_pos empties, delete_present cached]
            dsimp only
            rw [if_neg success_ne]
            cases blocked : maps.blacklist key with
            | none =>
                simp [Entry.modify, SubnetMaps.entry, cached, empties, blocked]
            | some counter =>
                dsimp only
                rw [delete_present blocked]
                simp +contextual [Entry.modify, SubnetMaps.entry, cached, empties,
                  Function.update_of_ne]
          · simp only [if_neg empties, update_exist_present (valuePrev - 1) cached]
            simp [Entry.modify, SubnetMaps.entry, cached, empties]
  | other =>
      simp [Entry.modify, SubnetMaps.entry, Function.update_eq_self]

/-- A call changes the entry of its prefix and no other. -/
theorem modify_entry (maps : SubnetMaps) (key6 : BitVec 128) (action : Action)
    (key : BitVec 64) :
    (blacklistSubnetModify maps key6 action).2.entry key =
      if subnetKey key6 = key then (maps.entry key).modify action else maps.entry key := by
  obtain ⟨cache, blocked, others⟩ := modify_maps maps key6 action
  by_cases own : subnetKey key6 = key
  · subst own
    rw [if_pos rfl]
    unfold SubnetMaps.entry at blocked ⊢
    rw [cache, blocked, Function.update_self]
    rfl
  · rw [if_neg own]
    unfold SubnetMaps.entry
    rw [cache, others key (Ne.symm own), Function.update_of_ne (Ne.symm own)]

/-! ### Counts -/

/-- What holds of the entry of every prefix. -/
structure Entry.Sound (entry : Entry) : Prop where
  positive : ∀ count, entry.count = some count → 1 ≤ count.toNat
  blocks : ∀ count, entry.count = some count → subnetThreshold ≤ count → entry.blocked = true
  cached : entry.blocked = true → entry.count ≠ none

/-- The number of calls that the entry stands for. -/
def Entry.size (entry : Entry) : Nat := (entry.count.map UInt64.toNat).getD 0

section Counts

variable {count : UInt64}

theorem toNat_add_one (room : count.toNat + 1 < 2 ^ 64) : (count + 1).toNat = count.toNat + 1 := by
  rw [UInt64.toNat_add]
  exact Nat.mod_eq_of_lt room

theorem toNat_sub_one (positive : 1 ≤ count.toNat) : (count - 1).toNat = count.toNat - 1 :=
  UInt64.toNat_sub_of_le count 1 positive

theorem sub_one_eq_zero_iff (positive : 1 ≤ count.toNat) : count - 1 = 0 ↔ count.toNat = 1 := by
  rw [← UInt64.toNat_inj, toNat_sub_one positive]
  have zero : (0 : UInt64).toNat = 0 := rfl
  omega

theorem threshold_le_iff : subnetThreshold ≤ count ↔ 3 ≤ count.toNat := UInt64.le_iff_toNat_le

theorem eq_threshold_iff : count = subnetThreshold ↔ count.toNat = 3 := UInt64.toNat_inj.symm

end Counts

namespace Entry

variable {entry : Entry}

/-- An ADD below the last count keeps the entry sound and counts. -/
theorem Sound.add (sound : entry.Sound)
    (room : ∀ count, entry.count = some count → count.toNat + 1 < 2 ^ 64) :
    (entry.modify .add).Sound ∧ (entry.modify .add).size = entry.size + 1 := by
  unfold modify size
  cases cached : entry.count with
  | none =>
      have absent : entry.blocked = false := by
        cases blocked : entry.blocked with
        | false => rfl
        | true => exact absurd cached (sound.cached blocked)
      refine ⟨⟨?_, ?_, ?_⟩, rfl⟩
      · intro count same
        cases same
        decide
      · intro count same reached
        cases same
        exact absurd reached (by decide)
      · intro blocked
        exact absurd (absent.symm.trans blocked) (by decide)
  | some count =>
      have next := toNat_add_one (room count cached)
      refine ⟨⟨?_, ?_, ?_⟩, next⟩
      · intro other same
        cases same
        omega
      · intro other same reached
        cases same
        dsimp only
        by_cases exact : count + 1 = subnetThreshold
        · rw [decide_eq_true exact, Bool.or_true]
        · have different := mt eq_threshold_iff.mpr exact
          have above := threshold_le_iff.mp reached
          have before : subnetThreshold ≤ count := threshold_le_iff.mpr (by omega)
          rw [sound.blocks count cached before, Bool.true_or]
      · intro _ missing
        cases missing

/-- A DEL keeps the entry sound, and takes one call back if there is one. -/
theorem Sound.del (sound : entry.Sound) :
    (entry.modify .del).Sound ∧ (entry.modify .del).size = entry.size - 1 := by
  unfold modify size
  cases cached : entry.count with
  | none =>
      dsimp only
      rw [cached]
      exact ⟨sound, rfl⟩
  | some count =>
      have positive := sound.positive count cached
      dsimp only
      by_cases empties : count - 1 = 0
      · rw [if_pos empties]
        have one := (sub_one_eq_zero_iff positive).mp empties
        refine ⟨⟨?_, ?_, ?_⟩, ?_⟩
        · intro other same
          cases same
        · intro other same
          cases same
        · intro blocked
          cases blocked
        · change 0 = count.toNat - 1
          omega
      · rw [if_neg empties]
        have more := mt (sub_one_eq_zero_iff positive).mpr empties
        have next := toNat_sub_one positive
        refine ⟨⟨?_, ?_, ?_⟩, next⟩
        · intro other same
          cases same
          omega
        · intro other same reached
          cases same
          have above := threshold_le_iff.mp reached
          exact sound.blocks count cached (threshold_le_iff.mpr (by omega))
        · intro _ missing
          cases missing

/-- A sound entry that stands for no call is in neither map. -/
theorem Sound.absent (sound : entry.Sound) (none : entry.size = 0) : entry = ⟨.none, false⟩ := by
  obtain ⟨count, blocked⟩ := entry
  cases count with
  | some count =>
      have positive := sound.positive count rfl
      change count.toNat = 0 at none
      omega
  | none =>
      cases blocked with
      | false => rfl
      | true => exact absurd rfl (sound.cached rfl)

end Entry

/-! ### Runs -/

structure SubnetCall where
  key6 : BitVec 128
  action : Action
deriving DecidableEq, Repr

def subnetStep (maps : SubnetMaps) (call : SubnetCall) : Option SubnetMaps :=
  some (blacklistSubnetModify maps call.key6 call.action).2

/-- The call does not count a prefix past the last `__u64`. -/
def NoWrap (maps : SubnetMaps) (call : SubnetCall) : Prop :=
  call.action = .add → maps.cache (subnetKey call.key6) ≠ some (UInt64.ofNat (2 ^ 64 - 1))

instance (maps : SubnetMaps) (call : SubnetCall) : Decidable (NoWrap maps call) :=
  inferInstanceAs (Decidable (_ → _))

/-- How often the calls do something to a prefix. -/
def received (action : Action) (key : BitVec 64) (calls : List SubnetCall) : Nat :=
  calls.countP fun call => call.action = action ∧ subnetKey call.key6 = key

theorem subnetStep_entry {maps next : SubnetMaps} {call : SubnetCall}
    (taken : subnetStep maps call = some next) (key : BitVec 64) :
    next.entry key = if subnetKey call.key6 = key then (maps.entry key).modify call.action
      else maps.entry key := by
  cases taken
  exact modify_entry maps call.key6 call.action key

theorem room_of_noWrap {maps : SubnetMaps} {call : SubnetCall} (noWrap : NoWrap maps call)
    (adds : call.action = .add) :
    ∀ count, (maps.entry (subnetKey call.key6)).count = some count →
      count.toNat + 1 < 2 ^ 64 := by
  intro count cached
  have below : count.toNat < 2 ^ 64 := count.toNat_lt
  have last : count.toNat ≠ 2 ^ 64 - 1 := by
    intro equal
    have full : count = UInt64.ofNat (2 ^ 64 - 1) := by
      rw [← equal, UInt64.ofNat_toNat]
    exact noWrap adds (full ▸ cached)
  omega

/-- What one call does to the entry of a prefix. -/
theorem subnetStep_sound {maps next : SubnetMaps} {call : SubnetCall} {key : BitVec 64}
    (sound : (maps.entry key).Sound) (noWrap : NoWrap maps call)
    (taken : subnetStep maps call = some next) :
    (next.entry key).Sound ∧
      (next.entry key).size + min (received .del key [call]) (maps.entry key).size =
        (maps.entry key).size + received .add key [call] := by
  rw [subnetStep_entry taken key]
  by_cases own : subnetKey call.key6 = key
  · rw [if_pos own]
    subst own
    have counted (action : Action) : received action (subnetKey call.key6) [call] =
        if call.action = action then 1 else 0 := by
      simp [received, List.countP_cons]
    rw [counted, counted]
    cases acts : call.action with
    | add =>
        obtain ⟨kept, size⟩ := sound.add (room_of_noWrap noWrap acts)
        exact ⟨kept, by rw [size]; simp⟩
    | del =>
        obtain ⟨kept, size⟩ := sound.del
        refine ⟨kept, ?_⟩
        rw [size]
        simp only [if_true, reduceCtorEq, if_false]
        omega
    | other => exact ⟨sound, by simp [Entry.modify]⟩
  · rw [if_neg own]
    have uncounted (action : Action) : received action key [call] = 0 := by
      simp [received, own]
    rw [uncounted, uncounted]
    exact ⟨sound, by simp⟩

/-- The entry of a prefix counts the calls it has received, as long as no DEL came
too early. -/
theorem size_run {first last : SubnetMaps} {calls : List SubnetCall} {key : BitVec 64}
    {adds dels : Nat} (run : Run subnetStep NoWrap first calls last)
    (sound : (first.entry key).Sound) (balance : (first.entry key).size + dels = adds)
    (never : ∀ initial, initial <+: calls →
      dels + received .del key initial ≤ adds + received .add key initial) :
    (last.entry key).Sound ∧
      (last.entry key).size + (dels + received .del key calls) =
        adds + received .add key calls := by
  induction run generalizing adds dels with
  | nil => exact ⟨sound, balance⟩
  | @cons first next last call calls guard taken _ inductionHypothesis =>
      obtain ⟨kept, size⟩ := subnetStep_sound sound guard taken
      have split (action : Action) (rest : List SubnetCall) : received action key (call :: rest) =
          received action key [call] + received action key rest := by
        unfold received
        rw [← List.countP_append, List.singleton_append]
      have early := never [call] ⟨calls, rfl⟩
      have room : received .del key [call] ≤ (first.entry key).size +
          received .add key [call] := by omega
      have exclusive : received .del key [call] = 0 ∨ received .add key [call] = 0 := by
        unfold received
        cases acts : call.action <;> simp [acts]
      have nextBalance : (next.entry key).size + (dels + received .del key [call]) =
          adds + received .add key [call] := by
        rcases exclusive with noDel | noAdd <;> omega
      have later := inductionHypothesis kept nextBalance (by
        intro initial isInitial
        have whole := never (call :: initial) (List.prefix_cons_iff.mpr
          (Or.inr ⟨initial, rfl, isInitial⟩))
        rw [split .del initial, split .add initial] at whole
        omega)
      rw [split .del calls, split .add calls]
      exact ⟨later.1, by omega⟩

theorem empty_sound (key : BitVec 64) : (SubnetMaps.empty.entry key).Sound where
  positive := fun _ same => by cases same
  blocks := fun _ same => by cases same
  cached := fun blocked => by cases blocked

/-- Cache and blacklist agree in every run in which no count wraps around. -/
theorem subnets_agree_run {calls : List SubnetCall} {last : SubnetMaps}
    (run : Run subnetStep NoWrap .empty calls last) (key : BitVec 64) :
    (∀ count, last.cache key = some count → 1 ≤ count) ∧
    (∀ count, last.cache key = some count → subnetThreshold ≤ count →
      last.blacklist key ≠ none) ∧
    (last.blacklist key ≠ none → last.cache key ≠ none) ∧
    ((∀ initial, initial <+: calls → received .del key initial ≤ received .add key initial) →
      received .del key calls = received .add key calls →
      last.cache key = none ∧ last.blacklist key = none) := by
  have emptySound := empty_sound key
  have sound : (last.entry key).Sound :=
    run.invariant (fun _ _ _ sound guard taken => (subnetStep_sound sound guard taken).1)
      emptySound
  refine ⟨fun count cached => UInt64.le_iff_toNat_le.mpr (sound.positive count cached),
    fun count cached reached => Option.isSome_iff_ne_none.mp (sound.blocks count cached reached),
    fun blocked => sound.cached (Option.isSome_iff_ne_none.mpr blocked), fun never equal => ?_⟩
  have balance : (SubnetMaps.empty.entry key).size + 0 = 0 := rfl
  obtain ⟨_, size⟩ := size_run run emptySound balance fun initial isInitial => by
    have early := never initial isInitial
    omega
  have absent := sound.absent (by omega)
  have cache : last.cache key = none := congrArg Entry.count absent
  have blocked : (last.blacklist key).isSome = false := congrArg Entry.blocked absent
  exact ⟨cache, Option.isNone_iff_eq_none.mp (Option.isSome_eq_false_iff.mp blocked)⟩

/-- An address of 2001:db8::/64. -/
def documentation : BitVec 128 := 0xb80d0120

def addOne : SubnetCall := ⟨documentation, .add⟩

def delOne : SubnetCall := ⟨documentation, .del⟩

/-- Up to the threshold, down, up to it again, and away. -/
def upAndDown : List SubnetCall :=
  [addOne, addOne, addOne, delOne, addOne, delOne, delOne, delOne]

theorem subnets_agree_run_upAndDown : ∃ last,
    Run subnetStep NoWrap .empty upAndDown last ∧
    last.cache (subnetKey documentation) = none ∧
    last.blacklist (subnetKey documentation) = none := by
  have run : ∃ last, Run subnetStep NoWrap .empty upAndDown last ∧
      (fun _ => true) last = true := Run.of_exec_any (by decide)
  obtain ⟨last, run, _⟩ := run
  have early : ∀ initial ∈ upAndDown.inits,
      received .del (subnetKey documentation) initial ≤
        received .add (subnetKey documentation) initial := by decide
  exact ⟨last, run, (subnets_agree_run run (subnetKey documentation)).2.2.2
    (fun initial isInitial => early initial ((List.mem_inits initial upAndDown).mpr isInitial))
    (by decide)⟩

theorem addOne_cache {maps : SubnetMaps} {count : UInt64}
    (cached : maps.cache (subnetKey documentation) = some count) :
    ∃ next, subnetStep maps addOne = some next ∧
      next.cache (subnetKey documentation) = some (count + 1) := by
  refine ⟨_, rfl, ?_⟩
  have entry := modify_entry maps documentation .add (subnetKey documentation)
  rw [if_pos rfl] at entry
  have counted : (maps.entry (subnetKey documentation)).modify .add =
      ⟨some (count + 1), (maps.entry (subnetKey documentation)).blocked ||
        decide (count + 1 = subnetThreshold)⟩ := by
    unfold Entry.modify SubnetMaps.entry
    rw [cached]
  exact congrArg Entry.count (entry.trans counted)

/-- `times + 1` ADDs count up to that number. -/
theorem addOne_run (times : Nat) : ∃ last,
    Run subnetStep (fun _ _ => True) .empty (List.replicate (times + 1) addOne) last ∧
    last.cache (subnetKey documentation) = some (UInt64.ofNat (times + 1)) := by
  induction times with
  | zero => exact ⟨_, Run.single trivial rfl, by decide⟩
  | succ times inductionHypothesis =>
      obtain ⟨middle, run, cached⟩ := inductionHypothesis
      obtain ⟨next, taken, counted⟩ := addOne_cache cached
      refine ⟨next, ?_, ?_⟩
      · rw [List.replicate_succ']
        exact run.append (Run.single trivial taken)
      · rw [counted, UInt64.ofNat_add (times + 1) 1]
        rfl

/-- After `2 ^ 64` ADDs the prefix is cached with count 0. -/
theorem subnets_disagree_wrapped : ∃ last,
    Run subnetStep (fun _ _ => True) .empty (List.replicate (2 ^ 64) addOne) last ∧
    ∃ count, last.cache (subnetKey documentation) = some count ∧ ¬1 ≤ count := by
  obtain ⟨last, run, cached⟩ := addOne_run (2 ^ 64 - 1)
  have all : 2 ^ 64 - 1 + 1 = 2 ^ 64 := by decide
  rw [all] at run
  exact ⟨last, run, _, cached, by decide⟩

end FipsIpc.Xdp
