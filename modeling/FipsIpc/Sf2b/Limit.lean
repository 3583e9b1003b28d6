import FipsIpc.Sf2b.Consistency
import FipsIpc.IpHashtable.Refinement
import FipsIpc.Lib.ResetWindow
import Mathlib.Data.List.GetD

/-!
Contract: which bursts of messages reach the limit.

Owns: the counts `ip_hashtable_insert` returns to the messages of one client,
and the bursts among which some call returns the limit, on which `ban_clients`
bans.

The table keeps one window for an address.  It starts with the first message and
is left by the first message more than `findtime` later, which starts the next
one; messages of two windows are not counted together.

Does not own: other requests for the client, and messages out of order.
-/

set_option autoImplicit false

namespace FipsIpc.Sf2b

open FipsIpc.Lib
open FipsIpc.IpHashtable

/-- The timestamps with which an address is inserted. -/
def accesses (address : Address) (requests : List Request) : List Int :=
  requests.filterMap fun request =>
    match request with
    | .insert other accessTime => if other = address then some accessTime else none
    | _ => none

/-- The results of the calls for an address. -/
def returned (address : Address) (requests : List Request) (results : List Int) : List Int :=
  ((requests.zip results).filter fun call => call.1.address = address).map Prod.snd

/-- The timestamps as a sequence; behind the last one nothing is looked at. -/
def timesOf (list : List Int) : Nat → Int := fun index => list.getD index 0

/-- What the map keeps after the first `count` events of a sequence. -/
def counterOf (findtime : Int) (times : Nat → Int) : (count : Nat) → Option Counter
  | 0 => none
  | count + 1 =>
      let window := ResetWindow.window findtime times count
      some ⟨UInt32.ofNat window.2, window.1⟩

/-! ### Counts -/

/-- One more message counts in the window of its address. -/
theorem serve_insert {findtime : Int} {times : Nat → Int} {count : Nat} {map : AddressMap}
    {address : Address} (kept : map address = counterOf findtime times count) :
    (map.serve findtime (.insert address (times count))).1 =
        intOfCount (UInt32.ofNat (ResetWindow.window findtime times count).2) ∧
      (map.serve findtime (.insert address (times count))).2 address =
        counterOf findtime times (count + 1) := by
  cases count with
  | zero =>
      have missing : map address = none := kept
      rw [AddressMap.serve, missing]
      exact ⟨rfl, Function.update_self _ _ _⟩
  | succ count =>
      have present : map address = some ⟨UInt32.ofNat (ResetWindow.window findtime times count).2,
          (ResetWindow.window findtime times count).1⟩ := kept
      rw [AddressMap.serve, present]
      dsimp only
      by_cases passed : (ResetWindow.window findtime times count).1 + findtime < times (count + 1)
      · rw [if_pos passed, counterOf, ResetWindow.window_reset passed]
        exact ⟨rfl, Function.update_self _ _ _⟩
      · have next : UInt32.ofNat (ResetWindow.window findtime times count).2 + 1 =
            UInt32.ofNat ((ResetWindow.window findtime times count).2 + 1) :=
          (UInt32.ofNat_add _ 1).symm
        rw [if_neg passed, counterOf, ResetWindow.window_counts passed, next]
        exact ⟨rfl, Function.update_self _ _ _⟩

theorem run_append_singleton (findtime : Int) (map : AddressMap) (requests : List Request)
    (request : Request) :
    map.run findtime (requests ++ [request]) =
      ((map.run findtime requests).1 ++ [((map.run findtime requests).2.serve findtime request).1],
        ((map.run findtime requests).2.serve findtime request).2) := by
  induction requests generalizing map with
  | nil => rfl
  | cons first rest inductionHypothesis =>
      rw [List.cons_append, AddressMap.run, AddressMap.run]
      dsimp only
      rw [inductionHypothesis]
      rfl

theorem run_length (findtime : Int) (map : AddressMap) (requests : List Request) :
    (map.run findtime requests).1.length = requests.length := by
  induction requests generalizing map with
  | nil => rfl
  | cons first rest inductionHypothesis => exact congrArg Nat.succ (inductionHypothesis _)

theorem timesOf_append {list : List Int} {last : Int} {index : Nat} (bound : index < list.length) :
    timesOf (list ++ [last]) index = timesOf list index := by
  unfold timesOf
  rw [List.getD_eq_getElem?_getD, List.getD_eq_getElem?_getD, List.getElem?_append_left bound]

theorem counterOf_congr {findtime : Int} {times others : Nat → Int} {count : Nat}
    (same : ∀ event < count, times event = others event) :
    counterOf findtime times count = counterOf findtime others count := by
  cases count with
  | zero => rfl
  | succ count =>
      rw [counterOf, counterOf,
        ResetWindow.window_congr fun event bound => same event (Nat.lt_succ_of_le bound)]

theorem accesses_append_own (address : Address) (requests : List Request) (accessTime : Int) :
    accesses address (requests ++ [.insert address accessTime]) =
      accesses address requests ++ [accessTime] := by
  unfold accesses
  simp

theorem accesses_append_other {address : Address} {requests : List Request} {request : Request}
    (other : request.address ≠ address) :
    accesses address (requests ++ [request]) = accesses address requests := by
  unfold accesses
  cases request with
  | insert key accessTime =>
      have different : key ≠ address := other
      simp [different]
  | remove key => simp
  | set key value accessTime => simp

theorem returned_append {address : Address} {requests later : List Request}
    {results laterResults : List Int} (length : results.length = requests.length) :
    returned address (requests ++ later) (results ++ laterResults) =
      returned address requests results ++ returned address later laterResults := by
  unfold returned
  rw [List.zip_append length.symm, List.filter_append, List.map_append]

theorem returned_own {address : Address} {request : Request} {result : Int}
    (own : request.address = address) : returned address [request] [result] = [result] := by
  unfold returned
  simp [own]

theorem returned_other {address : Address} {request : Request} {result : Int}
    (other : request.address ≠ address) : returned address [request] [result] = [] := by
  unfold returned
  simp [other]

/-- The table counts the messages of an address in the windows of their
timestamps. -/
theorem run_counts (findtime : Int) (address : Address) {requests : List Request}
    (inserts : ∀ request ∈ requests, request.address = address →
      ∃ accessTime, request = .insert address accessTime) :
    (AddressMap.empty.run findtime requests).2 address =
        counterOf findtime (timesOf (accesses address requests))
          (accesses address requests).length ∧
      returned address requests (AddressMap.empty.run findtime requests).1 =
        (List.range (accesses address requests).length).map fun index =>
          intOfCount (UInt32.ofNat
            (ResetWindow.window findtime (timesOf (accesses address requests)) index).2) := by
  induction requests using List.reverseRecOn with
  | nil => exact ⟨rfl, rfl⟩
  | append_singleton requests request inductionHypothesis =>
      obtain ⟨kept, results⟩ := inductionHypothesis fun other member =>
        inserts other (List.mem_append_left _ member)
      rw [run_append_singleton, returned_append (run_length _ _ _), results]
      by_cases own : request.address = address
      · obtain ⟨accessTime, inserted⟩ := inserts request (by simp) own
        subst inserted
        rw [accesses_append_own]
        generalize accesses address requests = list at kept ⊢
        have last : timesOf (list ++ [accessTime]) list.length = accessTime := by
          unfold timesOf
          simp
        have grown : (AddressMap.empty.run findtime requests).2 address =
            counterOf findtime (timesOf (list ++ [accessTime])) list.length :=
          kept.trans (counterOf_congr fun event bound => (timesOf_append bound).symm)
        obtain ⟨result, next⟩ := serve_insert grown
        rw [last] at result next
        have earlier : ∀ index ∈ List.range list.length,
            intOfCount (UInt32.ofNat (ResetWindow.window findtime (timesOf list) index).2) =
              intOfCount (UInt32.ofNat (ResetWindow.window findtime
                (timesOf (list ++ [accessTime])) index).2) := by
          intro index member
          have bound : index < list.length := List.mem_range.mp member
          rw [ResetWindow.window_congr fun event before =>
            (timesOf_append (before.trans_lt bound)).symm]
        rw [returned_own own, result, List.length_append, List.length_singleton,
          List.range_succ, List.map_append, List.map_congr_left earlier]
        exact ⟨next, rfl⟩
      · rw [accesses_append_other own, returned_other own, List.append_nil,
          AddressMap.serve_of_ne findtime _ request (Ne.symm own)]
        exact ⟨kept, rfl⟩

/-! ### Bursts -/

/-- The messages are counted in one window. -/
def InOneWindow (findtime : Nat) (times : List Int) (messages : Finset Nat) : Prop :=
  ∃ start, ∀ message ∈ messages,
    (ResetWindow.window (findtime : Int) (timesOf times) message).1 = start

/-- The messages lie within the search time of each other. -/
def Within (findtime : Nat) (times : List Int) (messages : Finset Nat) : Prop :=
  ∀ first ∈ messages, ∀ last ∈ messages, timesOf times last - timesOf times first ≤ findtime

/-- At or before the last of the messages a call returned the limit. -/
def Reached (config : Config) (results : List Int) (messages : Finset Nat) : Prop :=
  ∃ last ∈ messages, ∃ call ≤ last, results[call]? = some (config.limit : Int)

/-- The results to a client whose messages have these timestamps. -/
def counts (findtime : Nat) (times : List Int) : List Int :=
  (List.range times.length).map fun index =>
    intOfCount (UInt32.ofNat (ResetWindow.window (findtime : Int) (timesOf times) index).2)

section Bursts

variable {config : Config} {times : List Int} {messages : Finset Nat}

theorem orderedBelow_timesOf (ordered : times.Pairwise (· ≤ ·)) :
    ResetWindow.OrderedBelow (timesOf times) times.length := by
  intro first last order bound
  unfold timesOf
  rw [List.getD_eq_getElem _ _ (order.trans_lt bound), List.getD_eq_getElem _ _ bound]
  rcases Nat.eq_or_lt_of_le order with same | before
  · subst same
    exact Int.le_refl _
  · exact List.pairwise_iff_getElem.mp ordered first last _ _ before

theorem intOfCount_limit (config : Config) :
    intOfCount (UInt32.ofNat config.limit) = (config.limit : Int) := by
  have small := config.limit_lt
  have value : (UInt32.ofNat config.limit).toNat = config.limit := by
    rw [UInt32.toNat_ofNat']
    exact Nat.mod_eq_of_lt (by omega)
  unfold intOfCount
  rw [value, if_pos (by omega)]

theorem le_of_intOfCount {position limit : Nat}
    (returned : intOfCount (UInt32.ofNat position) = (limit : Int)) : limit ≤ position := by
  have value : (UInt32.ofNat position).toNat = position % 2 ^ 32 := UInt32.toNat_ofNat'
  unfold intOfCount at returned
  rw [value] at returned
  have less := Nat.mod_le position (2 ^ 32)
  have below := Nat.mod_lt position (show 0 < 2 ^ 32 by decide)
  split at returned
  · omega
  · omega

/-- As many messages in one window as the limit reach it. -/
theorem reached_of_window (positive : 1 ≤ config.limit) (ordered : times.Pairwise (· ≤ ·))
    (bound : ∀ message ∈ messages, message < times.length)
    (enough : config.limit ≤ messages.card)
    (window : InOneWindow config.findtime times messages) :
    Reached config (counts config.findtime times) messages := by
  have nonempty : messages.Nonempty := Finset.card_pos.mp (positive.trans enough)
  let last := messages.max' nonempty
  have lastMember : last ∈ messages := messages.max'_mem nonempty
  obtain ⟨start, same⟩ := window
  have position := ResetWindow.card_le_position (Int.natCast_nonneg config.findtime)
    (orderedBelow_timesOf ordered) (bound last lastMember) lastMember
    (fun message member => messages.le_max' message member)
    (fun message member => (same message member).trans (same last lastMember).symm)
  obtain ⟨call, before, number⟩ := ResetWindow.exists_position positive (enough.trans position)
  refine ⟨last, lastMember, call, before, ?_⟩
  have inside : call < times.length := before.trans_lt (bound last lastMember)
  unfold counts
  rw [List.getElem?_map, List.getElem?_range inside, Option.map_some, number, intOfCount_limit]

/-- Of twice as many messages within the search time enough are in one window. -/
theorem reached_of_within (positive : 1 ≤ config.limit) (ordered : times.Pairwise (· ≤ ·))
    (bound : ∀ message ∈ messages, message < times.length)
    (enough : 2 * config.limit - 1 ≤ messages.card)
    (within : Within config.findtime times messages) :
    Reached config (counts config.findtime times) messages := by
  have many : 2 * (config.limit - 1) < messages.card := by omega
  obtain ⟨start, fiber⟩ := ResetWindow.exists_window_of_close
    (Int.natCast_nonneg config.findtime) (orderedBelow_timesOf ordered) bound within many
  have part : InOneWindow config.findtime times (messages.filter fun message =>
      (ResetWindow.window (config.findtime : Int) (timesOf times) message).1 = start) :=
    ⟨start, fun message member => (Finset.mem_filter.mp member).2⟩
  obtain ⟨last, member, call, before, result⟩ := reached_of_window positive ordered
    (fun message member => bound message (Finset.mem_filter.mp member).1) (by omega) part
  exact ⟨last, (Finset.mem_filter.mp member).1, call, before, result⟩

/-- A call returns the limit only to a message with enough messages before it in
its window. -/
theorem window_of_reached {call : Nat} (bound : call < times.length)
    (result : (counts config.findtime times)[call]? = some (config.limit : Int)) :
    ∃ messages : Finset Nat, (∀ message ∈ messages, message ≤ call) ∧
      config.limit ≤ messages.card ∧ InOneWindow config.findtime times messages := by
  unfold counts at result
  rw [List.getElem?_map, List.getElem?_range bound, Option.map_some] at result
  have enough : config.limit ≤
      (ResetWindow.window (config.findtime : Int) (timesOf times) call).2 :=
    le_of_intOfCount (Option.some.inj result)
  by_cases none : config.limit = 0
  · exact ⟨∅, fun _ member => absurd member (Finset.notMem_empty _), none ▸ Nat.zero_le _,
      0, fun _ member => absurd member (Finset.notMem_empty _)⟩
  · obtain ⟨reach, _⟩ := ResetWindow.window_back
      (show config.limit - 1 < (ResetWindow.window (config.findtime : Int) (timesOf times) call).2
        by omega)
    refine ⟨Finset.Icc (call - (config.limit - 1)) call,
      fun message member => (Finset.mem_Icc.mp member).2, ?_,
      (ResetWindow.window (config.findtime : Int) (timesOf times) call).1, ?_⟩
    · rw [Nat.card_Icc]
      omega
    · intro message member
      obtain ⟨after, before⟩ := Finset.mem_Icc.mp member
      have back : call - message <
          (ResetWindow.window (config.findtime : Int) (timesOf times) call).2 := by omega
      have same := (ResetWindow.window_back back).2
      rw [Nat.sub_sub_self before] at same
      rw [same]

end Bursts

/-- A call returned the limit by some message if and only if the limit was met
within one window of the counter; twice the limit less one within `findtime`
always meet it. -/
theorem limit_reached_iff_window (config : Config) (positive : 1 ≤ config.limit)
    (memory : Nat → Entry) {domain : Int} {requests : List Request}
    (family : ∀ request ∈ requests, request.address.domain = domain) (address : Address)
    (inserts : ∀ request ∈ requests, request.address = address →
      ∃ accessTime, request = .insert address accessTime)
    (ordered : (accesses address requests).Pairwise (· ≤ ·)) :
    ∃ results last, (Table.ipHashtableInit memory config.findtime).run requests =
        some (results, last) ∧
      (∀ position < (accesses address requests).length,
        (∃ call ≤ position,
          (returned address requests results)[call]? = some (config.limit : Int)) ↔
        ∃ messages : Finset Nat, (∀ message ∈ messages, message ≤ position) ∧
          config.limit ≤ messages.card ∧
          InOneWindow config.findtime (accesses address requests) messages) ∧
      ∀ messages : Finset Nat,
        (∀ message ∈ messages, message < (accesses address requests).length) →
        2 * config.limit - 1 ≤ messages.card →
        Within config.findtime (accesses address requests) messages →
        Reached config (returned address requests results) messages := by
  obtain ⟨last, results, _⟩ := ipHashtable_refines_map memory config.findtime domain family
  have counted : returned address requests (AddressMap.empty.run config.findtime requests).1 =
      counts config.findtime (accesses address requests) :=
    (run_counts config.findtime address inserts).2
  refine ⟨_, last, results, fun position bound => ?_, fun messages inside enough within => ?_⟩
  · rw [counted]
    constructor
    · intro reached
      obtain ⟨call, before, result⟩ := reached
      obtain ⟨messages, upTo, enough, window⟩ :=
        window_of_reached (before.trans_lt bound) result
      exact ⟨messages, fun message member => (upTo message member).trans before, enough, window⟩
    · intro burst
      obtain ⟨messages, upTo, enough, window⟩ := burst
      obtain ⟨final, member, call, before, result⟩ := reached_of_window positive ordered
        (fun message member => (upTo message member).trans_lt bound) enough window
      exact ⟨call, before.trans (upTo final member), result⟩
  · rw [counted]
    exact reached_of_within positive ordered inside enough within

/-- Three messages within ten seconds ban. -/
def threeMessages : Config := { twoMessages with limit := 3, limit_lt := by decide }

/-- Messages of 192.168.1.1. -/
def messagesAt (times : List Int) : List Request := times.map (.insert (.v4 0x0101A8C0))

theorem limit_reached_iff_window_five :
    (∀ request ∈ messagesAt [0, 9, 11, 12, 13, 14], ∃ accessTime,
      request = .insert (.v4 0x0101A8C0) accessTime) ∧
    ∃ results last, (Table.ipHashtableInit (fun _ => .zero) threeMessages.findtime).run
        (messagesAt [0, 9, 11, 12, 13, 14]) = some (results, last) ∧
      Reached threeMessages (returned (.v4 0x0101A8C0) (messagesAt [0, 9, 11, 12, 13, 14]) results)
        {1, 2, 3, 4, 5} := by
  have family : ∀ request ∈ messagesAt [0, 9, 11, 12, 13, 14], request.address.domain = afInet :=
    by decide
  have inserts : ∀ request ∈ messagesAt [0, 9, 11, 12, 13, 14], ∃ accessTime,
      request = .insert (.v4 0x0101A8C0) accessTime := by
    intro request member
    obtain ⟨accessTime, _, same⟩ := List.mem_map.mp member
    exact ⟨accessTime, same.symm⟩
  have ordered : (accesses (.v4 0x0101A8C0) (messagesAt [0, 9, 11, 12, 13, 14])).Pairwise
      (· ≤ ·) := by decide
  have within : Within threeMessages.findtime
      (accesses (.v4 0x0101A8C0) (messagesAt [0, 9, 11, 12, 13, 14])) {1, 2, 3, 4, 5} := by
    unfold Within
    decide
  obtain ⟨results, last, run, -, close⟩ := limit_reached_iff_window threeMessages (by decide)
    (fun _ => .zero) family (.v4 0x0101A8C0) (fun request member _ => inserts request member)
    ordered
  exact ⟨inserts, results, last, run, close _ (by decide) (by decide) within⟩

/-- The third of three messages within ten seconds starts a new window. -/
theorem limit_not_reached_across :
    ∃ results last, (Table.ipHashtableInit (fun _ => .zero) threeMessages.findtime).run
        (messagesAt [0, 9, 11, 12]) = some (results, last) ∧
      results = [1, 2, 1, 2] ∧
      Within threeMessages.findtime
        (accesses (.v4 0x0101A8C0) (messagesAt [0, 9, 11, 12])) {1, 2, 3} ∧
      ¬Reached threeMessages (returned (.v4 0x0101A8C0) (messagesAt [0, 9, 11, 12]) results)
        {1, 2, 3} := by
  have family : ∀ request ∈ messagesAt [0, 9, 11, 12], request.address.domain = afInet := by
    decide
  obtain ⟨last, run, _⟩ := ipHashtable_refines_map (fun _ => .zero) threeMessages.findtime afInet
    family
  have results : (AddressMap.empty.run threeMessages.findtime (messagesAt [0, 9, 11, 12])).1 =
      [1, 2, 1, 2] := by decide
  rw [results] at run
  refine ⟨_, last, run, rfl, ?_, ?_⟩
  · unfold Within
    decide
  · intro reached
    obtain ⟨_, _, call, _, result⟩ := reached
    have member := List.mem_of_getElem? result
    exact absurd member (by decide)

end FipsIpc.Sf2b
