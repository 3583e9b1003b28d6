import FipsIpc.Lib.Leases
import FipsIpc.Sf2b.Consistency

/-!
Contract: how long `programs/sf2b` blocks a client.

Owns: the bans and sweeps of a run in their order, the bans in force after it,
and how the maps follow them over every run of messages and sweeps.

A message bans its client when `ip_hashtable_insert` returns the limit, and a
sweep ends the bans that are older than `bantime` at its clock reading.  A ban is
recorded when the limit is reached, whatever `ip_llist_push` and the map answer.

Does not own: the steps inside a message or a sweep, and how the counters
develop.
-/

set_option autoImplicit false

namespace FipsIpc.Sf2b

open FipsIpc.Lib
open FipsIpc.IpHashtable

/-! ### Bans and sweeps -/

/-- The ban the message leads to. -/
def reachesLimit (config : Config) (server : Server) (ts batchTimestamp : Int)
    (answers : BanAnswers) (message : Message) : Option Node :=
  if ts - batchTimestamp > config.findtime then none
  else do
    let address ← Address.ofArguments (some message.ipAddr) message.domain
    if isWhitelisted config address then none
    else
      let (retval, _) ← server.htable.ipHashtableInsert answers.insert
        (some message.ipAddr) message.domain message.timestamp
      if retval < 1 then none
      else if retval = config.limit then some ⟨address, ts⟩
      else none

abbrev BanEvent : Type := LeaseEvent Node Int

def ServerCall.event (config : Config) (server : Server) : ServerCall → Option BanEvent
  | .message ts batchTimestamp answers parsed =>
      (reachesLimit config server ts batchTimestamp answers parsed).map .granted
  | .sweep ts _ => some (.swept ts)

/-- The server with what has happened, the newest event first. -/
structure BanHistory where
  server : Server
  events : List BanEvent

namespace BanHistory

def started (config : Config) (memory : Nat → Entry) : BanHistory :=
  ⟨.started config memory, []⟩

def step (config : Config) (history : BanHistory) (call : ServerCall) : Option BanHistory := do
  let next ← serverStep config history.server call
  some ⟨next, (call.event config history.server).toList ++ history.events⟩

/-- The ban of the node has not been ended. -/
def InForce (config : Config) (history : BanHistory) (node : Node) : Prop :=
  Lib.InForce (fun ts node => node.expired config ts) history.events node

/-- Some ban of the address is in force. -/
def Bans (config : Config) (history : BanHistory) (address : Address) : Prop :=
  ∃ node, history.InForce config node ∧ node.key = address

end BanHistory

/-- No node on the list has a later timestamp than the clock reading of the
message. -/
def ServerCall.InOrder (server : Server) : ServerCall → Prop
  | .message ts _ _ _ => ∀ node ∈ server.bannedList, node.timestamp ≤ ts
  | .sweep _ _ => True

instance (server : Server) (call : ServerCall) : Decidable (call.InOrder server) :=
  match call with
  | .message ts _ _ _ =>
      inferInstanceAs (Decidable (∀ node ∈ server.bannedList, node.timestamp ≤ ts))
  | .sweep _ _ => inferInstanceAs (Decidable True)

/-! ### Messages -/

theorem reachesLimit_some {config : Config} {server : Server} {ts batchTimestamp : Int}
    {answers : BanAnswers} {message : Message} {address : Address} {htable : Table}
    (bans : Bans config server ts batchTimestamp answers message address htable) :
    reachesLimit config server ts batchTimestamp answers message = some ⟨address, ts⟩ := by
  obtain ⟨recent, argument, unlisted, limit, inserted⟩ := bans
  unfold reachesLimit
  rw [if_neg (by omega), argument]
  simp only [Option.bind_eq_bind, Option.bind_some, unlisted, Bool.false_eq_true, if_false,
    inserted]
  rw [if_neg (by omega), if_true]

theorem reachesLimit_none {config : Config} {server : Server} {ts batchTimestamp : Int}
    {answers : BanAnswers} {message : Message}
    (noBan : ∀ address htable,
      ¬Bans config server ts batchTimestamp answers message address htable) :
    reachesLimit config server ts batchTimestamp answers message = none := by
  unfold reachesLimit
  by_cases old : ts - batchTimestamp > config.findtime
  · exact if_pos old
  · rw [if_neg old]
    cases argument : Address.ofArguments (some message.ipAddr) message.domain with
    | none => rfl
    | some address =>
        simp only [Option.bind_eq_bind, Option.bind_some]
        by_cases listed : isWhitelisted config address = true
        · exact if_pos listed
        · rw [if_neg listed]
          cases inserted : server.htable.ipHashtableInsert answers.insert (some message.ipAddr)
              message.domain message.timestamp with
          | none => rfl
          | some served =>
              obtain ⟨retval, htable⟩ := served
              simp only [Option.bind_some]
              by_cases failed : retval < 1
              · exact if_pos failed
              · rw [if_neg failed]
                refine if_neg fun reached => noBan address htable ⟨by omega, argument, ?_, ?_, ?_⟩
                · simpa using listed
                · omega
                · rw [inserted, reached]

/-- Whatever the system answers, the node comes on the list before its key comes
into a map. -/
theorem banClient_cases {config : Config} {server next : Server} {ts : Int}
    {answers : BanAnswers} {message : Message} {address : Address}
    (taken : banClient config ts answers message address server = some next) :
    (next.bannedList = server.bannedList ∧ next.blacklist = server.blacklist) ∨
    (next.bannedList = ⟨address, ts⟩ :: server.bannedList ∧
      ∀ other, next.blacklist other = true → other = address ∨ server.blacklist other = true) := by
  have keys (accepts : Bool) (other : Address)
      (blocked : (bpfMapUpdateElem accepts server.blacklist address).2 other = true) :
      other = address ∨ server.blacklist other = true := by
    by_cases same : other = address
    · exact Or.inl same
    · right
      unfold bpfMapUpdateElem at blocked
      split at blocked
      · exact blocked
      · split at blocked
        · dsimp only at blocked
          rwa [Function.update_of_ne same] at blocked
        · exact blocked
  unfold banClient at taken
  dsimp only at taken
  split at taken
  case isTrue failed =>
    cases taken
    cases pushed : answers.push with
    | succeed => simp [pushed, ipLlistPush, ipLlistSuccess] at failed
    | noMemory => exact Or.inl ⟨rfl, rfl⟩
    | lockFails => exact Or.inl ⟨rfl, rfl⟩
    | unlockFails => exact Or.inr ⟨rfl, fun _ blocked => Or.inr blocked⟩
  case isFalse succeeded =>
    have pushed : answers.push = .succeed := by
      cases result : answers.push with
      | succeed => rfl
      | noMemory => simp [result, ipLlistPush, ipLlistMemErr] at succeeded
      | lockFails => simp [result, ipLlistPush, ipLlistMutexErr] at succeeded
      | unlockFails => simp [result, ipLlistPush, ipLlistMutexErr] at succeeded
    right
    split at taken
    case isTrue =>
      obtain ⟨_, _, rest⟩ := Option.bind_eq_some_iff.mp taken
      cases rest
      exact ⟨by rw [pushed]; rfl, keys answers.update⟩
    case isFalse =>
      cases taken
      exact ⟨by rw [pushed]; rfl, keys answers.update⟩

namespace BanHistory

variable {config : Config} {history next : BanHistory}

/-- What a message does to the events, the list and the maps. -/
theorem step_message {ts batchTimestamp : Int} {answers : BanAnswers} {message : Message}
    (taken : history.step config (.message ts batchTimestamp answers message) = some next) :
    (∃ address htable,
      Sf2b.Bans config history.server ts batchTimestamp answers message address htable ∧
        banClient config ts answers message address { history.server with htable := htable } =
          some next.server ∧
        next.events = .granted ⟨address, ts⟩ :: history.events) ∨
    (next.server.bannedList = history.server.bannedList ∧
      next.server.blacklist = history.server.blacklist ∧ next.events = history.events) := by
  obtain ⟨server, served, rest⟩ := Option.bind_eq_some_iff.mp taken
  cases rest
  rcases banMessage_cases served with ⟨address, htable, bans, banned⟩ | ⟨list, map, noBan⟩
  · refine Or.inl ⟨address, htable, bans, banned, ?_⟩
    simp [ServerCall.event, reachesLimit_some bans]
  · refine Or.inr ⟨list, map, ?_⟩
    simp [ServerCall.event, reachesLimit_none noBan]

/-- What a sweep does to the events, the list and the maps. -/
theorem step_sweep {ts : Int} {readings : Nat → Int × Answers}
    (taken : history.step config (.sweep ts readings) = some next) :
    unbanSweep config ts readings history.server = some next.server ∧
      next.events = .swept ts :: history.events ∧
      next.server.bannedList =
        history.server.bannedList.takeWhile fun node => !node.expired config ts := by
  obtain ⟨server, served, rest⟩ := Option.bind_eq_some_iff.mp taken
  cases rest
  refine ⟨served, rfl, ?_⟩
  have list := (unbanNodes_spec served).1
  unfold getUnbanList at list
  rw [List.span_eq_takeWhile_dropWhile] at list
  exact list

/-! ### Nobody is blocked without a ban -/

/-- Nodes on the list stand for bans in force, and keys in the maps for nodes. -/
structure Covered (config : Config) (history : BanHistory) : Prop where
  inForce : ∀ node ∈ history.server.bannedList, history.InForce config node
  listed : ∀ address, history.server.blacklist address = true → address ∈ history.server.banned

theorem Covered.started (config : Config) (memory : Nat → Entry) :
    (BanHistory.started config memory).Covered config :=
  ⟨fun _ member => absurd member List.not_mem_nil, fun _ blocked => by cases blocked⟩

theorem Covered.message (covered : history.Covered config) {ts batchTimestamp : Int}
    {answers : BanAnswers} {message : Message}
    (taken : history.step config (.message ts batchTimestamp answers message) = some next) :
    next.Covered config := by
  rcases step_message taken with ⟨address, htable, -, banned, events⟩ | ⟨list, map, events⟩
  · have older {node : Node} (inForce : history.InForce config node) :
        next.InForce config node := by
      unfold InForce
      rw [events, inForce_granted]
      exact Or.inr inForce
    rcases banClient_cases banned with ⟨list, map⟩ | ⟨list, keys⟩
    · refine ⟨fun node member => ?_, fun other blocked => ?_⟩
      · rw [list] at member
        exact older (covered.inForce node member)
      · rw [map] at blocked
        unfold Server.banned
        rw [list]
        exact covered.listed other blocked
    · refine ⟨fun node member => ?_, fun other blocked => ?_⟩
      · rw [list] at member
        rcases List.mem_cons.mp member with same | before
        · unfold InForce
          rw [events, inForce_granted]
          exact Or.inl same
        · exact older (covered.inForce node before)
      · unfold Server.banned
        rw [list, List.map_cons, List.mem_cons]
        exact (keys other blocked).imp id (covered.listed other)
  · refine ⟨fun node member => ?_, fun other blocked => ?_⟩
    · rw [list] at member
      unfold InForce
      rw [events]
      exact covered.inForce node member
    · rw [map] at blocked
      unfold Server.banned
      rw [list]
      exact covered.listed other blocked

theorem Covered.sweep (covered : history.Covered config) {ts : Int}
    {readings : Nat → Int × Answers}
    (taken : history.step config (.sweep ts readings) = some next) : next.Covered config := by
  obtain ⟨swept, events, list⟩ := step_sweep taken
  refine ⟨fun node member => ?_, fun address blocked => ?_⟩
  · rw [list] at member
    unfold InForce
    rw [events, inForce_swept]
    refine ⟨covered.inForce node ((List.takeWhile_prefix _).subset member), ?_⟩
    simpa using List.mem_takeWhile_imp member
  · obtain ⟨before, notCut⟩ := ((unbanNodes_spec swept).2 address).mp blocked
    have member := covered.listed address before
    unfold Server.banned at member ⊢
    rw [← getUnbanList_append config ts history.server.bannedList, List.map_append,
      List.mem_append] at member
    rw [(unbanNodes_spec swept).1]
    exact member.resolve_right notCut

theorem Covered.step (covered : history.Covered config) {call : ServerCall}
    (taken : history.step config call = some next) : next.Covered config := by
  cases call with
  | message => exact covered.message taken
  | sweep => exact covered.sweep taken

/-- A key in the maps has a ban in force. -/
theorem Covered.bans (covered : history.Covered config) {address : Address}
    (blocked : history.server.blacklist address = true) : history.Bans config address := by
  obtain ⟨node, member, key⟩ := List.mem_map.mp (covered.listed address blocked)
  exact ⟨node, covered.inForce node member, key⟩

/-! ### Everybody with a ban is blocked -/

/-- The list holds the bans in force, and the maps agree with it. -/
structure Windowed (config : Config) (history : BanHistory) : Prop where
  consistent : history.server.Consistent
  holding : Holding (fun ts node => node.expired config ts) history.events
    history.server.bannedList

theorem Windowed.started (config : Config) (memory : Nat → Entry) :
    (BanHistory.started config memory).Windowed config :=
  ⟨.started config memory, .nil _⟩

/-- What the calls of such a run promise. -/
def Promised (config : Config) (history : BanHistory) (call : ServerCall) : Prop :=
  call.Accepted ∧ call.BansOnce config history.server ∧ call.InOrder history.server

instance (config : Config) (history : BanHistory) (call : ServerCall) :
    Decidable (history.Promised config call) :=
  inferInstanceAs (Decidable (_ ∧ _ ∧ _))

theorem Windowed.step (windowed : history.Windowed config) {call : ServerCall}
    (promised : history.Promised config call) (taken : history.step config call = some next) :
    next.Windowed config := by
  obtain ⟨accepted, once, inOrder⟩ := promised
  have consistent : next.server.Consistent := by
    obtain ⟨server, served, rest⟩ := Option.bind_eq_some_iff.mp taken
    cases rest
    exact windowed.consistent.step accepted once served
  cases call with
  | message ts batchTimestamp answers message =>
      rcases step_message taken with ⟨address, htable, -, banned, events⟩ | ⟨list, -, events⟩
      · refine ⟨consistent, ?_⟩
        rw [events, (banClient_accepted accepted.1 accepted.2 banned).1]
        apply windowed.holding.grant
        intro other member time expired
        have order : other.timestamp ≤ ts := inOrder other member
        have elapsed : time - ts > config.bantime := of_decide_eq_true expired
        exact decide_eq_true (by omega)
      · refine ⟨consistent, ?_⟩
        rw [events, list]
        exact windowed.holding
  | sweep ts readings =>
      obtain ⟨-, events, list⟩ := step_sweep taken
      refine ⟨consistent, ?_⟩
      rw [events, list]
      exact windowed.holding.sweep ts

/-- The maps have the keys of the bans in force. -/
theorem Windowed.blocked_iff (windowed : history.Windowed config) (address : Address) :
    history.server.blacklist address = true ↔ history.Bans config address := by
  rw [← windowed.consistent.keys, Server.banned, List.mem_map]
  exact exists_congr fun node => and_congr_left' (windowed.holding.holds node)

end BanHistory

/-! ### Every run -/

end FipsIpc.Sf2b
