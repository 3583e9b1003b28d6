import FipsIpc.Sf2b.Ban
import FipsIpc.IpHashtable.Shape
import FipsIpc.Lib.Run
import Mathlib.Data.List.Nodup
import Mathlib.Data.List.TakeDrop

/-!
Contract: the banned list and the blacklist maps of `programs/sf2b` agree.

Owns: the runs of messages and sweeps in any order, what one message and one
sweep do to list and maps, and their agreement over every run in which no
banned client is banned again.

A client is banned whenever its counter is equal to the limit after a message.
While it is banned its counter can come to the limit again: the search window
resets it, or the unban thread and the error path set it.

Does not own: how the counters develop.
-/

set_option autoImplicit false

namespace FipsIpc.Sf2b

open FipsIpc.Lib
open FipsIpc.IpHashtable

/-! ### The system -/

/-- A step of a ban thread or of the unban thread. -/
inductive ServerCall where
  | message (ts batchTimestamp : Int) (answers : BanAnswers) (message : Message)
  | sweep (ts : Int) (readings : Nat → Int × Answers)

def serverStep (config : Config) (server : Server) : ServerCall → Option Server
  | .message ts batchTimestamp answers message =>
      banMessage config ts batchTimestamp answers message server
  | .sweep ts readings => unbanSweep config ts readings server

/-- List pushes succeed, and the map takes every key it does not have. -/
def ServerCall.Accepted : ServerCall → Prop
  | .message _ _ answers _ => answers.push = .succeed ∧ answers.update = true
  | .sweep _ _ => True

instance (call : ServerCall) : Decidable call.Accepted :=
  match call with
  | .message _ _ answers _ =>
      inferInstanceAs (Decidable (answers.push = .succeed ∧ answers.update = true))
  | .sweep _ _ => inferInstanceAs (Decidable True)

/-- The addresses of the banned list. -/
def Server.banned (server : Server) : List Address := server.bannedList.map Node.key

/-- Every address is banned at most once, and the maps have the banned ones. -/
structure Server.Consistent (server : Server) : Prop where
  once : server.banned.Nodup
  keys : ∀ address, address ∈ server.banned ↔ server.blacklist address = true

/-- The counter of an address after one more message. -/
def counterAfter (table : Table) (address : Address) (timestamp : Int) : Option Int :=
  match table.find address with
  | some (some (_, entry)) =>
      some (intOfCount (table.countAccess (table.entries entry) timestamp).count)
  | some none => some 1
  | none => none

/-- The message would ban a client that is on the banned list. -/
def BansAgain (config : Config) (server : Server) (ts batchTimestamp : Int) (message : Message) :
    Prop :=
  ts - batchTimestamp ≤ config.findtime ∧
    ∃ address ∈ Address.ofArguments (some message.ipAddr) message.domain,
      isWhitelisted config address = false ∧ address ∈ server.banned ∧ 1 ≤ config.limit ∧
      counterAfter server.htable address message.timestamp = some (config.limit : Int)

instance (config : Config) (server : Server) (ts batchTimestamp : Int) (message : Message) :
    Decidable (BansAgain config server ts batchTimestamp message) :=
  inferInstanceAs (Decidable (_ ∧ ∃ address ∈ Address.ofArguments _ _, _ ∧ _ ∧ _ ∧ _))

/-- The call bans nobody again. -/
def ServerCall.BansOnce (config : Config) (server : Server) : ServerCall → Prop
  | .message ts batchTimestamp _ parsed => ¬BansAgain config server ts batchTimestamp parsed
  | .sweep _ _ => True

instance (config : Config) (server : Server) (call : ServerCall) :
    Decidable (call.BansOnce config server) :=
  match call with
  | .message ts batchTimestamp _ parsed =>
      inferInstanceAs (Decidable ¬BansAgain config server ts batchTimestamp parsed)
  | .sweep _ _ => inferInstanceAs (Decidable True)

/-! ### Messages -/

/-- `ip_hashtable_insert` returns the counter, or an error code when the system
fails it. -/
theorem insert_counterAfter {table next : Table} {answers : Answers} {key : BitVec 128}
    {domain timestamp result : Int} {address : Address}
    (argument : Address.ofArguments (some key) domain = some address)
    (inserted : table.ipHashtableInsert answers (some key) domain timestamp =
      some (result, next)) :
    counterAfter table address timestamp = some result ∨
      (answers ≠ .succeed ∧ result < 0) := by
  unfold Table.ipHashtableInsert at inserted
  rw [argument] at inserted
  simp only [Option.bind_eq_bind] at inserted
  split at inserted
  case isTrue locked =>
    cases inserted
    refine Or.inr ⟨?_, by decide⟩
    intro equal
    subst equal
    cases locked
  case isFalse =>
    obtain ⟨outcome, found, taken⟩ := Option.bind_eq_some_iff.mp inserted
    cases outcome with
    | some place =>
        cases taken
        exact Or.inl (by rw [counterAfter, found])
    | none =>
        dsimp only at taken
        split at taken
        case isTrue locked =>
          cases taken
          refine Or.inr ⟨?_, by decide⟩
          intro equal
          subst equal
          cases locked
        case isFalse =>
          split at taken
          case isTrue failed =>
            cases taken
            refine Or.inr ⟨?_, by decide⟩
            intro equal
            subst equal
            cases failed.2
          case isFalse =>
            obtain ⟨entry, _, linked⟩ := Option.bind_eq_some_iff.mp taken
            cases linked
            exact Or.inl (by rw [counterAfter, found])

/-- A result read off an execution. -/
theorem exists_table {served : Option (Int × Table)} {result : Int}
    (returns : served.any (fun outcome => outcome.1 == result) = true) :
    ∃ htable, served = some (result, htable) := by
  obtain ⟨⟨code, htable⟩, equal, same⟩ := (Option.any_eq_true _ _).mp returns
  have code_eq : code = result := eq_of_beq same
  rw [code_eq] at equal
  exact ⟨htable, equal⟩

/-- The message makes `ban_clients` ban its address. -/
def Bans (config : Config) (server : Server) (ts batchTimestamp : Int) (answers : BanAnswers)
    (message : Message) (address : Address) (htable : Table) : Prop :=
  ts - batchTimestamp ≤ config.findtime ∧
    Address.ofArguments (some message.ipAddr) message.domain = some address ∧
    isWhitelisted config address = false ∧ 1 ≤ config.limit ∧
    server.htable.ipHashtableInsert answers.insert (some message.ipAddr) message.domain
      message.timestamp = some ((config.limit : Int), htable)

/-- A message bans its address or leaves list and maps alone. -/
theorem banMessage_cases {config : Config} {server next : Server} {ts batchTimestamp : Int}
    {answers : BanAnswers} {message : Message}
    (taken : banMessage config ts batchTimestamp answers message server = some next) :
    (∃ address htable, Bans config server ts batchTimestamp answers message address htable ∧
      banClient config ts answers message address { server with htable := htable } = some next) ∨
    (next.bannedList = server.bannedList ∧ next.blacklist = server.blacklist ∧
      ∀ address htable, ¬Bans config server ts batchTimestamp answers message address htable) := by
  unfold banMessage at taken
  split at taken
  case isTrue old =>
    cases taken
    refine Or.inr ⟨rfl, rfl, fun address htable bans => ?_⟩
    exact absurd bans.1 (by omega)
  case isFalse recent =>
    split at taken
    case h_1 invalid =>
      cases taken
      refine Or.inr ⟨rfl, rfl, fun address htable bans => ?_⟩
      cases invalid.symm.trans bans.2.1
    case h_2 address valid =>
      split at taken
      case isTrue listed =>
        cases taken
        refine Or.inr ⟨rfl, rfl, fun other htable bans => ?_⟩
        cases valid.symm.trans bans.2.1
        cases listed.symm.trans bans.2.2.1
      case isFalse unlisted =>
        obtain ⟨⟨retval, htable⟩, inserted, rest⟩ := Option.bind_eq_some_iff.mp taken
        dsimp only at rest
        split at rest
        case isTrue failed =>
          cases rest
          refine Or.inr ⟨rfl, rfl, fun other table bans => ?_⟩
          cases inserted.symm.trans bans.2.2.2.2
          have positive := bans.2.2.2.1
          omega
        case isFalse counted =>
          split at rest
          case isTrue reached =>
            refine Or.inl ⟨address, htable,
              ⟨by omega, valid, by simpa using unlisted, by omega, ?_⟩, rest⟩
            rw [inserted, reached]
          case isFalse below =>
            cases rest
            refine Or.inr ⟨rfl, rfl, fun other table bans => ?_⟩
            cases inserted.symm.trans bans.2.2.2.2
            exact below rfl

/-- A message that is neither too old nor whitelisted is counted. -/
theorem banMessage_inserts {config : Config} {server next : Server} {ts batchTimestamp : Int}
    {answers : BanAnswers} {message : Message} {address : Address}
    (recent : ts - batchTimestamp ≤ config.findtime)
    (argument : Address.ofArguments (some message.ipAddr) message.domain = some address)
    (unlisted : isWhitelisted config address = false)
    (taken : banMessage config ts batchTimestamp answers message server = some next) :
    ∃ retval htable, server.htable.ipHashtableInsert answers.insert (some message.ipAddr)
      message.domain message.timestamp = some (retval, htable) := by
  unfold banMessage at taken
  rw [if_neg (by omega), argument] at taken
  simp only [unlisted, Bool.false_eq_true, if_false] at taken
  obtain ⟨⟨retval, htable⟩, inserted, _⟩ := Option.bind_eq_some_iff.mp taken
  exact ⟨retval, htable, inserted⟩

/-- Banning puts the address on the list and into the map. -/
theorem banClient_accepted {config : Config} {server next : Server} {ts : Int}
    {answers : BanAnswers} {message : Message} {address : Address}
    (pushes : answers.push = .succeed) (updates : answers.update = true)
    (taken : banClient config ts answers message address server = some next) :
    next.bannedList = ⟨address, ts⟩ :: server.bannedList ∧
      next.blacklist = Function.update server.blacklist address true := by
  have blacklist : (bpfMapUpdateElem answers.update server.blacklist address).2 =
      Function.update server.blacklist address true := by
    unfold bpfMapUpdateElem
    by_cases present : server.blacklist address = true
    · rw [if_pos present, ← present, Function.update_eq_self]
    · rw [if_neg present, if_pos updates]
  unfold banClient at taken
  rw [pushes] at taken
  dsimp only [ipLlistPush] at taken
  rw [if_neg (by decide)] at taken
  split at taken
  case isTrue =>
    obtain ⟨_, _, rest⟩ := Option.bind_eq_some_iff.mp taken
    cases rest
    exact ⟨rfl, blacklist⟩
  case isFalse =>
    cases taken
    exact ⟨rfl, blacklist⟩

namespace Server.Consistent

variable {config : Config} {server next : Server}

/-- List and maps agree after a ban exactly when the client was not banned. -/
theorem ban_iff (consistent : server.Consistent) {address : Address} {ts : Int}
    (list : next.bannedList = ⟨address, ts⟩ :: server.bannedList)
    (map : next.blacklist = Function.update server.blacklist address true) :
    next.Consistent ↔ address ∉ server.banned := by
  have banned : next.banned = address :: server.banned := by
    unfold Server.banned
    rw [list]
    rfl
  constructor
  · intro after
    have once := after.once
    rw [banned] at once
    exact (List.nodup_cons.mp once).1
  · intro fresh
    refine ⟨?_, fun other => ?_⟩
    · rw [banned]
      exact List.nodup_cons.mpr ⟨fresh, consistent.once⟩
    · rw [banned, map, List.mem_cons]
      by_cases same : other = address
      · simp [same]
      · rw [Function.update_of_ne same, ← consistent.keys other]
        simp [same]

/-- The keys do not change without list and maps. -/
theorem congr (consistent : server.Consistent) (list : next.bannedList = server.bannedList)
    (map : next.blacklist = server.blacklist) : next.Consistent := by
  have banned : next.banned = server.banned := congrArg (List.map Node.key) list
  refine ⟨?_, ?_⟩
  · rw [banned]
    exact consistent.once
  · rw [banned, map]
    exact consistent.keys

/-- An accepted message that bans nobody again. -/
theorem message (consistent : server.Consistent) {ts batchTimestamp : Int} {answers : BanAnswers}
    {message : Message} (pushes : answers.push = .succeed) (updates : answers.update = true)
    (safe : ¬BansAgain config server ts batchTimestamp message)
    (taken : banMessage config ts batchTimestamp answers message server = some next) :
    next.Consistent := by
  rcases banMessage_cases taken with ⟨address, htable, bans, banned⟩ | ⟨list, map, _⟩
  · obtain ⟨listed, mapped⟩ := banClient_accepted pushes updates banned
    have base : Server.Consistent { server with htable := htable } := consistent.congr rfl rfl
    apply (base.ban_iff listed mapped).mpr
    intro member
    obtain ⟨recent, argument, unlisted, limit, inserted⟩ := bans
    rcases insert_counterAfter argument inserted with counter | ⟨_, negative⟩
    · exact safe ⟨recent, address, argument, unlisted, member, limit, counter⟩
    · omega
  · exact consistent.congr list map

/-- When the system does not fail it, a message that bans a client again breaks
the agreement. -/
theorem message_iff (consistent : server.Consistent) {ts batchTimestamp : Int}
    {answers : BanAnswers} {message : Message} (inserts : answers.insert = .succeed)
    (pushes : answers.push = .succeed) (updates : answers.update = true)
    (taken : banMessage config ts batchTimestamp answers message server = some next) :
    next.Consistent ↔ ¬BansAgain config server ts batchTimestamp message := by
  refine ⟨fun after again => ?_, fun safe => consistent.message pushes updates safe taken⟩
  obtain ⟨recent, address, argument, unlisted, member, limit, counter⟩ := again
  obtain ⟨retval, htable, inserted⟩ := banMessage_inserts recent argument unlisted taken
  have reached : retval = config.limit := by
    rcases insert_counterAfter argument inserted with returned | ⟨failed, _⟩
    · exact Option.some.inj (returned.symm.trans counter)
    · exact absurd inserts failed
  rw [reached] at inserted
  rcases banMessage_cases taken with ⟨other, table, bans, banned⟩ | ⟨_, _, noBan⟩
  · cases argument.symm.trans bans.2.1
    obtain ⟨listed, mapped⟩ := banClient_accepted pushes updates banned
    have base : Server.Consistent { server with htable := table } := consistent.congr rfl rfl
    exact (base.ban_iff listed mapped).mp after member
  · exact noBan address htable ⟨recent, argument, unlisted, limit, inserted⟩

end Server.Consistent

/-! ### Sweeps -/

theorem bpfMapDeleteElem_eq (blacklist : Address → Bool) (key : Address) :
    (bpfMapDeleteElem blacklist key).2 = Function.update blacklist key false := by
  unfold bpfMapDeleteElem
  split
  · rfl
  case isFalse absent =>
    have missing : blacklist key = false := by simpa using absent
    rw [← missing, Function.update_eq_self]

/-- Unbanning takes the keys of its nodes out of the maps. -/
theorem unbanNodes_spec {nodes : List Node} {readings : Nat → Int × Answers}
    {server next : Server} (taken : unbanNodes nodes readings server = some next) :
    next.bannedList = server.bannedList ∧
      ∀ address, next.blacklist address = true ↔
        server.blacklist address = true ∧ address ∉ nodes.map Node.key := by
  induction nodes generalizing readings server with
  | nil =>
      cases taken
      exact ⟨rfl, fun address => by simp⟩
  | cons node rest inductionHypothesis =>
      obtain ⟨⟨_, htable⟩, _, later⟩ := Option.bind_eq_some_iff.mp taken
      obtain ⟨list, keys⟩ := inductionHypothesis later
      refine ⟨list, fun address => ?_⟩
      rw [keys, List.map_cons, List.mem_cons]
      dsimp only
      rw [bpfMapDeleteElem_eq]
      by_cases same : address = node.key
      · simp [same]
      · rw [Function.update_of_ne same]
        simp [same]

/-- The cut loses no node. -/
theorem getUnbanList_append (config : Config) (ts : Int) (list : List Node) :
    (getUnbanList config ts list).1 ++ (getUnbanList config ts list).2 = list := by
  unfold getUnbanList
  rw [List.span_eq_takeWhile_dropWhile, List.takeWhile_append_dropWhile]

theorem Server.Consistent.sweep {config : Config} {server next : Server}
    (consistent : server.Consistent) {ts : Int} {readings : Nat → Int × Answers}
    (taken : unbanSweep config ts readings server = some next) : next.Consistent := by
  obtain ⟨list, keys⟩ := unbanNodes_spec taken
  have kept : next.banned = (getUnbanList config ts server.bannedList).1.map Node.key :=
    congrArg (List.map Node.key) list
  have all : server.banned = (getUnbanList config ts server.bannedList).1.map Node.key ++
      (getUnbanList config ts server.bannedList).2.map Node.key := by
    rw [← List.map_append, getUnbanList_append]
    rfl
  have once := consistent.once
  rw [all] at once
  refine ⟨?_, fun address => ?_⟩
  · rw [kept]
    exact once.of_append_left
  · rw [keys, ← consistent.keys address, all, kept, List.mem_append]
    constructor
    · intro member
      exact ⟨Or.inl member, fun cut => List.disjoint_of_nodup_append once member cut⟩
    · rintro ⟨member | cut, notCut⟩
      · exact member
      · exact absurd cut notCut

/-! ### Runs -/

/-- A batch is a run of its messages. -/
theorem banLoop_run {config : Config} {batchTimestamp : Int}
    {batch : List (Int × BanAnswers × Message)} {server next : Server}
    (taken : banLoop config batchTimestamp batch server = some next) :
    Run (serverStep config) (fun _ _ => True) server
      (batch.map fun item => .message item.1 batchTimestamp item.2.1 item.2.2) next := by
  induction batch generalizing server with
  | nil =>
      cases taken
      exact .nil _
  | cons item rest inductionHypothesis =>
      obtain ⟨middle, first, later⟩ := Option.bind_eq_some_iff.mp taken
      exact .cons trivial first (inductionHypothesis later)

theorem banClients_run {config : Config} {batch : List (Int × BanAnswers × Message)}
    {server next : Server} (taken : banClients config batch server = some next) :
    ∃ batchTimestamp, Run (serverStep config) (fun _ _ => True) server
      (batch.map fun item => .message item.1 batchTimestamp item.2.1 item.2.2) next := by
  cases batch with
  | nil =>
      cases taken
      exact ⟨0, .nil _⟩
  | cons item rest => exact ⟨_, banLoop_run taken⟩

theorem Server.Consistent.started (config : Config) (memory : Nat → Entry) :
    (Server.started config memory).Consistent :=
  ⟨List.nodup_nil, fun _ => by simp [Server.started, Server.banned]⟩

theorem Server.Consistent.step {config : Config} {server next : Server} {call : ServerCall}
    (consistent : server.Consistent) (accepted : call.Accepted)
    (once : call.BansOnce config server) (taken : serverStep config server call = some next) :
    next.Consistent := by
  cases call with
  | message ts batchTimestamp answers message =>
      exact consistent.message accepted.1 accepted.2 once taken
  | sweep ts readings => exact consistent.sweep taken

/-- Over every run of messages and sweeps in which no banned client is banned
again, list and maps agree, and a further message keeps the agreement exactly
when it bans nobody again. -/
theorem banUnban_consistent_run {config : Config} {memory : Nat → Entry}
    {calls : List ServerCall} {last : Server}
    (run : Run (serverStep config)
      (fun server call => call.Accepted ∧ call.BansOnce config server)
      (Server.started config memory) calls last) :
    last.Consistent ∧
      ∀ ts batchTimestamp answers message next,
        serverStep config last (.message ts batchTimestamp answers message) = some next →
        answers.insert = .succeed → answers.push = .succeed → answers.update = true →
        (next.Consistent ↔ ¬BansAgain config last ts batchTimestamp message) := by
  have consistent : last.Consistent :=
    run.invariant (fun _ _ _ consistent guard taken => consistent.step guard.1 guard.2 taken)
      (Server.Consistent.started config memory)
  exact ⟨consistent, fun _ _ _ _ _ taken inserts pushes updates =>
    consistent.message_iff inserts pushes updates taken⟩

/-- Clients are banned for 100 seconds after two messages within 10. -/
def twoMessages : Config where
  bantime := 100
  limit := 2
  findtime := 10
  whitelistv4 := 0x001E030A
  bantime_lt := by decide
  limit_lt := by decide
  findtime_lt := by decide

def allSucceed : BanAnswers := ⟨.succeed, .succeed, true, .succeed⟩

/-- A message of 192.168.1.1, processed when it was written. -/
def messageAt (ts : Int) : ServerCall := .message ts ts allSucceed ⟨afInet, 0x0101A8C0, ts⟩

theorem banUnban_consistent_run_one_ban : ∃ last,
    Run (serverStep twoMessages)
      (fun server call => call.Accepted ∧ call.BansOnce twoMessages server)
      (Server.started twoMessages fun _ => .zero)
      [messageAt 0, messageAt 1, .sweep 102 fun _ => (102, .succeed)] last ∧
    last.Consistent := by
  have run : ∃ last, Run (serverStep twoMessages)
      (fun server call => call.Accepted ∧ call.BansOnce twoMessages server)
      (Server.started twoMessages fun _ => .zero)
      [messageAt 0, messageAt 1, .sweep 102 fun _ => (102, .succeed)] last := by
    rw [Server.started, Table.ipHashtableInit_eq]
    exact ⟨_, Run.of_exec (Option.some_get (by decide +kernel)).symm⟩
  obtain ⟨last, run⟩ := run
  exact ⟨last, run, (banUnban_consistent_run run).1⟩

/-- The search window forgets a client that is still banned: two more messages
put it on the list a second time, and the sweep that ends the first ban takes it
out of the map. -/
theorem banUnban_inconsistent_again :
    (∃ last, Run (serverStep twoMessages) (fun _ call => call.Accepted)
      (Server.started twoMessages fun _ => .zero)
      [messageAt 0, messageAt 1, messageAt 20, messageAt 21] last ∧
      last.banned = [.v4 0x0101A8C0, .v4 0x0101A8C0] ∧ ¬last.Consistent) ∧
    ∃ last, Run (serverStep twoMessages) (fun _ call => call.Accepted)
      (Server.started twoMessages fun _ => .zero)
      [messageAt 0, messageAt 1, messageAt 20, messageAt 21,
        .sweep 102 fun _ => (102, .succeed)] last ∧
      last.banned = [.v4 0x0101A8C0] ∧ last.blacklist (.v4 0x0101A8C0) = false := by
  rw [Server.started, Table.ipHashtableInit_eq]
  refine ⟨⟨_, Run.of_exec (Option.some_get (by decide +kernel)).symm, by decide +kernel,
    fun consistent => ?_⟩, ⟨_, Run.of_exec (Option.some_get (by decide +kernel)).symm,
    by decide +kernel, by decide +kernel⟩⟩
  exact absurd consistent.once (by decide +kernel)

end FipsIpc.Sf2b
