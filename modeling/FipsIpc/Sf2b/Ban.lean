import FipsIpc.IpHashtable.Table

/-!
Contract: banning and unbanning clients in `programs/sf2b`.

Owns: `ban_clients` of `string.c` for one message and for a batch,
`ip_llist_push`, the kernel's answers to map updates and deletions,
`get_unban_list`, and one sweep of `unban_thread_routine`.

The two eBPF maps are one set of keys, since an address carries its family.
Threads read the clock themselves, so every reading is an argument.  The
messages are those `parse_str` accepted; the build without gRPC is modelled.

Does not own: parsing, the hash table, and the interleaving inside a message or
a sweep.
-/

set_option autoImplicit false

namespace FipsIpc.Sf2b

open FipsIpc.IpHashtable

/-- The fields of `config_t` that banning reads; `uint16_t` numbers. -/
structure Config where
  bantime : Nat
  limit : Nat
  findtime : Nat
  whitelistv4 : BitVec 32
  bantime_lt : bantime < 2 ^ 16
  limit_lt : limit < 2 ^ 16
  findtime_lt : findtime < 2 ^ 16

/-- A parsed log line: `ip_addr` is a union of sixteen bytes. -/
structure Message where
  domain : Int
  ipAddr : BitVec 128
  timestamp : Int

/-- A node of the banned list; the address carries its domain. -/
structure Node where
  key : Address
  timestamp : Int

/-- The data shared by the threads, with the totals of their counters. -/
structure Server where
  htable : Table
  bannedList : List Node
  blacklist : Address → Bool
  banCount : Nat
  tooOld : Nat
  unbanCount : Nat

/-! ### Lists and maps -/

def ipLlistSuccess : Int := 0
def ipLlistMemErr : Int := -3
def ipLlistMutexErr : Int := -4

/-- How `ip_llist_push` can go. -/
inductive PushAnswer where
  | succeed
  | noMemory
  | lockFails
  | unlockFails
deriving DecidableEq, Repr

/-- `ip_llist_push`; when the unlock fails the node is on the list. -/
def ipLlistPush (answer : PushAnswer) (list : List Node) (node : Node) : Int × List Node :=
  match answer with
  | .succeed => (ipLlistSuccess, node :: list)
  | .noMemory => (ipLlistMemErr, list)
  | .lockFails => (ipLlistMutexErr, list)
  | .unlockFails => (ipLlistMutexErr, node :: list)

def exitOk : Int := 0
def enoent : Int := -2
def e2big : Int := -7
def eexist : Int := -17

/-- `bpf_map_update_elem` with `BPF_NOEXIST`; a full map takes no new key. -/
def bpfMapUpdateElem (accepts : Bool) (blacklist : Address → Bool) (key : Address) :
    Int × (Address → Bool) :=
  if blacklist key then (eexist, blacklist)
  else if accepts then (exitOk, Function.update blacklist key true)
  else (e2big, blacklist)

def bpfMapDeleteElem (blacklist : Address → Bool) (key : Address) : Int × (Address → Bool) :=
  if blacklist key then (exitOk, Function.update blacklist key false) else (enoent, blacklist)

/-! ### `ban_clients` -/

/-- `cidr_to_mask(24)` on a little-endian machine. -/
def mask24 : BitVec 32 := 0x00FFFFFF

/-- `is_whitelistv4` for the configured network; only IPv4 is asked. -/
def isWhitelisted (config : Config) : Address → Bool
  | .v4 address => address &&& mask24 == config.whitelistv4 &&& mask24
  | .v6 _ => false

/-- What the system answers while a message is processed. -/
structure BanAnswers where
  insert : Answers
  push : PushAnswer
  update : Bool
  set : Answers

/-- The branch for a client that has reached the limit. -/
def banClient (config : Config) (ts : Int) (answers : BanAnswers) (message : Message)
    (address : Address) (server : Server) : Option Server :=
  let pushed := ipLlistPush answers.push server.bannedList ⟨address, ts⟩
  if pushed.1 < 0 then some { server with bannedList := pushed.2 }
  else
    let updated := bpfMapUpdateElem answers.update server.blacklist address
    let server := { server with bannedList := pushed.2, blacklist := updated.2 }
    if updated.1 ≠ exitOk then do
      let (_, htable) ← server.htable.ipHashtableSet answers.set (some message.ipAddr)
        message.domain (UInt32.ofNat (config.limit - 1)) message.timestamp
      some { server with htable := htable }
    else some { server with banCount := server.banCount + 1 }

/-- The body of the loop of `ban_clients`.  `ts` is the clock, `batchTimestamp`
the timestamp of the first message of the batch, which the code compares. -/
def banMessage (config : Config) (ts batchTimestamp : Int) (answers : BanAnswers)
    (message : Message) (server : Server) : Option Server :=
  if ts - batchTimestamp > config.findtime then
    some { server with tooOld := server.tooOld + 1 }
  else
    match Address.ofArguments (some message.ipAddr) message.domain with
    | none => some server
    | some address =>
        if isWhitelisted config address then some server
        else do
          let (retval, htable) ← server.htable.ipHashtableInsert answers.insert
            (some message.ipAddr) message.domain message.timestamp
          let server := { server with htable := htable }
          if retval < 1 then some server
          else if retval = config.limit then
            banClient config ts answers message address server
          else some server

/-- The loop of `ban_clients` over the messages, each with the clock reading and
the answers it gets. -/
def banLoop (config : Config) (batchTimestamp : Int) :
    List (Int × BanAnswers × Message) → Server → Option Server
  | [], server => some server
  | (ts, answers, message) :: rest, server => do
      let next ← banMessage config ts batchTimestamp answers message server
      banLoop config batchTimestamp rest next

/-- `ban_clients`; the age of all messages is judged by `context->timestamp`. -/
def banClients (config : Config) (batch : List (Int × BanAnswers × Message)) (server : Server) :
    Option Server :=
  match batch with
  | [] => some server
  | (_, _, first) :: _ => banLoop config first.timestamp batch server

/-! ### The unban thread -/

def Node.expired (config : Config) (ts : Int) (node : Node) : Bool :=
  ts - node.timestamp > config.bantime

/-- `get_unban_list`: the list is cut before its first expired node. -/
def getUnbanList (config : Config) (ts : Int) (list : List Node) : List Node × List Node :=
  list.span fun node => !node.expired config ts

/-- The loop over the nodes cut off.  `readings` has the clock and the answers
for `ip_hashtable_set`, whose result is not looked at. -/
def unbanNodes : List Node → (readings : Nat → Int × Answers) → Server → Option Server
  | [], _, server => some server
  | node :: rest, readings, server => do
      let deleted := bpfMapDeleteElem server.blacklist node.key
      let (_, htable) ← server.htable.ipHashtableSet (readings 0).2 (some node.key.memory)
        node.key.domain 0 (readings 0).1
      unbanNodes rest (fun index => readings (index + 1))
        { server with
          htable := htable
          blacklist := deleted.2
          unbanCount := if deleted.1 ≠ 0 then server.unbanCount else server.unbanCount + 1 }

/-- One pass of the event loop of `unban_thread_routine`. -/
def unbanSweep (config : Config) (ts : Int) (readings : Nat → Int × Answers) (server : Server) :
    Option Server :=
  let lists := getUnbanList config ts server.bannedList
  unbanNodes lists.2 readings { server with bannedList := lists.1 }

/-- The server after `main` has set it up. -/
def Server.started (config : Config) (memory : Nat → Entry) : Server :=
  ⟨.ipHashtableInit memory config.findtime, [], fun _ => false, 0, 0, 0⟩

end FipsIpc.Sf2b
