import FipsIpc.Lib.Run
import FipsIpc.Sf2b.Ban
import Mathlib.Data.Fintype.Basic

/-!
Contract: ban servers built with gRPC and the intervention server of the load
balancer, `programs/sf2b` with `GRPC` and `ips-action/server.cc` with `EBPF`.

Owns: the loop of `ban_clients` that collects a block request, the pass of
`unban_thread_routine` that collects an unblock request, the two handlers of the
intervention server with `blacklist_modify`, the files it opens, and the system of
any number of backends, the requests on their way and the load balancer.

Every handler opens both pinned maps and closes neither.  When the kernel refuses to
open one, the process exits; the pinned maps stay as they are.  A request is on its
way until it reaches the server or is lost.  No client looks at a reply, and a call
may return before its request is handled, so nothing waits here for a reply.

Does not own: parsing, the steps inside `ip_hashtable_insert` and `get_unban_list`,
status and list requests, and starting the intervention server anew.
-/

set_option autoImplicit false

namespace FipsIpc.IpsAction

open FipsIpc.IpHashtable
open FipsIpc.Sf2b

/-! ### Requests -/

inductive RequestKind where
  | block
  | unblock
deriving DecidableEq, Repr

/-- `BlockRequest` and `UnblockRequest`; an address carries its family. -/
structure Request where
  kind : RequestKind
  entries : List Address

/-! ### A backend -/

/-- A ban thread in `ban_clients`: `first` is `context->timestamp` once the batch has a
message, and a client that has reached the limit is about to be pushed. -/
inductive BanPlace where
  | waiting
  | banning (first : Option Int) (request : List Address)
  | reached (ts : Int) (address : Address) (first : Option Int) (request : List Address)

/-- The unban thread with the nodes it has cut off and the request it collects. -/
inductive UnbanPlace where
  | waiting
  | sweeping (rest : List Node) (request : List Address)

/-- The threads of a ban server and what they share. -/
structure Backend (threads : Nat) where
  htable : Table
  bannedList : List Node
  banCount : Nat
  tooOld : Nat
  unbanCount : Nat
  banThreads : Fin threads → BanPlace
  unbanThread : UnbanPlace

inductive BackendCall (threads : Nat) where
  | startBatch (thread : Fin threads)
  | message (thread : Fin threads) (ts : Int) (answers : Answers) (message : Message)
  | push (thread : Fin threads) (answer : PushAnswer)
  | endBatch (thread : Fin threads)
  | cut (ts : Int)
  | unban (ts : Int) (answers : Answers)
  | endSweep

namespace Backend

variable {threads : Nat}

def started (threads : Nat) (config : Config) (memory : Nat → Entry) : Backend threads :=
  ⟨.ipHashtableInit memory config.findtime, [], 0, 0, 0, fun _ => .waiting, .waiting⟩

def setThread (backend : Backend threads) (thread : Fin threads) (place : BanPlace) :
    Backend threads :=
  { backend with banThreads := Function.update backend.banThreads thread place }

/-- The loop body of `ban_clients` up to the limit. -/
def message (config : Config) (thread : Fin threads) (ts : Int) (answers : Answers)
    (message : Message) (first : Option Int) (request : List Address) (backend : Backend threads) :
    Option (Backend threads) :=
  let batchTimestamp := first.getD message.timestamp
  let next := backend.setThread thread (.banning (some batchTimestamp) request)
  if ts - batchTimestamp > config.findtime then some { next with tooOld := next.tooOld + 1 }
  else
    match Address.ofArguments (some message.ipAddr) message.domain with
    | none => some next
    | some address =>
        if isWhitelisted config address then some next
        else do
          let (retval, htable) ← backend.htable.ipHashtableInsert answers
            (some message.ipAddr) message.domain message.timestamp
          let next := { next with htable := htable }
          if retval < 1 then some next
          else if retval = config.limit then
            some (next.setThread thread (.reached ts address (some batchTimestamp) request))
          else some next

/-- The rest of the loop body: the client joins the list and then the request. -/
def push (thread : Fin threads) (answer : PushAnswer) (ts : Int) (address : Address)
    (first : Option Int) (request : List Address) (backend : Backend threads) :
    Backend threads :=
  let pushed := ipLlistPush answer backend.bannedList ⟨address, ts⟩
  let next := { backend with bannedList := pushed.2 }
  if pushed.1 < 0 then next.setThread thread (.banning first request)
  else { next with banCount := next.banCount + 1 }.setThread thread
    (.banning first (request ++ [address]))

/-- A step of a thread, with the request that it sends.  A batch without bans sends
none, and a pass of the unban thread always sends one. -/
def step (config : Config) (backend : Backend threads) :
    BackendCall threads → Option (Backend threads × Option Request)
  | .startBatch thread =>
      match backend.banThreads thread with
      | .waiting => some (backend.setThread thread (.banning none []), none)
      | _ => none
  | .message thread ts answers message =>
      match backend.banThreads thread with
      | .banning first request =>
          (backend.message config thread ts answers message first request).map fun next =>
            (next, none)
      | _ => none
  | .push thread answer =>
      match backend.banThreads thread with
      | .reached ts address first request =>
          some (backend.push thread answer ts address first request, none)
      | _ => none
  | .endBatch thread =>
      match backend.banThreads thread with
      | .banning _ request =>
          some (backend.setThread thread .waiting,
            if request.isEmpty then none else some ⟨.block, request⟩)
      | _ => none
  | .cut ts =>
      match backend.unbanThread with
      | .waiting =>
          let lists := getUnbanList config ts backend.bannedList
          some ({ backend with bannedList := lists.1, unbanThread := .sweeping lists.2 [] }, none)
      | _ => none
  | .unban ts answers =>
      match backend.unbanThread with
      | .sweeping (node :: rest) request => do
          let (_, htable) ← backend.htable.ipHashtableSet answers (some node.key.memory)
            node.key.domain 0 ts
          some ({ backend with
            htable := htable
            unbanCount := backend.unbanCount + 1
            unbanThread := .sweeping rest (request ++ [node.key]) }, none)
      | _ => none
  | .endSweep =>
      match backend.unbanThread with
      | .sweeping [] request =>
          some ({ backend with unbanThread := .waiting }, some ⟨.unblock, request⟩)
      | _ => none

end Backend

/-! ### The intervention server -/

def exitFailMapKey : Int := 21

/-- `blacklist_modify`; the kernel reports an error as the negated `errno`, and a key
that is on the list already is no failure. -/
def blacklistModify (accepts : Bool) (blacklist : Address → Bool) (ip : Address)
    (action : RequestKind) : Int × (Address → Bool) :=
  let (res, modified) :=
    match action with
    | .block => bpfMapUpdateElem accepts blacklist ip
    | .unblock => bpfMapDeleteElem blacklist ip
  if res ≠ 0 then
    if res = eexist then (exitOk, modified) else (exitFailMapKey, modified)
  else (exitOk, modified)

/-- A request in `sendBlockRequest` or `sendUnblockRequest`: the entries to come and
whether one has failed, which makes the reply `CANCELLED`. -/
structure Handler where
  kind : RequestKind
  rest : List Address
  error : Bool

/-- The loop body of the handlers. -/
def Handler.processEntry (accepts : Bool) (blacklist : Address → Bool) (handler : Handler) :
    Option (Handler × (Address → Bool)) :=
  match handler.rest with
  | [] => none
  | entry :: rest =>
      let (res, modified) := blacklistModify accepts blacklist entry handler.kind
      some ({ handler with rest := rest, error := handler.error || res ≠ 0 }, modified)

/-- What is left of a request. -/
def Handler.request (handler : Handler) : Request := ⟨handler.kind, handler.rest⟩

/-- The requests on their way and those lost on their way, the intervention server
with the files it holds open and the requests it has begun to handle, what
its exit cut short, the entries it has processed, one by one, and the pinned maps. -/
structure Cluster (count threads : Nat) where
  backends : Fin count → Backend threads
  inFlight : List Request
  lost : List Request
  running : Bool
  openFiles : Nat
  handlers : List Handler
  handled : List Request
  interrupted : List Request
  processed : List Request
  blacklist : Address → Bool

inductive ClusterCall (count threads : Nat) where
  | backend (index : Fin count) (call : BackendCall threads)
  | lose (index : Nat)
  | deliver (index : Nat) (first second : Bool)
  | processEntry (index : Nat) (accepts : Bool)
  | finish (index : Nat)

namespace Cluster

variable {count threads : Nat}

def started (count threads : Nat) (config : Config) (memory : Fin count → Nat → Entry) :
    Cluster count threads where
  backends := fun index => .started threads config (memory index)
  inFlight := []
  lost := []
  running := true
  openFiles := 0
  handlers := []
  handled := []
  interrupted := []
  processed := []
  blacklist := fun _ => false

/-- `exit(EXIT_FAIL_MAP_FILE)` in `open_bpf_map`. -/
def exitServer (cluster : Cluster count threads) : Cluster count threads :=
  { cluster with
    running := false
    openFiles := 0
    handlers := []
    interrupted := cluster.interrupted ++ cluster.handlers.map Handler.request }

/-- A handler is entered; `first` and `second` are whether the kernel opens the maps. -/
def receive (request : Request) (first second : Bool) (cluster : Cluster count threads) :
    Cluster count threads :=
  if cluster.running && first && second then
    { cluster with
      openFiles := cluster.openFiles + 2
      handlers := cluster.handlers ++ [⟨request.kind, request.entries, false⟩]
      handled := cluster.handled ++ [request] }
  else if cluster.running then
    { cluster.exitServer with lost := cluster.lost ++ [request] }
  else { cluster with lost := cluster.lost ++ [request] }

def step (config : Config) (cluster : Cluster count threads) :
    ClusterCall count threads → Option (Cluster count threads)
  | .backend index call => do
      let (backend, sent) ← (cluster.backends index).step config call
      some { cluster with
        backends := Function.update cluster.backends index backend
        inFlight := cluster.inFlight ++ sent.toList }
  | .lose index => do
      let request ← cluster.inFlight[index]?
      some { cluster with
        inFlight := cluster.inFlight.eraseIdx index
        lost := cluster.lost ++ [request] }
  | .deliver index first second => do
      let request ← cluster.inFlight[index]?
      some ({ cluster with
        inFlight := cluster.inFlight.eraseIdx index }.receive request first second)
  | .processEntry index accepts => do
      let handler ← cluster.handlers[index]?
      let (later, blacklist) ← handler.processEntry accepts cluster.blacklist
      some { cluster with
        handlers := cluster.handlers.set index later
        processed := cluster.processed ++ [⟨handler.kind, handler.rest.take 1⟩]
        blacklist := blacklist }
  | .finish index => do
      let handler ← cluster.handlers[index]?
      if handler.rest.isEmpty then
        some { cluster with handlers := cluster.handlers.eraseIdx index }
      else none

end Cluster

end FipsIpc.IpsAction
