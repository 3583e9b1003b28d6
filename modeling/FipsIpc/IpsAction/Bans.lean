import FipsIpc.IpsAction.Cluster
import FipsIpc.Lib.Tally
import FipsIpc.Sf2b.Consistency

/-!
Contract: what becomes of a ban between the backends and the load balancer.

Owns: where the entries of an address are at any time, that every ban is reported once
and lifted once wherever requests go, which bans stand for the blocked addresses, and
how many passes of unban threads the intervention server survives.

Does not own: which clients reach the limit, and when nodes expire.
-/

set_option autoImplicit false

namespace FipsIpc.IpsAction

open FipsIpc.Lib
open FipsIpc.IpHashtable
open FipsIpc.Sf2b

/-! ### Where the entries are -/

/-- How often a request of one kind names an address. -/
def Request.mentions (kind : RequestKind) (address : Address) (request : Request) : Nat :=
  if request.kind = kind then request.entries.count address else 0

/-- The block request that a ban thread collects. -/
def BanPlace.request : BanPlace → List Address
  | .waiting => []
  | .banning _ request | .reached _ _ _ request => request

/-- The addresses that the unban thread has taken from the list. -/
def UnbanPlace.keys : UnbanPlace → List Address
  | .waiting => []
  | .sweeping rest request => rest.map Node.key ++ request

variable {count threads : Nat}

/-- The bans of an address that a backend has to report, or to lift. -/
def Backend.owes (backend : Backend threads) (address : Address) : RequestKind → Nat
  | .block => ∑ thread, (backend.banThreads thread).request.count address
  | .unblock => (backend.bannedList.map Node.key ++ backend.unbanThread.keys).count address

/-- The requests that are sent and not processed to the end, or never will be. -/
def Cluster.unprocessed (cluster : Cluster count threads) : List Request :=
  cluster.inFlight ++ cluster.lost ++ cluster.handlers.map Handler.request ++ cluster.interrupted

/-- The entries of an address that are still to be processed. -/
def Cluster.outstanding (cluster : Cluster count threads) (address : Address)
    (kind : RequestKind) : Nat :=
  ∑ index, (cluster.backends index).owes address kind +
    tally (Request.mentions kind address) cluster.unprocessed

def Cluster.total (cluster : Cluster count threads) (address : Address) (kind : RequestKind) :
    Nat :=
  cluster.outstanding address kind + tally (Request.mentions kind address) cluster.processed

/-- The list is not left with a node whose push has returned an error. -/
def BackendCall.Unlocks : BackendCall threads → Prop
  | .push _ answer => answer ≠ .unlockFails
  | _ => True

def ClusterCall.Unlocks : ClusterCall count threads → Prop
  | .backend _ call => call.Unlocks
  | _ => True

instance (call : BackendCall threads) : Decidable call.Unlocks :=
  match call with
  | .push _ answer => inferInstanceAs (Decidable (answer ≠ .unlockFails))
  | .startBatch _ | .message _ _ _ _ | .endBatch _ | .cut _ | .unban _ _ | .endSweep =>
      inferInstanceAs (Decidable True)

instance (call : ClusterCall count threads) : Decidable call.Unlocks :=
  match call with
  | .backend _ call => inferInstanceAs (Decidable call.Unlocks)
  | .lose _ | .deliver _ _ _ | .processEntry _ _ | .finish _ => inferInstanceAs (Decidable True)

theorem Request.mentions_nil (kind : RequestKind) (address : Address) (own : RequestKind) :
    Request.mentions kind address ⟨own, []⟩ = 0 := by
  unfold Request.mentions
  split
  all_goals rfl

theorem Request.mentions_cons (kind : RequestKind) (address : Address) (own : RequestKind)
    (entry : Address) (rest : List Address) :
    Request.mentions kind address ⟨own, entry :: rest⟩ =
      Request.mentions kind address ⟨own, [entry]⟩ + Request.mentions kind address ⟨own, rest⟩ := by
  unfold Request.mentions
  dsimp only
  split
  · rw [← List.singleton_append, List.count_append]
  · rfl

/-! ### A step of a backend -/

namespace Backend

variable {config : Config} {backend next : Backend threads} {address : Address}

theorem owes_setThread (backend : Backend threads) (thread : Fin threads) (place : BanPlace)
    (address : Address) :
    (backend.setThread thread place).owes address .block +
        (backend.banThreads thread).request.count address =
      backend.owes address .block + place.request.count address :=
  sum_update (fun place : BanPlace => place.request.count address) backend.banThreads thread place

/-- A message moves its thread on and leaves the request as it is. -/
theorem message_threads {thread : Fin threads} {ts : Int} {answers : Answers} {message : Message}
    {first : Option Int} {request : List Address}
    (taken : backend.message config thread ts answers message first request = some next) :
    next.bannedList = backend.bannedList ∧ next.unbanThread = backend.unbanThread ∧
      ∃ place : BanPlace, place.request = request ∧
        next.banThreads = Function.update backend.banThreads thread place := by
  unfold Backend.message at taken
  dsimp only at taken
  split at taken
  case isTrue =>
    cases taken
    exact ⟨rfl, rfl, _, rfl, rfl⟩
  case isFalse =>
    split at taken
    case h_1 =>
      cases taken
      exact ⟨rfl, rfl, _, rfl, rfl⟩
    case h_2 own _ =>
      split at taken
      case isTrue =>
        cases taken
        exact ⟨rfl, rfl, _, rfl, rfl⟩
      case isFalse =>
        obtain ⟨served, -, rest⟩ := Option.bind_eq_some_iff.mp taken
        split at rest
        case isTrue =>
          cases rest
          exact ⟨rfl, rfl, _, rfl, rfl⟩
        case isFalse =>
          split at rest
          case isTrue =>
            cases rest
            let place := BanPlace.reached ts own (some (first.getD message.timestamp)) request
            exact ⟨rfl, rfl, place, rfl, Function.update_idem _ _ _⟩
          case isFalse =>
            cases rest
            exact ⟨rfl, rfl, _, rfl, rfl⟩

/-- A push that returns without an error brings one ban to report and one to lift. -/
theorem push_owes (thread : Fin threads) (answer : PushAnswer) (ts : Int) (own : Address)
    (first : Option Int) (request : List Address) (backend : Backend threads)
    (place : (backend.banThreads thread).request = request) (address : Address) :
    ∃ bans : RequestKind → Nat,
      (answer ≠ .unlockFails → bans .block = bans .unblock) ∧
      ∀ kind, (backend.push thread answer ts own first request).owes address kind =
        backend.owes address kind + bans kind := by
  have collected := backend.owes_setThread thread (.banning first request) address
  have joined := backend.owes_setThread thread (.banning first (request ++ [own])) address
  rw [place] at collected joined
  have single : (request ++ [own]).count address = request.count address + [own].count address :=
    List.count_append
  cases answer with
  | succeed =>
      refine ⟨fun _ => [own].count address, fun _ => rfl, fun kind => ?_⟩
      cases kind with
      | block =>
          show (backend.setThread thread (.banning first (request ++ [own]))).owes address .block =
            _ + [own].count address
          dsimp only [BanPlace.request] at joined
          omega
      | unblock =>
          show (own :: (_ ++ _)).count address = _
          rw [← List.singleton_append, List.count_append, Nat.add_comm]
          rfl
  | noMemory | lockFails =>
      refine ⟨fun _ => 0, fun _ => rfl, fun kind => ?_⟩
      cases kind with
      | block => exact Nat.add_right_cancel collected
      | unblock => rfl
  | unlockFails =>
      refine ⟨fun kind => if kind = .block then 0 else [own].count address,
        fun unlocks => absurd rfl unlocks, fun kind => ?_⟩
      cases kind with
      | block => exact Nat.add_right_cancel collected
      | unblock =>
          show (own :: (_ ++ _)).count address = _
          rw [← List.singleton_append, List.count_append, Nat.add_comm]
          rfl

/-- What a step takes from the bans to report or to lift is in the request it sends. -/
theorem step_owes {call : BackendCall threads} {sent : Option Request}
    (taken : backend.step config call = some (next, sent)) (address : Address) :
    ∃ bans : RequestKind → Nat,
      (call.Unlocks → bans .block = bans .unblock) ∧
      ∀ kind, next.owes address kind + tally (Request.mentions kind address) sent.toList =
        backend.owes address kind + bans kind := by
  unfold Backend.step at taken
  cases call with
  | startBatch thread =>
      dsimp only at taken
      split at taken
      case h_2 => cases taken
      case h_1 place =>
        cases taken
        have started := backend.owes_setThread thread (.banning none []) address
        rw [place] at started
        refine ⟨fun _ => 0, fun _ => rfl, fun kind => ?_⟩
        cases kind with
        | block => exact started
        | unblock => rfl
  | message thread ts answers message =>
      dsimp only at taken
      split at taken
      case h_2 => cases taken
      case h_1 first request place =>
        obtain ⟨after, moved, rest⟩ := Option.map_eq_some_iff.mp taken
        cases rest
        obtain ⟨list, unban, later, same, threads⟩ := message_threads moved
        have kept := backend.owes_setThread thread later address
        rw [place, same] at kept
        refine ⟨fun _ => 0, fun _ => rfl, fun kind => ?_⟩
        cases kind with
        | block =>
            unfold Backend.owes
            dsimp only
            rw [threads]
            exact Nat.add_right_cancel kept
        | unblock =>
            unfold Backend.owes
            dsimp only
            rw [list, unban]
            rfl
  | push thread answer =>
      dsimp only at taken
      split at taken
      case h_2 => cases taken
      case h_1 ts own first request place =>
        cases taken
        have collected : (backend.banThreads thread).request = request := by
          rw [place]
          rfl
        exact push_owes thread answer ts own first request backend collected address
  | endBatch thread =>
      dsimp only at taken
      split at taken
      case h_2 => cases taken
      case h_1 first request place =>
        cases taken
        have ended := backend.owes_setThread thread .waiting address
        rw [place] at ended
        refine ⟨fun _ => 0, fun _ => rfl, fun kind => ?_⟩
        cases request with
        | nil =>
            cases kind with
            | block => exact ended
            | unblock => rfl
        | cons own rest =>
            cases kind with
            | block => exact ended
            | unblock => rfl
  | cut ts =>
      dsimp only at taken
      split at taken
      case h_2 => cases taken
      case h_1 waiting =>
        cases taken
        refine ⟨fun _ => 0, fun _ => rfl, fun kind => ?_⟩
        cases kind with
        | block => rfl
        | unblock =>
            have whole := getUnbanList_append config ts backend.bannedList
            unfold Backend.owes
            dsimp only
            rw [waiting]
            dsimp only [UnbanPlace.keys]
            rw [List.append_nil, List.append_nil, ← List.map_append, whole]
            rfl
  | unban ts answers =>
      dsimp only at taken
      split at taken
      case h_2 => cases taken
      case h_1 node rest request sweeping =>
        obtain ⟨served, -, later⟩ := Option.bind_eq_some_iff.mp taken
        cases later
        refine ⟨fun _ => 0, fun _ => rfl, fun kind => ?_⟩
        cases kind with
        | block => rfl
        | unblock =>
            have last := List.perm_append_singleton node.key (rest.map Node.key ++ request)
            have moved := last.append_left (backend.bannedList.map Node.key)
            rw [List.append_assoc] at moved
            unfold Backend.owes
            dsimp only
            rw [sweeping]
            exact moved.count_eq address
  | endSweep =>
      dsimp only at taken
      split at taken
      case h_2 => cases taken
      case h_1 request sweeping =>
        cases taken
        refine ⟨fun _ => 0, fun _ => rfl, fun kind => ?_⟩
        cases kind with
        | block => rfl
        | unblock =>
            unfold Backend.owes
            dsimp only
            rw [sweeping]
            dsimp only [UnbanPlace.keys]
            rw [List.count_append, List.count_append]
            rfl

end Backend

/-! ### A step of the system -/

theorem Handler.processEntry_cases {accepts : Bool} {blacklist modified : Address → Bool}
    {handler later : Handler}
    (taken : handler.processEntry accepts blacklist = some (later, modified)) :
    ∃ entry rest, handler.rest = entry :: rest ∧ later.kind = handler.kind ∧ later.rest = rest ∧
      modified = (blacklistModify accepts blacklist entry handler.kind).2 := by
  unfold Handler.processEntry at taken
  split at taken
  case h_1 => cases taken
  case h_2 entry rest isRest =>
    cases taken
    exact ⟨entry, rest, isRest, rfl, rfl, rfl⟩

/-- The entry that is processed was the first of the rest. -/
theorem Handler.processEntry_mentions {accepts : Bool} {blacklist modified : Address → Bool}
    {handler later : Handler}
    (taken : handler.processEntry accepts blacklist = some (later, modified))
    (kind : RequestKind) (address : Address) :
    later.request.mentions kind address +
        Request.mentions kind address ⟨handler.kind, handler.rest.take 1⟩ =
      handler.request.mentions kind address := by
  obtain ⟨entry, rest, isRest, sameKind, isLater, -⟩ := Handler.processEntry_cases taken
  unfold Handler.request
  rw [isRest, sameKind, isLater, Request.mentions_cons, Nat.add_comm]
  rfl

namespace Cluster

variable {config : Config} {cluster next : Cluster count threads} {address : Address}

theorem outstanding_eq (cluster : Cluster count threads) (address : Address) (kind : RequestKind) :
    cluster.outstanding address kind =
      ∑ index, (cluster.backends index).owes address kind +
        (tally (Request.mentions kind address) cluster.inFlight +
        tally (Request.mentions kind address) cluster.lost +
        tally (Request.mentions kind address) (cluster.handlers.map Handler.request) +
        tally (Request.mentions kind address) cluster.interrupted) := by
  unfold outstanding unprocessed
  rw [tally_append, tally_append, tally_append]

/-- A request that is delivered is handled, or lost with what the server still had to
handle. -/
theorem receive_outstanding (request : Request) (first second : Bool)
    (cluster : Cluster count threads) (address : Address) :
    (cluster.receive request first second).processed = cluster.processed ∧
    ∀ kind, (cluster.receive request first second).outstanding address kind =
      cluster.outstanding address kind + request.mentions kind address := by
  unfold receive
  split
  case isTrue =>
    refine ⟨rfl, fun kind => ?_⟩
    rw [outstanding_eq, outstanding_eq]
    dsimp only
    rw [List.map_append, tally_append, List.map_cons, List.map_nil, tally_cons, tally_nil]
    show _ + (_ + _ + (_ + (request.mentions kind address + 0)) + _) = _
    omega
  case isFalse =>
    split
    case isTrue =>
      refine ⟨rfl, fun kind => ?_⟩
      rw [outstanding_eq, outstanding_eq]
      dsimp only [exitServer]
      rw [tally_append, tally_append, tally_cons, tally_nil, List.map_nil, tally_nil]
      omega
    case isFalse =>
      refine ⟨rfl, fun kind => ?_⟩
      rw [outstanding_eq, outstanding_eq]
      dsimp only
      rw [tally_append, tally_cons, tally_nil]
      omega

/-- A step moves entries from place to place; only a push brings new ones. -/
theorem step_outstanding {call : ClusterCall count threads}
    (taken : cluster.step config call = some next) (address : Address) :
    ∃ (bans : RequestKind → Nat) (news : List Request),
      (call.Unlocks → bans .block = bans .unblock) ∧
      next.processed = cluster.processed ++ news ∧
      ∀ kind, next.outstanding address kind + tally (Request.mentions kind address) news =
        cluster.outstanding address kind + bans kind := by
  cases call with
  | backend index call =>
      obtain ⟨⟨backend, sent⟩, moved, rest⟩ := Option.bind_eq_some_iff.mp taken
      cases rest
      obtain ⟨bans, unlocks, owes⟩ := Backend.step_owes moved address
      refine ⟨bans, [], unlocks, (List.append_nil _).symm, fun kind => ?_⟩
      have whole := sum_update (fun backend : Backend threads => backend.owes address kind)
        cluster.backends index backend
      have own := owes kind
      rw [outstanding_eq, outstanding_eq]
      dsimp only
      rw [tally_append, tally_nil]
      omega
  | lose index =>
      obtain ⟨request, present, rest⟩ := Option.bind_eq_some_iff.mp taken
      cases rest
      refine ⟨fun _ => 0, [], fun _ => rfl, (List.append_nil _).symm, fun kind => ?_⟩
      have left : tally (Request.mentions kind address) (cluster.inFlight.eraseIdx index) +
          request.mentions kind address = _ := tally_eraseIdx present
      rw [outstanding_eq, outstanding_eq]
      dsimp only
      rw [tally_append, tally_cons, tally_nil]
      omega
  | deliver index first second =>
      obtain ⟨request, present, rest⟩ := Option.bind_eq_some_iff.mp taken
      cases rest
      obtain ⟨processed, received⟩ := receive_outstanding request first second
        { cluster with inFlight := cluster.inFlight.eraseIdx index } address
      refine ⟨fun _ => 0, [], fun _ => rfl, ?_, fun kind => ?_⟩
      · rw [processed, List.append_nil]
      · have left : tally (Request.mentions kind address) (cluster.inFlight.eraseIdx index) +
            request.mentions kind address = _ := tally_eraseIdx present
        rw [received kind, outstanding_eq, outstanding_eq]
        dsimp only
        rw [tally_nil]
        omega
  | processEntry index accepts =>
      obtain ⟨handler, present, processed⟩ := Option.bind_eq_some_iff.mp taken
      obtain ⟨⟨later, blacklist⟩, entry, rest⟩ := Option.bind_eq_some_iff.mp processed
      cases rest
      refine ⟨fun _ => 0, [⟨handler.kind, handler.rest.take 1⟩], fun _ => rfl, rfl, fun kind => ?_⟩
      have mapped : (cluster.handlers.map Handler.request)[index]? = some handler.request := by
        rw [List.getElem?_map, present]
        rfl
      have changed : tally (Request.mentions kind address)
          ((cluster.handlers.map Handler.request).set index later.request) +
            handler.request.mentions kind address = _ := tally_set mapped
      have parts := Handler.processEntry_mentions entry kind address
      rw [outstanding_eq, outstanding_eq]
      dsimp only
      rw [List.map_set, tally_cons, tally_nil]
      omega
  | finish index =>
      obtain ⟨handler, present, rest⟩ := Option.bind_eq_some_iff.mp taken
      split at rest
      case isFalse => cases rest
      case isTrue ended =>
        cases rest
        refine ⟨fun _ => 0, [], fun _ => rfl, (List.append_nil _).symm, fun kind => ?_⟩
        have mapped : (cluster.handlers.map Handler.request)[index]? = some handler.request := by
          rw [List.getElem?_map, present]
          rfl
        have left : tally (Request.mentions kind address)
            ((cluster.handlers.map Handler.request).eraseIdx index) +
              handler.request.mentions kind address = _ := tally_eraseIdx mapped
        have nothing : handler.request.mentions kind address = 0 := by
          unfold Handler.request
          rw [List.isEmpty_iff.mp ended]
          exact Request.mentions_nil kind address handler.kind
        rw [outstanding_eq, outstanding_eq]
        dsimp only
        rw [tally_nil, ← List.eraseIdx_map]
        omega

/-- The maps change only with an entry that is processed. -/
theorem step_blacklist {call : ClusterCall count threads}
    (taken : cluster.step config call = some next) :
    (next.blacklist = cluster.blacklist ∧ next.processed = cluster.processed) ∨
    ∃ index accepts handler entry rest, call = .processEntry index accepts ∧
      cluster.handlers[index]? = some handler ∧ handler.rest = entry :: rest ∧
      next.blacklist = (blacklistModify accepts cluster.blacklist entry handler.kind).2 ∧
      next.processed = cluster.processed ++ [⟨handler.kind, [entry]⟩] := by
  cases call with
  | backend index call =>
      obtain ⟨served, -, rest⟩ := Option.bind_eq_some_iff.mp taken
      cases rest
      exact Or.inl ⟨rfl, rfl⟩
  | lose index =>
      obtain ⟨request, -, rest⟩ := Option.bind_eq_some_iff.mp taken
      cases rest
      exact Or.inl ⟨rfl, rfl⟩
  | deliver index first second =>
      obtain ⟨request, -, rest⟩ := Option.bind_eq_some_iff.mp taken
      cases rest
      left
      unfold receive
      split
      case isTrue => exact ⟨rfl, rfl⟩
      case isFalse =>
        split
        all_goals exact ⟨rfl, rfl⟩
  | processEntry index accepts =>
      obtain ⟨handler, present, processed⟩ := Option.bind_eq_some_iff.mp taken
      obtain ⟨⟨later, blacklist⟩, served, last⟩ := Option.bind_eq_some_iff.mp processed
      cases last
      obtain ⟨entry, rest, isRest, -, -, isBlacklist⟩ := Handler.processEntry_cases served
      refine Or.inr ⟨index, accepts, handler, entry, rest, rfl, present, isRest, isBlacklist, ?_⟩
      rw [isRest]
      rfl
  | finish index =>
      obtain ⟨handler, -, rest⟩ := Option.bind_eq_some_iff.mp taken
      split at rest
      case isFalse => cases rest
      case isTrue =>
        cases rest
        exact Or.inl ⟨rfl, rfl⟩

end Cluster

theorem blacklistModify_block {accepts : Bool} {blacklist : Address → Bool} {ip address : Address}
    (blocked : (blacklistModify accepts blacklist ip .block).2 address = true) :
    blacklist address = true ∨ address = ip := by
  have modified : (blacklistModify accepts blacklist ip .block).2 =
      (bpfMapUpdateElem accepts blacklist ip).2 := by
    unfold blacklistModify
    dsimp only
    split
    · split
      all_goals rfl
    · rfl
  rw [modified] at blocked
  unfold bpfMapUpdateElem at blocked
  split at blocked
  · exact Or.inl blocked
  · split at blocked
    · by_cases same : address = ip
      · exact Or.inr same
      · exact Or.inl ((Function.update_of_ne same _ _).symm.trans blocked)
    · exact Or.inl blocked

theorem blacklistModify_unblock (accepts : Bool) (blacklist : Address → Bool) (ip : Address) :
    (blacklistModify accepts blacklist ip .unblock).2 = Function.update blacklist ip false := by
  rw [← bpfMapDeleteElem_eq]
  unfold blacklistModify
  dsimp only
  split
  · split
    all_goals rfl
  · rfl

theorem Cluster.started_outstanding (count threads : Nat) (config : Config)
    (memory : Fin count → Nat → Entry) (address : Address) (kind : RequestKind) :
    (Cluster.started count threads config memory).outstanding address kind = 0 := by
  have nothing : ∀ index,
      ((Cluster.started count threads config memory).backends index).owes address kind = 0 := by
    intro index
    cases kind with
    | block => exact Finset.sum_eq_zero fun thread _ => rfl
    | unblock => rfl
  rw [outstanding_eq, Finset.sum_eq_zero fun index _ => nothing index]
  rfl

/-- A block entry is processed only while its address is on a list, or an unblock entry
for it is still to come. -/
def Cluster.InTime (cluster : Cluster count threads) : ClusterCall count threads → Prop
  | .processEntry index _ =>
      ∀ handler ∈ cluster.handlers[index]?, handler.kind = .block →
        ∀ entry ∈ handler.rest.head?, 0 < cluster.outstanding entry .unblock
  | _ => True

/-- `RLIMIT_NOFILE`: both maps are opened only below the limit. -/
def Cluster.WithinLimit (limit : Nat) (cluster : Cluster count threads) :
    ClusterCall count threads → Prop
  | .deliver _ first second =>
      first = true → second = true → cluster.openFiles + 2 ≤ limit
  | _ => True

instance (cluster : Cluster count threads) (call : ClusterCall count threads) :
    Decidable (cluster.InTime call) :=
  match call with
  | .processEntry _ _ =>
      inferInstanceAs (Decidable (∀ handler ∈ _, _ = RequestKind.block → ∀ entry ∈ _, 0 < _))
  | .backend _ _ | .lose _ | .deliver _ _ _ | .finish _ => inferInstanceAs (Decidable True)

instance (limit : Nat) (cluster : Cluster count threads) (call : ClusterCall count threads) :
    Decidable (cluster.WithinLimit limit call) :=
  match call with
  | .deliver _ _ _ => inferInstanceAs (Decidable (_ = true → _ = true → _ ≤ limit))
  | .backend _ _ | .lose _ | .processEntry _ _ | .finish _ => inferInstanceAs (Decidable True)

def ClusterCall.endsPass : ClusterCall count threads → Bool
  | .backend _ .endSweep => true
  | _ => false

/-- A request that ends a pass weighs 1, one that reports bans 0. -/
def Request.passes (request : Request) : Nat := if request.kind = .unblock then 1 else 0

/-- Every pass so far has its request somewhere, and the requests that were handled
against the files they have left open. -/
structure Cluster.Wears (limit : Nat) (calls : List (ClusterCall count threads))
    (cluster : Cluster count threads) : Prop where
  passes : calls.countP ClusterCall.endsPass = tally Request.passes cluster.handled +
    tally Request.passes cluster.inFlight + tally Request.passes cluster.lost
  files : cluster.running = true → cluster.openFiles = 2 * cluster.handled.length
  bound : 2 * cluster.handled.length ≤ limit

section Wear

variable {config : Config} {limit : Nat} {calls : List (ClusterCall count threads)}
  {cluster next : Cluster count threads}

/-- A backend sends an unblock request when a pass ends, and at no other time. -/
theorem Backend.step_passes {backend next : Backend threads} {call : BackendCall threads}
    {sent : Option Request} (taken : backend.step config call = some (next, sent))
    (index : Fin count) :
    tally Request.passes sent.toList =
      [ClusterCall.backend index call].countP ClusterCall.endsPass := by
  unfold Backend.step at taken
  cases call with
  | endBatch thread =>
      dsimp only at taken
      split at taken
      case h_1 first request place =>
        cases taken
        cases request with
        | nil => rfl
        | cons entry rest => rfl
      case h_2 => cases taken
  | message thread ts answers message =>
      dsimp only at taken
      split at taken
      case h_1 =>
        obtain ⟨after, _, rest⟩ := Option.map_eq_some_iff.mp taken
        cases rest
        rfl
      case h_2 => cases taken
  | unban ts answers =>
      dsimp only at taken
      split at taken
      case h_1 =>
        obtain ⟨served, _, rest⟩ := Option.bind_eq_some_iff.mp taken
        cases rest
        rfl
      case h_2 => cases taken
  | endSweep | startBatch | push | cut =>
      dsimp only at taken
      split at taken
      case h_1 =>
        cases taken
        rfl
      case h_2 => cases taken

theorem countP_endsPass (calls : List (ClusterCall count threads))
    {call : ClusterCall count threads} (other : call.endsPass = false) :
    (calls ++ [call]).countP ClusterCall.endsPass = calls.countP ClusterCall.endsPass := by
  rw [List.countP_append, List.countP_singleton, other]
  rfl

/-- The server takes a request, or it is lost. -/
theorem Cluster.receive_passes (cluster : Cluster count threads) (request : Request)
    (first second : Bool) :
    (cluster.receive request first second).inFlight = cluster.inFlight ∧
      tally Request.passes (cluster.receive request first second).handled +
          tally Request.passes (cluster.receive request first second).lost =
        tally Request.passes cluster.handled + tally Request.passes cluster.lost +
          request.passes := by
  unfold receive
  split
  case isTrue =>
    refine ⟨rfl, ?_⟩
    dsimp only
    rw [tally_append, tally_cons, tally_nil]
    omega
  case isFalse =>
    split
    case isTrue =>
      refine ⟨rfl, ?_⟩
      dsimp only [exitServer]
      rw [tally_append, tally_cons, tally_nil]
      omega
    case isFalse =>
      refine ⟨rfl, ?_⟩
      dsimp only
      rw [tally_append, tally_cons, tally_nil]
      omega

/-- Both maps of a handled request stay open, and there was room for them. -/
theorem Cluster.receive_files (cluster : Cluster count threads) (request : Request)
    {first second : Bool}
    (within : first = true → second = true → cluster.openFiles + 2 ≤ limit)
    (files : cluster.running = true → cluster.openFiles = 2 * cluster.handled.length)
    (bound : 2 * cluster.handled.length ≤ limit) :
    ((cluster.receive request first second).running = true →
      (cluster.receive request first second).openFiles =
        2 * (cluster.receive request first second).handled.length) ∧
      2 * (cluster.receive request first second).handled.length ≤ limit := by
  unfold receive
  split
  case isTrue opened =>
    obtain ⟨⟨running, isFirst⟩, isSecond⟩ :
      (cluster.running = true ∧ first = true) ∧ second = true := by simpa using opened
    have room := within isFirst isSecond
    have held := files running
    have longer : (cluster.handled ++ [request]).length = cluster.handled.length + 1 :=
      List.length_append
    dsimp only
    omega
  case isFalse =>
    split
    case isTrue =>
      refine ⟨fun running => ?_, bound⟩
      cases running
    case isFalse => exact ⟨files, bound⟩

theorem Cluster.Wears.step {call : ClusterCall count threads} (wears : cluster.Wears limit calls)
    (within : cluster.WithinLimit limit call) (taken : cluster.step config call = some next) :
    next.Wears limit (calls ++ [call]) := by
  obtain ⟨passes, files, bound⟩ := wears
  cases call with
  | backend index call =>
      obtain ⟨⟨backend, sent⟩, moved, rest⟩ := Option.bind_eq_some_iff.mp taken
      cases rest
      have sends := Backend.step_passes moved index
      refine ⟨?_, files, bound⟩
      dsimp only
      rw [List.countP_append, tally_append]
      omega
  | lose index =>
      obtain ⟨request, present, rest⟩ := Option.bind_eq_some_iff.mp taken
      cases rest
      have left : tally Request.passes (cluster.inFlight.eraseIdx index) + request.passes = _ :=
        tally_eraseIdx present
      refine ⟨?_, files, bound⟩
      dsimp only
      rw [countP_endsPass calls rfl, tally_append, tally_cons, tally_nil]
      omega
  | deliver index first second =>
      obtain ⟨request, present, rest⟩ := Option.bind_eq_some_iff.mp taken
      cases rest
      have left : tally Request.passes (cluster.inFlight.eraseIdx index) + request.passes = _ :=
        tally_eraseIdx present
      let taken := { cluster with inFlight := cluster.inFlight.eraseIdx index }
      obtain ⟨flight, balance⟩ := taken.receive_passes request first second
      obtain ⟨opened, room⟩ := taken.receive_files request within files bound
      refine ⟨?_, opened, room⟩
      rw [countP_endsPass calls rfl, flight]
      dsimp only [taken] at balance ⊢
      omega
  | processEntry index accepts =>
      obtain ⟨handler, present, processed⟩ := Option.bind_eq_some_iff.mp taken
      obtain ⟨⟨later, blacklist⟩, served, last⟩ := Option.bind_eq_some_iff.mp processed
      cases last
      refine ⟨?_, files, bound⟩
      rw [countP_endsPass calls rfl]
      exact passes
  | finish index =>
      obtain ⟨handler, -, rest⟩ := Option.bind_eq_some_iff.mp taken
      split at rest
      case isFalse => cases rest
      case isTrue =>
        cases rest
        refine ⟨?_, files, bound⟩
        rw [countP_endsPass calls rfl]
        exact passes

/-- No more passes are handled than requests. -/
theorem tally_passes_le (requests : List Request) :
    tally Request.passes requests ≤ requests.length := by
  induction requests with
  | nil => exact Nat.le_refl 0
  | cons request rest inductionHypothesis =>
      have one : request.passes ≤ 1 := by
        unfold Request.passes
        split
        · exact Nat.le_refl 1
        · exact Nat.zero_le 1
      rw [tally_cons, List.length_cons]
      omega

end Wear

/-! ### Every run -/

variable {config : Config} {memory : Fin count → Nat → Entry}
  {calls : List (ClusterCall count threads)} {last : Cluster count threads}

/-- A backend bans 192.168.1.1 and reports it. -/
def bansClient (index : Fin 2) : List (ClusterCall 2 1) :=
  [.startBatch 0, .message 0 0 .succeed ⟨afInet, 0x0101A8C0, 0⟩,
    .message 0 1 .succeed ⟨afInet, 0x0101A8C0, 1⟩, .push 0 .succeed, .endBatch 0].map
      (.backend index)

/-- Both backends ban the client, and the first one has lifted its ban. -/
def liftedOnce : List (ClusterCall 2 1) :=
  bansClient 0 ++ [.deliver 0 true true, .processEntry 0 true, .finish 0] ++ bansClient 1 ++
    [.deliver 0 true true, .processEntry 0 true, .finish 0, .backend 0 (.cut 102),
      .backend 0 (.unban 102 .succeed), .backend 0 .endSweep, .deliver 0 true true]

/-- In every order of the steps, whoever is banned, the intervention server handles the
requests of at most half as many passes of unban threads as it may open files.  Those of
all other passes are lost or still on their way. -/
theorem passesHandled_run {limit : Nat}
    (run : Run (Cluster.step config) (Cluster.WithinLimit limit)
      (.started count threads config memory) calls last) :
    tally Request.passes last.handled ≤ limit / 2 ∧
      calls.countP ClusterCall.endsPass = tally Request.passes last.handled +
        tally Request.passes last.inFlight + tally Request.passes last.lost := by
  have wears : last.Wears limit ([] ++ calls) :=
    run.invariant_calls (fun _ _ _ _ wears within taken => wears.step within taken)
      ⟨rfl, fun _ => rfl, Nat.zero_le _⟩
  rw [List.nil_append] at wears
  refine ⟨?_, wears.passes⟩
  have handled := tally_passes_le last.handled
  have bound := wears.bound
  omega

/-- The first backend bans a client; the second one, with nothing to do, makes a pass
that is handled and one for which there is no room for the maps. -/
def idlePasses : List (ClusterCall 2 1) :=
  bansClient 0 ++ [.deliver 0 true true, .backend 1 (.cut 0), .backend 1 .endSweep,
    .deliver 0 true true, .backend 1 (.cut 1), .backend 1 .endSweep, .deliver 0 false true]

/-- The second idle pass ends an intervention server that may open four files. -/
theorem passesHandled_run_idle : ∃ last,
    Run (Cluster.step twoMessages) (Cluster.WithinLimit 4)
      (.started 2 1 twoMessages fun _ _ => .zero) idlePasses last ∧
    last.running = false ∧ last.handled.length = 2 ∧ tally Request.passes last.handled = 1 ∧
    tally Request.passes last.handled ≤ 4 / 2 ∧
    idlePasses.countP ClusterCall.endsPass = tally Request.passes last.handled +
      tally Request.passes last.inFlight + tally Request.passes last.lost := by
  have executed : (Run.exec (Cluster.step twoMessages) (Cluster.WithinLimit 4)
      (.started 2 1 twoMessages fun _ _ => .zero) idlePasses).any (fun last =>
        decide (last.running = false ∧ last.handled.length = 2 ∧
          tally Request.passes last.handled = 1)) = true := by
    unfold Cluster.started Backend.started
    simp only [Table.ipHashtableInit_eq]
    decide +kernel
  obtain ⟨last, run, final⟩ := Run.of_exec_any executed
  obtain ⟨stopped, handled, passes⟩ := of_decide_eq_true final
  exact ⟨last, run, stopped, handled, passes, passesHandled_run run⟩

end FipsIpc.IpsAction
