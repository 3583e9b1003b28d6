import FipsIpc.Sf2b.Consistency

/-!
Contract: the ban threads and the unban thread of `programs/sf2b`, interleaved.

Owns: the steps a ban thread takes for a message, the steps of `get_unban_list`
and of the loop behind it, the system of any number of ban threads, the unban
thread and the clock, and which nodes are detached too early.

Every step but `unban` accesses shared data at most once: the clock, the hash
table, the banned list under its lock, or a map.  `unban` takes a client out of
its map, reads the clock and resets the count in the table in one step.  A thread
reads the clock when it begins a message and pushes the node with that reading
some steps later.  After the head of the list `get_unban_list` walks without the
lock; nodes are only pushed in front, so its place is the number of nodes from
`iterator` to the end.

Does not own: receiving messages.
-/

set_option autoImplicit false

namespace FipsIpc.Sf2b

open FipsIpc.Lib
open FipsIpc.IpHashtable

/-! ### A ban thread -/

/-- Where a ban thread is in the body of the loop of `ban_clients`. -/
inductive ThreadState where
  | waiting
  | read (ts batchTimestamp : Int) (message : Message)
  | reached (ts : Int) (message : Message) (address : Address)
  | pushed (message : Message) (address : Address)
  | refused (message : Message)

/-- The next access of a thread that handles a message. -/
def threadStep (config : Config) (answers : BanAnswers) :
    ThreadState → Server → Option (ThreadState × Server)
  | .waiting, _ => none
  | .read ts batchTimestamp message, server =>
      if ts - batchTimestamp > config.findtime then
        some (.waiting, { server with tooOld := server.tooOld + 1 })
      else
        match Address.ofArguments (some message.ipAddr) message.domain with
        | none => some (.waiting, server)
        | some address =>
            if isWhitelisted config address then some (.waiting, server)
            else do
              let (retval, htable) ← server.htable.ipHashtableInsert answers.insert
                (some message.ipAddr) message.domain message.timestamp
              let server := { server with htable := htable }
              if retval < 1 then some (.waiting, server)
              else if retval = config.limit then some (.reached ts message address, server)
              else some (.waiting, server)
  | .reached ts message address, server =>
      let pushed := ipLlistPush answers.push server.bannedList ⟨address, ts⟩
      let server := { server with bannedList := pushed.2 }
      if pushed.1 < 0 then some (.waiting, server) else some (.pushed message address, server)
  | .pushed message address, server =>
      let updated := bpfMapUpdateElem answers.update server.blacklist address
      let server := { server with blacklist := updated.2 }
      if updated.1 ≠ exitOk then some (.refused message, server)
      else some (.waiting, { server with banCount := server.banCount + 1 })
  | .refused message, server => do
      let (_, htable) ← server.htable.ipHashtableSet answers.set (some message.ipAddr)
        message.domain (UInt32.ofNat (config.limit - 1)) message.timestamp
      some (.waiting, { server with htable := htable })

/-- A thread that nobody interrupts. -/
def threadFinish (config : Config) (answers : BanAnswers) :
    (steps : Nat) → ThreadState → Server → Option Server
  | _, .waiting, server => some server
  | 0, _, _ => none
  | steps + 1, state, server => do
      let (state, server) ← threadStep config answers state server
      threadFinish config answers steps state server

theorem threadFinish_banClient (config : Config) (ts : Int) (answers : BanAnswers)
    (message : Message) (address : Address) (server : Server) :
    threadFinish config answers 3 (.reached ts message address) server =
      banClient config ts answers message address server := by
  simp only [threadFinish, threadStep, banClient, Option.bind_eq_bind]
  by_cases failed : (ipLlistPush answers.push server.bannedList ⟨address, ts⟩).1 < 0
  · rw [if_pos failed, if_pos failed]
    rfl
  · rw [if_neg failed, if_neg failed]
    simp only [Option.bind_some, threadFinish, threadStep, Option.bind_eq_bind]
    by_cases refused : (bpfMapUpdateElem answers.update server.blacklist address).1 ≠ exitOk
    · rw [if_pos refused, if_pos refused]
      simp only [Option.bind_some, threadFinish, threadStep, Option.bind_eq_bind,
        Option.bind_assoc]
    · rw [if_neg refused, if_neg refused]
      rfl

/-- The steps of a message, taken in one go, are the message. -/
theorem threadFinish_banMessage (config : Config) (ts batchTimestamp : Int)
    (answers : BanAnswers) (message : Message) (server : Server) :
    threadFinish config answers 4 (.read ts batchTimestamp message) server =
      banMessage config ts batchTimestamp answers message server := by
  simp only [threadFinish, threadStep, banMessage, Option.bind_eq_bind]
  by_cases old : ts - batchTimestamp > config.findtime
  · rw [if_pos old, if_pos old]
    rfl
  · rw [if_neg old, if_neg old]
    cases Address.ofArguments (some message.ipAddr) message.domain with
    | none => rfl
    | some address =>
        dsimp only
        by_cases listed : isWhitelisted config address = true
        · rw [if_pos listed, if_pos listed]
          rfl
        · rw [if_neg listed, if_neg listed, Option.bind_assoc]
          refine Option.bind_congr fun served _ => ?_
          by_cases failed : served.1 < 1
          · rw [if_pos failed, if_pos failed]
            rfl
          · rw [if_neg failed, if_neg failed]
            by_cases reached : served.1 = config.limit
            · rw [if_pos reached, if_pos reached]
              exact threadFinish_banClient config ts answers message address _
            · rw [if_neg reached, if_neg reached]
              rfl

/-! ### The system -/

/-- Where the unban thread is. -/
inductive SweepState where
  | idle
  | read (ts : Int)
  | walking (ts : Int) (left : Nat)
  | unbanning (nodes : List Node)
  | stopped

/-- How the mutex of the banned list answers. -/
inductive LockAnswer where
  | succeed
  | lockFails
  | unlockFails
deriving DecidableEq, Repr

/-- `detached` records what `get_unban_list` returned, with the reading of its
sweep. -/
structure System where
  server : Server
  clock : Int
  threads : Nat → ThreadState
  sweep : SweepState
  detached : List (Int × List Node)

inductive SystemCall where
  | tick (now : Int)
  | begin (thread : Nat) (batchTimestamp : Int) (message : Message)
  | work (thread : Nat) (answers : BanAnswers)
  | sweepRead
  | sweepHead (answer : LockAnswer)
  | sweepNext
  | unban (answers : Answers)

namespace System

/-- `get_unban_list` under the lock. -/
def sweepHead (config : Config) (answer : LockAnswer) (system : System) (ts : Int) : System :=
  if answer = .lockFails then { system with sweep := .stopped }
  else
    match system.server.bannedList with
    | [] => { system with sweep := if answer = .unlockFails then .stopped else .idle }
    | head :: rest =>
        if head.expired config ts then
          -- after a failed unlock nothing is returned and the nodes are lost
          let emptied := { system with server := { system.server with bannedList := [] } }
          if answer = .unlockFails then { emptied with sweep := .stopped }
          else
            { emptied with
              sweep := .unbanning (head :: rest)
              detached := (ts, head :: rest) :: system.detached }
        else if answer = .unlockFails then { system with sweep := .stopped }
        else { system with sweep := .walking ts rest.length }

/-- One round of the walk; `left` nodes are not looked at yet. -/
def sweepNext (config : Config) (system : System) (ts : Int) (left : Nat) : System :=
  let list := system.server.bannedList
  match list.drop (list.length - left) with
  | [] => { system with sweep := .idle }
  | iterator :: rest =>
      if iterator.expired config ts then
        { system with
          server := { system.server with bannedList := list.take (list.length - left) }
          sweep := .unbanning (iterator :: rest)
          detached := (ts, iterator :: rest) :: system.detached }
      else { system with sweep := .walking ts (left - 1) }

/-- A call of one of the threads; nothing when the thread is not at that place. -/
def step (config : Config) (system : System) : SystemCall → Option System
  | .tick now => some { system with clock := now }
  | .begin thread batchTimestamp message =>
      match system.threads thread with
      | .waiting =>
          some { system with
            threads := Function.update system.threads thread
              (.read system.clock batchTimestamp message) }
      | _ => none
  | .work thread answers => do
      let (state, server) ← threadStep config answers (system.threads thread) system.server
      some { system with
        server := server
        threads := Function.update system.threads thread state }
  | .sweepRead =>
      match system.sweep with
      | .idle => some { system with sweep := .read system.clock }
      | _ => none
  | .sweepHead answer =>
      match system.sweep with
      | .read ts => some (system.sweepHead config answer ts)
      | _ => none
  | .sweepNext =>
      match system.sweep with
      | .walking ts left => some (system.sweepNext config ts left)
      | _ => none
  | .unban answers =>
      match system.sweep with
      | .unbanning [] => some { system with sweep := .idle }
      | .unbanning (node :: rest) => do
          let server ← unbanNodes [node] (fun _ => (system.clock, answers)) system.server
          some { system with server := server, sweep := .unbanning rest }
      | _ => none

/-- After `main` has started the threads. -/
def started (config : Config) (memory : Nat → Entry) (clock : Int) : System :=
  ⟨.started config memory, clock, fun _ => .waiting, .idle, []⟩

/-- The clock does not go back. -/
def Permitted (system : System) : SystemCall → Prop
  | .tick now => system.clock ≤ now
  | _ => True

/-- Every detached node has been banned for more than `bantime`. -/
def NoEarlyUnban (config : Config) (system : System) : Prop :=
  ∀ sweep ∈ system.detached, ∀ node ∈ sweep.2, sweep.1 - node.timestamp > config.bantime

/-- The call pushes no node in front of one with a later timestamp. -/
def InOrder (system : System) : SystemCall → Prop
  | .work thread _ =>
      match system.threads thread with
      | .reached ts _ _ => ∀ node ∈ system.server.bannedList, node.timestamp ≤ ts
      | _ => True
  | _ => True

/-! ### What a call does -/

/-- The calls that return, with the place of their thread and the state behind. -/
inductive Taken (config : Config) (system : System) : SystemCall → System → Prop where
  | tick (now : Int) : Taken config system (.tick now) { system with clock := now }
  | begin {thread : Nat} (batchTimestamp : Int) (message : Message)
      (place : system.threads thread = .waiting) :
      Taken config system (.begin thread batchTimestamp message)
        { system with
          threads := Function.update system.threads thread
            (.read system.clock batchTimestamp message) }
  | work {thread : Nat} {answers : BanAnswers} {state : ThreadState} {server : Server}
      (worked : threadStep config answers (system.threads thread) system.server =
        some (state, server)) :
      Taken config system (.work thread answers)
        { system with
          server := server
          threads := Function.update system.threads thread state }
  | sweepRead (place : system.sweep = .idle) :
      Taken config system .sweepRead { system with sweep := .read system.clock }
  | sweepHead (answer : LockAnswer) {ts : Int} (place : system.sweep = .read ts) :
      Taken config system (.sweepHead answer) (system.sweepHead config answer ts)
  | sweepNext {ts : Int} {left : Nat} (place : system.sweep = .walking ts left) :
      Taken config system .sweepNext (system.sweepNext config ts left)
  | finish (answers : Answers) (place : system.sweep = .unbanning []) :
      Taken config system (.unban answers) { system with sweep := .idle }
  | unban {answers : Answers} {node : Node} {rest : List Node} {server : Server}
      (place : system.sweep = .unbanning (node :: rest))
      (unbanned : unbanNodes [node] (fun _ => (system.clock, answers)) system.server =
        some server) :
      Taken config system (.unban answers)
        { system with server := server, sweep := .unbanning rest }

theorem step_taken {config : Config} {system next : System} {call : SystemCall}
    (returned : system.step config call = some next) : Taken config system call next := by
  cases call with
  | tick now =>
      cases returned
      exact .tick now
  | work thread answers =>
      obtain ⟨⟨state, server⟩, worked, rest⟩ := Option.bind_eq_some_iff.mp returned
      cases rest
      exact .work worked
  | begin thread batchTimestamp message =>
      unfold step at returned
      dsimp only at returned
      split at returned
      case h_1 place =>
        cases returned
        exact .begin batchTimestamp message place
      case h_2 => cases returned
  | sweepRead =>
      unfold step at returned
      dsimp only at returned
      split at returned
      case h_1 place =>
        cases returned
        exact .sweepRead place
      case h_2 => cases returned
  | sweepHead answer =>
      unfold step at returned
      dsimp only at returned
      split at returned
      case h_1 ts place =>
        cases returned
        exact .sweepHead answer place
      case h_2 => cases returned
  | sweepNext =>
      unfold step at returned
      dsimp only at returned
      split at returned
      case h_1 ts left place =>
        cases returned
        exact .sweepNext place
      case h_2 => cases returned
  | unban answers =>
      unfold step at returned
      dsimp only at returned
      split at returned
      case h_1 place =>
        cases returned
        exact .finish answers place
      case h_2 node rest place =>
        obtain ⟨server, unbanned, kept⟩ := Option.bind_eq_some_iff.mp returned
        cases kept
        exact .unban place unbanned
      case h_3 => cases returned

/-! ### The list -/

/-- The nodes on the list and those cut from it. -/
inductive ListChange (config : Config) (system next : System) (call : SystemCall) : Prop where
  | same (list : next.server.bannedList = system.server.bannedList)
      (detached : next.detached = system.detached)
  | push (thread : Nat) (answers : BanAnswers) (ts : Int) (message : Message)
      (address : Address) (worker : call = .work thread answers)
      (place : system.threads thread = .reached ts message address)
      (list : next.server.bannedList = ⟨address, ts⟩ :: system.server.bannedList)
      (detached : next.detached = system.detached)
  | cut (ts : Int) (kept : List Node) (first : Node) (behind : List Node)
      (whole : system.server.bannedList = kept ++ first :: behind)
      (list : next.server.bannedList = kept)
      (expired : first.expired config ts = true)
      (detached : next.detached = system.detached ∨
        next.detached = (ts, first :: behind) :: system.detached)

/-- The reading a thread still needs. -/
def reading : ThreadState → Option Int
  | .read ts _ _ => some ts
  | .reached ts _ _ => some ts
  | _ => none

/-- A thread changes the list only by its push, and its reading stands until
then. -/
theorem threadStep_cases {config : Config} {answers : BanAnswers} {state nextState : ThreadState}
    {server next : Server}
    (taken : threadStep config answers state server = some (nextState, next)) :
    (next.bannedList = server.bannedList ∧
      (reading nextState = none ∨ reading nextState = reading state)) ∨
    ∃ ts message address, state = .reached ts message address ∧
      next.bannedList = ⟨address, ts⟩ :: server.bannedList ∧ reading nextState = none := by
  cases state with
  | waiting => cases taken
  | read ts batchTimestamp message =>
      left
      rw [threadStep] at taken
      split at taken
      case isTrue =>
        cases taken
        exact ⟨rfl, Or.inl rfl⟩
      case isFalse =>
        split at taken
        case h_1 =>
          cases taken
          exact ⟨rfl, Or.inl rfl⟩
        case h_2 address _ =>
          split at taken
          case isTrue =>
            cases taken
            exact ⟨rfl, Or.inl rfl⟩
          case isFalse =>
            obtain ⟨served, -, rest⟩ := Option.bind_eq_some_iff.mp taken
            dsimp only at rest
            split at rest
            case isTrue =>
              cases rest
              exact ⟨rfl, Or.inl rfl⟩
            case isFalse =>
              split at rest
              case isTrue =>
                cases rest
                exact ⟨rfl, Or.inr rfl⟩
              case isFalse =>
                cases rest
                exact ⟨rfl, Or.inl rfl⟩
  | reached ts message address =>
      have pushes : next.bannedList =
          (ipLlistPush answers.push server.bannedList ⟨address, ts⟩).2 ∧
          reading nextState = none := by
        unfold threadStep at taken
        dsimp only at taken
        split at taken
        all_goals
          cases taken
          exact ⟨rfl, rfl⟩
      rw [pushes.1]
      cases answers.push with
      | succeed => exact Or.inr ⟨ts, message, address, rfl, rfl, pushes.2⟩
      | noMemory => exact Or.inl ⟨rfl, Or.inl pushes.2⟩
      | lockFails => exact Or.inl ⟨rfl, Or.inl pushes.2⟩
      | unlockFails => exact Or.inr ⟨ts, message, address, rfl, rfl, pushes.2⟩
  | pushed message address =>
      left
      unfold threadStep at taken
      dsimp only at taken
      split at taken
      all_goals
        cases taken
        exact ⟨rfl, Or.inl rfl⟩
  | refused message =>
      left
      obtain ⟨served, -, rest⟩ := Option.bind_eq_some_iff.mp taken
      cases rest
      exact ⟨rfl, Or.inl rfl⟩

theorem sweepHead_listChange (config : Config) (answer : LockAnswer) (system : System) (ts : Int)
    (call : SystemCall) : ListChange config system (system.sweepHead config answer ts) call := by
  unfold sweepHead
  split
  case isTrue => exact .same rfl rfl
  case isFalse =>
    split
    case h_1 => exact .same rfl rfl
    case h_2 head rest whole =>
      split
      case isTrue expired =>
        have cutAll : system.server.bannedList = [] ++ head :: rest := whole
        dsimp only
        split
        case isTrue => exact .cut ts [] head rest cutAll rfl expired (Or.inl rfl)
        case isFalse => exact .cut ts [] head rest cutAll rfl expired (Or.inr rfl)
      case isFalse =>
        split
        all_goals exact .same rfl rfl

theorem sweepNext_listChange (config : Config) (system : System) (ts : Int) (left : Nat)
    (call : SystemCall) : ListChange config system (system.sweepNext config ts left) call := by
  unfold sweepNext
  dsimp only
  split
  case h_1 => exact .same rfl rfl
  case h_2 iterator rest behind =>
    split
    case isTrue expired =>
      have whole : system.server.bannedList =
          system.server.bannedList.take (system.server.bannedList.length - left) ++
            iterator :: rest := by
        rw [← behind, List.take_append_drop]
      exact .cut ts _ iterator rest whole rfl expired (Or.inr rfl)
    case isFalse => exact .same rfl rfl

/-- Every call leaves the list, pushes one node, or cuts the list at a node that
has expired. -/
theorem step_listChange {config : Config} {system next : System} {call : SystemCall}
    (taken : system.step config call = some next) : ListChange config system next call := by
  cases step_taken taken with
  | tick | begin | sweepRead | finish => exact .same rfl rfl
  | work worked =>
      rcases threadStep_cases worked with ⟨list, -⟩ | ⟨ts, message, address, place, list, -⟩
      · exact .same list rfl
      · exact .push _ _ ts message address rfl place list rfl
  | sweepHead answer => exact sweepHead_listChange config answer system _ _
  | sweepNext => exact sweepNext_listChange config system _ _ _
  | unban place unbanned => exact .same (unbanNodes_spec unbanned).1 rfl

/-! ### Order -/

/-- The list goes from later to earlier bans. -/
def Ordered (list : List Node) : Prop :=
  list.Pairwise fun front behind => behind.timestamp ≤ front.timestamp

/-- The list is ordered, and nothing was detached early. -/
structure Timely (config : Config) (system : System) : Prop where
  ordered : Ordered system.server.bannedList
  noEarlyUnban : system.NoEarlyUnban config

/-- Behind an expired node of an ordered list all nodes have expired. -/
theorem expired_behind {config : Config} {ts : Int} {first : Node} {behind : List Node}
    (ordered : Ordered (first :: behind)) (expired : first.expired config ts = true) :
    ∀ node ∈ first :: behind, ts - node.timestamp > config.bantime := by
  have elapsed : ts - first.timestamp > config.bantime := of_decide_eq_true expired
  intro node member
  rcases List.mem_cons.mp member with same | later
  · rw [same]
    exact elapsed
  · have earlier := (List.pairwise_cons.mp ordered).1 node later
    omega

theorem Timely.step {config : Config} {system next : System} {call : SystemCall}
    (timely : system.Timely config) (inOrder : system.InOrder call)
    (taken : system.step config call = some next) : next.Timely config := by
  cases step_listChange taken with
  | same list detached =>
      exact ⟨list ▸ timely.ordered, by rw [NoEarlyUnban, detached]; exact timely.noEarlyUnban⟩
  | push thread answers ts message address worker place list detached =>
      subst worker
      unfold InOrder at inOrder
      dsimp only at inOrder
      rw [place] at inOrder
      refine ⟨?_, by rw [NoEarlyUnban, detached]; exact timely.noEarlyUnban⟩
      rw [list]
      exact List.pairwise_cons.mpr ⟨inOrder, timely.ordered⟩
  | cut ts kept first behind whole list expired detached =>
      have split := timely.ordered
      rw [whole] at split
      obtain ⟨front, back, -⟩ := List.pairwise_append.mp split
      refine ⟨list ▸ front, ?_⟩
      rcases detached with lost | recorded
      · rw [NoEarlyUnban, lost]
        exact timely.noEarlyUnban
      · rw [NoEarlyUnban, recorded]
        intro sweep member
        rcases List.mem_cons.mp member with same | earlier
        · rw [same]
          exact expired_behind back expired
        · exact timely.noEarlyUnban sweep earlier

theorem Timely.started (config : Config) (memory : Nat → Entry) (clock : Int) :
    (System.started config memory clock).Timely config :=
  ⟨List.Pairwise.nil, fun _ member => absurd member List.not_mem_nil⟩

/-- No node is unbanned early in any interleaving in which nodes are pushed in
the order of their timestamps. -/
theorem noEarlyUnban_run {config : Config} {memory : Nat → Entry} {clock : Int}
    {calls : List SystemCall} {last : System}
    (run : Run (step config) (fun system call => system.Permitted call ∧ system.InOrder call)
      (started config memory clock) calls last) :
    last.NoEarlyUnban config :=
  (run.invariant (fun _ _ _ timely allowed taken => timely.step allowed.2 taken)
    (Timely.started config memory clock)).noEarlyUnban

instance (system : System) (call : SystemCall) : Decidable (system.Permitted call) :=
  match call with
  | .tick now => inferInstanceAs (Decidable (system.clock ≤ now))
  | .begin _ _ _ | .work _ _ | .sweepRead | .sweepHead _ | .sweepNext | .unban _ =>
      inferInstanceAs (Decidable True)

instance (system : System) (call : SystemCall) : Decidable (system.InOrder call) :=
  match call with
  | .work thread _ =>
      match place : system.threads thread with
      | .reached ts _ _ =>
          decidable_of_iff (∀ node ∈ system.server.bannedList, node.timestamp ≤ ts)
            (by simp only [InOrder, place])
      | .waiting | .read _ _ _ | .pushed _ _ | .refused _ =>
          isTrue (by simp only [InOrder, place])
  | .tick _ | .begin _ _ _ | .sweepRead | .sweepHead _ | .sweepNext | .unban _ =>
      inferInstanceAs (Decidable True)

instance (config : Config) (system : System) : Decidable (system.NoEarlyUnban config) :=
  inferInstanceAs (Decidable (∀ sweep ∈ system.detached, ∀ node ∈ sweep.2, _ > _))

theorem oneMessage_lt : 1 < 2 ^ 16 := by decide

/-- Every client is banned for 100 seconds after one message. -/
def firstMessage : Config := { twoMessages with limit := 1, limit_lt := oneMessage_lt }

/-- Two clients are banned by two threads, the second of which pushes first;
the sweep comes 101 seconds after the first reading. -/
def overtaking (second : Int) : List SystemCall :=
  [.begin 0 0 ⟨afInet, 0x0101A8C0, 0⟩, .tick second,
    .begin 1 second ⟨afInet, 0x0201A8C0, second⟩, .work 1 allSucceed, .work 1 allSucceed,
    .work 1 allSucceed, .work 0 allSucceed, .work 0 allSucceed, .work 0 allSucceed,
    .tick 101, .sweepRead, .sweepHead .succeed, .unban .succeed, .unban .succeed, .unban .succeed]

theorem noEarlyUnban_run_same_second : ∃ last,
    Run (step firstMessage) (fun system call => system.Permitted call ∧ system.InOrder call)
      (started firstMessage (fun _ => .zero) 0) (overtaking 0) last ∧
    last.detached.map (fun sweep => sweep.2.length) = [2] ∧
    last.NoEarlyUnban firstMessage := by
  have run : ∃ last, Run (step firstMessage)
      (fun system call => system.Permitted call ∧ system.InOrder call)
      (started firstMessage (fun _ => .zero) 0) (overtaking 0) last ∧
      (last.detached.map (fun sweep => sweep.2.length) = [2] : Bool) = true := by
    rw [started, Server.started, Table.ipHashtableInit_eq]
    exact Run.of_exec_any (by decide +kernel)
  obtain ⟨last, run, count⟩ := run
  exact ⟨last, run, of_decide_eq_true count, noEarlyUnban_run run⟩

theorem earlyUnban_overtaking : ∃ last,
    Run (step firstMessage) (fun system call => system.Permitted call)
      (started firstMessage (fun _ => .zero) 0) (overtaking 50) last ∧
    ¬last.NoEarlyUnban firstMessage := by
  have run : ∃ last, Run (step firstMessage) (fun system call => system.Permitted call)
      (started firstMessage (fun _ => .zero) 0) (overtaking 50) last ∧
      decide (¬last.NoEarlyUnban firstMessage) = true := by
    rw [started, Server.started, Table.ipHashtableInit_eq]
    exact Run.of_exec_any (by decide +kernel)
  obtain ⟨last, run, early⟩ := run
  exact ⟨last, run, of_decide_eq_true early⟩

/-! ### Sweeps without interruption -/

section Uninterrupted

variable {config : Config} {system : System}

/-- The nodes a sweep keeps. -/
abbrev notExpired (config : Config) (ts : Int) (node : Node) : Bool := !node.expired config ts

/-- The walk detaches the nodes from the first expired one on. -/
theorem walk_detaches {rest : List Node} {ts : Int} {left : Nat}
    (walking : system.sweep = .walking ts left)
    (behind : system.server.bannedList.drop (system.server.bannedList.length - left) = rest)
    (count : rest.length = left) (cut : rest.dropWhile (notExpired config ts) ≠ []) :
    ∃ calls last, Run (System.step config) (fun system call => system.Permitted call) system
      calls last ∧
      last.server.bannedList =
        system.server.bannedList.take (system.server.bannedList.length - left) ++
          rest.takeWhile (notExpired config ts) ∧
      last.detached = (ts, rest.dropWhile (notExpired config ts)) :: system.detached := by
  induction rest generalizing system left with
  | nil => exact absurd rfl cut
  | cons iterator rest inductionHypothesis =>
      have taken : system.step config .sweepNext = some (system.sweepNext config ts left) := by
        unfold System.step
        rw [walking]
      unfold System.sweepNext at taken
      dsimp only at taken
      rw [behind] at taken
      dsimp only at taken
      by_cases expired : iterator.expired config ts = true
      · rw [if_pos expired] at taken
        have stops : ¬notExpired config ts iterator = true := by simp [expired]
        rw [List.takeWhile_cons_of_neg stops, List.dropWhile_cons_of_neg stops, List.append_nil]
        exact ⟨[.sweepNext], _, Run.single trivial taken, rfl, rfl⟩
      · rw [if_neg expired] at taken
        have passes : notExpired config ts iterator = true := by simpa using expired
        rw [List.dropWhile_cons_of_pos passes] at cut ⊢
        rw [List.takeWhile_cons_of_pos passes]
        have fits : left ≤ system.server.bannedList.length := by
          have total := congrArg List.length behind
          rw [List.length_drop, count] at total
          omega
        have positive : 0 < left := by
          rw [← count]
          exact Nat.succ_pos _
        have one : system.server.bannedList.length - (left - 1) =
            system.server.bannedList.length - left + 1 := by omega
        have later : system.server.bannedList.drop
            (system.server.bannedList.length - (left - 1)) = rest := by
          rw [one, ← List.tail_drop, behind]
          rfl
        have front : system.server.bannedList.take
            (system.server.bannedList.length - (left - 1)) =
              system.server.bannedList.take (system.server.bannedList.length - left) ++
                [iterator] := by
          rw [one, List.take_add, behind]
          rfl
        have shorter : rest.length = left - 1 := by
          rw [← count]
          rfl
        obtain ⟨calls, last, run, list, detached⟩ :=
          @inductionHypothesis { system with sweep := .walking ts (left - 1) } (left - 1) rfl
            later shorter cut
        refine ⟨.sweepNext :: calls, last, .cons trivial taken run, ?_, detached⟩
        rw [list]
        dsimp only
        rw [front, List.append_assoc]
        rfl

/-- A sweep that nobody interrupts is `get_unban_list` in one go. -/
theorem sweep_detaches (idle : system.sweep = .idle)
    (cut : (getUnbanList config system.clock system.server.bannedList).2 ≠ []) :
    ∃ calls last, Run (System.step config) (fun system call => system.Permitted call) system
      calls last ∧
      last.server.bannedList = (getUnbanList config system.clock system.server.bannedList).1 ∧
      last.detached =
        (system.clock, (getUnbanList config system.clock system.server.bannedList).2) ::
          system.detached := by
  unfold getUnbanList at cut ⊢
  rw [List.span_eq_takeWhile_dropWhile] at cut ⊢
  dsimp only at cut ⊢
  let ready : System := { system with sweep := .read system.clock }
  have reads : system.step config .sweepRead = some ready := by
    unfold System.step
    rw [idle]
  have heads : ready.step config (.sweepHead .succeed) =
      some (ready.sweepHead config .succeed system.clock) := rfl
  cases whole : system.server.bannedList with
  | nil =>
      rw [whole] at cut
      exact absurd rfl cut
  | cons head rest =>
      rw [whole] at cut
      have same : ready.server.bannedList = head :: rest := whole
      unfold System.sweepHead at heads
      rw [if_neg (by decide), same] at heads
      dsimp only at heads
      by_cases expired : head.expired config system.clock = true
      · rw [if_pos expired, if_neg (by decide)] at heads
        have stops : ¬notExpired config system.clock head = true := by simp [expired]
        rw [List.takeWhile_cons_of_neg stops, List.dropWhile_cons_of_neg stops]
        exact ⟨[.sweepRead, .sweepHead .succeed], _,
          .cons trivial reads (.cons trivial heads (.nil _)), rfl, rfl⟩
      · rw [if_neg expired, if_neg (by decide)] at heads
        have passes : notExpired config system.clock head = true := by simpa using expired
        rw [List.dropWhile_cons_of_pos passes] at cut ⊢
        rw [List.takeWhile_cons_of_pos passes]
        have later : system.server.bannedList.drop
            (system.server.bannedList.length - rest.length) = rest := by
          rw [whole, List.length_cons, Nat.add_sub_cancel_left]
          rfl
        obtain ⟨calls, last, run, list, detached⟩ :=
          @walk_detaches config { system with sweep := .walking system.clock rest.length } rest
            system.clock rest.length rfl later rfl cut
        refine ⟨.sweepRead :: .sweepHead .succeed :: calls, last,
          .cons trivial reads (.cons trivial heads run), ?_, detached⟩
        rw [list]
        dsimp only
        rw [whole, List.length_cons, Nat.add_sub_cancel_left]
        rfl

theorem mem_dropWhile_behind {p : Node → Bool} {front behind : List Node} {first node : Node}
    (stops : p first = false) (member : node ∈ behind) :
    node ∈ (front ++ first :: behind).dropWhile p := by
  induction front with
  | nil =>
      rw [List.nil_append, List.dropWhile_cons_of_neg (by simp [stops])]
      exact List.mem_cons_of_mem first member
  | cons head front inductionHypothesis =>
      rw [List.cons_append]
      by_cases passes : p head = true
      · rw [List.dropWhile_cons_of_pos passes]
        exact inductionHypothesis
      · rw [List.dropWhile_cons_of_neg passes]
        exact List.mem_cons_of_mem head
          (List.mem_append_right front (List.mem_cons_of_mem first member))

/-- A node behind one with an earlier timestamp is detached early when the next
sweep comes at the right time. -/
theorem earlyUnban_overtaken (idle : system.sweep = .idle) {front behind : List Node}
    {early late : Node} (list : system.server.bannedList = front ++ early :: behind)
    (overtaken : late ∈ behind) (order : early.timestamp < late.timestamp)
    (banned : system.clock - late.timestamp ≤ config.bantime) :
    ∃ calls last, Run (System.step config) (fun system call => system.Permitted call) system
      calls last ∧ ¬last.NoEarlyUnban config := by
  let now : Int := late.timestamp + config.bantime
  have forward : system.clock ≤ now := Int.le_add_of_sub_left_le banned
  let later : System := { system with clock := now }
  have cutMember : late ∈ (getUnbanList config now later.server.bannedList).2 := by
    unfold getUnbanList
    rw [List.span_eq_takeWhile_dropWhile]
    have expired : early.expired config now = true := by
      refine decide_eq_true ?_
      change late.timestamp + config.bantime - early.timestamp > config.bantime
      omega
    have whole : later.server.bannedList = front ++ early :: behind := list
    rw [whole]
    exact mem_dropWhile_behind (by simp [expired]) overtaken
  obtain ⟨calls, last, run, -, detached⟩ :=
    @sweep_detaches config later idle (List.ne_nil_of_mem cutMember)
  have ticks : system.step config (.tick now) = some later := rfl
  refine ⟨.tick now :: calls, last, .cons forward ticks run, fun timely => ?_⟩
  have elapsed := timely _ (by rw [detached]; exact List.mem_cons_self) late cutMember
  change now - late.timestamp > config.bantime at elapsed
  change late.timestamp + config.bantime - late.timestamp > config.bantime at elapsed
  omega

end Uninterrupted

/-! ### One ban thread -/

/-- Ban threads other than the first take no steps. -/
def OneThread : SystemCall → Prop
  | .begin thread _ _ => thread = 0
  | .work thread _ => thread = 0
  | _ => True

/-- Readings are not ahead of the clock, and the list is not ahead of the
readings. -/
structure Current (system : System) : Prop where
  list : ∀ node ∈ system.server.bannedList, node.timestamp ≤ system.clock
  read : ∀ ts ∈ reading (system.threads 0), ts ≤ system.clock ∧
    ∀ node ∈ system.server.bannedList, node.timestamp ≤ ts

namespace Current

variable {config : Config} {system next : System}

/-- With one thread the next push is in order. -/
theorem inOrder (current : system.Current) {call : SystemCall} (one : OneThread call) :
    system.InOrder call := by
  cases call with
  | work thread answers =>
      have first : thread = 0 := one
      subst first
      unfold InOrder
      dsimp only
      split
      case h_1 ts message address place =>
        exact (current.read ts (by rw [place]; rfl)).2
      case h_2 => trivial
  | _ => trivial

/-- Sweeps take nodes away. -/
theorem shrink (current : system.Current) (threads : next.threads = system.threads)
    (clock : next.clock = system.clock)
    (list : next.server.bannedList ⊆ system.server.bannedList) : next.Current where
  list := fun node member => clock ▸ current.list node (list member)
  read := by
    intro ts member
    rw [threads] at member
    rw [clock]
    obtain ⟨past, behind⟩ := current.read ts member
    exact ⟨past, fun node kept => behind node (list kept)⟩

theorem sweepHead (current : system.Current) (answer : LockAnswer) (ts : Int) :
    (system.sweepHead config answer ts).Current := by
  unfold System.sweepHead
  split
  case isTrue => exact current.shrink rfl rfl (List.Subset.refl _)
  case isFalse =>
    split
    case h_1 => exact current.shrink rfl rfl (List.Subset.refl _)
    case h_2 head rest whole =>
      split
      case isTrue =>
        dsimp only
        split
        all_goals exact current.shrink rfl rfl (List.nil_subset _)
      case isFalse =>
        split
        all_goals exact current.shrink rfl rfl (List.Subset.refl _)

theorem sweepNext (current : system.Current) (ts : Int) (left : Nat) :
    (system.sweepNext config ts left).Current := by
  unfold System.sweepNext
  dsimp only
  split
  case h_1 => exact current.shrink rfl rfl (List.Subset.refl _)
  case h_2 =>
    split
    case isTrue => exact current.shrink rfl rfl (List.take_subset _ _)
    case isFalse => exact current.shrink rfl rfl (List.Subset.refl _)

/-- A step of the thread itself. -/
theorem work (current : system.Current) {answers : BanAnswers} {state : ThreadState}
    {server : Server}
    (worked : threadStep config answers (system.threads 0) system.server =
      some (state, server)) :
    System.Current { system with
      server := server
      threads := Function.update system.threads 0 state } := by
  rcases threadStep_cases worked with ⟨list, kept⟩ | ⟨ts, message, address, place, list, done⟩
  · refine ⟨fun node member => current.list node (list ▸ member), fun ts member => ?_⟩
    dsimp only at member ⊢
    rw [Function.update_self] at member
    rcases kept with none | same
    · rw [none] at member
      cases member
    · rw [same] at member
      rw [list]
      exact current.read ts member
  · have past := (current.read ts (by rw [place]; rfl)).1
    refine ⟨fun node member => ?_, fun other member => ?_⟩
    · dsimp only at member ⊢
      rw [list] at member
      rcases List.mem_cons.mp member with pushed | old
      · rw [pushed]
        exact past
      · exact current.list node old
    · dsimp only at member
      rw [Function.update_self, done] at member
      cases member

theorem step (current : system.Current) {call : SystemCall} (permitted : system.Permitted call)
    (one : OneThread call) (taken : system.step config call = some next) : next.Current := by
  cases step_taken taken with
  | tick now =>
      have forward : system.clock ≤ now := permitted
      refine ⟨fun node member => Int.le_trans (current.list node member) forward,
        fun ts member => ?_⟩
      obtain ⟨past, behind⟩ := current.read ts member
      exact ⟨Int.le_trans past forward, behind⟩
  | begin batchTimestamp message =>
      have first := one
      subst first
      refine ⟨current.list, fun ts member => ?_⟩
      dsimp only at member ⊢
      rw [Function.update_self] at member
      cases member
      exact ⟨Int.le_refl _, current.list⟩
  | work worked =>
      have first := one
      subst first
      exact current.work worked
  | sweepRead | finish => exact current.shrink rfl rfl (List.Subset.refl _)
  | sweepHead answer => exact current.sweepHead answer _
  | sweepNext => exact current.sweepNext _ _
  | unban place unbanned =>
      have list := (unbanNodes_spec unbanned).1
      exact current.shrink rfl rfl (by dsimp only; rw [list]; exact List.Subset.refl _)

theorem started (config : Config) (memory : Nat → Entry) (clock : Int) :
    (System.started config memory clock).Current :=
  ⟨fun _ member => absurd member List.not_mem_nil, fun _ member => by cases member⟩

end Current

/-- A single ban thread unbans nobody early. -/
theorem oneThread_noEarlyUnban {config : Config} {memory : Nat → Entry} {clock : Int}
    {calls : List SystemCall} {last : System}
    (run : Run (step config) (fun system call => system.Permitted call ∧ OneThread call)
      (started config memory clock) calls last) :
    last.NoEarlyUnban config := by
  have preserved : ∀ (system : System) (call : SystemCall) (next : System),
      system.Current ∧ system.Timely config → system.Permitted call ∧ OneThread call →
      system.step config call = some next → next.Current ∧ next.Timely config := by
    intro system call next holds allowed taken
    exact ⟨holds.1.step allowed.1 allowed.2 taken,
      holds.2.step (holds.1.inOrder allowed.2) taken⟩
  have both := run.invariant preserved
    ⟨Current.started config memory clock, Timely.started config memory clock⟩
  exact both.2.noEarlyUnban

end System

end FipsIpc.Sf2b
