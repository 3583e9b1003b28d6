import FipsIpc.Lib.Census
import FipsIpc.Sf2b.Interleaving

/-!
Contract: the blacklist maps of `programs/sf2b` in the interleaved system.

Owns: what the steps of ban threads and of the unban thread do to the maps and to
the counters of the threads, the balance of the counters, and which nodes stand for
the blocked addresses.

Does not own: the order of the list, and when nodes expire.
-/

set_option autoImplicit false

namespace FipsIpc.Sf2b

open FipsIpc.Lib
open FipsIpc.IpHashtable

/-! ### Maps and counters -/

/-- What happens to the maps and to the counters of bans and unbans. -/
inductive MapChange (server next : Server) : Prop where
  | same (map : next.blacklist = server.blacklist) (bans : next.banCount = server.banCount)
      (unbans : next.unbanCount = server.unbanCount)
  | block (address : Address) (absent : server.blacklist address = false)
      (map : next.blacklist = Function.update server.blacklist address true)
      (bans : next.banCount = server.banCount + 1) (unbans : next.unbanCount = server.unbanCount)
  | unblock (address : Address) (present : server.blacklist address = true)
      (map : next.blacklist = Function.update server.blacklist address false)
      (bans : next.banCount = server.banCount) (unbans : next.unbanCount = server.unbanCount + 1)

/-- The counters are in balance with the maps: every ban that was counted and not
counted as ended blocks one address. -/
def Server.Balanced (server : Server) : Prop :=
  Census server.blacklist server.banCount server.unbanCount

theorem Server.Balanced.change {server next : Server} (balanced : server.Balanced)
    (change : MapChange server next) : next.Balanced := by
  unfold Server.Balanced at balanced ⊢
  cases change with
  | same map bans unbans =>
      rw [map, bans, unbans]
      exact balanced
  | block address absent map bans unbans =>
      rw [map, bans, unbans]
      exact balanced.insert absent
  | unblock address present map bans unbans =>
      rw [map, bans, unbans]
      exact balanced.remove present

theorem bpfMapUpdateElem_cases (accepts : Bool) (blacklist : Address → Bool) (key : Address) :
    ((bpfMapUpdateElem accepts blacklist key).1 = exitOk ∧ blacklist key = false ∧
      (bpfMapUpdateElem accepts blacklist key).2 = Function.update blacklist key true) ∨
    ((bpfMapUpdateElem accepts blacklist key).1 ≠ exitOk ∧
      (bpfMapUpdateElem accepts blacklist key).2 = blacklist) := by
  unfold bpfMapUpdateElem
  by_cases present : blacklist key = true
  · rw [if_pos present]
    refine Or.inr ⟨?_, rfl⟩
    show eexist ≠ exitOk
    decide
  · rw [if_neg present]
    cases accepts with
    | true => exact Or.inl ⟨rfl, by simpa using present, rfl⟩
    | false =>
        refine Or.inr ⟨?_, rfl⟩
        show e2big ≠ exitOk
        decide

/-- A thread changes the maps only behind its push. -/
theorem threadStep_maps {config : Config} {answers : BanAnswers} {state nextState : ThreadState}
    {server next : Server}
    (taken : threadStep config answers state server = some (nextState, next)) :
    (next.blacklist = server.blacklist ∧ next.banCount = server.banCount ∧
      next.unbanCount = server.unbanCount) ∨
    ∃ message address, state = .pushed message address ∧ server.blacklist address = false ∧
      next.blacklist = Function.update server.blacklist address true ∧
      next.banCount = server.banCount + 1 ∧ next.unbanCount = server.unbanCount := by
  cases state with
  | waiting => cases taken
  | read ts batchTimestamp message =>
      left
      rw [threadStep] at taken
      split at taken
      case isTrue =>
        cases taken
        exact ⟨rfl, rfl, rfl⟩
      case isFalse =>
        split at taken
        case h_1 =>
          cases taken
          exact ⟨rfl, rfl, rfl⟩
        case h_2 address _ =>
          split at taken
          case isTrue =>
            cases taken
            exact ⟨rfl, rfl, rfl⟩
          case isFalse =>
            obtain ⟨served, -, rest⟩ := Option.bind_eq_some_iff.mp taken
            dsimp only at rest
            split at rest
            case isTrue =>
              cases rest
              exact ⟨rfl, rfl, rfl⟩
            case isFalse =>
              split at rest
              all_goals
                cases rest
                exact ⟨rfl, rfl, rfl⟩
  | reached ts message address =>
      left
      unfold threadStep at taken
      dsimp only at taken
      split at taken
      all_goals
        cases taken
        exact ⟨rfl, rfl, rfl⟩
  | pushed message address =>
      rw [threadStep] at taken
      rcases bpfMapUpdateElem_cases answers.update server.blacklist address with
        ⟨accepted, absent, map⟩ | ⟨refused, map⟩
      · rw [if_neg (not_not.mpr accepted), map] at taken
        cases taken
        exact Or.inr ⟨message, address, rfl, absent, rfl, rfl, rfl⟩
      · rw [if_pos refused, map] at taken
        cases taken
        exact Or.inl ⟨rfl, rfl, rfl⟩
  | refused message =>
      left
      obtain ⟨served, -, rest⟩ := Option.bind_eq_some_iff.mp taken
      cases rest
      exact ⟨rfl, rfl, rfl⟩

/-- The address a thread has pushed and not put into the map yet. -/
def ThreadState.pushing : ThreadState → Option Address
  | .pushed _ address => some address
  | _ => none

/-- A push that returns without an error has pushed. -/
theorem mem_ipLlistPush {answer : PushAnswer} {list : List Node} {node : Node}
    (succeeded : ¬(ipLlistPush answer list node).1 < 0) :
    node ∈ (ipLlistPush answer list node).2 := by
  cases answer with
  | succeed => exact List.mem_cons_self
  | noMemory => exact absurd (show ipLlistMemErr < 0 by decide) succeeded
  | lockFails => exact absurd (show ipLlistMutexErr < 0 by decide) succeeded
  | unlockFails => exact List.mem_cons_self

/-- A thread that is behind its push has put its node on the list. -/
theorem threadStep_pushed {config : Config} {answers : BanAnswers}
    {state nextState : ThreadState} {server next : Server} {address : Address}
    (taken : threadStep config answers state server = some (nextState, next))
    (pushing : nextState.pushing = some address) :
    ∃ node ∈ next.bannedList, node.key = address := by
  cases state with
  | waiting => cases taken
  | read ts batchTimestamp message =>
      rw [threadStep] at taken
      split at taken
      case isTrue =>
        cases taken
        cases pushing
      case isFalse =>
        split at taken
        case h_1 =>
          cases taken
          cases pushing
        case h_2 =>
          split at taken
          case isTrue =>
            cases taken
            cases pushing
          case isFalse =>
            obtain ⟨served, -, rest⟩ := Option.bind_eq_some_iff.mp taken
            dsimp only at rest
            split at rest
            case isTrue =>
              cases rest
              cases pushing
            case isFalse =>
              split at rest
              all_goals
                cases rest
                cases pushing
  | reached ts message own =>
      unfold threadStep at taken
      dsimp only at taken
      split at taken
      case isTrue =>
        cases taken
        cases pushing
      case isFalse succeeded =>
        cases taken
        cases pushing
        exact ⟨⟨address, ts⟩, mem_ipLlistPush succeeded, rfl⟩
  | pushed message own =>
      unfold threadStep at taken
      dsimp only at taken
      split at taken
      all_goals
        cases taken
        cases pushing
  | refused message =>
      obtain ⟨served, -, rest⟩ := Option.bind_eq_some_iff.mp taken
      cases rest
      cases pushing

/-- Unbanning one node. -/
theorem unbanNode_maps {node : Node} {readings : Nat → Int × Answers} {server next : Server}
    (taken : unbanNodes [node] readings server = some next) : MapChange server next := by
  obtain ⟨⟨_, htable⟩, -, last⟩ := Option.bind_eq_some_iff.mp taken
  cases last
  by_cases present : server.blacklist node.key = true
  · refine .unblock node.key present ?_ rfl ?_
    · simp only [bpfMapDeleteElem_eq]
    · simp [bpfMapDeleteElem, present, exitOk]
  · refine .same ?_ rfl ?_
    · simp [bpfMapDeleteElem, present]
    · simp [bpfMapDeleteElem, present, enoent]

/-- The nodes the unban thread still has to go through. -/
def SweepState.pending : SweepState → List Node
  | .unbanning nodes => nodes
  | _ => []

namespace System

variable {config : Config} {system next : System}

theorem sweepHead_maps (config : Config) (answer : LockAnswer) (system : System) (ts : Int) :
    MapChange system.server (system.sweepHead config answer ts).server := by
  unfold sweepHead
  split
  case isTrue => exact .same rfl rfl rfl
  case isFalse =>
    split
    case h_1 => exact .same rfl rfl rfl
    case h_2 =>
      split
      case isTrue =>
        dsimp only
        split
        all_goals exact .same rfl rfl rfl
      case isFalse =>
        split
        all_goals exact .same rfl rfl rfl

theorem sweepNext_maps (config : Config) (system : System) (ts : Int) (left : Nat) :
    MapChange system.server (system.sweepNext config ts left).server := by
  unfold sweepNext
  dsimp only
  split
  case h_1 => exact .same rfl rfl rfl
  case h_2 =>
    split
    all_goals exact .same rfl rfl rfl

/-- A call puts at most one key into the maps or takes one out, and counts it. -/
theorem step_maps {call : SystemCall} (taken : system.step config call = some next) :
    MapChange system.server next.server := by
  cases step_taken taken with
  | tick | begin | sweepRead | finish => exact .same rfl rfl rfl
  | work worked =>
      rcases threadStep_maps worked with ⟨map, bans, unbans⟩ | ⟨_, address, -, absent, rest⟩
      · exact .same map bans unbans
      · exact .block address absent rest.1 rest.2.1 rest.2.2
  | sweepHead answer => exact sweepHead_maps config answer system _
  | sweepNext => exact sweepNext_maps config system _ _
  | unban place unbanned => exact unbanNode_maps unbanned

/-- In every interleaving of ban threads and unban thread, whatever the system
answers, the bans counted less the unbans counted are the addresses in the maps. -/
theorem bansCounted_run {config : Config} {memory : Nat → Entry} {clock : Int}
    {calls : List SystemCall} {last : System}
    (run : Run (step config) (fun _ _ => True) (.started config memory clock) calls last) :
    last.server.Balanced := by
  have preserved (system : System) (call : SystemCall) (next : System)
      (balanced : system.server.Balanced) (_ : True)
      (taken : system.step config call = some next) : next.server.Balanced :=
    balanced.change (step_maps taken)
  exact run.invariant preserved Census.empty

/-! ### Nodes for the blocked addresses -/

/-- A node of the address is on the list or will be unbanned. -/
def Traced (system : System) (address : Address) : Prop :=
  ∃ node ∈ system.server.bannedList ++ system.sweep.pending, node.key = address

/-- Blocked addresses have their nodes, and so have those that are about to be
blocked. -/
structure Tracked (threadCount : Nat) (system : System) : Prop where
  blocked : ∀ address, system.server.blacklist address = true → system.Traced address
  pushing : ∀ thread address, (system.threads thread).pushing = some address →
    system.Traced address
  waiting : ∀ thread, threadCount ≤ thread → system.threads thread = .waiting

/-- The unban thread does not come to the node of a thread that has not put its key
into the map yet, and no node is lost after a failed unlock. -/
def InTime (threadCount : Nat) (system : System) : SystemCall → Prop
  | .begin thread _ _ => thread < threadCount
  | .sweepHead answer => answer ≠ .unlockFails
  | .unban _ =>
      ∀ node ∈ system.sweep.pending.head?, ∀ thread < threadCount,
        (system.threads thread).pushing ≠ some node.key
  | _ => True

instance (threadCount : Nat) (system : System) (call : SystemCall) :
    Decidable (system.InTime threadCount call) :=
  match call with
  | .begin thread _ _ => inferInstanceAs (Decidable (thread < threadCount))
  | .sweepHead answer => inferInstanceAs (Decidable (answer ≠ .unlockFails))
  | .unban _ => inferInstanceAs (Decidable (∀ node ∈ _, ∀ thread < threadCount, _ ≠ _))
  | .tick _ | .work _ _ | .sweepRead | .sweepNext => inferInstanceAs (Decidable True)

namespace Tracked

variable {threadCount : Nat}

/-- Nodes may move, and the others stay where they are. -/
theorem mono (tracked : system.Tracked threadCount)
    (map : next.server.blacklist = system.server.blacklist)
    (threads : next.threads = system.threads)
    (nodes : ∀ node ∈ system.server.bannedList ++ system.sweep.pending,
      node ∈ next.server.bannedList ++ next.sweep.pending) : next.Tracked threadCount := by
  have traced {address : Address} : system.Traced address → next.Traced address := by
    rintro ⟨node, member, key⟩
    exact ⟨node, nodes node member, key⟩
  refine ⟨fun address blocked => ?_, fun thread address place => ?_, ?_⟩
  · rw [map] at blocked
    exact traced (tracked.blocked address blocked)
  · rw [threads] at place
    exact traced (tracked.pushing thread address place)
  · rw [threads]
    exact tracked.waiting

theorem started (threadCount : Nat) (config : Config) (memory : Nat → Entry) (clock : Int) :
    (System.started config memory clock).Tracked threadCount :=
  ⟨fun _ blocked => absurd blocked Bool.false_ne_true, fun _ _ place => (by cases place),
    fun _ _ => rfl⟩

theorem work (tracked : system.Tracked threadCount) {thread : Nat} {answers : BanAnswers}
    {state : ThreadState} {server : Server}
    (worked : threadStep config answers (system.threads thread) system.server =
      some (state, server)) :
    Tracked threadCount { system with
      server := server
      threads := Function.update system.threads thread state } := by
  have nodes : ∀ node ∈ system.server.bannedList, node ∈ server.bannedList := by
    intro node member
    rcases threadStep_cases worked with ⟨list, -⟩ | ⟨_, _, _, -, list, -⟩
    · exact list ▸ member
    · rw [list]
      exact List.mem_cons_of_mem _ member
  have traced {address : Address} (before : system.Traced address) :
      ∃ node ∈ server.bannedList ++ system.sweep.pending, node.key = address := by
    obtain ⟨node, member, key⟩ := before
    refine ⟨node, ?_, key⟩
    rw [List.mem_append] at member ⊢
    exact member.imp (nodes node) id
  refine ⟨fun address blocked => ?_, fun other address place => ?_, fun other outside => ?_⟩
  · apply traced
    rcases threadStep_maps worked with ⟨map, -⟩ | ⟨message, own, place, -, map, -⟩
    · exact tracked.blocked address (map ▸ blocked)
    · dsimp only at blocked
      rw [map] at blocked
      by_cases same : address = own
      · have pushing : (system.threads thread).pushing = some own := by
          rw [place]
          rfl
        exact same ▸ tracked.pushing thread own pushing
      · rw [Function.update_of_ne same] at blocked
        exact tracked.blocked address blocked
  · dsimp only at place
    by_cases same : other = thread
    · rw [same, Function.update_self] at place
      obtain ⟨node, member, key⟩ := threadStep_pushed worked place
      exact ⟨node, List.mem_append_left _ member, key⟩
    · rw [Function.update_of_ne same] at place
      exact traced (tracked.pushing other address place)
  · have rests := tracked.waiting other outside
    have different : other ≠ thread := by
      intro same
      rw [← same, rests] at worked
      cases worked
    dsimp only
    rw [Function.update_of_ne different]
    exact rests

theorem sweepHead (tracked : system.Tracked threadCount) (config : Config) {answer : LockAnswer}
    (unlocked : answer ≠ .unlockFails) {ts : Int} (place : system.sweep = .read ts) :
    (system.sweepHead config answer ts).Tracked threadCount := by
  have noneLeft : system.sweep.pending = [] := by rw [place]; rfl
  unfold System.sweepHead
  split
  case isTrue =>
    refine tracked.mono rfl rfl fun node member => ?_
    rw [noneLeft] at member
    exact member
  case isFalse =>
    split
    case h_1 empty =>
      refine tracked.mono rfl rfl fun node member => ?_
      rw [noneLeft, empty] at member
      cases member
    case h_2 head rest whole =>
      -- the branch of a failed unlock has gone with the first split
      split
      case isTrue =>
        refine tracked.mono rfl rfl fun node member => ?_
        rw [noneLeft, whole, List.append_nil] at member
        exact member
      case isFalse =>
        refine tracked.mono rfl rfl fun node member => ?_
        rw [noneLeft] at member
        exact member

theorem sweepNext (tracked : system.Tracked threadCount) (config : Config) {ts : Int} {left : Nat}
    (place : system.sweep = .walking ts left) :
    (system.sweepNext config ts left).Tracked threadCount := by
  have noneLeft : system.sweep.pending = [] := by rw [place]; rfl
  unfold System.sweepNext
  dsimp only
  split
  case h_1 =>
    refine tracked.mono rfl rfl fun node member => ?_
    rw [noneLeft] at member
    exact member
  case h_2 iterator rest behind =>
    split
    case isTrue =>
      refine tracked.mono rfl rfl fun node member => ?_
      rw [noneLeft, List.append_nil,
        ← List.take_append_drop (system.server.bannedList.length - left)
          system.server.bannedList, behind] at member
      exact member
    case isFalse =>
      refine tracked.mono rfl rfl fun node member => ?_
      rw [noneLeft] at member
      exact member

/-- The key of a node leaves the map with the node. -/
theorem unban (tracked : system.Tracked threadCount) {answers : Answers} {node : Node}
    {rest : List Node} {server : Server} (place : system.sweep = .unbanning (node :: rest))
    (inTime : system.InTime threadCount (.unban answers))
    (unbanned : unbanNodes [node] (fun _ => (system.clock, answers)) system.server =
      some server) :
    Tracked threadCount { system with server := server, sweep := .unbanning rest } := by
  obtain ⟨list, keys⟩ := unbanNodes_spec unbanned
  have traced {address : Address} (other : address ≠ node.key)
      (before : system.Traced address) :
      ∃ node ∈ server.bannedList ++ rest, node.key = address := by
    obtain ⟨found, member, key⟩ := before
    rw [place, List.mem_append, SweepState.pending, List.mem_cons] at member
    refine ⟨found, ?_, key⟩
    rw [list, List.mem_append]
    rcases member with front | same | behind
    · exact Or.inl front
    · exact absurd (same ▸ key.symm) other
    · exact Or.inr behind
  refine ⟨fun address blocked => ?_, fun thread address pushed => ?_, tracked.waiting⟩
  · obtain ⟨before, other⟩ := (keys address).mp blocked
    exact traced (by simpa using other) (tracked.blocked address before)
  · have started : thread < threadCount := by
      by_contra outside
      rw [tracked.waiting thread (Nat.le_of_not_lt outside)] at pushed
      cases pushed
    have head : node ∈ system.sweep.pending.head? := by
      rw [place]
      rfl
    have other : address ≠ node.key := by
      intro same
      exact inTime node head thread started (same ▸ pushed)
    exact traced other (tracked.pushing thread address pushed)

theorem step (tracked : system.Tracked threadCount) {call : SystemCall}
    (inTime : system.InTime threadCount call) (taken : system.step config call = some next) :
    next.Tracked threadCount := by
  cases step_taken taken with
  | tick now => exact tracked.mono rfl rfl fun _ member => member
  | begin batchTimestamp message place =>
      rename_i thread
      refine ⟨tracked.blocked, fun other address pushed => ?_, fun other outside => ?_⟩
      · dsimp only at pushed
        by_cases same : other = thread
        · rw [same, Function.update_self] at pushed
          cases pushed
        · rw [Function.update_of_ne same] at pushed
          exact tracked.pushing other address pushed
      · have started : thread < threadCount := inTime
        dsimp only
        rw [Function.update_of_ne (by omega)]
        exact tracked.waiting other outside
  | work worked => exact tracked.work worked
  | sweepRead place =>
      refine tracked.mono rfl rfl fun node member => ?_
      rw [place] at member
      exact member
  | sweepHead answer place => exact tracked.sweepHead config inTime place
  | sweepNext place => exact tracked.sweepNext config place
  | finish answers place =>
      refine tracked.mono rfl rfl fun node member => ?_
      rw [place] at member
      exact member
  | unban place unbanned => exact tracked.unban place inTime unbanned

end Tracked

/-- In every interleaving in which the unban thread comes to a node after the thread
that pushed it has put the key into the map, each blocked address has a node on the
list or among those that are about to be unbanned. -/
theorem blocked_traced_run {config : Config} {threadCount : Nat} {memory : Nat → Entry}
    {clock : Int} {calls : List SystemCall} {last : System}
    (run : Run (step config) (fun system call => system.InTime threadCount call)
      (.started config memory clock) calls last)
    (address : Address) (blocked : last.server.blacklist address = true) :
    last.Traced address := by
  have tracked : last.Tracked threadCount :=
    run.invariant (fun _ _ _ tracked inTime taken => tracked.step inTime taken)
      (Tracked.started threadCount config memory clock)
  exact tracked.blocked address blocked

/-- Two clients are banned; the first ban has been ended, and the unban thread is
about to end the second one. -/
def halfUnbanned : List SystemCall := (overtaking 0).take 13

theorem bansCounted_run_halfUnbanned : ∃ last,
    Run (step firstMessage) (fun _ _ => True) (started firstMessage (fun _ => .zero) 0)
      halfUnbanned last ∧
    (last.server.banCount, last.server.unbanCount) = (2, 1) ∧ last.server.Balanced := by
  have run : ∃ last, Run (step firstMessage) (fun _ _ => True)
      (started firstMessage (fun _ => .zero) 0) halfUnbanned last ∧
      ((last.server.banCount, last.server.unbanCount) = (2, 1) : Bool) = true := by
    rw [started, Server.started, Table.ipHashtableInit_eq]
    exact Run.of_exec_any (by decide +kernel)
  obtain ⟨last, run, counts⟩ := run
  exact ⟨last, run, of_decide_eq_true counts, bansCounted_run run⟩

theorem blocked_traced_run_halfUnbanned : ∃ last,
    Run (step firstMessage) (fun system call => system.InTime 2 call)
      (started firstMessage (fun _ => .zero) 0) halfUnbanned last ∧
    last.server.blacklist (.v4 0x0201A8C0) = true ∧ last.Traced (.v4 0x0201A8C0) := by
  have run : ∃ last, Run (step firstMessage) (fun system call => system.InTime 2 call)
      (started firstMessage (fun _ => .zero) 0) halfUnbanned last ∧
      last.server.blacklist (.v4 0x0201A8C0) = true := by
    rw [started, Server.started, Table.ipHashtableInit_eq]
    exact Run.of_exec_any (by decide +kernel)
  obtain ⟨last, run, blocked⟩ := run
  exact ⟨last, run, blocked, blocked_traced_run run _ blocked⟩

end System

end FipsIpc.Sf2b
