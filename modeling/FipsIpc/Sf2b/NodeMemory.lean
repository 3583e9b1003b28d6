import FipsIpc.Sf2b.UnbanCut

/-!
Contract: the memory of the banned list over the life of `programs/sf2b`.

Owns: the steps in which the ban threads create and push nodes, the unban thread
cuts the list, unbans and frees what it has cut off, and `main` destroys the list
after the threads have been joined; which memory each step accesses; and that over
every run no freed memory is accessed, nothing is freed twice and no ban is lost.

A node and its key are allocated and freed together, so one cell stands for both.
An address that was freed can be given out again.  The steps of the unban thread are
those of `UnbanCut`, with a check of the nodes they look at.  When the lock fails
`get_unban_list` unlocks a mutex it does not hold; the step is taken to change
nothing of the list, and the thread ends.

Does not own: the order in which nodes expire, the blacklist maps, what the failed
lock leaves of the mutex.
-/

set_option autoImplicit false

namespace FipsIpc.Sf2b

open FipsIpc.Lib

/-! ### The threads -/

/-- How `create_lnode` goes: it gets a node at an address, or there is no memory for
the node or none for its key. -/
inductive CreateAnswer where
  | node (address : Nat)
  | noNode
  | noKey

/-- A ban thread in `ip_llist_push`: it may have a node that is on no list yet. -/
inductive PushPlace where
  | outside
  | created (node : Nat) (content : Node)

/-- The unban thread: in `get_unban_list`, about to unban `iterator`, or about to free
`prev`. -/
inductive SweepPlace where
  | idle
  | cutting (ts : Int) (place : CutPlace)
  | unbanning (iterator : Option Nat)
  | removing (prev : Nat) (iterator : Option Nat)
  | stopped

/-- `main`: the threads run, or `ip_llist_destroy` has come to a node. -/
inductive MainPlace where
  | running
  | destroying (it : Option Nat)
  | finished
deriving DecidableEq

/-- `pushed` and `unbanned` record the nodes put on the list and those the unban
thread has handled; `losses` counts the failures of the mutex that leak nodes. -/
structure NodeState where
  list : LinkedNodes
  allocated : Nat → Bool
  threads : Nat → PushPlace
  sweep : SweepPlace
  main : MainPlace
  pushed : List Node
  unbanned : List Node
  losses : Nat

inductive NodeCall where
  | create (thread : Nat) (content : Node) (answer : CreateAnswer)
  | link (thread : Nat) (answer : LockAnswer)
  | sweep (ts : Int) (answer : LockAnswer)
  | walk
  | unban
  | remove
  | destroy

/-- The thread is not at that place, the access is undefined behaviour, or the call
returns. -/
inductive NodeEffect where
  | blocked
  | undefined
  | done (next : NodeState)

def NodeEffect.next : NodeEffect → Option NodeState
  | .done next => some next
  | _ => none

/-- The nodes one round of the walk looks at. -/
def CutPlace.looksAt : CutPlace → List Nat
  | .testing _ (some iterator) => [iterator]
  | .cutting prev _ => [prev]
  | _ => []

/-- Where the unban thread is when `get_unban_list` has come to a place. -/
def SweepPlace.afterCut (ts : Int) : CutPlace → SweepPlace
  | .returned result => .unbanning result
  | .failed => .stopped
  | place => .cutting ts place

/-- The thread is between two sweeps or has ended. -/
def SweepPlace.atRest : SweepPlace → Bool
  | .idle | .stopped => true
  | _ => false

def PushPlace.isOutside : PushPlace → Bool
  | .outside => true
  | .created _ _ => false

namespace NodeState

/-- An access to nodes, which have to be allocated. -/
def access (state : NodeState) (nodes : List Nat) (effect : NodeEffect) : NodeEffect :=
  if ∀ node ∈ nodes, state.allocated node = true then effect else .undefined

/-- One step of one of the threads. -/
def step (config : Config) (state : NodeState) : NodeCall → NodeEffect
  | .create thread content answer =>
      match state.threads thread with
      | .created _ _ => .blocked
      | .outside =>
          match answer with
          | .node address =>
              .done { state with
                allocated := Function.update state.allocated address true
                threads := Function.update state.threads thread (.created address content) }
          | .noNode => .done state
          -- `free(lnode)` is given the address of a local variable
          | .noKey => .undefined
  | .link thread answer =>
      match state.threads thread with
      | .outside => .blocked
      | .created node content =>
          let threads := Function.update state.threads thread .outside
          if answer = .lockFails then
            -- the node is not freed
            .done { state with threads := threads, losses := state.losses + 1 }
          else
            state.access [node] (.done { state with
              list := state.list.push node content
              threads := threads
              pushed := content :: state.pushed })
  | .sweep ts answer =>
      match state.sweep with
      | .idle =>
          let cut := CutState.locked config ts answer state.list
          state.access (if answer = .lockFails then [] else state.list.head.toList)
            (.done { state with
              list := cut.list
              sweep := .afterCut ts cut.place
              losses := if answer = .succeed then state.losses else state.losses + 1 })
      | _ => .blocked
  | .walk =>
      match state.sweep with
      | .cutting ts place =>
          match CutState.walk config ts ⟨state.list, place, [], 0⟩ with
          | none => .blocked
          | some cut =>
              state.access place.looksAt
                (.done { state with list := cut.list, sweep := .afterCut ts cut.place })
      | _ => .blocked
  | .unban =>
      match state.sweep with
      | .unbanning none => .done { state with sweep := .idle }
      | .unbanning (some iterator) =>
          state.access [iterator] (.done { state with
            sweep := .removing iterator (state.list.next iterator)
            unbanned := state.list.content iterator :: state.unbanned })
      | _ => .blocked
  | .remove =>
      match state.sweep with
      | .removing prev iterator =>
          state.access [prev] (.done { state with
            allocated := Function.update state.allocated prev false
            sweep := .unbanning iterator })
      | _ => .blocked
  | .destroy =>
      match state.main with
      | .running => .done { state with main := .destroying state.list.head }
      | .destroying none => .done { state with main := .finished }
      | .destroying (some it) =>
          state.access [it] (.done { state with
            allocated := Function.update state.allocated it false
            main := .destroying (state.list.next it) })
      | .finished => .blocked

/-- After `ip_llist_init`. -/
def started : NodeState where
  list := ⟨none, fun _ => none, fun _ => ⟨.v4 0, 0⟩⟩
  allocated := fun _ => false
  threads := fun _ => .outside
  sweep := .idle
  main := .running
  pushed := []
  unbanned := []
  losses := 0

/-- Memory that is given out is free, and `main` destroys the list when no thread is
inside a call. -/
def Permitted (threadCount : Nat) (state : NodeState) : NodeCall → Prop
  | .create thread _ answer =>
      state.main = .running ∧ thread < threadCount ∧
        match answer with
        | .node address => state.allocated address = false
        | _ => True
  | .sweep _ _ => state.main = .running
  | .destroy => state.main = .running →
      (∀ thread < threadCount, (state.threads thread).isOutside) ∧ state.sweep.atRest
  | _ => True

instance (threadCount : Nat) (state : NodeState) (call : NodeCall) :
    Decidable (Permitted threadCount state call) :=
  match call with
  | .create _ _ (.node _) => inferInstanceAs (Decidable (_ ∧ _ ∧ _ = _))
  | .create _ _ .noNode => inferInstanceAs (Decidable (_ ∧ _ ∧ True))
  | .create _ _ .noKey => inferInstanceAs (Decidable (_ ∧ _ ∧ True))
  | .link _ _ => inferInstanceAs (Decidable True)
  | .sweep _ _ => inferInstanceAs (Decidable (_ = _))
  | .walk => inferInstanceAs (Decidable True)
  | .unban => inferInstanceAs (Decidable True)
  | .remove => inferInstanceAs (Decidable True)
  | .destroy => inferInstanceAs (Decidable (_ → _ ∧ _))

end NodeState

/-- Runs in which every call returns. -/
abbrev NodeRun (config : Config) (threadCount : Nat) :
    NodeState → List NodeCall → NodeState → Prop :=
  Run (fun state call => (state.step config call).next) (NodeState.Permitted threadCount)

/-! ### Who has which node -/

/-- The allocated nodes are `nodes` and those the ban threads have created; nobody has
a node that somebody else has. -/
structure Owns (allocated : Nat → Bool) (threads : Nat → PushPlace) (nodes : List Nat) : Prop where
  distinct : nodes.Nodup
  owned : ∀ node, allocated node = true ↔
    node ∈ nodes ∨ ∃ thread content, threads thread = .created node content
  apart : ∀ thread node content, threads thread = .created node content → node ∉ nodes
  single : ∀ thread other node content otherContent, threads thread = .created node content →
    threads other = .created node otherContent → thread = other

namespace Owns

variable {allocated : Nat → Bool} {threads : Nat → PushPlace} {nodes others : List Nat}

theorem perm (owns : Owns allocated threads nodes) (same : nodes.Perm others) :
    Owns allocated threads others where
  distinct := same.nodup_iff.mp owns.distinct
  owned := fun node => by rw [owns.owned node, same.mem_iff]
  apart := fun thread node content created => by
    rw [← same.mem_iff]
    exact owns.apart thread node content created
  single := owns.single

/-- Nodes on the lists are allocated. -/
theorem allocated_of_mem (owns : Owns allocated threads nodes) {node : Nat}
    (member : node ∈ nodes) : allocated node = true :=
  (owns.owned node).mpr (Or.inl member)

/-- A thread outside gets a free node. -/
theorem create (owns : Owns allocated threads nodes) {thread address : Nat}
    (free : allocated address = false) (outside : threads thread = .outside) (content : Node) :
    Owns (Function.update allocated address true)
      (Function.update threads thread (.created address content)) nodes := by
  have unowned : ∀ node, node = address → ¬ (node ∈ nodes ∨
      ∃ thread content, threads thread = .created node content) := by
    intro node same isOwned
    rw [same] at isOwned
    have taken := (owns.owned address).mpr isOwned
    rw [free] at taken
    cases taken
  refine ⟨owns.distinct, fun node => ?_, fun other node held created => ?_,
    fun left right node first second createdLeft createdRight => ?_⟩
  · by_cases same : node = address
    · subst same
      simp only [Function.update_self, true_iff]
      exact Or.inr ⟨thread, content, Function.update_self ..⟩
    · rw [Function.update_of_ne same, owns.owned node]
      constructor
      · rintro (member | ⟨other, held, created⟩)
        · exact Or.inl member
        · have different : other ≠ thread := fun equal => by
            rw [equal, outside] at created
            cases created
          exact Or.inr ⟨other, held, by rwa [Function.update_of_ne different]⟩
      · rintro (member | ⟨other, held, created⟩)
        · exact Or.inl member
        · by_cases equal : other = thread
          · rw [equal, Function.update_self] at created
            injection created with isNode
            exact absurd isNode.symm same
          · rw [Function.update_of_ne equal] at created
            exact Or.inr ⟨other, held, created⟩
  · by_cases equal : other = thread
    · rw [equal, Function.update_self] at created
      injection created with isNode
      exact fun member => unowned node isNode.symm (Or.inl member)
    · rw [Function.update_of_ne equal] at created
      exact owns.apart other node held created
  · by_cases leftIs : left = thread
    · by_cases rightIs : right = thread
      · rw [leftIs, rightIs]
      · rw [leftIs, Function.update_self] at createdLeft
        rw [Function.update_of_ne rightIs] at createdRight
        injection createdLeft with isNode
        exact absurd (Or.inr ⟨right, second, createdRight⟩) (unowned node isNode.symm)
    · by_cases rightIs : right = thread
      · rw [Function.update_of_ne leftIs] at createdLeft
        rw [rightIs, Function.update_self] at createdRight
        injection createdRight with isNode
        exact absurd (Or.inr ⟨left, first, createdLeft⟩) (unowned node isNode.symm)
      · rw [Function.update_of_ne leftIs] at createdLeft
        rw [Function.update_of_ne rightIs] at createdRight
        exact owns.single left right node first second createdLeft createdRight

/-- A thread gives its node away. -/
theorem handOver (owns : Owns allocated threads nodes) {thread node : Nat} {content : Node}
    (created : threads thread = .created node content) :
    Owns allocated (Function.update threads thread .outside) (node :: nodes) := by
  have others : ∀ other held heldNode, Function.update threads thread .outside other =
      .created heldNode held → other ≠ thread ∧ threads other = .created heldNode held := by
    intro other held heldNode isCreated
    by_cases equal : other = thread
    · rw [equal, Function.update_self] at isCreated
      cases isCreated
    · exact ⟨equal, by rwa [Function.update_of_ne equal] at isCreated⟩
  refine ⟨List.nodup_cons.mpr ⟨owns.apart thread node content created, owns.distinct⟩,
    fun other => ?_, fun other heldNode held isCreated member => ?_,
    fun left right heldNode first second createdLeft createdRight => ?_⟩
  · rw [owns.owned other]
    constructor
    · rintro (member | ⟨holder, held, isCreated⟩)
      · exact Or.inl (by simp [member])
      · by_cases equal : holder = thread
        · rw [equal, created] at isCreated
          injection isCreated with isNode
          exact Or.inl (by simp [isNode])
        · exact Or.inr ⟨holder, held, by rwa [Function.update_of_ne equal]⟩
    · rintro (member | ⟨holder, held, isCreated⟩)
      · rcases List.mem_cons.mp member with rfl | earlier
        · exact Or.inr ⟨thread, content, created⟩
        · exact Or.inl earlier
      · exact Or.inr ⟨holder, held, (others holder held other isCreated).2⟩
  · obtain ⟨different, before⟩ := others other held heldNode isCreated
    rcases List.mem_cons.mp member with same | earlier
    · rw [same] at before
      exact different (owns.single other thread node held content before created)
    · exact owns.apart other heldNode held before earlier
  · exact owns.single left right heldNode first second (others _ _ _ createdLeft).2
      (others _ _ _ createdRight).2

/-- A node is freed. -/
theorem free {node : Nat} (owns : Owns allocated threads (node :: nodes)) :
    Owns (Function.update allocated node false) threads nodes := by
  obtain ⟨outside, distinct⟩ := List.nodup_cons.mp owns.distinct
  refine ⟨distinct, fun other => ?_, fun thread held content created => ?_, owns.single⟩
  · by_cases same : other = node
    · subst same
      simp only [Function.update_self, Bool.false_eq_true, false_iff]
      rintro (member | ⟨thread, content, created⟩)
      · exact outside member
      · exact owns.apart thread other content created (by simp)
    · rw [Function.update_of_ne same, owns.owned other]
      simp [same]
  · intro member
    exact owns.apart thread held content created (by simp [member])

end Owns

/-! ### The invariant -/

/-- The nodes the unban thread has cut off: `freeing` it has unbanned, `due` not yet. -/
def SweepPlace.Holds (list : LinkedNodes) (listed freeing due : List Nat) : SweepPlace → Prop
  | .idle | .stopped => freeing = [] ∧ due = []
  | .cutting _ (.testing prev iterator) => freeing = [] ∧ due = [] ∧
      ∃ left right, listed = left ++ prev :: right ∧ iterator = right.head?
  | .cutting _ (.cutting prev iterator) => freeing = [] ∧ due = [] ∧
      ∃ left right, listed = left ++ prev :: iterator :: right
  | .cutting _ _ => False
  | .unbanning iterator => freeing = [] ∧ Chain list.next iterator due
  | .removing prev iterator => freeing = [prev] ∧ Chain list.next iterator due

theorem LinkedNodes.push_next (list : LinkedNodes) (node : Nat) (content : Node) :
    (list.push node content).next = Function.update list.next node list.head := by
  unfold push
  by_cases empty : list.head = none
  · rw [if_pos empty, empty]
  · rw [if_neg empty]

/-- Between two sweeps no node is cut off. -/
theorem SweepPlace.holds_iff_of_atRest {place : SweepPlace} (atRest : place.atRest = true)
    (list : LinkedNodes) (listed freeing due : List Nat) :
    place.Holds list listed freeing due ↔ freeing = [] ∧ due = [] := by
  cases place with
  | idle => exact Iff.rfl
  | stopped => exact Iff.rfl
  | cutting ts place => cases atRest
  | unbanning iterator => cases atRest
  | removing prev iterator => cases atRest

/-- A push in front of the list does not disturb the unban thread. -/
theorem SweepPlace.Holds.push {list : LinkedNodes} {listed freeing due : List Nat}
    {place : SweepPlace} (holds : place.Holds list listed freeing due) {node : Nat}
    (notDue : node ∉ due) (content : Node) :
    place.Holds (list.push node content) (node :: listed) freeing due := by
  have dueChain : ∀ iterator, Chain list.next iterator due →
      Chain (list.push node content).next iterator due := by
    intro iterator chain
    rw [list.push_next]
    exact chain.update_of_not_mem notDue
  cases place with
  | idle => exact holds
  | stopped => exact holds
  | unbanning iterator => exact ⟨holds.1, dueChain iterator holds.2⟩
  | removing prev iterator => exact ⟨holds.1, dueChain iterator holds.2⟩
  | cutting ts place =>
      cases place with
      | testing prev iterator =>
          obtain ⟨noFreeing, noDue, left, right, split, isNext⟩ := holds
          exact ⟨noFreeing, noDue, node :: left, right, by rw [split]; rfl, isNext⟩
      | cutting prev iterator =>
          obtain ⟨noFreeing, noDue, left, right, split⟩ := holds
          exact ⟨noFreeing, noDue, node :: left, right, by rw [split]; rfl⟩
      | returned result => exact holds
      | failed => exact holds

/-- The pointer `main` or the others follow. -/
def NodeState.first (state : NodeState) : Option Nat :=
  match state.main with
  | .running => state.list.head
  | .destroying it => it
  | .finished => none

/-- The nodes on the list, those cut off and those that were leaked. -/
structure NodeState.Shape (threadCount : Nat) (state : NodeState)
    (listed freeing due lost : List Nat) : Prop where
  chain : Chain state.list.next state.first listed
  place : state.sweep.Holds state.list listed freeing due
  owns : Owns state.allocated state.threads (listed ++ freeing ++ due ++ lost)
  few : ∀ thread, threadCount ≤ thread → state.threads thread = .outside
  joined : state.main ≠ .running →
    (∀ thread, state.threads thread = .outside) ∧ state.sweep.atRest = true
  conserved : state.main = .running → state.losses = 0 →
    state.pushed.Perm (state.unbanned ++ (due ++ listed).map state.list.content)
  kept : state.losses = 0 → lost = []

def NodeState.Inv (threadCount : Nat) (state : NodeState) : Prop :=
  ∃ listed freeing due lost, state.Shape threadCount listed freeing due lost

theorem NodeState.Inv.started (threadCount : Nat) : NodeState.started.Inv threadCount := by
  refine ⟨[], [], [], [], rfl, ⟨rfl, rfl⟩, ⟨.nil, ?_, ?_, ?_⟩, fun _ _ => rfl, ?_, ?_,
    fun _ => rfl⟩
  · simp [NodeState.started]
  · simp
  · simp [NodeState.started]
  · simp [NodeState.started]
  · simp [NodeState.started]

/-! ### One step -/

/-- The call does nothing undefined, and what it leaves is in order. -/
def NodeEffect.Safe (threadCount : Nat) : NodeEffect → Prop
  | .blocked => True
  | .undefined => False
  | .done next => next.Inv threadCount

theorem NodeState.access_safe {threadCount : Nat} {state : NodeState} {nodes : List Nat}
    {effect : NodeEffect} (allocated : ∀ node ∈ nodes, state.allocated node = true)
    (safe : effect.Safe threadCount) : (state.access nodes effect).Safe threadCount := by
  unfold access
  rw [if_pos allocated]
  exact safe

namespace NodeState.Shape

variable {threadCount : Nat} {state : NodeState} {listed freeing due lost : List Nat}

/-- Nodes on the list or cut off are allocated. -/
theorem allocated (shape : state.Shape threadCount listed freeing due lost) {node : Nat}
    (member : node ∈ listed ++ freeing ++ due) : state.allocated node = true := by
  apply shape.owns.allocated_of_mem
  rw [List.mem_append]
  exact Or.inl member

theorem running (shape : state.Shape threadCount listed freeing due lost) {thread node : Nat}
    {content : Node} (created : state.threads thread = .created node content) :
    state.main = .running := by
  by_contra notRunning
  have outside := (shape.joined notRunning).1 thread
  rw [created] at outside
  cases outside

theorem head (shape : state.Shape threadCount listed freeing due lost)
    (running : state.main = .running) : Chain state.list.next state.list.head listed := by
  have chain := shape.chain
  unfold NodeState.first at chain
  rwa [running] at chain

/-- A new node is held by its thread until it is linked. -/
theorem create (shape : state.Shape threadCount listed freeing due lost) {thread address : Nat}
    (running : state.main = .running) (inside : thread < threadCount)
    (free : state.allocated address = false) (outside : state.threads thread = .outside)
    (content : Node) :
    NodeState.Inv threadCount { state with
      allocated := Function.update state.allocated address true
      threads := Function.update state.threads thread (.created address content) } := by
  refine ⟨listed, freeing, due, lost, shape.chain, shape.place,
    shape.owns.create free outside content, ?_, fun ended => absurd running ended,
    shape.conserved, shape.kept⟩
  intro other beyond
  have different : other ≠ thread := by omega
  exact (Function.update_of_ne different _ _).trans (shape.few other beyond)

theorem few_handOver (shape : state.Shape threadCount listed freeing due lost) (thread : Nat) :
    ∀ other, threadCount ≤ other →
      Function.update state.threads thread .outside other = .outside := by
  intro other beyond
  by_cases same : other = thread
  · rw [same, Function.update_self]
  · rw [Function.update_of_ne same]
    exact shape.few other beyond

/-- A thread that cannot lock the list forgets its node. -/
theorem leak (shape : state.Shape threadCount listed freeing due lost) {thread node : Nat}
    {content : Node} (created : state.threads thread = .created node content) :
    NodeState.Inv threadCount { state with
      threads := Function.update state.threads thread .outside
      losses := state.losses + 1 } := by
  refine ⟨listed, freeing, due, node :: lost, shape.chain, shape.place,
    (shape.owns.handOver created).perm List.perm_middle.symm, shape.few_handOver thread,
    fun ended => absurd (shape.running created) ended, fun _ none => ?_, fun none => ?_⟩
  · cases none
  · cases none

/-- A node is pushed in front of the list; the unban thread is not disturbed. -/
theorem link (shape : state.Shape threadCount listed freeing due lost) {thread node : Nat}
    {content : Node} (created : state.threads thread = .created node content) :
    NodeState.Inv threadCount { state with
      list := state.list.push node content
      threads := Function.update state.threads thread .outside
      pushed := content :: state.pushed } := by
  have running := shape.running created
  have head := shape.head running
  have fresh := shape.owns.apart thread node content created
  simp only [List.mem_append, not_or] at fresh
  obtain ⟨⟨⟨notListed, -⟩, notDue⟩, -⟩ := fresh
  refine ⟨node :: listed, freeing, due, lost, ?_, shape.place.push notDue content,
    shape.owns.handOver created, shape.few_handOver thread, fun ended => absurd running ended,
    fun _ none => ?_, shape.kept⟩
  · unfold NodeState.first
    simp only [running]
    rw [LinkedNodes.push_next]
    exact head.push notListed
  · have kept : ∀ other ∈ due ++ listed,
        Function.update state.list.content node content other = state.list.content other := by
      intro other member
      apply Function.update_of_ne
      rintro rfl
      rcases List.mem_append.mp member with inDue | inListed
      · exact notDue inDue
      · exact notListed inListed
    have contents : (due ++ node :: listed).map (Function.update state.list.content node content)
        |>.Perm (content :: (due ++ listed).map state.list.content) := by
      refine (List.perm_middle.map _).trans ?_
      rw [List.map_cons, Function.update_self, List.map_congr_left kept]
    calc content :: state.pushed
        |>.Perm (content :: (state.unbanned ++ (due ++ listed).map state.list.content)) :=
          (shape.conserved running none).cons _
      _ |>.Perm (state.unbanned ++ content :: (due ++ listed).map state.list.content) :=
          List.perm_middle.symm
      _ |>.Perm _ := contents.symm.append_left _

/-- `get_unban_list` up to its unlock. -/
theorem sweep (shape : state.Shape threadCount listed freeing due lost) (config : Config)
    (ts : Int) (answer : LockAnswer) (running : state.main = .running)
    (idle : state.sweep = .idle) :
    NodeState.Inv threadCount { state with
      list := (CutState.locked config ts answer state.list).list
      sweep := .afterCut ts (CutState.locked config ts answer state.list).place
      losses := if answer = .succeed then state.losses else state.losses + 1 } := by
  have head := shape.head running
  obtain ⟨rfl, rfl⟩ : freeing = [] ∧ due = [] := by
    have place := shape.place
    rw [idle] at place
    exact place
  have owns := shape.owns
  have conserved := shape.conserved running
  -- After a failure nothing is claimed about what was lost.
  have losses : ∀ claim : Prop, (answer = .succeed → state.losses = 0 → claim) →
      (if answer = .succeed then state.losses else state.losses + 1) = 0 → claim := by
    intro claim holds none
    split at none
    case isTrue success => exact holds success none
    case isFalse => cases none
  unfold CutState.locked
  by_cases lockFails : answer = .lockFails
  · rw [if_pos lockFails]
    refine ⟨listed, [], [], lost, shape.chain, ⟨rfl, rfl⟩, owns, shape.few,
      fun ended => absurd running ended, fun _ => losses _ fun success => ?_,
      losses _ fun success => ?_⟩
    · cases success.symm.trans lockFails
    · cases success.symm.trans lockFails
  rw [if_neg lockFails]
  cases listed with
  | nil =>
      have empty : state.list.head = none := head
      rw [empty]
      refine ⟨[], [], [], lost, shape.chain, ?_, owns, shape.few, fun ended => absurd running ended,
        fun _ => losses _ fun _ none => ?_, losses _ fun _ none => shape.kept none⟩
      · dsimp only
        split
        · exact ⟨rfl, rfl⟩
        · exact ⟨rfl, rfl⟩
      · exact conserved none
  | cons iterator rest =>
      obtain ⟨isHead, tail⟩ := head
      rw [isHead]
      dsimp only
      by_cases expired : state.list.expired config ts iterator = true
      · rw [if_pos expired]
        dsimp only
        by_cases unlockFails : answer = .unlockFails
        · rw [if_pos unlockFails]
          refine ⟨[], [], [], iterator :: rest ++ lost, ?_, ⟨rfl, rfl⟩, ?_, shape.few,
            fun ended => absurd running ended, fun _ => losses _ fun success => ?_,
            losses _ fun success => ?_⟩
          · simp only [NodeState.first, running]
            rfl
          · simpa using owns
          · cases success.symm.trans unlockFails
          · cases success.symm.trans unlockFails
        · rw [if_neg unlockFails]
          refine ⟨[], [], iterator :: rest, lost, ?_, ⟨rfl, rfl, tail⟩, ?_, shape.few,
            fun ended => absurd running ended, fun _ => losses _ fun _ none => ?_,
            losses _ fun _ none => shape.kept none⟩
          · simp only [NodeState.first, running]
            rfl
          · simpa using owns
          · simpa using conserved none
      · rw [if_neg expired]
        dsimp only
        refine ⟨iterator :: rest, [], [], lost, shape.chain, ?_, owns, shape.few,
          fun ended => absurd running ended, fun _ => losses _ fun _ none => conserved none,
          losses _ fun _ none => shape.kept none⟩
        split
        · exact ⟨rfl, rfl⟩
        · exact ⟨rfl, rfl, [], rest, rfl, tail.first_eq⟩

/-- One round of the walk looks at a listed node, and cuts the list behind one. -/
theorem walk (shape : state.Shape threadCount listed freeing due lost) (config : Config)
    {ts : Int} {place : CutPlace} {cut : CutState} (running : state.main = .running)
    (isAt : state.sweep = .cutting ts place)
    (walked : CutState.walk config ts ⟨state.list, place, [], 0⟩ = some cut) :
    (∀ node ∈ place.looksAt, node ∈ listed) ∧
      NodeState.Inv threadCount
        { state with list := cut.list, sweep := .afterCut ts cut.place } := by
  have head := shape.head running
  have holds := shape.place
  have owns := shape.owns
  rw [isAt] at holds
  cases place with
  | returned result => exact holds.elim
  | failed => exact holds.elim
  | testing prev next =>
      obtain ⟨rfl, rfl, left, right, split, isNext⟩ := holds
      cases right with
      | nil =>
          rw [isNext] at walked ⊢
          cases walked
          refine ⟨by simp [CutPlace.looksAt], listed, [], [], lost, shape.chain, ⟨rfl, rfl⟩, owns,
            shape.few, fun ended => absurd running ended, shape.conserved, shape.kept⟩
      | cons iterator right =>
          rw [isNext] at walked ⊢
          have tail : state.list.next iterator = right.head? := by
            rw [split, List.append_cons] at head
            exact head.next_eq
          refine ⟨by simp [CutPlace.looksAt, split], ?_⟩
          simp only [CutState.walk, List.head?_cons] at walked
          split at walked
          case isTrue due =>
            cases walked
            exact ⟨listed, [], [], lost, shape.chain, ⟨rfl, rfl, left, right, split⟩, owns,
              shape.few, fun ended => absurd running ended, shape.conserved, shape.kept⟩
          case isFalse =>
            cases walked
            refine ⟨listed, [], [], lost, shape.chain, ⟨rfl, rfl, left ++ [prev], right, ?_, tail⟩,
              owns, shape.few, fun ended => absurd running ended, shape.conserved, shape.kept⟩
            rw [split, List.append_cons]
  | cutting prev iterator =>
      obtain ⟨rfl, rfl, left, right, split⟩ := holds
      cases walked
      rw [split] at head owns
      have behind : prev ∉ iterator :: right := (List.nodup_cons.mp head.suffix.nodup).1
      have cutOff : Chain state.list.next (some iterator) (iterator :: right) := by
        have step := head.suffix.2
        rwa [head.next_eq] at step
      refine ⟨by simp [CutPlace.looksAt, split], left ++ [prev], [], iterator :: right, lost, ?_,
        ⟨rfl, cutOff.update_of_not_mem behind⟩, ?_, shape.few, fun ended => absurd running ended,
        fun isRunning none => ?_, shape.kept⟩
      · simp only [NodeState.first, running]
        exact head.redirect rfl
      · simpa using owns
      · have conserved := shape.conserved isRunning none
        rw [split] at conserved
        refine conserved.trans (List.Perm.append_left _ (List.Perm.map _ ?_))
        rw [List.nil_append, List.append_cons]
        exact List.perm_append_comm

/-- A node that was cut off is unbanned. -/
theorem unban (shape : state.Shape threadCount listed freeing due lost)
    (running : state.main = .running) {iterator : Nat}
    (isAt : state.sweep = .unbanning (some iterator)) :
    state.allocated iterator = true ∧
      NodeState.Inv threadCount { state with
        sweep := .removing iterator (state.list.next iterator)
        unbanned := state.list.content iterator :: state.unbanned } := by
  have holds := shape.place
  rw [isAt] at holds
  obtain ⟨rfl, chain⟩ := holds
  cases due with
  | nil => cases chain
  | cons node rest =>
      obtain ⟨same, tail⟩ := chain
      obtain rfl : iterator = node := Option.some.inj same
      refine ⟨shape.allocated (by simp), listed, [iterator], rest, lost, shape.chain, ⟨rfl, tail⟩,
        ?_, shape.few, fun ended => absurd running ended, fun isRunning none => ?_, shape.kept⟩
      · simpa using shape.owns
      · exact (shape.conserved isRunning none).trans List.perm_middle

/-- The loop over the nodes is over. -/
theorem unbanned (shape : state.Shape threadCount listed freeing due lost)
    (running : state.main = .running) (isAt : state.sweep = .unbanning none) :
    NodeState.Inv threadCount { state with sweep := .idle } := by
  have holds := shape.place
  rw [isAt] at holds
  obtain ⟨rfl, chain⟩ := holds
  cases due with
  | nil =>
      exact ⟨listed, [], [], lost, shape.chain, ⟨rfl, rfl⟩, shape.owns, shape.few,
        fun ended => absurd running ended, shape.conserved, shape.kept⟩
  | cons node rest => cases chain.1

/-- A node is freed once it has been unbanned. -/
theorem remove (shape : state.Shape threadCount listed freeing due lost)
    (running : state.main = .running) {prev : Nat} {iterator : Option Nat}
    (isAt : state.sweep = .removing prev iterator) :
    state.allocated prev = true ∧
      NodeState.Inv threadCount { state with
        allocated := Function.update state.allocated prev false
        sweep := .unbanning iterator } := by
  have holds := shape.place
  rw [isAt] at holds
  obtain ⟨rfl, chain⟩ := holds
  refine ⟨shape.allocated (by simp), listed, [], due, lost, shape.chain, ⟨rfl, chain⟩, ?_,
    shape.few, fun ended => absurd running ended, shape.conserved, shape.kept⟩
  apply Owns.free
  apply shape.owns.perm
  simp only [List.append_nil, List.append_assoc, List.singleton_append]
  exact List.perm_middle

/-- A thread in a sweep is one of a running program. -/
theorem running_of_busy (shape : state.Shape threadCount listed freeing due lost)
    (busy : state.sweep.atRest = false) : state.main = .running := by
  by_contra notRunning
  have atRest := (shape.joined notRunning).2
  rw [busy] at atRest
  cases atRest

/-- `ip_llist_destroy` frees the nodes from the head on. -/
theorem destroy (shape : state.Shape threadCount listed freeing due lost) (config : Config)
    (permitted : state.Permitted threadCount .destroy) :
    (state.step config .destroy).Safe threadCount := by
  unfold NodeState.step
  dsimp only
  split
  case h_1 running =>
    obtain ⟨outside, atRest⟩ := permitted running
    have everyone : ∀ thread, state.threads thread = .outside := by
      intro thread
      by_cases inside : thread < threadCount
      · have isOutside := outside thread inside
        cases place : state.threads thread with
        | outside => rfl
        | created node content =>
            rw [place] at isOutside
            cases isOutside
      · exact shape.few thread (by omega)
    exact ⟨listed, freeing, due, lost, shape.head running, shape.place, shape.owns, shape.few,
      fun _ => ⟨everyone, atRest⟩, fun running => (by cases running), shape.kept⟩
  case h_2 ended =>
    have joined := shape.joined (by simp [ended])
    have chain := shape.chain
    unfold NodeState.first at chain
    rw [ended] at chain
    cases listed with
    | cons node rest => cases chain.1
    | nil =>
        exact ⟨[], freeing, due, lost, rfl, shape.place, shape.owns, shape.few,
          fun _ => joined, fun running => (by cases running), shape.kept⟩
  case h_3 it ended =>
    have joined := shape.joined (by simp [ended])
    have chain := shape.chain
    unfold NodeState.first at chain
    rw [ended] at chain
    obtain ⟨rfl, rfl⟩ := (SweepPlace.holds_iff_of_atRest joined.2 ..).mp shape.place
    cases listed with
    | nil => cases chain
    | cons node rest =>
        obtain ⟨same, tail⟩ := chain
        obtain rfl : it = node := Option.some.inj same
        apply NodeState.access_safe
        · intro node member
          rw [List.mem_singleton.mp member]
          exact shape.allocated (by simp)
        · exact ⟨rest, [], [], lost, tail,
            (SweepPlace.holds_iff_of_atRest joined.2 ..).mpr ⟨rfl, rfl⟩, shape.owns.free,
            shape.few, fun _ => joined, fun running => (by cases running), shape.kept⟩
  case h_4 => trivial

end NodeState.Shape

/-- The one call with undefined behaviour: `create_lnode` gets memory for a node and
none for its key. -/
def NodeCall.FreesLocal (state : NodeState) : NodeCall → Prop
  | .create thread _ .noKey => (state.threads thread).isOutside = true
  | _ => False

theorem NodeState.step_freesLocal (config : Config) {state : NodeState} {call : NodeCall}
    (freesLocal : call.FreesLocal state) : state.step config call = .undefined := by
  cases call with
  | create thread content answer =>
      cases answer with
      | noKey =>
          have outside : (state.threads thread).isOutside = true := freesLocal
          unfold NodeState.step
          dsimp only
          split
          case h_1 created =>
            rw [created] at outside
            cases outside
          case h_2 => rfl
      | node address => exact freesLocal.elim
      | noNode => exact freesLocal.elim
  | _ => exact freesLocal.elim

/-- Every other permitted call is safe. -/
theorem NodeState.step_safe {threadCount : Nat} (config : Config) {state : NodeState}
    {call : NodeCall} (inv : state.Inv threadCount) (permitted : state.Permitted threadCount call)
    (key : ¬ call.FreesLocal state) : (state.step config call).Safe threadCount := by
  obtain ⟨listed, freeing, due, lost, shape⟩ := inv
  cases call with
  | create thread content answer =>
      obtain ⟨running, inside, free⟩ := permitted
      unfold NodeState.step
      dsimp only
      split
      case h_1 => trivial
      case h_2 outside =>
        cases answer with
        | node address => exact shape.create running inside free outside content
        | noNode => exact ⟨listed, freeing, due, lost, shape⟩
        | noKey => exact absurd (by simp [NodeCall.FreesLocal, outside, PushPlace.isOutside]) key
  | link thread answer =>
      unfold NodeState.step
      dsimp only
      split
      case h_1 => trivial
      case h_2 node content created =>
        split
        case isTrue => exact shape.leak created
        case isFalse =>
          apply access_safe
          · intro other member
            rw [List.mem_singleton.mp member]
            exact (shape.owns.owned node).mpr (Or.inr ⟨thread, content, created⟩)
          · exact shape.link created
  | sweep ts answer =>
      unfold NodeState.step
      dsimp only
      split
      case h_1 idle =>
        apply access_safe
        · intro node member
          split at member
          case isTrue => cases member
          case isFalse =>
            apply shape.allocated
            have isHead := Option.mem_toList.mp member
            rw [(shape.head permitted).first_eq] at isHead
            simp [List.mem_of_mem_head? isHead]
        · exact shape.sweep config ts answer permitted idle
      case h_2 => trivial
  | walk =>
      unfold NodeState.step
      dsimp only
      split
      case h_1 ts place isAt =>
        have running := shape.running_of_busy (by rw [isAt]; rfl)
        split
        case h_1 => trivial
        case h_2 cut walked =>
          obtain ⟨listedNodes, kept⟩ := shape.walk config running isAt walked
          apply access_safe
          · intro node member
            exact shape.allocated (by simp [listedNodes node member])
          · exact kept
      case h_2 => trivial
  | unban =>
      unfold NodeState.step
      dsimp only
      split
      case h_1 isAt =>
        exact shape.unbanned (shape.running_of_busy (by rw [isAt]; rfl)) isAt
      case h_2 iterator isAt =>
        obtain ⟨allocated, kept⟩ := shape.unban (shape.running_of_busy (by rw [isAt]; rfl)) isAt
        apply access_safe
        · intro node member
          rwa [List.mem_singleton.mp member]
        · exact kept
      case h_3 => trivial
  | remove =>
      unfold NodeState.step
      dsimp only
      split
      case h_1 prev iterator isAt =>
        obtain ⟨allocated, kept⟩ := shape.remove (shape.running_of_busy (by rw [isAt]; rfl)) isAt
        apply access_safe
        · intro node member
          rwa [List.mem_singleton.mp member]
        · exact kept
      case h_2 => trivial
  | destroy => exact shape.destroy config permitted

/-- A call that returns keeps the invariant. -/
theorem NodeState.Inv.step {threadCount : Nat} (config : Config) (state : NodeState)
    (call : NodeCall) (next : NodeState) (inv : state.Inv threadCount)
    (permitted : state.Permitted threadCount call)
    (returned : (state.step config call).next = some next) : next.Inv threadCount := by
  have key : ¬ call.FreesLocal state := by
    intro freesLocal
    rw [step_freesLocal config freesLocal] at returned
    cases returned
  have safe := step_safe config inv permitted key
  cases effect : state.step config call with
  | blocked =>
      rw [effect] at returned
      cases returned
  | undefined =>
      rw [effect] at returned
      cases returned
  | done after =>
      rw [effect] at returned safe
      cases returned
      exact safe

/-! ### Every run -/

/-- What holds at the end of every run: a permitted call has undefined behaviour only
in the clean-up of `create_lnode`; while no lock has failed the bans pushed are those
unbanned, those cut off and those on the list, each once; and then nothing is left
allocated when `main` has destroyed the list. -/
structure NodeState.Sound (config : Config) (threadCount : Nat) (state : NodeState) : Prop where
  defined : ∀ call, state.Permitted threadCount call →
    (state.step config call = .undefined ↔ call.FreesLocal state)
  conserved : state.main = .running → state.losses = 0 → ∃ listed due,
    Chain state.list.next state.list.head listed ∧ (listed ++ due).Nodup ∧
      state.pushed.Perm (state.unbanned ++ (due ++ listed).map state.list.content)
  freed : state.main = .finished → state.losses = 0 → ∀ node, state.allocated node = false

theorem NodeState.Inv.sound {threadCount : Nat} {state : NodeState} (config : Config)
    (inv : state.Inv threadCount) : state.Sound config threadCount where
  defined := by
    intro call permitted
    constructor
    · intro undefined
      by_contra key
      have safe := step_safe config inv permitted key
      rw [undefined] at safe
      exact safe
    · exact step_freesLocal config
  conserved := by
    intro running none
    obtain ⟨listed, freeing, due, lost, shape⟩ := inv
    refine ⟨listed, due, shape.head running, ?_, shape.conserved running none⟩
    refine List.Nodup.sublist ?_ shape.owns.distinct
    rw [List.append_assoc, List.append_assoc]
    apply List.Sublist.append_left
    exact ((List.sublist_append_left due lost).trans (List.sublist_append_right freeing _))
  freed := by
    intro finished none node
    obtain ⟨listed, freeing, due, lost, shape⟩ := inv
    have joined := shape.joined (by simp [finished])
    obtain ⟨rfl, rfl⟩ := (SweepPlace.holds_iff_of_atRest joined.2 ..).mp shape.place
    obtain rfl := shape.kept none
    have chain := shape.chain
    unfold NodeState.first at chain
    rw [finished] at chain
    cases listed with
    | cons first rest => cases chain.1
    | nil =>
        rw [← Bool.not_eq_true, shape.owns.owned node]
        rintro (member | ⟨thread, content, created⟩)
        · cases member
        · rw [joined.1 thread] at created
          cases created

/-- Over every run the list is used safely, and no ban is lost or unbanned twice. -/
theorem nodes_safe_run {config : Config} {threadCount : Nat} {calls : List NodeCall}
    {last : NodeState} (run : NodeRun config threadCount .started calls last) :
    last.Sound config threadCount := by
  have inv : last.Inv threadCount :=
    run.invariant (NodeState.Inv.step config) (NodeState.Inv.started threadCount)
  exact inv.sound config

/-- Two bans, of which the older one has expired, a third one pushed during the walk,
and the memory of the first one given out again. -/
def reusingCalls : List NodeCall :=
  [.create 0 ⟨.v4 1, 0⟩ (.node 5), .link 0 .succeed, .create 1 ⟨.v4 2, 200⟩ (.node 6),
    .link 1 .succeed, .sweep 201 .succeed, .create 0 ⟨.v4 3, 201⟩ (.node 7), .link 0 .succeed,
    .walk, .walk, .unban, .remove, .create 1 ⟨.v4 4, 202⟩ (.node 5), .link 1 .succeed, .unban,
    .destroy, .destroy, .destroy, .destroy, .destroy]

theorem nodes_safe_run_reusing : ∃ last,
    NodeRun twoMessages 2 .started reusingCalls last ∧ last.main = .finished ∧
      last.unbanned.length = 1 ∧ last.Sound twoMessages 2 := by
  have executed : (Run.exec (fun state call => (NodeState.step twoMessages state call).next)
      (NodeState.Permitted 2) .started reusingCalls).any
        (fun last => last.main == .finished && last.unbanned.length == 1) = true := by decide
  obtain ⟨last, run, ended⟩ := Run.of_exec_any executed
  simp only [Bool.and_eq_true, beq_iff_eq] at ended
  exact ⟨last, run, ended.1, ended.2, nodes_safe_run run⟩

end FipsIpc.Sf2b
