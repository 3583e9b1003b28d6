import FipsIpc.Lib.Chain
import FipsIpc.Lib.Run
import FipsIpc.Sf2b.Interleaving
import Mathlib.Data.List.Basic
import Mathlib.Data.List.Perm.Basic

/-!
Contract: cutting the list of banned clients while others push to it.

Owns: `get_unban_list` and `ip_llist_push` over nodes linked by pointers, the walk
behind the unlock step by step, and pushes of other threads between its steps.

The part under the lock is one step, and so is a push, which holds the same lock.
A new node is memory that is in no list.  Nodes are removed by the unban thread
alone, so none is freed before the function has returned.  The difference of two
times does not overflow.

Does not own: what becomes of the nodes that were cut off.
-/

set_option autoImplicit false

namespace FipsIpc.Sf2b

open FipsIpc.Lib

/-! ### The list in memory -/

/-- `struct ip_llist_t` with its nodes; `content` has what a node holds besides its
`next` pointer. -/
structure LinkedNodes where
  head : Option Nat
  next : Nat → Option Nat
  content : Nat → Node

/-- `ip_llist_push` with the node `create_lnode` has made, whose `next` is NULL. -/
def LinkedNodes.push (list : LinkedNodes) (node : Nat) (content : Node) : LinkedNodes :=
  { head := some node
    next := Function.update list.next node (if list.head = none then none else list.head)
    content := Function.update list.content node content }

/-- The time of the node is over. -/
def LinkedNodes.expired (config : Config) (ts : Int) (list : LinkedNodes) (node : Nat) : Bool :=
  (list.content node).expired config ts

/-! ### `get_unban_list` -/

/-- Where the unban thread is: about to look at `iterator`, about to cut the list
behind `prev`, or back with a list or with an error. -/
inductive CutPlace where
  | testing (prev : Nat) (iterator : Option Nat)
  | cutting (prev iterator : Nat)
  | returned (result : Option Nat)
  | failed
deriving DecidableEq, Repr

/-- `pushed` records the nodes pushed since the unlock, the last one first, and
`walked` counts the steps of the loop. -/
structure CutState where
  list : LinkedNodes
  place : CutPlace
  pushed : List Nat
  walked : Nat

namespace CutState

/-- The part of `get_unban_list` up to its unlock; of the unlock that follows a failed
lock only the list it leaves alone is modelled. -/
def locked (config : Config) (ts : Int) (answer : LockAnswer) (list : LinkedNodes) : CutState :=
  if answer = .lockFails then ⟨list, .failed, [], 0⟩
  else
    match list.head with
    | none => ⟨list, if answer = .unlockFails then .failed else .returned none, [], 0⟩
    | some iterator =>
        if list.expired config ts iterator then
          ⟨{ list with head := none },
            if answer = .unlockFails then .failed else .returned (some iterator), [], 0⟩
        else
          ⟨list,
            if answer = .unlockFails then .failed else .testing iterator (list.next iterator),
            [], 0⟩

/-- One step of the loop; nothing when the thread is not in it. -/
def walk (config : Config) (ts : Int) (state : CutState) : Option CutState :=
  let state := { state with walked := state.walked + 1 }
  match state.place with
  | .testing _ none => some { state with place := .returned none }
  | .testing prev (some iterator) =>
      if state.list.expired config ts iterator then
        some { state with place := .cutting prev iterator }
      else some { state with place := .testing iterator (state.list.next iterator) }
  | .cutting prev iterator =>
      some
        { state with
          list := { state.list with next := Function.update state.list.next prev none }
          place := .returned (some iterator) }
  | .returned _ | .failed => none

end CutState

inductive CutCall where
  | push (node : Nat) (content : Node)
  | walk

/-- A call of one of the threads. -/
def CutState.step (config : Config) (ts : Int) (state : CutState) : CutCall → Option CutState
  | .push node content =>
      some
        { state with
          list := state.list.push node content
          pushed := node :: state.pushed }
  | .walk => state.walk config ts

/-- The node is neither one of `cells` nor one pushed before. -/
def CutCall.Fresh (cells : List Nat) (state : CutState) : CutCall → Prop
  | .push node _ => node ∉ cells ∧ node ∉ state.pushed
  | .walk => True

instance (cells : List Nat) (state : CutState) (call : CutCall) :
    Decidable (call.Fresh cells state) :=
  match call with
  | .push node _ => inferInstanceAs (Decidable (node ∉ cells ∧ node ∉ state.pushed))
  | .walk => inferInstanceAs (Decidable True)

/-! ### What the walk keeps -/

/-- The list around the place of the unban thread; `cells` are the nodes at the
lock. -/
inductive CutShape (expired : Nat → Bool) (cells pushed : List Nat) (list : LinkedNodes)
    (walked : Nat) : CutPlace → Prop where
  | testing {left right : List Nat} {prev : Nat} (split : cells = left ++ prev :: right)
      (steps : walked = left.length) (kept : ∀ node ∈ left ++ [prev], ¬ expired node)
      (chain : Chain list.next list.head (pushed ++ cells)) :
      CutShape expired cells pushed list walked (.testing prev right.head?)
  | cutting {left right : List Nat} {prev iterator : Nat}
      (split : cells = left ++ prev :: iterator :: right) (steps : walked = left.length + 1)
      (kept : ∀ node ∈ left ++ [prev], ¬ expired node) (due : expired iterator)
      (chain : Chain list.next list.head (pushed ++ cells)) :
      CutShape expired cells pushed list walked (.cutting prev iterator)
  | returned {kept cut : List Nat} {result : Option Nat} (split : cells = kept ++ cut)
      (notDue : ∀ node ∈ kept, ¬ expired node) (due : ∀ node, cut.head? = some node → expired node)
      (chain : Chain list.next list.head (pushed ++ kept)) (apart : Chain list.next result cut) :
      CutShape expired cells pushed list walked (.returned result)
  | failed : CutShape expired cells pushed list walked .failed

/-- Nodes pushed are new, and the nodes at the lock hold what they held. -/
structure CutInv (config : Config) (ts : Int) (start : LinkedNodes) (cells : List Nat)
    (state : CutState) : Prop where
  fresh : ∀ node ∈ state.pushed, node ∉ cells
  content : ∀ node ∈ cells, state.list.content node = start.content node
  shape : CutShape (start.expired config ts) cells state.pushed state.list state.walked state.place

section Walk

variable {config : Config} {ts : Int} {start : LinkedNodes} {cells : List Nat}

/-- Pushing a new node in front of a chain and beside another one. -/
theorem LinkedNodes.push_chain {list : LinkedNodes} {nodes : List Nat} {node : Nat}
    (content : Node) (chain : Chain list.next list.head nodes) (fresh : node ∉ nodes) :
    Chain (list.push node content).next (list.push node content).head (node :: nodes) := by
  have first : (if list.head = none then none else list.head) = list.head := by
    split <;> simp_all
  simp only [LinkedNodes.push, first]
  exact chain.push fresh

/-- Another list, of which the new node is no part. -/
theorem LinkedNodes.push_apart {list : LinkedNodes} {first : Option Nat} {nodes : List Nat}
    {node : Nat} (content : Node) (chain : Chain list.next first nodes) (fresh : node ∉ nodes) :
    Chain (list.push node content).next first nodes :=
  chain.update_of_not_mem fresh

theorem CutInv.locked (config : Config) (ts : Int) (answer : LockAnswer)
    (chain : Chain start.next start.head cells) :
    CutInv config ts start cells (.locked config ts answer start) := by
  have first := chain.first_eq
  unfold CutState.locked
  split
  · exact ⟨by simp, fun _ _ => rfl, .failed⟩
  · split
    case h_1 empty =>
      have nothing : cells = [] ++ [] := List.head?_eq_none_iff.mp (first.symm.trans empty)
      refine ⟨by simp, fun _ _ => rfl, ?_⟩
      split
      · exact .failed
      · exact .returned nothing (by simp) (by simp) empty rfl
    case h_2 iterator found =>
      obtain ⟨rest, rfl⟩ := List.head?_eq_some_iff.mp (first.symm.trans found)
      split
      case isTrue due =>
        refine ⟨by simp, fun _ _ => rfl, ?_⟩
        split
        · exact .failed
        · rw [found] at chain
          refine .returned (List.nil_append _).symm (by simp) ?_ rfl chain
          intro node first
          cases first
          exact due
      case isFalse notDue =>
        refine ⟨by simp, fun _ _ => rfl, ?_⟩
        split
        · exact .failed
        · dsimp only
          rw [chain.2.first_eq]
          exact .testing (List.nil_append _).symm rfl (by simpa using notDue) chain

theorem CutInv.push {state : CutState} (inv : CutInv config ts start cells state) {node : Nat}
    (new : node ∉ cells) (unpushed : node ∉ state.pushed) (content : Node) :
    CutInv config ts start cells
      ⟨state.list.push node content, state.place, node :: state.pushed, state.walked⟩ := by
  obtain ⟨fresh, contents, shape⟩ := inv
  refine ⟨?_, ?_, ?_⟩
  · simp only [List.mem_cons, forall_eq_or_imp]
    exact ⟨new, fresh⟩
  · intro other member
    rw [← contents other member]
    exact Function.update_of_ne (ne_of_mem_of_not_mem member new) _ _
  · have outside : ∀ nodes : List Nat, nodes ⊆ cells → node ∉ state.pushed ++ nodes := by
      intro nodes part member
      rcases List.mem_append.mp member with inPushed | inNodes
      · exact unpushed inPushed
      · exact new (part inNodes)
    generalize state.place = place at shape
    cases shape with
    | testing split steps kept chain =>
        exact .testing split steps kept
          (LinkedNodes.push_chain content chain (outside cells (List.Subset.refl _)))
    | cutting split steps kept due chain =>
        exact .cutting split steps kept due
          (LinkedNodes.push_chain content chain (outside cells (List.Subset.refl _)))
    | @returned kept cut _ split notDue due chain apart =>
        have keptPart : kept ⊆ cells := by simp [split]
        have cutPart : node ∉ cut := fun member => new (by simp [split, member])
        exact .returned split notDue due
          (LinkedNodes.push_chain content chain (outside kept keptPart))
          (LinkedNodes.push_apart content apart cutPart)
    | failed => exact .failed

theorem CutInv.walk {state next : CutState} (inv : CutInv config ts start cells state)
    (taken : state.walk config ts = some next) : CutInv config ts start cells next := by
  obtain ⟨fresh, contents, shape⟩ := inv
  unfold CutState.walk at taken
  generalize at_place : state.place = place at shape taken
  cases shape with
  | @testing left right prev split steps kept chain =>
      cases right with
      | nil =>
          cases taken
          have all : cells = (left ++ [prev]) ++ [] := by simp [split]
          refine ⟨fresh, contents, .returned all kept (by simp) ?_ rfl⟩
          rwa [← split]
      | cons iterator right =>
          have member : iterator ∈ cells := by simp [split]
          have same : state.list.expired config ts iterator = start.expired config ts iterator := by
            simp [LinkedNodes.expired, contents iterator member]
          simp only [List.head?_cons, same] at taken
          split at taken
          case isTrue due =>
            cases taken
            exact ⟨fresh, contents, .cutting split (by simp [steps]) kept due chain⟩
          case isFalse notDue =>
            cases taken
            have behind : state.pushed ++ cells =
                (state.pushed ++ left ++ [prev]) ++ iterator :: right := by simp [split]
            have further : cells = (left ++ [prev]) ++ iterator :: right := by simp [split]
            have follows : state.list.next iterator = right.head? := by
              rw [behind] at chain
              exact chain.next_eq
            rw [follows]
            refine ⟨fresh, contents, .testing further (by simp [steps]) ?_ chain⟩
            intro node member
            rcases List.mem_append.mp member with earlier | here
            · exact kept node earlier
            · rw [List.mem_singleton.mp here]
              exact notDue
  | @cutting left right prev iterator split steps kept due chain =>
      cases taken
      have around : state.pushed ++ cells =
          (state.pushed ++ left) ++ prev :: iterator :: right := by simp [split]
      have parts : cells = (left ++ [prev]) ++ iterator :: right := by simp [split]
      rw [around] at chain
      have tail : Chain state.list.next (some iterator) (iterator :: right) := by
        have rest := chain.suffix.2
        rwa [rest.first_eq] at rest
      have outside : prev ∉ iterator :: right := (List.nodup_cons.mp chain.suffix.nodup).1
      have cut := @Chain.redirect _ _ _ _ _ _ [] _ none chain rfl
      refine ⟨fresh, contents, .returned parts kept ?_ ?_ (tail.update_of_not_mem outside)⟩
      · intro node first
        cases first
        exact due
      · simpa using cut
  | returned => cases taken
  | failed => cases taken

theorem CutInv.step (state : CutState) (call : CutCall) (next : CutState)
    (inv : CutInv config ts start cells state) (fresh : call.Fresh cells state)
    (taken : state.step config ts call = some next) : CutInv config ts start cells next := by
  cases call with
  | push node content =>
      cases taken
      exact inv.push fresh.1 fresh.2 content
  | walk => exact inv.walk taken

/-- The invariant over runs. -/
theorem CutInv.run {answer : LockAnswer} {calls : List CutCall} {last : CutState}
    (chain : Chain start.next start.head cells)
    (run : Run (CutState.step config ts) (fun state call => call.Fresh cells state)
      (.locked config ts answer start) calls last) : CutInv config ts start cells last :=
  run.invariant CutInv.step (CutInv.locked config ts answer chain)

/-! ### The list that is returned -/

/-- The walk cuts the list where `getUnbanList` does: before the first node whose
time is over. -/
theorem CutInv.getUnbanList {state : CutState} {result : Option Nat}
    (inv : CutInv config ts start cells state) (place : state.place = .returned result) :
    ∃ kept cut, cells = kept ++ cut ∧ Chain state.list.next state.list.head (state.pushed ++ kept) ∧
      Chain state.list.next result cut ∧
      getUnbanList config ts (cells.map start.content) =
        (kept.map start.content, cut.map start.content) := by
  have shape := inv.shape
  rw [place] at shape
  cases shape with
  | @returned kept cut _ split notDue due chain apart =>
      refine ⟨kept, cut, split, chain, apart, ?_⟩
      have waits : ∀ node ∈ kept.map start.content, !node.expired config ts := by
        simpa [LinkedNodes.expired] using notDue
      rw [Sf2b.getUnbanList, List.span_eq_takeWhile_dropWhile, split, List.map_append,
        List.takeWhile_append_of_pos waits, List.dropWhile_append_of_pos waits]
      cases cut with
      | nil => simp
      | cons first rest =>
          have firstDue : (start.content first).expired config ts = true := due first rfl
          simp [firstDue]

/-- In a list whose times do not increase, the time of all nodes behind a node is
over with its own. -/
theorem expired_of_sorted {first : Nat} {rest : List Nat}
    (sorted : (first :: rest).Pairwise fun earlier later =>
      (start.content later).timestamp ≤ (start.content earlier).timestamp)
    (due : start.expired config ts first) (node : Nat) (member : node ∈ first :: rest) :
    start.expired config ts node := by
  rcases List.mem_cons.mp member with rfl | behind
  · exact due
  · have older := (List.pairwise_cons.mp sorted).1 node behind
    simp only [LinkedNodes.expired, Node.expired, decide_eq_true_eq] at due ⊢
    omega

end Walk

/-- The nodes whose time is over are in the list returned, in their order; the list
of banned clients has the nodes pushed and then the others; no node is in both or
in neither. -/
structure CutState.Split (config : Config) (ts : Int) (start : LinkedNodes) (cells : List Nat)
    (state : CutState) (result : Option Nat) : Prop where
  returned : Chain state.list.next result (cells.filter (start.expired config ts))
  remaining : Chain state.list.next state.list.head
    (state.pushed ++ cells.filter fun node => !start.expired config ts node)
  all : (cells.filter (start.expired config ts) ++
    (state.pushed ++ cells.filter fun node => !start.expired config ts node)).Perm
      (state.pushed ++ cells)
  once : (cells.filter (start.expired config ts) ++
    (state.pushed ++ cells.filter fun node => !start.expired config ts node)).Nodup

section Cut

variable {config : Config} {ts : Int} {start : LinkedNodes} {cells : List Nat}
  {answer : LockAnswer} {calls : List CutCall} {last : CutState}

theorem CutInv.split {state : CutState} {result : Option Nat}
    (inv : CutInv config ts start cells state) (nodup : cells.Nodup)
    (sorted : cells.Pairwise fun earlier later =>
      (start.content later).timestamp ≤ (start.content earlier).timestamp)
    (place : state.place = .returned result) : state.Split config ts start cells result := by
  have shape := inv.shape
  rw [place] at shape
  cases shape with
  | @returned kept cut _ split notDue due chain apart =>
      have allDue : ∀ node ∈ cut, start.expired config ts node := by
        rw [split] at sorted
        cases cut with
        | nil => simp
        | cons first rest =>
            exact expired_of_sorted (List.pairwise_append.mp sorted).2.1 (due first rfl)
      have dueNodes : cells.filter (start.expired config ts) = cut := by
        rw [split, List.filter_append, List.filter_eq_nil_iff.mpr notDue,
          List.filter_eq_self.mpr allDue, List.nil_append]
      have rest : (cells.filter fun node => !start.expired config ts node) = kept := by
        rw [split, List.filter_append, List.filter_eq_self.mpr (by simpa using notDue),
          List.filter_eq_nil_iff.mpr (by simpa using allDue), List.append_nil]
      refine ⟨by rwa [dueNodes], by rwa [rest], ?_, ?_⟩
      · rw [dueNodes, rest, split, ← List.append_assoc state.pushed]
        exact List.perm_append_comm
      · rw [dueNodes, rest]
        refine List.nodup_append.mpr ⟨apart.nodup, chain.nodup, ?_⟩
        intro node inCut other inList same
        subst same
        rcases List.mem_append.mp inList with inPushed | inKept
        · exact inv.fresh node inPushed (by simp [split, inCut])
        · rw [split] at nodup
          exact (List.nodup_append.mp nodup).2.2 node inKept node inCut rfl

/-- As long as the loop has not returned it has made fewer steps than there are
nodes, and it can make the next one. -/
theorem CutInv.walking {state : CutState} (inv : CutInv config ts start cells state)
    (running : ∀ result, state.place ≠ .returned result) (released : state.place ≠ .failed) :
    state.walked < cells.length ∧ ∃ next, state.walk config ts = some next := by
  have shape := inv.shape
  unfold CutState.walk
  generalize state.place = place at shape running released
  cases shape with
  | @testing left right prev split steps kept chain =>
      refine ⟨by simp [split, steps], ?_⟩
      cases right with
      | nil => exact ⟨_, rfl⟩
      | cons iterator right =>
          by_cases due : state.list.expired config ts iterator <;> simp [due]
  | @cutting left right prev iterator split steps kept due chain =>
      exact ⟨by simp [split, steps], _, rfl⟩
  | returned => exact absurd rfl (running _)
  | failed => exact absurd rfl released

/-- No call leads to the error once the lock was released. -/
theorem CutState.step_not_failed (state : CutState) (call : CutCall) (next : CutState)
    (released : state.place ≠ .failed) (taken : state.step config ts call = some next) :
    next.place ≠ .failed := by
  cases call with
  | push node content =>
      cases taken
      exact released
  | walk =>
      simp only [CutState.step, CutState.walk] at taken
      split at taken
      · cases taken
        simp
      · split at taken <;> cases taken <;> simp
      · cases taken
        simp
      · cases taken
      · cases taken

theorem CutState.locked_not_failed :
    (CutState.locked config ts .succeed start).place ≠ .failed := by
  unfold CutState.locked
  split
  · contradiction
  · split
    · simp
    · split <;> simp

/-- Whatever is pushed behind the unlock and between which steps, the list is split
once `get_unban_list` has returned, and it returns after at most as many steps of
its loop as there were nodes. -/
theorem getUnbanList_splits (chain : Chain start.next start.head cells)
    (sorted : cells.Pairwise fun earlier later =>
      (start.content later).timestamp ≤ (start.content earlier).timestamp)
    (run : Run (CutState.step config ts) (fun state call => call.Fresh cells state)
      (.locked config ts .succeed start) calls last) :
    (∀ result, last.place = .returned result → last.Split config ts start cells result) ∧
      ((∀ result, last.place ≠ .returned result) →
        last.walked < cells.length ∧ ∃ next, last.step config ts .walk = some next) := by
  have inv := CutInv.run chain run
  have released : last.place ≠ .failed :=
    run.invariant
      (fun state call next earlier _ => CutState.step_not_failed state call next earlier)
      CutState.locked_not_failed
  exact ⟨fun _ place => inv.split chain.nodup sorted place,
    fun running => inv.walking running released⟩

end Cut

/-- Three nodes, the last of which was banned long before the others. -/
def threeBanned : LinkedNodes where
  head := some 0
  next := fun node => if node < 2 then some (node + 1) else none
  content := fun node => ⟨.v4 (BitVec.ofNat 32 node), if node = 2 then 0 else 150⟩

/-- A client is banned while the walk is about to cut the list. -/
def pushBeforeCut : List CutCall := [.walk, .walk, .push 7 ⟨.v4 7, 200⟩, .walk]

theorem getUnbanList_splits_threeBanned :
    ∃ last, Run (CutState.step twoMessages 200) (fun state call => call.Fresh [0, 1, 2] state)
        (.locked twoMessages 200 .succeed threeBanned) pushBeforeCut last ∧
      last.place = .returned (some 2) ∧ last.pushed = [7] ∧
      last.Split twoMessages 200 threeBanned [0, 1, 2] (some 2) := by
  have executed : (Run.exec (CutState.step twoMessages 200)
      (fun state call => call.Fresh [0, 1, 2] state)
      (.locked twoMessages 200 .succeed threeBanned) pushBeforeCut).any
      (fun last => last.place = .returned (some 2) ∧ last.pushed = [7]) = true := by decide
  obtain ⟨last, run, reached⟩ := Run.of_exec_any executed
  obtain ⟨place, pushed⟩ := of_decide_eq_true reached
  have chain : Chain threeBanned.next threeBanned.head [0, 1, 2] := ⟨rfl, rfl, rfl, rfl⟩
  have sorted : [0, 1, 2].Pairwise fun earlier later =>
      (threeBanned.content later).timestamp ≤ (threeBanned.content earlier).timestamp := by decide
  exact ⟨last, run, place, pushed, (getUnbanList_splits chain sorted run).1 _ place⟩

end FipsIpc.Sf2b
