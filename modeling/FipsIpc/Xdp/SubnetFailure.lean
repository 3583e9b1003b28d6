import FipsIpc.Xdp.Subnets

/-!
Contract: calls of `blacklist_subnet_modify` that fail.

Owns: which failing calls leave the maps as they were, on a kernel that may
refuse an update for lack of room or memory.

Does not own: the agreement of the two maps over whole runs, `Xdp.Subnets`.
-/

set_option autoImplicit false

namespace FipsIpc.Xdp

open FipsIpc.Lib

/-! ### Which failures show -/

/-- A failing call leaves both maps as they were. -/
def FailureInvisible (room : Room) (maps : SubnetMaps) (call : SubnetCall) : Prop :=
  (room.blacklistSubnetModify maps call.key6 call.action).1 ≠ exitOk →
    (room.blacklistSubnetModify maps call.key6 call.action).2 = maps

/-- An ADD that brings the count to the threshold, but cannot enter the prefix into
the blacklist: it is still there, or there is no room. -/
structure ThresholdRefused (room : Room) (maps : SubnetMaps) (call : SubnetCall) : Prop where
  adds : call.action = .add
  counted : room.cache = true
  reaches : maps.cache (subnetKey call.key6) = some (subnetThreshold - 1)
  refused : room.blacklist = false ∨ maps.blacklist (subnetKey call.key6) ≠ none

section Failures

variable {room : Room} {maps : SubnetMaps} {key6 : BitVec 128}

/-- An ADD that fails either changed nothing or stopped between the two maps. -/
theorem add_failed (failed : (room.blacklistSubnetModify maps key6 .add).1 ≠ exitOk) :
    (room.blacklistSubnetModify maps key6 .add).2 = maps ∨
      ThresholdRefused room maps ⟨key6, .add⟩ := by
  revert failed
  unfold Room.blacklistSubnetModify
  dsimp only
  cases cached : maps.cache (subnetKey key6) with
  | none =>
      cases room.cache with
      | false => simp
      | true => simp [update_noexist_absent 1 cached]
  | some valuePrev =>
      cases counted : room.cache with
      | false => simp
      | true =>
          simp only [bpfMapTryUpdateElem_true, update_exist_present (valuePrev + 1) cached,
            if_neg success_ne]
          by_cases reaches : valuePrev + 1 = subnetThreshold
          · rw [if_pos reaches]
            intro failed
            have below : valuePrev = subnetThreshold - 1 := by
              rw [← reaches, UInt64.add_sub_cancel]
            -- the cache holds the new count already; the blacklist decides about the result
            refine Or.inr ⟨rfl, counted, below ▸ cached, ?_⟩
            cases granted : room.blacklist with
            | false => exact Or.inl rfl
            | true =>
                refine Or.inr fun absent => failed ?_
                simp [granted, update_noexist_absent 0 absent]
          · simp [if_neg reaches]

theorem del_failed (failed : (room.blacklistSubnetModify maps key6 .del).1 ≠ exitOk) :
    (room.blacklistSubnetModify maps key6 .del).2 = maps := by
  revert failed
  unfold Room.blacklistSubnetModify
  dsimp only
  cases cached : maps.cache (subnetKey key6) with
  | none => simp
  | some valuePrev =>
      dsimp only
      by_cases empties : valuePrev - 1 = 0
      · rw [if_pos empties, delete_present cached]
        dsimp only
        rw [if_neg success_ne]
        cases blocked : maps.blacklist (subnetKey key6) with
        | none => simp
        | some counter => simp [delete_present blocked]
      · rw [if_neg empties]
        cases room.cache with
        | false => simp
        | true => simp [update_exist_present (valuePrev - 1) cached]

/-- A call that stops between the two maps fails, with the new count in the cache. -/
theorem ThresholdRefused.result {call : SubnetCall} (stops : ThresholdRefused room maps call) :
    room.blacklistSubnetModify maps call.key6 call.action =
      (exitFailMapKey,
        ⟨Function.update maps.cache (subnetKey call.key6) (some subnetThreshold),
          maps.blacklist⟩) := by
  obtain ⟨key6, action⟩ := call
  obtain ⟨adds, counted, reaches, refused⟩ := stops
  dsimp only at adds reaches refused ⊢
  subst adds
  have next : subnetThreshold - 1 + 1 = subnetThreshold := by decide
  have blocked : bpfMapTryUpdateElem room.blacklist maps.blacklist (subnetKey key6) 0 .noexist =
      (-1, maps.blacklist) := by
    rcases refused with full | present
    · rw [full]
      rfl
    · obtain ⟨counter, held⟩ := Option.ne_none_iff_exists'.mp present
      cases room.blacklist with
      | false => rfl
      | true => exact update_noexist_present 0 held
  unfold Room.blacklistSubnetModify
  simp only [reaches, counted, bpfMapTryUpdateElem_true, next,
    update_exist_present subnetThreshold reaches, if_neg success_ne, if_true, blocked]

theorem ThresholdRefused.visible {call : SubnetCall} (stops : ThresholdRefused room maps call) :
    ¬FailureInvisible room maps call := by
  intro invisible
  unfold FailureInvisible at invisible
  rw [stops.result] at invisible
  have failed : exitFailMapKey ≠ exitOk := by decide
  have same : Function.update maps.cache (subnetKey call.key6) (some subnetThreshold) =
      maps.cache := congrArg SubnetMaps.cache (invisible failed)
  have value := congrFun same (subnetKey call.key6)
  rw [Function.update_self, stops.reaches] at value
  exact absurd value (by decide)

end Failures

/-- A failing call changes nothing exactly if it does not stop between the two maps. -/
theorem failureInvisible_iff (room : Room) (maps : SubnetMaps) (call : SubnetCall) :
    FailureInvisible room maps call ↔ ¬ThresholdRefused room maps call := by
  constructor
  · intro invisible stops
    exact stops.visible invisible
  · intro passes failed
    obtain ⟨key6, action⟩ := call
    cases action with
    | add => exact (add_failed failed).resolve_right passes
    | del => exact del_failed failed
    | other => rfl

/-- Three ADDs, a DEL and an ADD: the last one counts to the threshold again and fails. -/
theorem failure_visible_again : ∃ last,
    Run subnetStep (fun _ _ => True) .empty [addOne, addOne, addOne, delOne] last ∧
    ¬FailureInvisible .ample last addOne := by
  have run : ∃ last, Run subnetStep (fun _ _ => True) .empty [addOne, addOne, addOne, delOne] last ∧
      (last.cache (subnetKey documentation) == some (subnetThreshold - 1) &&
        (last.blacklist (subnetKey documentation)).isSome) = true :=
    Run.of_exec_any (by decide)
  obtain ⟨last, run, counted⟩ := run
  obtain ⟨reaches, blocked⟩ := (Bool.and_eq_true _ _).mp counted
  have stops : ThresholdRefused .ample last addOne :=
    ⟨rfl, rfl, eq_of_beq reaches, Or.inr (Option.isSome_iff_ne_none.mp blocked)⟩
  exact ⟨last, run, stops.visible⟩

end FipsIpc.Xdp
