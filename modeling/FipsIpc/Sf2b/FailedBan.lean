import FipsIpc.Sf2b.Consistency
import FipsIpc.IpHashtable.Refinement

/-!
Contract: what a ban that fails leaves behind.

Owns: list, map and counter after a message at the limit whose push or map
update fails.

The two failures are answered differently.  After a failed push `ban_clients`
goes on to the next message with the counter at the limit; after a failed map
update it sets the counter to one below the limit and leaves the node on the
list.  Banning asks for equality with the limit.

Does not own: how the system comes to refuse a call.
-/

set_option autoImplicit false

namespace FipsIpc.Sf2b

open FipsIpc.Lib
open FipsIpc.IpHashtable

/-- List and map are as before, and the next message of the client within the
window brings its counter to the limit again. -/
structure Retryable (config : Config) (address : Address) (before after : Server) : Prop where
  list : after.bannedList = before.bannedList
  map : after.blacklist = before.blacklist
  count : ∃ lastAccess,
    after.htable.contents address = some ⟨UInt32.ofNat (config.limit - 1), lastAccess⟩

/-- `ip_llist_push` or `bpf_map_update_elem` fails for the client. -/
def BanFails (server : Server) (ts : Int) (answers : BanAnswers) (address : Address) : Prop :=
  (ipLlistPush answers.push server.bannedList ⟨address, ts⟩).1 < 0 ∨
    (bpfMapUpdateElem answers.update server.blacklist address).1 ≠ exitOk

/-- The counter that is set is below the limit. -/
theorem intOfCount_below (config : Config) :
    intOfCount (UInt32.ofNat (config.limit - 1)) = ((config.limit - 1 : Nat) : Int) := by
  have bound := config.limit_lt
  have exact : (UInt32.ofNat (config.limit - 1)).toNat = config.limit - 1 := by
    rw [UInt32.toNat_ofNat']
    exact Nat.mod_eq_of_lt (by omega)
  unfold intOfCount
  rw [exact, if_pos (by omega)]

/-- A map update that fails changes no key. -/
theorem bpfMapUpdateElem_failed {accepts : Bool} {blacklist : Address → Bool} {key : Address}
    (failed : (bpfMapUpdateElem accepts blacklist key).1 ≠ exitOk) :
    (bpfMapUpdateElem accepts blacklist key).2 = blacklist := by
  unfold bpfMapUpdateElem at failed ⊢
  by_cases present : blacklist key = true
  · rw [if_pos present]
  · rw [if_neg present] at failed ⊢
    cases accepts with
    | true => exact absurd rfl failed
    | false => rfl

section Banning

variable {config : Config} {server next : Server} {ts : Int} {answers : BanAnswers}
  {message : Message} {address : Address}

/-- After a failed push neither map nor counter is touched. -/
theorem banClient_of_failed_push
    (failed : (ipLlistPush answers.push server.bannedList ⟨address, ts⟩).1 < 0)
    (taken : banClient config ts answers message address server = some next) :
    next.blacklist = server.blacklist ∧ next.htable = server.htable := by
  unfold banClient at taken
  dsimp only at taken
  rw [if_pos failed] at taken
  cases taken
  exact ⟨rfl, rfl⟩

theorem ipLlistPush_succeeded {list : List Node} {node : Node}
    (succeeded : ¬(ipLlistPush answers.push list node).1 < 0) :
    (ipLlistPush answers.push list node).2 = node :: list := by
  cases push : answers.push with
  | succeed => rfl
  | unlockFails => rfl
  | noMemory =>
      rw [push] at succeeded
      exact absurd (by decide : ipLlistMemErr < 0) succeeded
  | lockFails =>
      rw [push] at succeeded
      exact absurd (by decide : ipLlistMutexErr < 0) succeeded

/-- After a push that succeeds the node is on the list, whatever the map does. -/
theorem banClient_of_pushed
    (pushed : ¬(ipLlistPush answers.push server.bannedList ⟨address, ts⟩).1 < 0)
    (taken : banClient config ts answers message address server = some next) :
    next.bannedList = ⟨address, ts⟩ :: server.bannedList ∧
      next.blacklist = (bpfMapUpdateElem answers.update server.blacklist address).2 := by
  have list := ipLlistPush_succeeded pushed
  unfold banClient at taken
  dsimp only at taken
  rw [if_neg pushed] at taken
  split at taken
  case isTrue =>
    obtain ⟨_, _, set⟩ := Option.bind_eq_some_iff.mp taken
    cases set
    exact ⟨list, rfl⟩
  case isFalse =>
    cases taken
    exact ⟨list, rfl⟩

/-- A ban that fails leaves the map as it was, but either the counter at the
limit or the node on the list. -/
theorem banMessage_failed {batchTimestamp : Int} {htable : Table}
    (bans : Bans config server ts batchTimestamp answers message address htable)
    (fails : BanFails server ts answers address)
    (taken : banMessage config ts batchTimestamp answers message server = some next) :
    next.blacklist = server.blacklist ∧
      ((∀ counter, next.htable.contents address = some counter →
          intOfCount counter.count = config.limit) ∨
        next.bannedList = ⟨address, ts⟩ :: server.bannedList) := by
  rcases banMessage_cases taken with ⟨other, table, otherBans, banned⟩ | ⟨_, _, none⟩
  · obtain ⟨_, argument, _, positive, inserted⟩ := bans
    cases argument.symm.trans otherBans.2.1
    cases inserted.symm.trans otherBans.2.2.2.2
    let counted : Server := { server with htable := htable }
    by_cases failed : (ipLlistPush answers.push counted.bannedList ⟨address, ts⟩).1 < 0
    · obtain ⟨map, table⟩ := banClient_of_failed_push failed banned
      refine ⟨map, Or.inl fun counter found => ?_⟩
      rw [table] at found
      exact Table.contents_insert argument inserted (by omega) found
    · obtain ⟨list, map⟩ := banClient_of_pushed failed banned
      have refused := fails.resolve_left failed
      exact ⟨map.trans (bpfMapUpdateElem_failed refused), Or.inr list⟩
  · exact absurd bans (none address htable)

/-- No ban that fails can be tried again. -/
theorem failedBan_not_retryable {batchTimestamp : Int} {htable : Table}
    (bans : Bans config server ts batchTimestamp answers message address htable)
    (fails : BanFails server ts answers address) :
    ¬∃ next, banMessage config ts batchTimestamp answers message server = some next ∧
      Retryable config address server next := by
  rintro ⟨next, taken, retryable⟩
  obtain ⟨lastAccess, found⟩ := retryable.count
  rcases (banMessage_failed bans fails taken).2 with stuck | list
  · have limit := stuck _ found
    have positive := bans.2.2.2.1
    rw [intOfCount_below] at limit
    omega
  · exact List.cons_ne_self _ _ (list.symm.trans retryable.list)

end Banning

/-- A message of 192.168.1.1. -/
def clientMessage (timestamp : Int) : Message := ⟨afInet, 0x0101A8C0, timestamp⟩

/-- The list has no memory for the node. -/
def pushFails : BanAnswers := ⟨.succeed, .noMemory, true, .succeed⟩

/-- The map is full. -/
def updateFails : BanAnswers := ⟨.succeed, .succeed, false, .succeed⟩

/-- The second message reaches the limit and its push fails. -/
theorem failedBan_not_retryable_noMemory :
    ∃ server htable,
      banMessage twoMessages 0 0 allSucceed (clientMessage 0)
        (.started twoMessages fun _ => .zero) = some server ∧
      Bans twoMessages server 1 1 pushFails (clientMessage 1) (.v4 0x0101A8C0) htable ∧
      ¬∃ next, banMessage twoMessages 1 1 pushFails (clientMessage 1) server = some next ∧
        Retryable twoMessages (.v4 0x0101A8C0) server next := by
  have counted : ∃ server,
      banMessage twoMessages 0 0 allSucceed (clientMessage 0)
        (.started twoMessages fun _ => .zero) = some server ∧
      ∃ htable, server.htable.ipHashtableInsert .succeed (some 0x0101A8C0) afInet 1 =
        some (2, htable) := by
    rw [Server.started, Table.ipHashtableInit_eq]
    exact ⟨_, (Option.some_get (by decide +kernel)).symm, exists_table (by decide +kernel)⟩
  obtain ⟨server, first, htable, inserted⟩ := counted
  have bans : Bans twoMessages server 1 1 pushFails (clientMessage 1) (.v4 0x0101A8C0) htable :=
    ⟨by decide, rfl, by decide, by decide, inserted⟩
  have fails : BanFails server 1 pushFails (.v4 0x0101A8C0) :=
    Or.inl (by decide : ipLlistMemErr < 0)
  exact ⟨server, htable, first, bans, failedBan_not_retryable bans fails⟩

theorem not_retryable_of_count {server next : Server} {address : Address} {config : Config}
    (count : (next.htable.contents address).all fun counter =>
      counter.count != UInt32.ofNat (config.limit - 1)) :
    ¬Retryable config address server next := by
  intro retryable
  obtain ⟨lastAccess, found⟩ := retryable.count
  rw [found] at count
  exact absurd rfl (bne_iff_ne.mp count)

/-- After a failed push the counter stays at two and the third message, which
every call serves, bans nobody; after a failed map update the node stays. -/
theorem failedBan_leftovers :
    (∃ server next last,
      banMessage twoMessages 0 0 allSucceed (clientMessage 0)
        (.started twoMessages fun _ => .zero) = some server ∧
      banMessage twoMessages 1 1 pushFails (clientMessage 1) server = some next ∧
      banMessage twoMessages 2 2 allSucceed (clientMessage 2) next = some last ∧
      ¬Retryable twoMessages (.v4 0x0101A8C0) server next ∧
      last.banned = [] ∧ last.blacklist (.v4 0x0101A8C0) = false) ∧
    ∃ server next,
      banMessage twoMessages 0 0 allSucceed (clientMessage 0)
        (.started twoMessages fun _ => .zero) = some server ∧
      banMessage twoMessages 1 1 updateFails (clientMessage 1) server = some next ∧
      ¬Retryable twoMessages (.v4 0x0101A8C0) server next ∧
      server.banned = [] ∧ next.banned = [.v4 0x0101A8C0] := by
  rw [Server.started, Table.ipHashtableInit_eq]
  constructor
  · exact ⟨_, _, _, (Option.some_get (by decide +kernel)).symm,
      (Option.some_get (by decide +kernel)).symm, (Option.some_get (by decide +kernel)).symm,
      not_retryable_of_count (by decide +kernel), by decide +kernel, by decide +kernel⟩
  · refine ⟨_, _, (Option.some_get (by decide +kernel)).symm,
      (Option.some_get (by decide +kernel)).symm, fun retryable => ?_, by decide +kernel,
      by decide +kernel⟩
    have list := congrArg List.length retryable.list
    exact absurd list (by decide +kernel)

end FipsIpc.Sf2b
