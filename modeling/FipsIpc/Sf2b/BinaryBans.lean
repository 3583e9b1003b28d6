import FipsIpc.Sf2b.Binary

/-!
Contract: whom the consumer of binary messages bans.

Owns: the record that brings its client to the limit, what `ban_clients` of
`binary.c` has to do for it, and the records of a batch for which it does so.

The switch that counts and the one that resets the counter know IPv6 as an
address of 16 bytes.  The switch that bans has `AF_INET6`, which is 10, so an
IPv6 client at the limit falls through to `default`.

Does not own: how the counters develop.
-/

set_option autoImplicit false

namespace FipsIpc.Sf2b.Binary

open FipsIpc.IpHashtable

/-- A record with the clock reading and the answers it gets. -/
abbrev Item := Int × BanAnswers × BinMessage

/-- The client of a record: the length of the address says its family. -/
def BinMessage.client (message : BinMessage) : Option Address :=
  if message.addressLen = 4 then some message.address4
  else if message.addressLen = 16 then some message.address6
  else none

/-- The record is not too old, its client is not on the whitelist, and
`ip_hashtable_insert` returns the limit for it. -/
structure Reaches (config : Config) (server : Server) (item : Item) (address : Address) :
    Prop where
  recent : item.1 - item.2.2.timestamp ≤ config.findtime
  client : item.2.2.client = some address
  unlisted : isWhitelisted config address = false
  returned : ∃ htable, server.htable.ipHashtableInsert item.2.1.insert (some item.2.2.address)
    address.domain item.2.2.timestamp = some ((config.limit : Int), htable)

/-- `ip_llist_push` for the client of a record. -/
def pushed (server : Server) (item : Item) (address : Address) : Int × List Node :=
  ipLlistPush item.2.1.push server.bannedList ⟨address, item.1⟩

/-- A client that reaches the limit is pushed, and after a successful push
entered into the map; nobody else is. -/
structure Bans (config : Config) (item : Item) (before after : Server) : Prop where
  reached : ∀ address, Reaches config before item address →
    after.bannedList = (pushed before item address).2 ∧
      (0 ≤ (pushed before item address).1 →
        after.blacklist = (bpfMapUpdateElem item.2.1.update before.blacklist address).2)
  others : (∀ address, ¬Reaches config before item address) →
    after.bannedList = before.bannedList ∧ after.blacklist = before.blacklist

/-- The push puts a node on the list: it succeeds, or fails only to unlock. -/
def Item.Links (item : Item) : Prop :=
  item.2.1.push = .succeed ∨ item.2.1.push = .unlockFails

/-- A client that reaches the limit, and whose node the push puts on the list,
comes in a record with a four-byte address, and the limit is not zero. -/
def BansOnlyV4 (config : Config) (server : Server) (item : Item) : Prop :=
  ∀ address, Reaches config server item address → item.Links →
    item.2.2.addressLen = 4 ∧ 1 ≤ config.limit

/-! ### Pushing -/

section Pushing

variable {server : Server} {item : Item} {address : Address}

theorem pushed_of_not_links (refused : ¬item.Links) :
    (pushed server item address).1 < 0 ∧ (pushed server item address).2 = server.bannedList := by
  unfold pushed
  cases push : item.2.1.push with
  | succeed => exact absurd (Or.inl push) refused
  | unlockFails => exact absurd (Or.inr push) refused
  | noMemory => exact ⟨(by decide : ipLlistMemErr < 0), rfl⟩
  | lockFails => exact ⟨(by decide : ipLlistMutexErr < 0), rfl⟩

theorem pushed_of_links (links : item.Links) :
    (pushed server item address).2 = ⟨address, item.1⟩ :: server.bannedList := by
  unfold pushed
  rcases links with push | push <;> rw [push] <;> rfl

/-- A list with one more node is another list. -/
theorem pushed_ne (links : item.Links) : server.bannedList ≠ (pushed server item address).2 := by
  rw [pushed_of_links links]
  exact (List.cons_ne_self _ _).symm

end Pushing

/-! ### One record -/

section OneRecord

variable {config : Config} {server : Server} {item : Item} {address : Address}
  {bins : BitVec 16 → List Nat} {free : List Nat}

/-- Both cases of the switch that resets the counter return. -/
theorem resetCounter_returns (shape : Shape server.htable bins free) (answers : Answers)
    (message : BinMessage) :
    ∃ htable nextBins nextFree,
      resetCounter config answers message server = some { server with htable := htable } ∧
      Shape htable nextBins nextFree := by
  unfold resetCounter
  dsimp only
  split
  case isTrue =>
    obtain ⟨result, htable, nextBins, nextFree, set, kept⟩ := shape.set_returns answers
      (some message.address) afInet (UInt32.ofNat (config.limit - 1)) message.timestamp
    exact ⟨htable, nextBins, nextFree, by rw [set]; rfl, kept⟩
  case isFalse =>
    split
    case isTrue =>
      obtain ⟨result, htable, nextBins, nextFree, set, kept⟩ := shape.set_returns answers
        (some message.address) afInet6 (UInt32.ofNat (config.limit - 1)) message.timestamp
      exact ⟨htable, nextBins, nextFree, by rw [set]; rfl, kept⟩
    case isFalse => exact ⟨server.htable, bins, free, rfl, shape⟩

/-- A case of the switch that bans pushes, and updates the map after a push that
succeeds. -/
theorem block_returns (shape : Shape server.htable bins free) :
    ∃ next nextBins nextFree,
      block config item.1 item.2.1 item.2.2 address server = some next ∧
      Shape next.htable nextBins nextFree ∧ next.bannedList = (pushed server item address).2 ∧
      (0 ≤ (pushed server item address).1 →
        next.blacklist = (bpfMapUpdateElem item.2.1.update server.blacklist address).2) := by
  unfold block
  dsimp only
  change ∃ next nextBins nextFree,
    (if (pushed server item address).1 < 0 then _ else _) = some next ∧ _
  by_cases failed : (pushed server item address).1 < 0
  · rw [if_pos failed]
    exact ⟨_, bins, free, rfl, shape, rfl, fun succeeded => absurd failed (by omega)⟩
  · rw [if_neg failed]
    split
    case isTrue =>
      let banned : Server :=
        { server with
          bannedList := (pushed server item address).2
          blacklist := (bpfMapUpdateElem item.2.1.update server.blacklist address).2 }
      obtain ⟨htable, nextBins, nextFree, reset, kept⟩ :=
        @resetCounter_returns config banned bins free shape item.2.1.set item.2.2
      exact ⟨_, nextBins, nextFree, reset, kept, rfl, fun _ => rfl⟩
    case isFalse => exact ⟨_, bins, free, rfl, shape, rfl, fun _ => rfl⟩

/-- The first switch by the client of the record. -/
theorem banMessage_eq :
    banMessage config item.1 item.2.1 item.2.2 server =
      if item.1 - item.2.2.timestamp > config.findtime then some server
      else
        match item.2.2.client with
        | none => some server
        | some address =>
            if isWhitelisted config address then some server
            else countMessage config item.1 item.2.1 item.2.2 address.domain server := by
  unfold banMessage BinMessage.client
  by_cases old : item.1 - item.2.2.timestamp > config.findtime
  · rw [if_pos old, if_pos old]
  · rw [if_neg old, if_neg old]
    by_cases four : item.2.2.addressLen = 4
    · rw [if_pos four, if_pos four]
      rfl
    · rw [if_neg four, if_neg four]
      by_cases sixteen : item.2.2.addressLen = 16
      · rw [if_pos sixteen, if_pos sixteen]
        rfl
      · rw [if_neg sixteen, if_neg sixteen]

/-- A record whose client does not reach the limit leaves list and map alone. -/
theorem banMessage_of_not_reaches (shape : Shape server.htable bins free)
    (below : ∀ address, ¬Reaches config server item address) :
    ∃ next nextBins nextFree, banMessage config item.1 item.2.1 item.2.2 server = some next ∧
      Shape next.htable nextBins nextFree ∧ next.bannedList = server.bannedList ∧
      next.blacklist = server.blacklist := by
  rw [banMessage_eq]
  by_cases old : item.1 - item.2.2.timestamp > config.findtime
  · rw [if_pos old]
    exact ⟨server, bins, free, rfl, shape, rfl, rfl⟩
  rw [if_neg old]
  cases client : item.2.2.client with
  | none => exact ⟨server, bins, free, rfl, shape, rfl, rfl⟩
  | some address =>
      dsimp only
      by_cases listed : isWhitelisted config address = true
      · rw [if_pos listed]
        exact ⟨server, bins, free, rfl, shape, rfl, rfl⟩
      rw [if_neg listed]
      obtain ⟨retval, htable, nextBins, nextFree, inserted, kept⟩ :=
        shape.insert_returns item.2.1.insert (some item.2.2.address) address.domain
          item.2.2.timestamp
      have other : retval ≠ config.limit := by
        intro reached
        rw [reached] at inserted
        exact below address
          ⟨Int.not_lt.mp old, client, by simpa using listed, htable, inserted⟩
      refine ⟨{ server with htable := htable }, nextBins, nextFree, ?_, kept, rfl, rfl⟩
      unfold countMessage
      rw [inserted]
      dsimp only [Option.bind_eq_bind, Option.bind_some]
      rw [if_neg other, ite_self]

/-- A record whose client reaches the limit comes to the switch that bans, unless
the limit is zero. -/
theorem banMessage_of_reaches (reaches : Reaches config server item address) {htable : Table}
    (inserted : server.htable.ipHashtableInsert item.2.1.insert (some item.2.2.address)
      address.domain item.2.2.timestamp = some ((config.limit : Int), htable)) :
    banMessage config item.1 item.2.1 item.2.2 server =
      if (config.limit : Int) < 1 then some { server with htable := htable }
      else banClient config item.1 item.2.1 item.2.2 { server with htable := htable } := by
  have recent : ¬item.1 - item.2.2.timestamp > config.findtime := Int.not_lt.mpr reaches.recent
  rw [banMessage_eq, if_neg recent, reaches.client]
  dsimp only
  rw [reaches.unlisted, if_neg Bool.false_ne_true]
  unfold countMessage
  rw [inserted]
  dsimp only [Option.bind_eq_bind, Option.bind_some]
  rw [if_pos rfl]

/-- The switch that bans has no case for sixteen bytes. -/
theorem banClient_of_sixteen (sixteen : item.2.2.addressLen = 16) :
    banClient config item.1 item.2.1 item.2.2 server = some server := by
  unfold banClient
  rw [sixteen, if_neg (by decide), if_neg (by decide)]

theorem client_of_four (four : item.2.2.addressLen = 4) (client : item.2.2.client = some address) :
    item.2.2.address4 = address := by
  unfold BinMessage.client at client
  rw [if_pos four] at client
  exact Option.some.inj client

theorem sixteen_of_client (client : item.2.2.client = some address)
    (other : item.2.2.addressLen ≠ 4) : item.2.2.addressLen = 16 := by
  unfold BinMessage.client at client
  rw [if_neg other] at client
  by_contra neither
  rw [if_neg neither] at client
  cases client

/-- When nothing is done for a client at the limit, this is right exactly if the
push would not have put a node on the list. -/
theorem bans_unchanged_iff (reaches : Reaches config server item address) {next : Server}
    (list : next.bannedList = server.bannedList) :
    Bans config item server next ↔ ¬item.Links := by
  constructor
  · intro bans links
    exact pushed_ne links (list.symm.trans (bans.reached address reaches).1)
  · intro refused
    refine ⟨fun other _ => ?_, fun none => absurd reaches (none address)⟩
    obtain ⟨failed, kept⟩ := @pushed_of_not_links server item other refused
    exact ⟨list.trans kept.symm, fun succeeded => absurd failed (Int.not_lt.mpr succeeded)⟩

variable (config item) in
/-- One record: it returns, keeps the table sound, and bans as it has to exactly
when no client with an address of sixteen bytes is to be put on the list. -/
theorem banMessage_bans_iff (shape : Shape server.htable bins free) :
    ∃ next nextBins nextFree, banMessage config item.1 item.2.1 item.2.2 server = some next ∧
      Shape next.htable nextBins nextFree ∧
      (Bans config item server next ↔ BansOnlyV4 config server item) := by
  by_cases reached : ∃ address, Reaches config server item address
  · obtain ⟨address, reaches⟩ := reached
    obtain ⟨retval, htable, nextBins, nextFree, inserted, kept⟩ :=
      shape.insert_returns item.2.1.insert (some item.2.2.address) address.domain
        item.2.2.timestamp
    obtain ⟨table, returned⟩ := reaches.returned
    cases inserted.symm.trans returned
    rw [banMessage_of_reaches reaches inserted]
    -- nothing happens for a zero limit and for sixteen bytes
    have unchanged (wrong : ¬(item.2.2.addressLen = 4 ∧ 1 ≤ config.limit)) :
        Bans config item server { server with htable := htable } ↔
          BansOnlyV4 config server item := by
      have undone : Bans config item server { server with htable := htable } ↔ ¬item.Links :=
        bans_unchanged_iff reaches rfl
      rw [undone]
      exact ⟨fun refused _ _ links => absurd links refused,
        fun only links => wrong (only address reaches links)⟩
    by_cases zero : (config.limit : Int) < 1
    · rw [if_pos zero]
      exact ⟨_, nextBins, nextFree, rfl, kept, unchanged fun both => by omega⟩
    rw [if_neg zero]
    by_cases four : item.2.2.addressLen = 4
    · let counted : Server := { server with htable := htable }
      obtain ⟨next, lastBins, lastFree, blocked, sound, list, map⟩ :=
        @block_returns config counted item address nextBins nextFree kept
      refine ⟨next, lastBins, lastFree, ?_, sound, fun _ _ _ _ => ⟨four, by omega⟩, fun _ => ?_⟩
      · unfold banClient
        rw [if_pos four, client_of_four four reaches.client]
        exact blocked
      · refine ⟨fun other reachesOther => ?_, fun none => absurd reaches (none address)⟩
        cases reaches.client.symm.trans reachesOther.client
        exact ⟨list, map⟩
    · have sixteen : item.2.2.addressLen = 16 := sixteen_of_client reaches.client four
      rw [banClient_of_sixteen sixteen]
      exact ⟨_, nextBins, nextFree, rfl, kept, unchanged fun both => four both.1⟩
  · have below : ∀ address, ¬Reaches config server item address := not_exists.mp reached
    obtain ⟨next, nextBins, nextFree, taken, kept, list, map⟩ :=
      banMessage_of_not_reaches shape below
    refine ⟨next, nextBins, nextFree, taken, kept, fun _ address reaches => ?_, fun _ => ?_⟩
    · exact absurd reaches (below address)
    · exact ⟨fun address reaches => absurd reaches (below address), fun _ => ⟨list, map⟩⟩

end OneRecord

/-! ### Batches -/

/-- Every record of the batch bans whom it has to: the server before it is what
the records in front of it leave. -/
def BatchBans (config : Config) (batch : List Item) (server : Server) : Prop :=
  ∀ done item rest, batch = done ++ item :: rest →
    ∃ before after, banClients config done server = some before ∧
      banClients config (done ++ [item]) server = some after ∧ Bans config item before after

theorem banClients_cons (config : Config) (item : Item) (rest : List Item) (server : Server) :
    banClients config (item :: rest) server =
      (banMessage config item.1 item.2.1 item.2.2 server).bind (banClients config rest) := rfl

theorem banClients_concat (config : Config) (done : List Item) (item : Item) (server : Server) :
    banClients config (done ++ [item]) server =
      (banClients config done server).bind
        (banMessage config item.1 item.2.1 item.2.2) := by
  induction done generalizing server with
  | nil => exact Option.bind_fun_some _
  | cons first rest inductionHypothesis =>
      rw [List.cons_append, banClients_cons, banClients_cons, Option.bind_assoc,
        funext inductionHypothesis]

/-- A batch is handled to its end and keeps the table sound. -/
theorem banClients_returns (config : Config) (batch : List Item) {server : Server}
    {bins : BitVec 16 → List Nat} {free : List Nat} (shape : Shape server.htable bins free) :
    ∃ last lastBins lastFree, banClients config batch server = some last ∧
      Shape last.htable lastBins lastFree := by
  induction batch generalizing server bins free with
  | nil => exact ⟨server, bins, free, rfl, shape⟩
  | cons item rest inductionHypothesis =>
      obtain ⟨next, nextBins, nextFree, taken, kept, _⟩ :=
        banMessage_bans_iff config item shape
      obtain ⟨last, lastBins, lastFree, later, sound⟩ := inductionHypothesis kept
      refine ⟨last, lastBins, lastFree, ?_, sound⟩
      rw [banClients_cons, taken]
      exact later

/-- Every record of a batch bans whom it has to if and only if none that is to
put its client on the list has an address of sixteen bytes (or the limit is
zero). -/
theorem batchBans_iff (config : Config) (batch : List Item) {server : Server}
    {bins : BitVec 16 → List Nat} {free : List Nat} (shape : Shape server.htable bins free) :
    BatchBans config batch server ↔
      ∀ done item rest before, batch = done ++ item :: rest →
        banClients config done server = some before → BansOnlyV4 config before item := by
  constructor
  · intro bans done item rest before cut reached
    obtain ⟨first, after, arrived, left, ban⟩ := bans done item rest cut
    cases arrived.symm.trans reached
    obtain ⟨_, bins, free, returned, sound⟩ := banClients_returns config done shape
    cases reached.symm.trans returned
    obtain ⟨next, _, _, taken, _, bansIff⟩ := banMessage_bans_iff config item sound
    rw [banClients_concat, reached, Option.bind_some, taken] at left
    cases left
    exact bansIff.mp ban
  · intro only done item rest cut
    obtain ⟨before, bins, free, reached, sound⟩ := banClients_returns config done shape
    obtain ⟨next, _, _, taken, _, bansIff⟩ := banMessage_bans_iff config item sound
    refine ⟨before, next, reached, ?_, bansIff.mpr (only done item rest before cut reached)⟩
    rw [banClients_concat, reached, Option.bind_some]
    exact taken

/-- A record of 192.168.1.1, handled when it was written. -/
def recordV4 (ts : Int) : Item := (ts, allSucceed, ⟨ts, 4, 0x0101A8C0⟩)

/-- The bytes of 2001:db8::7. -/
def clientV6 : BitVec 128 := 0x070000000000000000000000B80D0120

def recordV6 (ts : Int) : Item := (ts, allSucceed, ⟨ts, 16, clientV6⟩)

theorem batchBans_v4 :
    BatchBans twoMessages [recordV4 0, recordV4 1] (.started twoMessages fun _ => .zero) := by
  have shape : Shape (Server.started twoMessages fun _ => .zero).htable (fun _ => [])
      (Table.linked 0 nbins ++ []) := Shape.init _ _
  apply (batchBans_iff twoMessages [recordV4 0, recordV4 1] shape).mpr
  intro done item rest before cut _ address _ _
  have member : item ∈ [recordV4 0, recordV4 1] := by simp [cut]
  have four : ∀ item ∈ [recordV4 0, recordV4 1], item.2.2.addressLen = 4 := by decide
  exact ⟨four item member, by decide⟩

/-- The second record brings its client to the limit, and nobody is banned. -/
theorem reaches_unbanned_v6 :
    ∃ before after,
      banClients twoMessages [recordV6 0] (.started twoMessages fun _ => .zero) = some before ∧
      banClients twoMessages [recordV6 0, recordV6 1] (.started twoMessages fun _ => .zero) =
        some after ∧
      Reaches twoMessages before (recordV6 1) (.v6 clientV6) ∧ after.bannedList.length = 0 := by
  rw [Server.started, Table.ipHashtableInit_eq]
  refine ⟨_, _, (Option.some_get (by decide +kernel)).symm,
    (Option.some_get (by decide +kernel)).symm, ⟨by decide, rfl, rfl, ?_⟩, by decide +kernel⟩
  exact exists_table (by decide +kernel)

theorem batch_fails_v6 :
    ¬BatchBans twoMessages [recordV6 0, recordV6 1] (.started twoMessages fun _ => .zero) := by
  intro bans
  obtain ⟨first, last, reached, left, ban⟩ := bans [recordV6 0] (recordV6 1) [] rfl
  obtain ⟨before, after, arrived, done, reaches, none⟩ := reaches_unbanned_v6
  cases arrived.symm.trans reached
  cases done.symm.trans left
  have list := (ban.reached _ reaches).1
  rw [list] at none
  cases none

end FipsIpc.Sf2b.Binary
