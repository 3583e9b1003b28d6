import FipsIpc.Sf2b.Consistency
import FipsIpc.IpHashtable.Unused

/-!
Contract: the consumer of binary messages, `programs/sf2b/binary.c`, beside the
consumer of text.

Owns: `ban_clients` of `binary.c` for one message and for a batch, and its
comparison with `ban_clients` of `string.c` over histories of IPv4 messages that
come one in a batch.

The three switches over `address_len` are kept as they stand: the one that
pushes and blocks has `AF_INET6` where the other two have 16.  The total of old
messages stays, since `too_old++` advances the pointer to it.

Does not own: the hash table, and receiving messages.
-/

set_option autoImplicit false

namespace FipsIpc.Sf2b

open FipsIpc.IpHashtable

namespace Binary

/-- The fields of `fips_bin_message_t` that are read; the addresses are a union
of sixteen bytes. -/
structure BinMessage where
  timestamp : Int
  addressLen : UInt8
  address : BitVec 128

def BinMessage.address4 (message : BinMessage) : Address := .v4 (message.address.setWidth 32)

def BinMessage.address6 (message : BinMessage) : Address := .v6 message.address

/-- The switch that resets the counter after a failed map update. -/
def resetCounter (config : Config) (answers : Answers) (message : BinMessage) (server : Server) :
    Option Server :=
  let set (domain : Int) : Option Server := do
    let (_, htable) ← server.htable.ipHashtableSet answers (some message.address) domain
      (UInt32.ofNat (config.limit - 1)) message.timestamp
    some { server with htable := htable }
  if message.addressLen = 4 then set afInet
  else if message.addressLen = 16 then set afInet6
  else some server

/-- A case of the switch that bans, and what follows it. -/
def block (config : Config) (ts : Int) (answers : BanAnswers) (message : BinMessage)
    (address : Address) (server : Server) : Option Server :=
  let pushed := ipLlistPush answers.push server.bannedList ⟨address, ts⟩
  if pushed.1 < 0 then some { server with bannedList := pushed.2 }
  else
    let updated := bpfMapUpdateElem answers.update server.blacklist address
    let server := { server with bannedList := pushed.2, blacklist := updated.2 }
    if updated.1 ≠ exitOk then resetCounter config answers.set message server
    else some { server with banCount := server.banCount + 1 }

/-- The branch for a client that has reached the limit. -/
def banClient (config : Config) (ts : Int) (answers : BanAnswers) (message : BinMessage)
    (server : Server) : Option Server :=
  if message.addressLen = 4 then block config ts answers message message.address4 server
  else if (message.addressLen.toNat : Int) = afInet6 then
    block config ts answers message message.address6 server
  else some server

/-- A case of the switch that queries the hash table, and what follows it. -/
def countMessage (config : Config) (ts : Int) (answers : BanAnswers) (message : BinMessage)
    (domain : Int) (server : Server) : Option Server := do
  let (retval, htable) ← server.htable.ipHashtableInsert answers.insert (some message.address)
    domain message.timestamp
  let server := { server with htable := htable }
  if retval < 1 then some server
  else if retval = config.limit then banClient config ts answers message server
  else some server

/-- The body of the loop of `ban_clients`. -/
def banMessage (config : Config) (ts : Int) (answers : BanAnswers) (message : BinMessage)
    (server : Server) : Option Server :=
  -- the pointer `too_old` moves on, what it pointed to stays
  if ts - message.timestamp > config.findtime then some server
  else if message.addressLen = 4 then
    if isWhitelisted config message.address4 then some server
    else countMessage config ts answers message afInet server
  else if message.addressLen = 16 then countMessage config ts answers message afInet6 server
  else some server

/-- `ban_clients` of `binary.c`. -/
def banClients (config : Config) :
    List (Int × BanAnswers × BinMessage) → Server → Option Server
  | [], server => some server
  | (ts, answers, message) :: rest, server => do
      let next ← banMessage config ts answers message server
      banClients config rest next

end Binary

/-! ### One IPv4 message for both consumers -/

/-- An IPv4 message with the clock reading and the answers it gets.  What stands
behind the address in the two unions is not part of the message. -/
structure Delivery where
  ts : Int
  answers : BanAnswers
  timestamp : Int
  address : BitVec 32
  textRest : BitVec 96
  binaryRest : BitVec 96

namespace Delivery

/-- The union of the address and the bytes behind it. -/
def union (rest : BitVec 96) (address : BitVec 32) : BitVec 128 := rest ++ address

def text (delivery : Delivery) : Message :=
  ⟨afInet, union delivery.textRest delivery.address, delivery.timestamp⟩

def binary (delivery : Delivery) : Binary.BinMessage :=
  ⟨delivery.timestamp, 4, union delivery.binaryRest delivery.address⟩

/-- The message is older than the search window. -/
def Old (config : Config) (delivery : Delivery) : Prop :=
  delivery.ts - delivery.timestamp > config.findtime

instance (config : Config) (delivery : Delivery) : Decidable (delivery.Old config) :=
  inferInstanceAs (Decidable (_ > _))

theorem setWidth_union (rest : BitVec 96) (address : BitVec 32) :
    (union rest address).setWidth 32 = address :=
  BitVec.setWidth_append_eq_right

/-- Both unions are arguments for the same address. -/
theorem ofArguments_union (rest : BitVec 96) (address : BitVec 32) :
    Address.ofArguments (some (union rest address)) afInet = some (.v4 address) := by
  have valid : Address.ofArguments (some (union rest address)) afInet =
      some (.v4 ((union rest address).setWidth 32)) := rfl
  rw [valid, setWidth_union]

end Delivery

/-- Both consumers on their representation, one message in a batch. -/
def textRun (config : Config) (history : List Delivery) (server : Server) : Option Server :=
  history.foldlM (fun server delivery =>
    banClients config [(delivery.ts, delivery.answers, delivery.text)] server) server

def binaryRun (config : Config) (history : List Delivery) (server : Server) : Option Server :=
  history.foldlM (fun server delivery =>
    Binary.banClients config [(delivery.ts, delivery.answers, delivery.binary)] server) server

/-- The server with another total of old messages. -/
def Server.withTooOld (server : Server) (total : Nat) : Server := { server with tooOld := total }

section OneMessage

variable (config : Config) {server : Server} {bins : BitVec 16 → List Nat} {free : List Nat}

/-- A call reads of the union what the address is made of. -/
theorem insert_congr {key other : BitVec 128} {domain : Int} (table : Table) (answers : Answers)
    (same : Address.ofArguments (some key) domain = Address.ofArguments (some other) domain)
    (accessTime : Int) :
    table.ipHashtableInsert answers (some key) domain accessTime =
      table.ipHashtableInsert answers (some other) domain accessTime := by
  unfold Table.ipHashtableInsert
  rw [same]

theorem set_congr {key other : BitVec 128} {domain : Int} (table : Table) (answers : Answers)
    (same : Address.ofArguments (some key) domain = Address.ofArguments (some other) domain)
    (value : UInt32) (accessTime : Int) :
    table.ipHashtableSet answers (some key) domain value accessTime =
      table.ipHashtableSet answers (some other) domain value accessTime := by
  unfold Table.ipHashtableSet
  rw [same]

/-- Banning returns with a sound table and leaves the total of old messages. -/
theorem banClient_returns (shape : Shape server.htable bins free) (ts : Int)
    (answers : BanAnswers) (message : Message) (address : Address) :
    ∃ next nextBins nextFree, banClient config ts answers message address server = some next ∧
      Shape next.htable nextBins nextFree ∧ next.tooOld = server.tooOld := by
  unfold banClient
  dsimp only
  by_cases failed : (ipLlistPush answers.push server.bannedList ⟨address, ts⟩).1 < 0
  · rw [if_pos failed]
    exact ⟨_, bins, free, rfl, shape, rfl⟩
  · rw [if_neg failed]
    by_cases refused : (bpfMapUpdateElem answers.update server.blacklist address).1 ≠ exitOk
    · rw [if_pos refused]
      obtain ⟨result, htable, nextBins, nextFree, returned, kept⟩ :=
        shape.set_returns answers.set (some message.ipAddr) message.domain
          (UInt32.ofNat (config.limit - 1)) message.timestamp
      rw [returned]
      exact ⟨_, nextBins, nextFree, rfl, kept, rfl⟩
    · rw [if_neg refused]
      exact ⟨_, bins, free, rfl, shape, rfl⟩

/-- The text consumer handles every message, and counts the old ones. -/
theorem banMessage_returns (shape : Shape server.htable bins free) (ts batchTimestamp : Int)
    (answers : BanAnswers) (message : Message) :
    ∃ next nextBins nextFree,
      banMessage config ts batchTimestamp answers message server = some next ∧
      Shape next.htable nextBins nextFree ∧
      next.tooOld = server.tooOld + if ts - batchTimestamp > config.findtime then 1 else 0 := by
  unfold banMessage
  by_cases old : ts - batchTimestamp > config.findtime
  · rw [if_pos old, if_pos old]
    exact ⟨_, bins, free, rfl, shape, rfl⟩
  · rw [if_neg old, if_neg old]
    cases Address.ofArguments (some message.ipAddr) message.domain with
    | none => exact ⟨_, bins, free, rfl, shape, rfl⟩
    | some address =>
        dsimp only
        by_cases listed : isWhitelisted config address = true
        · rw [if_pos listed]
          exact ⟨_, bins, free, rfl, shape, rfl⟩
        · rw [if_neg listed]
          obtain ⟨retval, htable, nextBins, nextFree, returned, kept⟩ :=
            shape.insert_returns answers.insert (some message.ipAddr) message.domain
              message.timestamp
          simp only [returned, Option.bind_eq_bind, Option.bind_some]
          by_cases failed : retval < 1
          · rw [if_pos failed]
            exact ⟨_, nextBins, nextFree, rfl, kept, rfl⟩
          · rw [if_neg failed]
            by_cases reached : retval = config.limit
            · rw [if_pos reached]
              have counted : Shape { server with htable := htable }.htable nextBins nextFree :=
                kept
              exact banClient_returns config counted ts answers message address
            · rw [if_neg reached]
              exact ⟨_, nextBins, nextFree, rfl, kept, rfl⟩

end OneMessage

section Comparison

variable {config : Config} (server : Server) (total : Nat) (delivery : Delivery)

@[simp] theorem Delivery.binary_addressLen : delivery.binary.addressLen = 4 := rfl

@[simp] theorem Delivery.binary_timestamp : delivery.binary.timestamp = delivery.timestamp := rfl

@[simp] theorem Delivery.binary_address4 : delivery.binary.address4 = .v4 delivery.address :=
  congrArg Address.v4 (Delivery.setWidth_union _ _)

/-- The union of the text consumer and that of the binary one are the same key. -/
theorem Delivery.ofArguments_eq :
    Address.ofArguments (some delivery.binary.address) afInet =
      Address.ofArguments (some delivery.text.ipAddr) afInet :=
  (ofArguments_union _ _).trans (ofArguments_union _ _).symm

theorem resetCounter_binary (answers : Answers) :
    Binary.resetCounter config answers delivery.binary server =
      (server.htable.ipHashtableSet answers (some delivery.text.ipAddr) afInet
        (UInt32.ofNat (config.limit - 1)) delivery.timestamp).map
        fun served => { server with htable := served.2 } := by
  rw [← set_congr server.htable answers delivery.ofArguments_eq]
  unfold Binary.resetCounter
  dsimp only
  rw [if_pos delivery.binary_addressLen, Option.map_eq_bind]
  rfl

theorem block_eq_banClient (ts : Int) (answers : BanAnswers) :
    Binary.block config ts answers delivery.binary (.v4 delivery.address)
        (server.withTooOld total) =
      (banClient config ts answers delivery.text (.v4 delivery.address) server).map
        fun next => next.withTooOld total := by
  unfold Binary.block banClient
  dsimp only [Server.withTooOld]
  split
  case isTrue => rfl
  case isFalse =>
    split
    case isTrue =>
      rw [resetCounter_binary]
      dsimp only [Delivery.text]
      cases server.htable.ipHashtableSet answers.set
        (some (Delivery.union delivery.textRest delivery.address)) afInet
        (UInt32.ofNat (config.limit - 1)) delivery.timestamp <;> rfl
    case isFalse => rfl

theorem banClient_binary (ts : Int) (answers : BanAnswers) :
    Binary.banClient config ts answers delivery.binary server =
      Binary.block config ts answers delivery.binary (.v4 delivery.address) server := by
  unfold Binary.banClient
  rw [if_pos delivery.binary_addressLen, delivery.binary_address4]

/-- The consumers do the same, except that the binary one does not count old
messages. -/
theorem banMessage_binary :
    Binary.banMessage config delivery.ts delivery.answers delivery.binary
        (server.withTooOld total) =
      (banMessage config delivery.ts delivery.timestamp delivery.answers delivery.text server).map
        fun next => next.withTooOld total := by
  unfold Binary.banMessage banMessage
  rw [delivery.binary_timestamp]
  by_cases old : delivery.ts - delivery.timestamp > config.findtime
  · rw [if_pos old, if_pos old]
    rfl
  · have valid : Address.ofArguments (some delivery.text.ipAddr) delivery.text.domain =
        some (.v4 delivery.address) := Delivery.ofArguments_union _ _
    rw [if_neg old, if_neg old, if_pos delivery.binary_addressLen, valid,
      delivery.binary_address4]
    dsimp only
    by_cases listed : isWhitelisted config (.v4 delivery.address) = true
    · rw [if_pos listed, if_pos listed]
      rfl
    · rw [if_neg listed, if_neg listed]
      unfold Binary.countMessage
      rw [insert_congr _ delivery.answers.insert delivery.ofArguments_eq]
      simp only [Option.bind_eq_bind, Option.map_bind]
      refine Option.bind_congr fun served _ => ?_
      dsimp only [Function.comp]
      by_cases failed : served.1 < 1
      · rw [if_pos failed, if_pos failed]
        rfl
      · rw [if_neg failed, if_neg failed]
        by_cases reached : served.1 = config.limit
        · rw [if_pos reached, if_pos reached, banClient_binary]
          exact block_eq_banClient { server with htable := served.2 } total delivery _ _
        · rw [if_neg reached, if_neg reached]
          rfl

end Comparison

/-! ### Histories -/

/-- Over a history the consumers differ in the total of old messages alone. -/
theorem runs_agree (config : Config) (history : List Delivery) {server : Server}
    {bins : BitVec 16 → List Nat} {free : List Nat} (shape : Shape server.htable bins free)
    (total : Nat) :
    ∃ text, textRun config history server = some text ∧
      binaryRun config history (server.withTooOld total) = some (text.withTooOld total) ∧
      text.tooOld = server.tooOld + history.countP fun delivery => delivery.Old config := by
  induction history generalizing server bins free with
  | nil => exact ⟨server, rfl, rfl, rfl⟩
  | cons delivery rest inductionHypothesis =>
      obtain ⟨next, nextBins, nextFree, returned, kept, counted⟩ :=
        banMessage_returns config shape delivery.ts delivery.timestamp
          delivery.answers delivery.text
      obtain ⟨text, textual, binary, later⟩ := inductionHypothesis kept
      have textStep : banClients config [(delivery.ts, delivery.answers, delivery.text)] server =
          some next := by
        change (banMessage config delivery.ts delivery.timestamp delivery.answers delivery.text
          server).bind (fun next => some next) = some next
        rw [returned]
        rfl
      have binaryStep : Binary.banClients config
          [(delivery.ts, delivery.answers, delivery.binary)] (server.withTooOld total) =
            some (next.withTooOld total) := by
        change (Binary.banMessage config delivery.ts delivery.answers delivery.binary
          (server.withTooOld total)).bind (fun next => some next) = some (next.withTooOld total)
        rw [banMessage_binary, returned]
        rfl
      refine ⟨text, ?_, ?_, ?_⟩
      · rw [textRun, List.foldlM_cons, textStep]
        exact textual
      · rw [binaryRun, List.foldlM_cons, binaryStep]
        exact binary
      · rw [later, counted, List.countP_cons]
        have same : (if delivery.ts - delivery.timestamp > config.findtime then 1 else 0) =
            if decide (delivery.Old config) = true then 1 else 0 :=
          if_congr decide_eq_true_iff.symm rfl rfl
        omega

/-- The consumers agree on a history of IPv4 messages if and only if no message
is older than the search window when it is handled. -/
theorem text_binary_agree_iff (config : Config) (memory : Nat → Entry)
    (history : List Delivery) :
    ∃ text binary, textRun config history (.started config memory) = some text ∧
      binaryRun config history (.started config memory) = some binary ∧
      ((binary.htable = text.htable ∧ binary.bannedList = text.bannedList ∧
        binary.blacklist = text.blacklist ∧ binary.banCount = text.banCount ∧
        binary.tooOld = text.tooOld) ↔
        ∀ delivery ∈ history, delivery.ts - delivery.timestamp ≤ config.findtime) := by
  have shape : Shape (Server.started config memory).htable (fun _ => [])
      (Table.linked 0 nbins ++ []) := Shape.init memory config.findtime
  obtain ⟨text, textual, binary, counted⟩ := runs_agree config history shape 0
  refine ⟨text, text.withTooOld 0, textual, binary, ?_⟩
  have total : text.tooOld = history.countP fun delivery => delivery.Old config :=
    counted.trans (Nat.zero_add _)
  have recent : (0 = text.tooOld) ↔
      ∀ delivery ∈ history, delivery.ts - delivery.timestamp ≤ config.findtime := by
    rw [total, eq_comm, List.countP_eq_zero]
    simp only [Delivery.Old, decide_eq_true_eq, gt_iff_lt, Int.not_lt]
  rw [← recent]
  exact ⟨fun same => same.2.2.2.2, fun none => ⟨rfl, rfl, rfl, rfl, none⟩⟩

/-- A message of 192.168.1.1 that is handled eleven seconds after it was written. -/
def lateDelivery : Delivery := ⟨11, allSucceed, 0, 0x0101A8C0, 0, 0⟩

theorem text_binary_differ_late :
    ∃ text binary,
      textRun twoMessages [lateDelivery] (.started twoMessages fun _ => .zero) = some text ∧
      binaryRun twoMessages [lateDelivery] (.started twoMessages fun _ => .zero) = some binary ∧
      text.tooOld = 1 ∧ binary.tooOld = 0 :=
  ⟨_, _, rfl, rfl, rfl, rfl⟩

end FipsIpc.Sf2b
