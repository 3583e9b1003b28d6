import FipsIpc.Lib.LittleEndian
import FipsIpc.Sf2b.BinaryBans
import FipsIpc.UdpServer.Producer

/-!
Contract: the record between `programs/udp_server.c` and
`programs/sf2b/binary.c`.

Owns: how `ban_clients` reads a `fips_bin_message_t` from memory, that it finds
there what `logstr_bin_long` has stored, and what of a message it depends on.

The union is stored for its four or sixteen bytes only: behind an IPv4 address
stands what was in the line before.

Does not own: where records are written and read.
-/

set_option autoImplicit false

namespace FipsIpc.Sf2b.Binary

open FipsIpc.Lib
open FipsIpc.FipsBuf
open FipsIpc.IpHashtable
open FipsIpc.UdpServer

/-! ### Messages in memory -/

/-- The members of `*(fips_bin_message_t *)iov_base` that are read. -/
def messageAt (data : Data) (base : Nat) : BinMessage where
  timestamp := (BitVec.ofNat 64 (littleEndian (Iovec.bytes data ⟨base, 8⟩))).toInt
  addressLen := data (base + 8)
  address := BitVec.ofNat 128 (littleEndian (Iovec.bytes data ⟨base + 16, 16⟩))

/-- The client of a packet, as keys and lists have it. -/
def clientOf (addr : In6Addr) : Address :=
  if in6IsAddrV4mapped addr then .v4 (BitVec.ofNat 32 (littleEndian (v4Part addr)))
  else .v6 (BitVec.ofNat 128 (littleEndian addr.toList))

/-- The message about a packet, with nothing behind an IPv4 address. -/
def packetMessage (packet : Packet) : BinMessage where
  timestamp := packet.time.toBitVec.toInt
  addressLen := if in6IsAddrV4mapped packet.addr then 4 else 16
  address := (clientOf packet.addr).memory

/-- What `ban_clients` makes use of is the same. -/
structure SameMessage (left right : BinMessage) : Prop where
  timestamp : left.timestamp = right.timestamp
  addressLen : left.addressLen = right.addressLen
  client : left.client = right.client

/-! ### What a message is used for -/

section Congruence

variable {left right : BinMessage}

theorem SameMessage.eq_of_sixteen (same : SameMessage left right) (sixteen : left.addressLen = 16) :
    left = right := by
  have four : ¬(16 : UInt8) = 4 := by decide
  have client := same.client
  unfold BinMessage.client at client
  rw [← same.addressLen, sixteen, if_neg four, if_pos rfl] at client
  have address : left.address = right.address := Address.v6.inj (Option.some.inj client)
  obtain ⟨timestamp, addressLen, -⟩ := same
  cases left
  cases right
  cases timestamp
  cases addressLen
  cases address
  rfl

theorem SameMessage.address4 (same : SameMessage left right) (four : left.addressLen = 4) :
    left.address4 = right.address4 := by
  have client := same.client
  unfold BinMessage.client at client
  rw [← same.addressLen, if_pos four, if_pos four] at client
  exact Option.some.inj client

theorem SameMessage.arguments (same : SameMessage left right) (four : left.addressLen = 4) :
    Address.ofArguments (some left.address) afInet =
      Address.ofArguments (some right.address) afInet :=
  congrArg some (same.address4 four)

theorem resetCounter_congr (same : SameMessage left right) (four : left.addressLen = 4)
    (config : Config) (answers : Answers) (server : Server) :
    resetCounter config answers left server = resetCounter config answers right server := by
  unfold resetCounter
  dsimp only
  rw [← same.addressLen, if_pos four, if_pos four, ← same.timestamp,
    set_congr server.htable answers (same.arguments four)]

theorem banClient_congr (same : SameMessage left right) (four : left.addressLen = 4)
    (config : Config) (ts : Int) (answers : BanAnswers) (server : Server) :
    banClient config ts answers left server = banClient config ts answers right server := by
  unfold banClient block
  dsimp only
  rw [← same.addressLen, if_pos four, if_pos four, same.address4 four]
  simp only [resetCounter_congr same four]

theorem countMessage_congr (same : SameMessage left right) (four : left.addressLen = 4)
    (config : Config) (ts : Int) (answers : BanAnswers) (server : Server) :
    countMessage config ts answers left afInet server =
      countMessage config ts answers right afInet server := by
  unfold countMessage
  rw [← same.timestamp, insert_congr server.htable answers.insert (same.arguments four)]
  simp only [banClient_congr same four]

/-- Messages that say the same are handled the same way. -/
theorem banMessage_congr (same : SameMessage left right) (config : Config) (ts : Int)
    (answers : BanAnswers) (server : Server) :
    banMessage config ts answers left server = banMessage config ts answers right server := by
  by_cases sixteen : left.addressLen = 16
  · rw [same.eq_of_sixteen sixteen]
  · unfold banMessage
    rw [← same.timestamp, ← same.addressLen, if_neg sixteen, if_neg sixteen]
    by_cases four : left.addressLen = 4
    · rw [same.address4 four, countMessage_congr same four]
    · rw [if_neg four, if_neg four]

end Congruence

/-! ### The round trip -/

section RoundTrip

variable {data : Data} {base : Nat}

/-- A stored field is read back. -/
theorem bytes_of_stored {fields : List Field} (stored : Stored data base fields) {field : Field}
    (member : field ∈ fields) :
    Iovec.bytes data ⟨base + field.offset, field.bytes.length⟩ = field.bytes := by
  apply List.ext_getElem?
  intro index
  unfold Iovec.bytes
  dsimp only
  by_cases inside : index < field.bytes.length
  · have present : field.bytes[index]? = some field.bytes[index] :=
      List.getElem?_eq_getElem inside
    rw [List.getElem?_map, List.getElem?_range inside, Option.map_some, present,
      stored field member index _ present]
  · rw [List.getElem?_eq_none (by simpa using inside), List.getElem?_eq_none (by omega)]

theorem length_timeBytes (time : UInt64) : (timeBytes time).length = 8 := by
  rw [timeBytes, List.length_map, List.length_range]

theorem toInt_timeBytes (time : UInt64) :
    (BitVec.ofNat 64 (littleEndian (timeBytes time))).toInt = time.toBitVec.toInt := by
  have number : littleEndian (timeBytes time) = time.toNat := by
    have whole : time.toNat < 256 ^ 8 := time.toNat_lt
    exact (littleEndian_lowBytes 8 time.toNat).trans (Nat.mod_eq_of_lt whole)
  rw [number]
  exact congrArg BitVec.toInt (BitVec.ofNat_toNat _ _)

/-- The four bytes of an IPv4 address in front of anything. -/
theorem setWidth_littleEndian {front rest : List UInt8} (four : front.length = 4) :
    (BitVec.ofNat 128 (littleEndian (front ++ rest))).setWidth 32 =
      BitVec.ofNat 32 (littleEndian front) := by
  apply BitVec.eq_of_toNat_eq
  have range : 256 ^ front.length = 2 ^ 32 := by
    rw [four]
    decide
  rw [BitVec.toNat_setWidth, BitVec.toNat_ofNat, BitVec.toNat_ofNat,
    Nat.mod_mod_of_dvd _ (by decide), ← range, littleEndian_append_mod,
    Nat.mod_eq_of_lt (littleEndian_lt front)]

/-- The bytes of the union start with the four of an IPv4 address. -/
theorem bytes_union (base : Nat) :
    Iovec.bytes data ⟨base, 16⟩ =
      Iovec.bytes data ⟨base, 4⟩ ++ Iovec.bytes data ⟨base + 4, 12⟩ := rfl

/-- `ban_clients` finds the packet in what `logstr_bin_long` has stored. -/
theorem messageAt_stored {packet : Packet}
    (stored : Stored data base (logstrBinLong packet.time packet.addr)) :
    SameMessage (messageAt data base) (packetMessage packet) := by
  have time : Iovec.bytes data ⟨base, 8⟩ = timeBytes packet.time := by
    have field := bytes_of_stored stored (List.mem_cons_self)
    dsimp only at field
    rwa [length_timeBytes, Nat.add_zero] at field
  have timestamp : (messageAt data base).timestamp = (packetMessage packet).timestamp := by
    unfold messageAt packetMessage
    dsimp only
    rw [time, toInt_timeBytes]
  by_cases mapped : in6IsAddrV4mapped packet.addr = true
  · have fields : logstrBinLong packet.time packet.addr =
        [⟨0, timeBytes packet.time⟩, ⟨8, [4]⟩, ⟨16, v4Part packet.addr⟩] := by
      rw [logstrBinLong, addressFields, if_pos mapped]
    rw [fields] at stored
    have len : data (base + 8) = 4 := stored ⟨8, [4]⟩ (by simp) 0 4 rfl
    have address := @bytes_of_stored data base _ stored ⟨16, v4Part packet.addr⟩ (by simp)
    dsimp only at address
    rw [length_v4Part] at address
    have packetLen : (packetMessage packet).addressLen = 4 := if_pos mapped
    refine ⟨timestamp, len.trans packetLen.symm, ?_⟩
    have left : (messageAt data base).client = some (messageAt data base).address4 := if_pos len
    have right : (packetMessage packet).client = some (packetMessage packet).address4 :=
      if_pos packetLen
    rw [left, right]
    unfold BinMessage.address4 messageAt packetMessage clientOf Address.memory
    dsimp only
    rw [if_pos mapped, bytes_union, address, setWidth_littleEndian (length_v4Part _),
      BitVec.setWidth_setWidth_of_le _ (by decide), BitVec.setWidth_eq]
  · have fields : logstrBinLong packet.time packet.addr =
        [⟨0, timeBytes packet.time⟩, ⟨8, [16]⟩, ⟨16, packet.addr.toList⟩] := by
      rw [logstrBinLong, addressFields, if_neg mapped]
    rw [fields] at stored
    have len : data (base + 8) = 16 := stored ⟨8, [16]⟩ (by simp) 0 16 rfl
    have address := @bytes_of_stored data base _ stored ⟨16, packet.addr.toList⟩ (by simp)
    dsimp only at address
    rw [Vector.length_toList] at address
    have packetLen : (packetMessage packet).addressLen = 16 := if_neg mapped
    have union : (messageAt data base).address = (packetMessage packet).address := by
      unfold messageAt packetMessage clientOf Address.memory
      dsimp only
      rw [if_neg mapped, address]
    refine ⟨timestamp, len.trans packetLen.symm, ?_⟩
    unfold BinMessage.client BinMessage.address4 BinMessage.address6
    rw [union, packetLen]
    exact congrArg (fun addressLen : UInt8 =>
      if addressLen = 4 then _ else if addressLen = 16 then _ else none) len

/-- A line that is a record holds its fields in memory. -/
theorem stored_of_isRecord {mode : Mode} {packet : Packet} {len : Nat}
    (record : IsRecord mode packet (Iovec.bytes data ⟨base, len⟩)) :
    Stored data base (recordFields mode packet) := by
  intro field member index byte present
  have found := record.2 field member index byte present
  unfold Iovec.bytes at found
  dsimp only at found
  rw [List.getElem?_map] at found
  obtain ⟨offset, isOffset, rfl⟩ := Option.map_eq_some_iff.mp found
  obtain ⟨inside, rfl⟩ := List.getElem?_eq_some_iff.mp isOffset
  rw [List.getElem_range, Nat.add_assoc]

end RoundTrip

end FipsIpc.Sf2b.Binary
