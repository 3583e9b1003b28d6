import FipsIpc.FipsBuf.Buffer
import Mathlib.Data.List.Pairwise

/-!
Contract: the log records of `programs/udp_server.c`.

Owns: client addresses and their string forms of `lib/ip_to_str.c`; the four
`logstr_*` functions; the bytes a record puts into a buffer, and when a line
holds a record.

A text function writes consecutive bytes from the start of the buffer and
returns their number, so it is the list of these bytes.  A binary function
assigns fields of a `fips_bin_message_t` and leaves the other bytes of the
buffer alone, so it is the list of its assignments with their offsets.  The date
buffer and the clock are arguments.

Does not own: where records are written, and how lines are parsed.
-/

set_option autoImplicit false

namespace FipsIpc.UdpServer

open FipsIpc.FipsBuf

/-- The bytes of a string literal of the source. -/
def ascii (text : String) : List UInt8 := text.toList.map fun char => UInt8.ofNat char.toNat

/-! ### Addresses -/

/-- `struct in6_addr`: sixteen bytes in network order. -/
abbrev In6Addr := Vector UInt8 16

/-- `IN6_IS_ADDR_V4MAPPED`. -/
def in6IsAddrV4mapped (addr : In6Addr) : Bool :=
  addr.toList.take 12 == [0, 0, 0, 0, 0, 0, 0, 0, 0, 0, 0xff, 0xff]

/-- The IPv4 address at `(char *)addr + 12`. -/
def v4Part (addr : In6Addr) : List UInt8 := addr.toList.drop 12

def digit (value : Nat) : UInt8 := UInt8.ofNat (48 + value)

/-- The characters of `dec_map[c]` that `ipv4_to_str` copies. -/
def decMap (c : UInt8) : List UInt8 :=
  let value := c.toNat
  if 99 < value then [digit (value / 100), digit (value / 10 % 10), digit (value % 10)]
  else if 9 < value then [digit (value / 10), digit (value % 10)]
  else [digit value]

def hexDigit (value : Nat) : UInt8 := UInt8.ofNat (if value < 10 then 48 + value else 87 + value)

/-- `hex_map[c]`. -/
def hexMap (c : UInt8) : List UInt8 := [hexDigit (c.toNat / 16), hexDigit (c.toNat % 16)]

def dot : UInt8 := 46
def col : UInt8 := 58

def ipv4ToStr (src : List UInt8) : List UInt8 := [dot].intercalate (src.map decMap)

/-- Two bytes of the address are one group of the string. -/
def hexGroups : List UInt8 → List (List UInt8)
  | high :: low :: rest => (hexMap high ++ hexMap low) :: hexGroups rest
  | _ => []

def ipv6ToStr (src : List UInt8) : List UInt8 := [col].intercalate (hexGroups src)

/-- The string form the text records carry. -/
def addressStr (addr : In6Addr) : List UInt8 :=
  if in6IsAddrV4mapped addr then ipv4ToStr (v4Part addr) else ipv6ToStr addr.toList

/-! ### Text records -/

def dateSize : Nat := 20
def newlineChar : UInt8 := 10
def hostPrefix : List UInt8 := ascii " client "
def msgStr : List UInt8 := ascii " exceeded request rate limit\n"

/-- `global_datetime_buf` without its terminator. -/
abbrev DateBuf := Vector UInt8 dateSize

def logstrShort (addr : In6Addr) : List UInt8 := addressStr addr ++ [newlineChar]

def logstrLong (date : DateBuf) (addr : In6Addr) : List UInt8 :=
  date.toList ++ hostPrefix ++ addressStr addr ++ ascii "#" ++ msgStr

/-! ### Binary records -/

/-- `sizeof(fips_bin_message_t)`; the union is aligned to sixteen bytes. -/
def sizeofBinMessage : Nat := 48

/-- An assignment to a member: its offset and the bytes stored there. -/
structure Field where
  offset : Nat
  bytes : List UInt8
deriving DecidableEq, Repr

/-- The bytes of a `time_t`, lowest first. -/
def timeBytes (time : UInt64) : List UInt8 :=
  (List.range 8).map fun index => UInt8.ofNat (time.toNat / 256 ^ index)

/-- `address_len` and the address member of the union. -/
def addressFields (addr : In6Addr) : List Field :=
  if in6IsAddrV4mapped addr then [⟨8, [4]⟩, ⟨16, v4Part addr⟩]
  else [⟨8, [16]⟩, ⟨16, addr.toList⟩]

def logstrBinShort (addr : In6Addr) : List Field := addressFields addr

def logstrBinLong (time : UInt64) (addr : In6Addr) : List Field :=
  ⟨0, timeBytes time⟩ :: addressFields addr

/-! ### Storing records -/

def memcpy (data : Data) (address : Nat) (bytes : List UInt8) : Data := fun location =>
  if address ≤ location then (bytes[location - address]?).getD (data location)
  else data location

/-- The assignments of a record to the buffer at `base`. -/
def storeFields (data : Data) (base : Nat) (fields : List Field) : Data :=
  fields.foldl (fun data field => memcpy data (base + field.offset) field.bytes) data

/-- The memory from `base` on holds the fields. -/
def Stored (data : Data) (base : Nat) (fields : List Field) : Prop :=
  ∀ field ∈ fields, ∀ index byte, field.bytes[index]? = some byte →
    data (base + field.offset + index) = byte

/-- The fields end within `extent` bytes. -/
def Within (fields : List Field) (extent : Nat) : Prop :=
  ∀ field ∈ fields, field.offset + field.bytes.length ≤ extent

/-- The fields lie one after the other. -/
def Ordered (fields : List Field) : Prop :=
  fields.Pairwise fun left right => left.offset + left.bytes.length ≤ right.offset

section Memory

variable {data : Data} {base address location : Nat} {bytes : List UInt8} {fields : List Field}

theorem memcpy_outside (outside : location < address ∨ address + bytes.length ≤ location) :
    memcpy data address bytes location = data location := by
  unfold memcpy
  split
  case isTrue after =>
    rw [List.getElem?_eq_none (by omega), Option.getD_none]
  case isFalse => rfl

theorem memcpy_inside {index : Nat} {byte : UInt8} (present : bytes[index]? = some byte) :
    memcpy data address bytes (address + index) = byte := by
  unfold memcpy
  rw [if_pos (Nat.le_add_right _ _), Nat.add_sub_cancel_left, present, Option.getD_some]

theorem bytes_memcpy (data : Data) (address : Nat) (bytes : List UInt8) :
    Iovec.bytes (memcpy data address bytes) ⟨address, bytes.length⟩ = bytes := by
  apply List.ext_getElem?
  intro index
  by_cases inside : index < bytes.length
  · have present : bytes[index]? = some bytes[index] := List.getElem?_eq_getElem inside
    simp [Iovec.bytes, inside, memcpy_inside present]
  · simp [Iovec.bytes, inside]

/-- A line in front of the bytes that are written stays as it is. -/
theorem bytes_memcpy_before {iov : Iovec} {address : Nat} (before : iov.base + iov.len ≤ address)
    (bytes : List UInt8) :
    Iovec.bytes (memcpy data address bytes) iov = Iovec.bytes data iov := by
  apply List.map_congr_left
  intro offset member
  have inside := List.mem_range.mp member
  exact memcpy_outside (Or.inl (by omega))

theorem storeFields_cons (field : Field) :
    storeFields data base (field :: fields) =
      storeFields (memcpy data (base + field.offset) field.bytes) base fields := rfl

/-- Storing fields changes only the bytes of the fields. -/
theorem storeFields_of_ne (apart : ∀ field ∈ fields, location < base + field.offset ∨
      base + field.offset + field.bytes.length ≤ location) :
    storeFields data base fields location = data location := by
  induction fields generalizing data with
  | nil => rfl
  | cons field rest inductionHypothesis =>
      calc storeFields data base (field :: rest) location
          = memcpy data (base + field.offset) field.bytes location :=
            inductionHypothesis fun other member => apart other (by simp [member])
        _ = data location := memcpy_outside (apart field (by simp))

/-- Storing a record leaves the memory around its buffer alone. -/
theorem storeFields_outside {extent : Nat} (within : Within fields extent)
    (outside : location < base ∨ base + extent ≤ location) :
    storeFields data base fields location = data location := by
  refine storeFields_of_ne fun field member => ?_
  have fieldEnd := within field member
  omega

/-- A record is in its buffer after it was stored. -/
theorem stored_storeFields (ordered : Ordered fields) :
    Stored (storeFields data base fields) base fields := by
  induction fields generalizing data with
  | nil =>
      intro field member
      simp at member
  | cons first rest inductionHypothesis =>
      rcases List.pairwise_cons.mp ordered with ⟨before, restOrdered⟩
      intro field member index byte present
      rcases List.mem_cons.mp member with rfl | later
      · have inside : index < field.bytes.length := (List.getElem?_eq_some_iff.mp present).1
        calc storeFields data base (field :: rest) (base + field.offset + index)
            = memcpy data (base + field.offset) field.bytes (base + field.offset + index) := by
              rw [storeFields_cons]
              refine storeFields_of_ne fun other otherMember => Or.inl ?_
              have behind := before other otherMember
              omega
          _ = byte := memcpy_inside present
      · exact inductionHypothesis restOrdered field later index byte present

/-- Memory that agrees on the extent of a record holds it as well. -/
theorem Stored.congr {other : Data} {extent : Nat} (stored : Stored data base fields)
    (within : Within fields extent)
    (unchanged : ∀ location, base ≤ location → location < base + extent →
      other location = data location) : Stored other base fields := by
  intro field member index byte present
  have inside : index < field.bytes.length := (List.getElem?_eq_some_iff.mp present).1
  have fieldEnd := within field member
  rw [unchanged _ (by omega) (by omega)]
  exact stored field member index byte present

end Memory

/-! ### Sizes -/

theorem length_decMap_le (c : UInt8) : (decMap c).length ≤ 3 := by
  unfold decMap
  dsimp only
  split
  · simp
  · split <;> simp

theorem length_v4Part (addr : In6Addr) : (v4Part addr).length = 4 := by
  simp [v4Part]

/-- The four bytes of an IPv4-mapped client. -/
theorem exists_v4Part (addr : In6Addr) : ∃ a b c d, v4Part addr = [a, b, c, d] := by
  have four := length_v4Part addr
  match v4Part addr, four with
  | [a, b, c, d], _ => exact ⟨a, b, c, d, rfl⟩

theorem length_ipv4ToStr_le (addr : In6Addr) : (ipv4ToStr (v4Part addr)).length ≤ 15 := by
  rcases exists_v4Part addr with ⟨a, b, c, d, bytes⟩
  have widths := And.intro (length_decMap_le a) (And.intro (length_decMap_le b)
    (And.intro (length_decMap_le c) (length_decMap_le d)))
  rw [bytes]
  simp [ipv4ToStr, List.intercalate]
  omega

theorem length_ipv6ToStr (addr : In6Addr) : (ipv6ToStr addr.toList).length = 39 := by
  have sixteen : addr.toList.length = 16 := by simp
  match addr.toList, sixteen with
  | [_, _, _, _, _, _, _, _, _, _, _, _, _, _, _, _], _ => rfl

theorem length_addressStr_le (addr : In6Addr) : (addressStr addr).length ≤ 39 := by
  unfold addressStr
  split
  · exact (length_ipv4ToStr_le addr).trans (by decide)
  · exact (length_ipv6ToStr addr).le

theorem length_logstrShort_le (addr : In6Addr) : (logstrShort addr).length ≤ 40 := by
  have bound := length_addressStr_le addr
  rw [logstrShort, List.length_append]
  exact Nat.succ_le_succ bound

theorem length_logstrLong (date : DateBuf) (addr : In6Addr) :
    (logstrLong date addr).length = 58 + (addressStr addr).length := by
  have around : hostPrefix.length = 8 ∧ (ascii "#").length = 1 ∧ msgStr.length = 29 := by decide
  have dateLength : date.toList.length = 20 := Vector.length_toList
  simp only [logstrLong, List.length_append]
  omega

theorem within_addressFields (addr : In6Addr) : Within (addressFields addr) 32 := by
  unfold addressFields Within
  split <;> simp [length_v4Part]

theorem ordered_addressFields (addr : In6Addr) : Ordered (addressFields addr) := by
  unfold addressFields Ordered
  split <;> simp

end FipsIpc.UdpServer
