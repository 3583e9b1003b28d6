import Mathlib.Algebra.Group.Nat.Defs
import Mathlib.Data.List.Basic
import Mathlib.Logic.Function.Basic

/-!
Contract: the XDP program `lib/ip_blacklist.bpf.c` in its default build.

Owns: the maps as the CPU that runs the program sees them, loads from the frame,
the parsers for Ethernet, IPv4, IPv6 with extension headers, TCP and UDP ports,
and `xdp_prog`.

A frame is the bytes from `data` to `data_end`.  A load yields nothing when it
would leave the frame, so a program that returns has read inside it.  Addresses
are keys in the byte order of the frame, read as little-endian numbers.  The
build has neither `DEBUG` nor `SUBNET` nor `LONGTERM`.

Does not own: the entries of other CPUs, and how user space fills the maps.
-/

set_option autoImplicit false

namespace FipsIpc.Xdp

/-! ### Frames -/

abbrev Frame : Type := List UInt8

/-- The bytes of a frame from an offset on. -/
def slice (frame : Frame) (offset count : Nat) : List UInt8 := (frame.drop offset).take count

/-- A load of `count` bytes. -/
def load (frame : Frame) (offset count : Nat) : Option (List UInt8) :=
  if offset + count ≤ frame.length then some (slice frame offset count) else none

def beNat (bytes : List UInt8) : Nat := bytes.foldl (fun value byte => 256 * value + byte.toNat) 0

def leNat (bytes : List UInt8) : Nat := bytes.foldr (fun byte value => byte.toNat + 256 * value) 0

/-! ### Maps -/

/-- `port_blacklist` and the drop counters are arrays of 65536 cells,
`verdict_cnt` one of `XDP_ACTION_MAX`. -/
structure Maps where
  blacklistv4 : BitVec 32 → Option UInt64
  blacklistv6 : BitVec 128 → Option UInt64
  verdictCnt : Nat → UInt64
  portBlacklist : Nat → UInt64
  portBlacklistDropCountTcp : Nat → UInt64
  portBlacklistDropCountUdp : Nat → UInt64

def xdpAborted : Nat := 0
def xdpDrop : Nat := 1
def xdpPass : Nat := 2
def xdpTx : Nat := 3
def xdpActionMax : Nat := xdpTx + 2

/-- `*value += 1` on a cell. -/
def countCell (cells : Nat → UInt64) (cell : Nat) : Nat → UInt64 :=
  Function.update cells cell (cells cell + 1)

def statsActionVerdict (action : Nat) (maps : Maps) : Maps :=
  if action ≥ xdpActionMax then maps
  else { maps with verdictCnt := countCell maps.verdictCnt action }

/-! ### Ethernet -/

def sizeofEthhdr : Nat := 14
def sizeofVlanHdr : Nat := 4
def ethP8023Min : Nat := 0x600
def ethP8021q : Nat := 0x8100
def ethP8021ad : Nat := 0x88A8
def ethPIp : Nat := 0x0800
def ethPIpv6 : Nat := 0x86DD

def IsVlan (ethType : Nat) : Prop := ethType = ethP8021q ∨ ethType = ethP8021ad

instance (ethType : Nat) : Decidable (IsVlan ethType) := inferInstanceAs (Decidable (_ ∨ _))

/-- The block for a VLAN tag, which stands twice: nothing inside for a frame that
ends in the tag. -/
def parseVlan (frame : Frame) (ethType offset : Nat) : Option (Option (Nat × Nat)) :=
  if IsVlan ethType then
    if offset + sizeofVlanHdr > frame.length then some none
    else do
      let proto ← load frame (offset + 2) 2
      some (some (beNat proto, offset + sizeofVlanHdr))
  else some (some (ethType, offset))

/-- `parse_eth`: the action, 5 to go on, with `eth_proto` and `l3_offset`. -/
def parseEth (frame : Frame) : Option (Nat × Nat × Nat) :=
  if sizeofEthhdr > frame.length then some (xdpAborted, 0, 0)
  else do
    let proto ← load frame 12 2
    if beNat proto < ethP8023Min then some (xdpPass, 0, 0)
    else
      match ← parseVlan frame (beNat proto) sizeofEthhdr with
      | none => some (xdpAborted, 0, 0)
      | some (ethType, offset) =>
          match ← parseVlan frame ethType offset with
          | none => some (xdpAborted, 0, 0)
          | some (ethProto, l3Offset) => some (5, ethProto, l3Offset)

/-! ### Ports -/

def ipprotoTcp : Nat := 6
def ipprotoUdp : Nat := 17
def sizeofTcphdr : Nat := 20
def sizeofUdphdr : Nat := 8

inductive FilterProto where
  | tcp
  | udp
deriving DecidableEq, Repr

/-- `DDOS_FILTER_TCP` and `DDOS_FILTER_UDP`. -/
def FilterProto.number : FilterProto → Nat
  | .tcp => 0
  | .udp => 1

/-- `1 << fproto`. -/
def FilterProto.mask (fproto : FilterProto) : UInt32 := 1 <<< UInt32.ofNat fproto.number

/-- `*drops += 1` in the map of `drop_count_by_fproto`. -/
def countDrop (maps : Maps) (dport : Nat) : FilterProto → Maps
  | .tcp => { maps with
      portBlacklistDropCountTcp := countCell maps.portBlacklistDropCountTcp dport }
  | .udp => { maps with
      portBlacklistDropCountUdp := countCell maps.portBlacklistDropCountUdp dport }

/-- The end of `parse_port`; `value` points to a `__u32`, the low half of the
cell. -/
def portVerdict (maps : Maps) (dport : Nat) (fproto : FilterProto) : Nat × Maps :=
  if (maps.portBlacklist dport).toUInt32 &&& fproto.mask ≠ 0 then
    (xdpDrop, countDrop maps dport fproto)
  else (xdpPass, maps)

/-- A case of the switch of `parse_port`; the destination port is the second
field of both headers. -/
def parsePortHdr (frame : Frame) (hdr size : Nat) (fproto : FilterProto) (maps : Maps) :
    Option (Nat × Maps) :=
  if hdr + size > frame.length then some (xdpAborted, maps)
  else do
    let dest ← load frame (hdr + 2) 2
    some (portVerdict maps (beNat dest) fproto)

def parsePort (frame : Frame) (proto hdr : Nat) (maps : Maps) : Option (Nat × Maps) :=
  if proto = ipprotoUdp then parsePortHdr frame hdr sizeofUdphdr .udp maps
  else if proto = ipprotoTcp then parsePortHdr frame hdr sizeofTcphdr .tcp maps
  else some (xdpPass, maps)

/-! ### IPv4 -/

def sizeofIphdr : Nat := 20

/-- 10.3.30.0/24 is counted in the last cell of `verdict_cnt`. -/
def countTestNet (source : BitVec 32) (maps : Maps) : Maps :=
  if source &&& 0x00FFFFFF = 0x001E030A then
    { maps with verdictCnt := countCell maps.verdictCnt (xdpActionMax - 1) }
  else maps

/-- The lookups of `parse_ipv4`. -/
def filterIpv4 (source : BitVec 32) (maps : Maps) : Nat × Maps :=
  let maps := countTestNet source maps
  match maps.blacklistv4 source with
  | some value =>
      (xdpDrop,
        { maps with blacklistv4 := Function.update maps.blacklistv4 source (some (value + 1)) })
  | none => (xdpPass, maps)

def parseIpv4 (frame : Frame) (l3Offset : Nat) (maps : Maps) : Option (Nat × Maps) :=
  if l3Offset + sizeofIphdr > frame.length then some (xdpAborted, maps)
  else do
    let saddr ← load frame (l3Offset + 12) 4
    some (filterIpv4 (BitVec.ofNat 32 (leNat saddr)) maps)

/-! ### IPv6 -/

def sizeofIpv6hdr : Nat := 40
def sizeofIpv6FragHdr : Nat := 8

/-- The extension headers that give their own length. -/
def extensionHeaders : List Nat := [0, 43, 51, 60, 135, 139, 140]

/-- The loop over the extension headers, `rounds` before its end. -/
def parseExtensions (frame : Frame) (maps : Maps) :
    (rounds protocol l4Offset : Nat) → Option (Nat × Maps)
  | 0, _, _ => some (xdpDrop, maps)
  | rounds + 1, protocol, l4Offset =>
      if protocol > 143 then some (xdpDrop, maps)
      else if protocol = 44 then
        if l4Offset + sizeofIpv6FragHdr > frame.length then some (xdpAborted, maps)
        else do
          let nexthdr ← load frame l4Offset 1
          parseExtensions frame maps rounds (beNat nexthdr) (l4Offset + sizeofIpv6FragHdr)
      else if protocol ∈ extensionHeaders then
        -- `sizeof` takes the size of the `int` sum, not its value
        if l4Offset + 4 > frame.length then some (xdpAborted, maps)
        else do
          let nexthdr ← load frame l4Offset 1
          let hdrlen ← load frame (l4Offset + 1) 1
          parseExtensions frame maps rounds (beNat nexthdr) (l4Offset + (beNat hdrlen * 8 + 8))
      else parsePort frame protocol l4Offset maps

def parseIpv6 (frame : Frame) (l3Offset : Nat) (maps : Maps) : Option (Nat × Maps) :=
  if l3Offset + sizeofIpv6hdr > frame.length then some (xdpAborted, maps)
  else do
    let saddr ← load frame (l3Offset + 8) 16
    let source := BitVec.ofNat 128 (leNat saddr)
    match maps.blacklistv6 source with
    | some value =>
        some (xdpDrop,
          { maps with blacklistv6 := Function.update maps.blacklistv6 source (some (value + 1)) })
    | none =>
        let nexthdr ← load frame (l3Offset + 6) 1
        parseExtensions frame maps 10 (beNat nexthdr) (l3Offset + sizeofIpv6hdr)

/-! ### The program -/

def handleEthProtocol (frame : Frame) (ethProto l3Offset : Nat) (maps : Maps) :
    Option (Nat × Maps) :=
  if ethProto = ethPIp then parseIpv4 frame l3Offset maps
  else if ethProto = ethPIpv6 then parseIpv6 frame l3Offset maps
  else some (xdpPass, maps)

def xdpProg (frame : Frame) (maps : Maps) : Option (Nat × Maps) := do
  let (action, ethProto, l3Offset) ← parseEth frame
  if action < 5 then some (action, statsActionVerdict action maps)
  else
    let (action, maps) ← handleEthProtocol frame ethProto l3Offset maps
    some (action, statsActionVerdict action maps)

end FipsIpc.Xdp
