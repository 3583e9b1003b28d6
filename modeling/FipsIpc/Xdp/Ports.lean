import FipsIpc.Xdp.Filter
import FipsIpc.Xdp.Subnets
import Mathlib.Algebra.Group.Int.Defs

/-!
Contract: blocking ports from user space and in the XDP program.

Owns: `blacklist_port_modify` of `cmdline_prog`, the port maps with the cells of
all CPUs, what a sequence of calls leaves in them, and the program's verdict on
IPv6 packets with a TCP or UDP header.

User space makes the bit of a protocol with `>>`, the program tests the one it
makes with `<<`.  Map calls on a cell of the array succeed; a port outside it is
refused.

Does not own: the command line, and packets with extension headers.
-/

set_option autoImplicit false

namespace FipsIpc.Xdp

/-! ### `blacklist_port_modify` -/

def exitFailPort : Int := 31

def portCells : Nat := 65536

/-- `port_blacklist` and the drop counters, the cells of every CPU. -/
structure PortMaps where
  portBlacklist : (cpu port : Nat) → UInt64
  dropCount : FilterProto → (cpu port : Nat) → UInt64

/-- All counters and bits are zero. -/
def PortMaps.zero : PortMaps := ⟨fun _ _ => 0, fun _ _ _ => 0⟩

/-- `bpf_map_lookup_elem` on a per-CPU array. -/
def lookupCells (cells : (cpu port : Nat) → UInt64) (key : Nat) : Option (Nat → UInt64) :=
  if key < portCells then some fun cpu => cells cpu key else none

/-- `bpf_map_update_elem` with `BPF_EXIST` on a per-CPU array. -/
def updateCells (nrCpus : Nat) (cells : (cpu port : Nat) → UInt64) (key : Nat)
    (values : Nat → UInt64) : Int × ((cpu port : Nat) → UInt64) :=
  if key < portCells then
    (0, fun cpu port => if cpu < nrCpus ∧ port = key then values cpu else cells cpu port)
  else (-1, cells)

def FilterProto.ofIpproto (proto : Nat) : Option FilterProto :=
  if proto = ipprotoTcp then some .tcp else if proto = ipprotoUdp then some .udp else none

def FilterProto.ipproto : FilterProto → Nat
  | .tcp => ipprotoTcp
  | .udp => ipprotoUdp

/-- `1 >> DDOS_FILTER_TCP` or `1 >> DDOS_FILTER_UDP`. -/
def FilterProto.value (fproto : FilterProto) : UInt64 := 1 >>> UInt64.ofNat fproto.number

def blacklistPortModify (nrCpus : Nat) (maps : PortMaps) (countfd : FilterProto) (dport : Int)
    (action : Action) (proto : Nat) : Int × PortMaps :=
  if action = .other then (exitFailOption, maps)
  else
    match FilterProto.ofIpproto proto with
    | none => (exitFailOption, maps)
    | some fproto =>
        if dport > 65535 then (exitFailPort, maps)
        else
          let key := (dport % 2 ^ 32).toNat
          -- a failed lookup is reported and leaves the zeros of `memset`
          let currValues := (lookupCells maps.portBlacklist key).getD fun _ => 0
          let newValues := fun cpu =>
            if action = .add then currValues cpu ||| fproto.value
            else currValues cpu &&& ~~~fproto.value
          let updated := updateCells nrCpus maps.portBlacklist key newValues
          if updated.1 ≠ 0 then (exitFailMapKey, maps)
          else
            let maps := { maps with portBlacklist := updated.2 }
            if action = .del then
              let cleared := updateCells nrCpus (maps.dropCount countfd) key fun _ => 0
              if cleared.1 ≠ 0 then (exitFailMapKey, maps)
              else (exitOk,
                { maps with dropCount := Function.update maps.dropCount countfd cleared.2 })
            else (exitOk, maps)

/-- A call for a port and a protocol. -/
structure PortCall where
  port : Nat
  proto : FilterProto
  adds : Bool
  countfd : FilterProto
  port_pos : 1 ≤ port
  port_le : port ≤ 65535

def PortCall.action (call : PortCall) : Action := if call.adds then .add else .del

def PortCall.modify (nrCpus : Nat) (maps : PortMaps) (call : PortCall) : Int × PortMaps :=
  blacklistPortModify nrCpus maps call.countfd call.port call.action call.proto.ipproto

/-- The maps after a sequence of calls. -/
def portRun (nrCpus : Nat) (maps : PortMaps) (calls : List PortCall) : PortMaps :=
  calls.foldl (fun maps call => (call.modify nrCpus maps).2) maps

/-- The last call for a port and a protocol was `ACTION_ADD`. -/
def LastAdd (calls : List PortCall) (port : Nat) (proto : FilterProto) : Prop :=
  ((calls.filter fun call => call.port = port ∧ call.proto = proto).getLast?.map
    PortCall.adds) = some true

instance (calls : List PortCall) (port : Nat) (proto : FilterProto) :
    Decidable (LastAdd calls port proto) :=
  inferInstanceAs (Decidable (_ = _))

/-! ### What calls do -/

@[simp] theorem FilterProto.ofIpproto_ipproto (proto : FilterProto) :
    FilterProto.ofIpproto proto.ipproto = some proto := by
  cases proto <;> rfl

/-- A call succeeds and sets or clears its bits in the cells of its port. -/
theorem modify_spec (nrCpus : Nat) (maps : PortMaps) (call : PortCall) :
    (call.modify nrCpus maps).1 = exitOk ∧
      ∀ cpu < nrCpus, ∀ port, (call.modify nrCpus maps).2.portBlacklist cpu port =
        if port = call.port then
          if call.adds then maps.portBlacklist cpu port ||| call.proto.value
          else maps.portBlacklist cpu port &&& ~~~call.proto.value
        else maps.portBlacklist cpu port := by
  have small := call.port_le
  have key : ((call.port : Int) % 2 ^ 32).toNat = call.port := by omega
  have inside : call.port < portCells := Nat.lt_succ_of_le small
  have valid : ¬call.action = .other := by
    unfold PortCall.action
    split <;> decide
  have range : ¬(call.port : Int) > 65535 := by omega
  unfold PortCall.modify blacklistPortModify
  rw [if_neg valid, FilterProto.ofIpproto_ipproto]
  dsimp only
  rw [if_neg range, key]
  unfold updateCells lookupCells
  simp only [if_pos inside, Option.getD_some, ne_eq, not_true_eq_false, if_false]
  unfold PortCall.action
  cases call.adds with
  | true =>
      refine ⟨rfl, fun cpu before port => ?_⟩
      by_cases own : port = call.port
      · simp [own, before]
      · simp [own]
  | false =>
      refine ⟨rfl, fun cpu before port => ?_⟩
      by_cases own : port = call.port
      · simp [own, before]
      · simp [own]

theorem lastAdd_append (calls : List PortCall) (call : PortCall) (port : Nat)
    (proto : FilterProto) :
    LastAdd (calls ++ [call]) port proto ↔
      if call.port = port ∧ call.proto = proto then call.adds = true
      else LastAdd calls port proto := by
  unfold LastAdd
  rw [List.filter_append]
  by_cases own : call.port = port ∧ call.proto = proto
  · rw [if_pos own]
    simp [own]
  · rw [if_neg own]
    simp [own]

theorem portRun_append (nrCpus : Nat) (maps : PortMaps) (calls : List PortCall)
    (call : PortCall) :
    portRun nrCpus maps (calls ++ [call]) =
      (call.modify nrCpus (portRun nrCpus maps calls)).2 := by
  unfold portRun
  rw [List.foldl_append]
  rfl

/-- What a call leaves in a cell that holds the TCP bit or nothing. -/
theorem value_cases (proto : FilterProto) (held : Bool) :
    ((if held then 1 else 0 : UInt64) ||| proto.value =
        if held ∨ proto = .tcp then 1 else 0) ∧
      ((if held then 1 else 0 : UInt64) &&& ~~~proto.value =
        if held ∧ proto ≠ .tcp then 1 else 0) := by
  cases proto <;> cases held <;> decide

/-- After any calls a cell holds the TCP bit of its port and no other. -/
theorem portRun_cell (nrCpus : Nat) (calls : List PortCall) {cpu : Nat} (running : cpu < nrCpus)
    (port : Nat) :
    (portRun nrCpus .zero calls).portBlacklist cpu port =
      if LastAdd calls port .tcp then 1 else 0 := by
  induction calls using List.reverseRecOn with
  | nil => rfl
  | append_singleton calls call inductionHypothesis =>
      rw [portRun_append, (modify_spec nrCpus _ call).2 cpu running port, inductionHypothesis]
      have before := lastAdd_append calls call port .tcp
      have cells := value_cases call.proto (decide (LastAdd calls port .tcp))
      simp only [decide_eq_true_eq] at cells
      rw [cells.1, cells.2]
      by_cases own : port = call.port
      · rw [if_pos own]
        cases adds : call.adds with
        | true =>
            rw [if_pos rfl]
            refine if_congr ?_ rfl rfl
            rw [before, adds]
            by_cases tcp : call.proto = .tcp <;> simp [own, tcp]
        | false =>
            rw [if_neg (by decide)]
            refine if_congr ?_ rfl rfl
            rw [before, adds]
            by_cases tcp : call.proto = .tcp <;> simp [own, tcp]
      · rw [if_neg own]
        refine if_congr ?_ rfl rfl
        rw [before, if_neg fun same => own same.1.symm]

/-! ### Packets -/

def FilterProto.hdrSize : FilterProto → Nat
  | .tcp => sizeofTcphdr
  | .udp => sizeofUdphdr

/-- An IPv6 packet without extension headers, with a complete TCP or UDP header
and a source that is not blacklisted. -/
def PortPacket (frame : Frame) (blacklistv6 : BitVec 128 → Option UInt64) (proto : FilterProto)
    (dport : Nat) : Prop :=
  ∃ l3Offset, Carries frame ethPIpv6 l3Offset ∧
    blacklistv6 (sourceV6 frame l3Offset) = none ∧
    beNat (slice frame (l3Offset + 6) 1) = proto.ipproto ∧
    l3Offset + sizeofIpv6hdr + proto.hdrSize ≤ frame.length ∧
    beNat (slice frame (l3Offset + sizeofIpv6hdr + 2) 2) = dport

def Drops (frame : Frame) (maps : Maps) : Prop :=
  ∃ next, xdpProg frame maps = some (xdpDrop, next)

theorem parseExtensions_port (frame : Frame) (maps : Maps) (rounds : Nat) (proto : FilterProto)
    (l4Offset : Nat) (fits : l4Offset + proto.hdrSize ≤ frame.length) :
    parseExtensions frame maps (rounds + 1) proto.ipproto l4Offset =
      some (portVerdict maps (beNat (slice frame (l4Offset + 2) 2)) proto) := by
  have ported : parseExtensions frame maps (rounds + 1) proto.ipproto l4Offset =
      parsePortHdr frame l4Offset proto.hdrSize proto maps := by
    cases proto <;> rfl
  have room : 4 ≤ proto.hdrSize := by cases proto <;> decide
  rw [ported, parsePortHdr, if_neg (Nat.not_lt_of_le fits), load_eq (by omega)]
  rfl

/-- The verdict on such a packet is that of the port. -/
theorem xdpProg_portPacket {frame : Frame} {maps : Maps} {proto : FilterProto} {dport : Nat}
    (packet : PortPacket frame maps.blacklistv6 proto dport) :
    ∃ next, xdpProg frame maps = some ((portVerdict maps dport proto).1, next) := by
  obtain ⟨l3Offset, carries, unlisted, protocol, complete, port⟩ := packet
  obtain ⟨action, ethProto, offset, parsed, outcome⟩ := parseEth_cases frame
  rcases outcome with ⟨_, nothing⟩ | ⟨continues, _, unique⟩
  · exact absurd carries (nothing ethPIpv6 l3Offset reachable_ipv6)
  · obtain ⟨sameType, sameOffset⟩ := unique ethPIpv6 l3Offset reachable_ipv6 carries
    subst sameType sameOffset continues
    have whole : l3Offset + 40 ≤ frame.length := by
      unfold sizeofIpv6hdr at complete
      omega
    have handled : handleEthProtocol frame ethPIpv6 l3Offset maps =
        some (portVerdict maps dport proto) := by
      have short : ¬l3Offset + sizeofIpv6hdr > frame.length := Nat.not_lt_of_le whole
      have dispatch : handleEthProtocol frame ethPIpv6 l3Offset maps =
          parseIpv6 frame l3Offset maps := rfl
      have source : maps.blacklistv6
          (BitVec.ofNat 128 (leNat (slice frame (l3Offset + 8) 16))) = none := unlisted
      rw [dispatch, parseIpv6, if_neg short, load_eq (by omega)]
      simp only [Option.bind_eq_bind, Option.bind_some]
      rw [source, load_eq (by omega)]
      simp only [Option.bind_some]
      rw [protocol, parseExtensions_port frame maps 9 proto _ complete, port]
    refine ⟨statsActionVerdict (portVerdict maps dport proto).1
      (portVerdict maps dport proto).2, ?_⟩
    unfold xdpProg
    rw [parsed]
    simp only [Option.bind_eq_bind, Option.bind_some]
    rw [if_neg (by decide), handled]
    rfl

/-- The packet is dropped when the program finds the bit. -/
theorem drops_iff {frame : Frame} {maps : Maps} {proto : FilterProto} {dport : Nat}
    (packet : PortPacket frame maps.blacklistv6 proto dport) :
    Drops frame maps ↔ (maps.portBlacklist dport).toUInt32 &&& proto.mask ≠ 0 := by
  obtain ⟨next, returned⟩ := xdpProg_portPacket packet
  have verdict : Drops frame maps ↔ (portVerdict maps dport proto).1 = xdpDrop := by
    unfold Drops
    rw [returned]
    simp
  have passDrop : xdpPass ≠ xdpDrop := by decide
  rw [verdict, portVerdict]
  split
  case isTrue set => exact ⟨fun _ => set, fun _ => rfl⟩
  case isFalse clear =>
    exact ⟨fun passes => absurd passes passDrop, fun set => absurd set clear⟩

/-! ### User space and kernel -/

/-- The maps of a CPU after the calls. -/
def Maps.afterCalls (maps : Maps) (nrCpus cpu : Nat) (calls : List PortCall) : Maps :=
  { maps with portBlacklist := (portRun nrCpus .zero calls).portBlacklist cpu }

/-- A packet is dropped for its port exactly when it is TCP and the last call for
the port and TCP added it. -/
theorem drops_afterCalls_iff {frame : Frame} {maps : Maps} {proto : FilterProto} {dport : Nat}
    {nrCpus cpu : Nat} (running : cpu < nrCpus)
    (packet : PortPacket frame maps.blacklistv6 proto dport) (calls : List PortCall) :
    Drops frame (maps.afterCalls nrCpus cpu calls) ↔
      proto = .tcp ∧ LastAdd calls dport .tcp := by
  have same : PortPacket frame (maps.afterCalls nrCpus cpu calls).blacklistv6 proto dport :=
    packet
  have cell : (maps.afterCalls nrCpus cpu calls).portBlacklist dport =
      if LastAdd calls dport .tcp then 1 else 0 := portRun_cell nrCpus calls running dport
  rw [drops_iff same, cell]
  have bits (held : Bool) : (if held = true then 1 else 0 : UInt64).toUInt32 &&& proto.mask ≠ 0 ↔
      proto = .tcp ∧ held = true := by
    cases proto <;> cases held <;> decide
  have tested := bits (decide (LastAdd calls dport .tcp))
  simp only [decide_eq_true_eq] at tested
  exact tested

/-- User space and kernel agree on a packet if and only if it is TCP or the last
call for its port and UDP was not `ACTION_ADD`. -/
theorem ports_agree_iff {frame : Frame} {maps : Maps} {proto : FilterProto} {dport : Nat}
    {nrCpus cpu : Nat} (running : cpu < nrCpus)
    (packet : PortPacket frame maps.blacklistv6 proto dport) (calls : List PortCall) :
    ((Drops frame (maps.afterCalls nrCpus cpu calls) ↔ LastAdd calls dport proto) ∧
      ∀ call : PortCall, call.proto ≠ proto →
        (Drops frame (maps.afterCalls nrCpus cpu (calls ++ [call])) ↔
          Drops frame (maps.afterCalls nrCpus cpu calls))) ↔
    (proto = .tcp ∨ ¬LastAdd calls dport .udp) := by
  have independent (call : PortCall) (other : call.proto ≠ proto) :
      Drops frame (maps.afterCalls nrCpus cpu (calls ++ [call])) ↔
        Drops frame (maps.afterCalls nrCpus cpu calls) := by
    rw [drops_afterCalls_iff running packet, drops_afterCalls_iff running packet, lastAdd_append]
    refine and_congr_right fun tcp => ?_
    rw [if_neg fun same => other (same.2.trans tcp.symm)]
  have verdict := drops_afterCalls_iff running packet calls
  cases proto with
  | tcp =>
      refine ⟨fun _ => Or.inl rfl, fun _ => ⟨?_, independent⟩⟩
      rw [verdict]
      exact ⟨fun dropped => dropped.2, fun added => ⟨rfl, added⟩⟩
  | udp =>
      have passes : ¬Drops frame (maps.afterCalls nrCpus cpu calls) := by
        rw [verdict]
        intro dropped
        cases dropped.1
      constructor
      · intro agrees
        exact Or.inr fun added => passes (agrees.1.mpr added)
      · intro condition
        rcases condition with tcp | notAdded
        · cases tcp
        · exact ⟨⟨fun dropped => absurd dropped passes, fun added => absurd added notAdded⟩,
            independent⟩

/-- An IPv6 packet from `::` for port 53 with the header of a protocol. -/
def port53 (proto : FilterProto) : Frame :=
  List.replicate 12 0 ++ [0x86, 0xDD] ++ List.replicate 6 0 ++ [UInt8.ofNat proto.ipproto] ++
    List.replicate 33 0 ++ [0, 0, 0, 53] ++ List.replicate 16 0

theorem portPacket_port53 (proto : FilterProto) :
    PortPacket (port53 proto) (fun _ => none) proto 53 := by
  have carries : Carries (port53 proto) ethPIpv6 14 := by
    refine ⟨0, by decide, rfl, ?_, fun tag before => absurd before (Nat.not_lt_zero tag), ?_⟩
    · cases proto <;> decide
    · cases proto <;> decide
  refine ⟨14, carries, rfl, ?_, ?_, ?_⟩
  · cases proto <;> decide
  · cases proto <;> decide
  · cases proto <;> decide

def emptyMaps : Maps :=
  ⟨fun _ => none, fun _ => none, fun _ => 0, fun _ => 0, fun _ => 0, fun _ => 0⟩

/-- Port 53 is added for a protocol. -/
def addPort53 (proto : FilterProto) : PortCall := ⟨53, proto, true, proto, by decide, by decide⟩

theorem ports_agree_iff_tcp :
    0 < 1 ∧ PortPacket (port53 .tcp) emptyMaps.blacklistv6 .tcp 53 ∧
    Drops (port53 .tcp) (emptyMaps.afterCalls 1 0 [addPort53 .tcp]) := by
  have packet : PortPacket (port53 .tcp) emptyMaps.blacklistv6 .tcp 53 := portPacket_port53 .tcp
  have agrees := ports_agree_iff Nat.one_pos packet [addPort53 .tcp]
  exact ⟨Nat.one_pos, packet, (agrees.mpr (Or.inl rfl)).1.mpr (by decide)⟩

/-- A UDP packet passes although its port was added. -/
theorem ports_disagree_udp :
    PortPacket (port53 .udp) emptyMaps.blacklistv6 .udp 53 ∧
    LastAdd [addPort53 .udp] 53 .udp ∧
    ¬Drops (port53 .udp) (emptyMaps.afterCalls 1 0 [addPort53 .udp]) := by
  refine ⟨portPacket_port53 .udp, by decide, fun dropped => ?_⟩
  have packet : PortPacket (port53 .udp) emptyMaps.blacklistv6 .udp 53 := portPacket_port53 .udp
  cases ((drops_afterCalls_iff Nat.one_pos packet _).mp dropped).1

end FipsIpc.Xdp
