import FipsIpc.Sf2b.Parse
import FipsIpc.Xdp.Ports

/-!
Contract: the statistics of the XDP program, read from user space.

Owns: the maps with the counters of all CPUs, the program on one of them,
`blacklist_modify` and how `main` of `cmdline_prog` calls it, the sums of
`get_key32_value64_percpu` and `get_key128_value64_percpu`, and what the sums are
after every run of packets and calls.

A key of a hash map holds one counter for every possible CPU.  The program only
counts in keys that are there, and only in the counter of its CPU.  A lookup that
fails leaves the array of `get_key32_value64_percpu` as it is, on the stack.

Does not own: what the program does inside a packet, calls for ports, and the
counters of ports.
-/

set_option autoImplicit false

namespace FipsIpc.Xdp

open FipsIpc.Lib

/-! ### Maps of all CPUs -/

/-- The counters of a key, one for each CPU. -/
abbrev Percpu : Type := Nat → UInt64

structure KernelMaps where
  blacklistv4 : BpfMap (BitVec 32) Percpu
  blacklistv6 : BpfMap (BitVec 128) Percpu
  verdictCnt : (cpu cell : Nat) → UInt64
  ports : PortMaps

/-- After the program has been loaded. -/
def KernelMaps.loaded : KernelMaps := ⟨fun _ => none, fun _ => none, fun _ _ => 0, .zero⟩

/-- What the program finds when it runs on a CPU. -/
def KernelMaps.onCpu (kernel : KernelMaps) (cpu : Nat) : Maps where
  blacklistv4 := fun key => (kernel.blacklistv4 key).map fun counters => counters cpu
  blacklistv6 := fun key => (kernel.blacklistv6 key).map fun counters => counters cpu
  verdictCnt := kernel.verdictCnt cpu
  portBlacklist := kernel.ports.portBlacklist cpu
  portBlacklistDropCountTcp := kernel.ports.dropCount .tcp cpu
  portBlacklistDropCountUdp := kernel.ports.dropCount .udp cpu

@[simp] theorem KernelMaps.onCpu_blacklistv4 (kernel : KernelMaps) (cpu : Nat)
    (key : BitVec 32) :
    (kernel.onCpu cpu).blacklistv4 key =
      (kernel.blacklistv4 key).map fun counters => counters cpu := rfl

@[simp] theorem KernelMaps.onCpu_blacklistv6 (kernel : KernelMaps) (cpu : Nat)
    (key : BitVec 128) :
    (kernel.onCpu cpu).blacklistv6 key =
      (kernel.blacklistv6 key).map fun counters => counters cpu := rfl

/-- The counters of the keys with those of one CPU replaced. -/
def storeCounters {Key : Type} (map : BpfMap Key Percpu) (cpu : Nat)
    (counters : Key → Option UInt64) : BpfMap Key Percpu :=
  fun key => (map key).map fun before =>
    Function.update before cpu ((counters key).getD (before cpu))

/-- What the program has left on its CPU. -/
def KernelMaps.store (kernel : KernelMaps) (cpu : Nat) (maps : Maps) : KernelMaps where
  blacklistv4 := storeCounters kernel.blacklistv4 cpu maps.blacklistv4
  blacklistv6 := storeCounters kernel.blacklistv6 cpu maps.blacklistv6
  verdictCnt := Function.update kernel.verdictCnt cpu maps.verdictCnt
  ports :=
    { portBlacklist := Function.update kernel.ports.portBlacklist cpu maps.portBlacklist
      dropCount := fun fproto =>
        match fproto with
        | .tcp =>
            Function.update (kernel.ports.dropCount .tcp) cpu maps.portBlacklistDropCountTcp
        | .udp =>
            Function.update (kernel.ports.dropCount .udp) cpu maps.portBlacklistDropCountUdp }

/-- A packet that arrives on a CPU, with its verdict. -/
def KernelMaps.packet (kernel : KernelMaps) (cpu : Nat) (frame : Frame) :
    Option (Nat × KernelMaps) := do
  let (action, maps) ← xdpProg frame (kernel.onCpu cpu)
  some (action, kernel.store cpu maps)

/-! ### `blacklist_modify` -/

def errnoEnoent : Nat := 2
def errnoE2big : Nat := 7
def errnoEexist : Nat := 17

def exitFailIp : Int := 30

section ModifyKey

variable {Key : Type} [DecidableEq Key]

/-- `bpf_map_update_elem` with zeros and `BPF_NOEXIST`: the error, if there is one. -/
def addKey (room : Bool) (map : BpfMap Key Percpu) (key : Key) :
    Option Nat × BpfMap Key Percpu :=
  if (map key).isSome then (some errnoEexist, map)
  else if room then (none, Function.update map key (some fun _ => 0))
  else (some errnoE2big, map)

def deleteKey (map : BpfMap Key Percpu) (key : Key) : Option Nat × BpfMap Key Percpu :=
  if (map key).isSome then (none, Function.update map key none) else (some errnoEnoent, map)

/-- `blacklist_modify` after the conversion of the address. -/
def blacklistModify (room : Bool) (map : BpfMap Key Percpu) (key : Key) (action : Action) :
    Int × BpfMap Key Percpu :=
  let report (result : Option Nat × BpfMap Key Percpu) : Int × BpfMap Key Percpu :=
    match result with
    | (none, map) => (exitOk, map)
    | (some errno, map) => (if errno = errnoEexist then exitOk else exitFailMapKey, map)
  match action with
  | .add => report (addKey room map key)
  | .del => report (deleteKey map key)
  | .other => (exitFailOption, map)

end ModifyKey

/-- `main` with an address: the family is the first one the text converts to. -/
def KernelMaps.modify (kernel : KernelMaps) (room : Bool) (ipString : List UInt8)
    (action : Action) : Int × KernelMaps :=
  match Sf2b.inetPton4 ipString with
  | some bytes =>
      let modified := blacklistModify room kernel.blacklistv4 (BitVec.ofNat 32 (leNat bytes)) action
      (modified.1, { kernel with blacklistv4 := modified.2 })
  | none =>
      match Sf2b.inetPton6 ipString with
      | some bytes =>
          let modified :=
            blacklistModify room kernel.blacklistv6 (BitVec.ofNat 128 (leNat bytes)) action
          (modified.1, { kernel with blacklistv6 := modified.2 })
      | none => (exitFailIp, kernel)

/-! ### Sums -/

/-- The loop over the CPUs. -/
def sumCpus (nrCpus : Nat) (counters : Percpu) : UInt64 :=
  (List.range nrCpus).foldl (fun sum cpu => sum + counters cpu) 0

/-- `get_key32_value64_percpu`; nothing when the sum would be of what is on the
stack. -/
def getKey32Value64Percpu (nrCpus : Nat) (map : BpfMap (BitVec 32) Percpu) (key : BitVec 32) :
    Option UInt64 :=
  (map key).map (sumCpus nrCpus)

def getKey128Value64Percpu (nrCpus : Nat) (map : BpfMap (BitVec 128) Percpu) (key : BitVec 128) :
    UInt64 :=
  match map key with
  | some counters => sumCpus nrCpus counters
  | none => 0

/-- A cell of `verdict_cnt`, as `stats_collect` reads it. -/
def KernelMaps.verdicts (kernel : KernelMaps) (nrCpus cell : Nat) : UInt64 :=
  sumCpus nrCpus fun cpu => kernel.verdictCnt cpu cell

theorem sumCpus_zero (nrCpus : Nat) : sumCpus nrCpus (fun _ => 0) = 0 := by
  induction nrCpus with
  | zero => rfl
  | succ nrCpus inductionHypothesis =>
      unfold sumCpus at inductionHypothesis ⊢
      rw [List.range_succ, List.foldl_append, inductionHypothesis]
      rfl

theorem sumCpus_succ (nrCpus : Nat) (counters : Percpu) :
    sumCpus (nrCpus + 1) counters = sumCpus nrCpus counters + counters nrCpus := by
  unfold sumCpus
  rw [List.range_succ, List.foldl_append]
  rfl

/-- The sum depends on the counters of possible CPUs. -/
theorem sumCpus_congr {nrCpus : Nat} {counters others : Percpu}
    (same : ∀ cpu < nrCpus, counters cpu = others cpu) :
    sumCpus nrCpus counters = sumCpus nrCpus others := by
  induction nrCpus with
  | zero => rfl
  | succ nrCpus inductionHypothesis =>
      rw [sumCpus_succ, sumCpus_succ, same nrCpus (Nat.lt_succ_self nrCpus),
        inductionHypothesis fun cpu before => same cpu (Nat.lt_succ_of_lt before)]

/-- What one CPU adds to its counter is added to the sum. -/
theorem sumCpus_update {nrCpus cpu : Nat} (possible : cpu < nrCpus) (counters : Percpu)
    (amount : UInt64) :
    sumCpus nrCpus (Function.update counters cpu (counters cpu + amount)) =
      sumCpus nrCpus counters + amount := by
  induction nrCpus with
  | zero => omega
  | succ nrCpus inductionHypothesis =>
      rw [sumCpus_succ, sumCpus_succ]
      by_cases last : cpu = nrCpus
      · subst last
        have before : sumCpus cpu (Function.update counters cpu (counters cpu + amount)) =
            sumCpus cpu counters :=
          sumCpus_congr fun other below => Function.update_of_ne (Nat.ne_of_lt below) _ _
        rw [before, Function.update_self]
        exact (UInt64.add_assoc _ _ _).symm
      · rw [inductionHypothesis (by omega), Function.update_of_ne (Ne.symm last)]
        rw [UInt64.add_assoc, UInt64.add_assoc, UInt64.add_comm amount]

/-! ### What a packet counts -/

/-- An IPv4 packet from 10.3.30.0/24. -/
def FromTestNet (frame : Frame) : Prop :=
  ∃ source, CarriesV4 frame source ∧ source &&& 0x00FFFFFF = 0x001E030A

section Decisions

instance (ethType : Nat) (frame : Frame) (l3Offset : Nat) :
    Decidable (Carries frame ethType l3Offset) :=
  inferInstanceAs (Decidable (∃ tags ≤ 2, _ ∧ _ ∧ (∀ tag < tags, _) ∧ _))

/-- The places where a packet can begin. -/
theorem exists_carries_iff {frame : Frame} {ethType : Nat} {holds : Nat → Prop} :
    (∃ l3Offset, Carries frame ethType l3Offset ∧ holds l3Offset) ↔
      ∃ l3Offset ≤ 22, Carries frame ethType l3Offset ∧ holds l3Offset := by
  refine exists_congr fun l3Offset => ⟨fun both => ⟨?_, both⟩, fun bounded => bounded.2⟩
  obtain ⟨⟨tags, atMost, offset, -⟩, -⟩ := both
  omega

instance (frame : Frame) (source : BitVec 32) : Decidable (CarriesV4 frame source) :=
  decidable_of_iff' _ exists_carries_iff

instance (frame : Frame) (source : BitVec 128) : Decidable (CarriesV6 frame source) :=
  decidable_of_iff' _ exists_carries_iff

theorem fromTestNet_iff {frame : Frame} :
    FromTestNet frame ↔ ∃ l3Offset ≤ 22, Carries frame ethPIp l3Offset ∧
      l3Offset + sizeofIphdr ≤ frame.length ∧
        sourceV4 frame l3Offset &&& 0x00FFFFFF = 0x001E030A := by
  rw [← exists_carries_iff]
  constructor
  · rintro ⟨source, ⟨l3Offset, carries, complete, rfl⟩, inNet⟩
    exact ⟨l3Offset, carries, complete, inNet⟩
  · rintro ⟨l3Offset, carries, complete, inNet⟩
    exact ⟨_, ⟨l3Offset, carries, complete, rfl⟩, inNet⟩

instance (frame : Frame) : Decidable (FromTestNet frame) := decidable_of_iff' _ fromTestNet_iff

end Decisions

section Cells

variable {frame : Frame} {maps next : Maps} {action : Nat}

theorem Filtered.cellV4 (filtered : Filtered frame maps action next) (source : BitVec 32) :
    next.blacklistv4 source = (maps.blacklistv4 source).map fun count =>
      count + if CarriesV4 frame source then 1 else 0 := by
  cases listed : maps.blacklistv4 source with
  | none =>
      by_contra changed
      rw [Option.map_none, ← listed] at changed
      exact (filtered.onlyV4 source changed).2 listed
  | some count =>
      rw [Option.map_some]
      by_cases carries : CarriesV4 frame source
      · rw [if_pos carries]
        exact (filtered.dropV4 source count carries listed).2
      · rw [if_neg carries, UInt64.add_zero, ← listed]
        by_contra changed
        exact carries (filtered.onlyV4 source changed).1

theorem Filtered.cellV6 (filtered : Filtered frame maps action next) (source : BitVec 128) :
    next.blacklistv6 source = (maps.blacklistv6 source).map fun count =>
      count + if CarriesV6 frame source then 1 else 0 := by
  cases listed : maps.blacklistv6 source with
  | none =>
      by_contra changed
      rw [Option.map_none, ← listed] at changed
      exact (filtered.onlyV6 source changed).2 listed
  | some count =>
      rw [Option.map_some]
      by_cases carries : CarriesV6 frame source
      · rw [if_pos carries]
        exact (filtered.dropV6 source count carries listed).2
      · rw [if_neg carries, UInt64.add_zero, ← listed]
        by_contra changed
        exact carries (filtered.onlyV6 source changed).1

/-! #### The cell of the test network -/

/-- The test network is looked for in the packet that was found. -/
theorem Found.fromTestNet_iff {ethProto l3Offset : Nat} (found : Found frame ethProto l3Offset) :
    FromTestNet frame ↔ ethProto = ethPIp ∧ l3Offset + sizeofIphdr ≤ frame.length ∧
      sourceV4 frame l3Offset &&& 0x00FFFFFF = 0x001E030A := by
  constructor
  · rintro ⟨source, carries, inNet⟩
    obtain ⟨ip, complete, rfl⟩ := found.v4 carries
    exact ⟨ip, complete, inNet⟩
  · rintro ⟨ip, complete, inNet⟩
    exact ⟨_, ⟨l3Offset, ip ▸ found.carries, complete, rfl⟩, inNet⟩

theorem countTestNet_cell (source : BitVec 32) (maps : Maps) :
    (countTestNet source maps).verdictCnt 4 =
      maps.verdictCnt 4 + if source &&& 0x00FFFFFF = 0x001E030A then 1 else 0 := by
  unfold countTestNet
  by_cases inNet : source &&& 0x00FFFFFF = 0x001E030A
  · rw [if_pos inNet, if_pos inNet]
    show Function.update maps.verdictCnt 4 (maps.verdictCnt 4 + 1) 4 = maps.verdictCnt 4 + 1
    rw [Function.update_self]
  · rw [if_neg inNet, if_neg inNet, UInt64.add_zero]

theorem filterIpv4_verdictCnt (source : BitVec 32) (maps : Maps) :
    (filterIpv4 source maps).2.verdictCnt = (countTestNet source maps).verdictCnt := by
  unfold filterIpv4
  dsimp only
  split <;> rfl

theorem parseIpv6_verdictCnt {l3Offset : Nat}
    (parsed : parseIpv6 frame l3Offset maps = some (action, next)) :
    next.verdictCnt = maps.verdictCnt := by
  unfold parseIpv6 at parsed
  split at parsed
  case isTrue =>
    cases parsed
    rfl
  case isFalse =>
    obtain ⟨saddr, -, rest⟩ := Option.bind_eq_some_iff.mp parsed
    dsimp only at rest
    split at rest
    case h_1 =>
      cases rest
      rfl
    case h_2 =>
      obtain ⟨nexthdr, -, extensions⟩ := Option.bind_eq_some_iff.mp rest
      obtain ⟨verdict, after, returned, -, same⟩ :=
        parseExtensions_neutral frame maps 10 (beNat nexthdr) (l3Offset + sizeofIpv6hdr)
      cases returned.symm.trans extensions
      exact same.verdictCnt

theorem handleEthProtocol_testNet {ethProto l3Offset : Nat}
    (found : Found frame ethProto l3Offset)
    (handled : handleEthProtocol frame ethProto l3Offset maps = some (action, next)) :
    next.verdictCnt 4 = maps.verdictCnt 4 + if FromTestNet frame then 1 else 0 := by
  unfold handleEthProtocol at handled
  split at handled
  case isTrue ip =>
    unfold parseIpv4 at handled
    split at handled
    case isTrue short =>
      cases handled
      have outside : ¬FromTestNet frame := by
        rw [found.fromTestNet_iff]
        omega
      rw [if_neg outside, UInt64.add_zero]
    case isFalse complete =>
      obtain ⟨saddr, loaded, filtered⟩ := Option.bind_eq_some_iff.mp handled
      unfold sizeofIphdr at complete
      rw [load_eq (by omega)] at loaded
      cases loaded
      have source : BitVec.ofNat 32 (leNat (slice frame (l3Offset + 12) 4)) =
          sourceV4 frame l3Offset := rfl
      rw [source] at filtered
      have after : next = (filterIpv4 (sourceV4 frame l3Offset) maps).2 :=
        congrArg Prod.snd (Option.some.inj filtered).symm
      have inNet : FromTestNet frame ↔ sourceV4 frame l3Offset &&& 0x00FFFFFF = 0x001E030A := by
        rw [found.fromTestNet_iff]
        exact ⟨fun whole => whole.2.2, fun net => ⟨ip, Nat.le_of_not_lt complete, net⟩⟩
      rw [after, filterIpv4_verdictCnt, countTestNet_cell, if_congr inNet rfl rfl]
  case isFalse notIp =>
    have outside : ¬FromTestNet frame := by
      rw [found.fromTestNet_iff]
      exact fun whole => notIp whole.1
    rw [if_neg outside, UInt64.add_zero]
    split at handled
    case isTrue => rw [parseIpv6_verdictCnt handled]
    case isFalse =>
      cases handled
      rfl

/-- The last cell of `verdict_cnt` counts the packets of the test network. -/
theorem xdpProg_testNet (returned : xdpProg frame maps = some (action, next)) :
    next.verdictCnt 4 = maps.verdictCnt 4 + if FromTestNet frame then 1 else 0 := by
  have unchanged {verdict : Nat} (known : verdict ≤ xdpPass) (maps : Maps) :
      (statsActionVerdict verdict maps).verdictCnt 4 = maps.verdictCnt 4 := by
    rw [statsActionVerdict_eq known]
    unfold xdpPass at known
    exact Function.update_of_ne (by omega) _ _
  obtain ⟨verdict, ethProto, l3Offset, parsed, outcome⟩ := parseEth_cases frame
  unfold xdpProg at returned
  rw [parsed] at returned
  simp only [Option.bind_eq_bind, Option.bind_some] at returned
  rcases outcome with ⟨known, nothing⟩ | ⟨continues, carries, unique⟩
  · rw [if_pos (Nat.lt_of_le_of_lt known (by decide))] at returned
    cases returned
    have outside : ¬FromTestNet frame := by
      rintro ⟨source, ⟨offset, packet, _⟩, _⟩
      exact nothing ethPIp offset reachable_ip packet
    rw [unchanged known, if_neg outside, UInt64.add_zero]
  · rw [if_neg (by omega)] at returned
    have found : Found frame ethProto l3Offset := ⟨carries, unique⟩
    obtain ⟨handledAction, handledMaps, handled, filtered, -⟩ :=
      @handleEthProtocol_filtered frame maps ethProto l3Offset found
    rw [handled] at returned
    cases returned
    rw [unchanged filtered.known]
    exact handleEthProtocol_testNet ⟨carries, unique⟩ handled

end Cells

/-! ### Runs -/

/-- The maps, with the packets so far and those since each key came into its map,
each with its verdict. -/
structure Traffic where
  kernel : KernelMaps
  packets : List (Frame × Nat)
  sinceV4 : BitVec 32 → List (Frame × Nat)
  sinceV6 : BitVec 128 → List (Frame × Nat)

inductive TrafficCall where
  | packet (cpu : Nat) (frame : Frame)
  | modify (room : Bool) (ipString : List UInt8) (action : Action)
  | modifyPort (countfd : FilterProto) (dport : Int) (action : Action) (proto : Nat)

/-- Nothing is left of the packets of a key that comes into the map. -/
def restart {Key : Type} (before after : BpfMap Key Percpu) (since : Key → List (Frame × Nat)) :
    Key → List (Frame × Nat) :=
  fun key => if before key = none ∧ after key ≠ none then [] else since key

namespace Traffic

def loaded : Traffic := ⟨.loaded, [], fun _ => [], fun _ => []⟩

def step (nrCpus : Nat) (traffic : Traffic) : TrafficCall → Option Traffic
  | .packet cpu frame => do
      let (action, kernel) ← traffic.kernel.packet cpu frame
      some ⟨kernel, (frame, action) :: traffic.packets,
        fun key => (frame, action) :: traffic.sinceV4 key,
        fun key => (frame, action) :: traffic.sinceV6 key⟩
  | .modify room ipString action =>
      let kernel := (traffic.kernel.modify room ipString action).2
      some
        { traffic with
          kernel := kernel
          sinceV4 := restart traffic.kernel.blacklistv4 kernel.blacklistv4 traffic.sinceV4
          sinceV6 := restart traffic.kernel.blacklistv6 kernel.blacklistv6 traffic.sinceV6 }
  | .modifyPort countfd dport action proto =>
      let ports := (blacklistPortModify nrCpus traffic.kernel.ports countfd dport action proto).2
      some { traffic with kernel := { traffic.kernel with ports := ports } }

/-- Packets arrive on possible CPUs. -/
def Permitted (nrCpus : Nat) : TrafficCall → Prop
  | .packet cpu _ => cpu < nrCpus
  | _ => True

instance (nrCpus : Nat) (call : TrafficCall) : Decidable (Permitted nrCpus call) :=
  match call with
  | .packet cpu _ => inferInstanceAs (Decidable (cpu < nrCpus))
  | .modify _ _ _ => inferInstanceAs (Decidable True)
  | .modifyPort _ _ _ _ => inferInstanceAs (Decidable True)

end Traffic

/-- The number of packets, as a `__u64` that wraps around. -/
def counted (holds : Frame × Nat → Bool) (packets : List (Frame × Nat)) : UInt64 :=
  UInt64.ofNat (packets.countP holds)

theorem counted_cons (holds : Frame × Nat → Bool) (packet : Frame × Nat)
    (packets : List (Frame × Nat)) :
    counted holds (packet :: packets) =
      counted holds packets + if holds packet = true then 1 else 0 := by
  unfold counted
  rw [List.countP_cons, UInt64.ofNat_add]
  split <;> rfl

/-! #### Keys -/

section Keys

variable {Key : Type}

/-- The sums of a map are the numbers of packets that carry the key, since it came
into the map, and all of them were dropped. -/
structure KeysCounted (carries : Frame → Key → Bool) (nrCpus : Nat) (map : BpfMap Key Percpu)
    (since : Key → List (Frame × Nat)) : Prop where
  sums : ∀ key counters, map key = some counters →
    sumCpus nrCpus counters = counted (fun packet => carries packet.1 key) (since key)
  dropped : ∀ key, map key ≠ none → ∀ packet ∈ since key,
    carries packet.1 key = true → packet.2 = xdpDrop

namespace KeysCounted

variable {carries : Frame → Key → Bool} {nrCpus : Nat} {map after : BpfMap Key Percpu}
  {since : Key → List (Frame × Nat)}

theorem empty (carries : Frame → Key → Bool) (nrCpus : Nat) (since : Key → List (Frame × Nat)) :
    KeysCounted carries nrCpus (fun _ => none) since where
  sums := fun _ _ present => by cases present
  dropped := fun _ present => absurd rfl present

/-- A packet adds one to the counter of its CPU in the key it carries. -/
theorem packet (keys : KeysCounted carries nrCpus map since) {cpu action : Nat} {frame : Frame}
    (possible : cpu < nrCpus) {cells : Key → Option UInt64}
    (cell : ∀ key, cells key = ((map key).map fun counters => counters cpu).map fun count =>
      count + if carries frame key then 1 else 0)
    (drops : ∀ key, map key ≠ none → carries frame key = true → action = xdpDrop) :
    KeysCounted carries nrCpus (storeCounters map cpu cells)
      fun key => (frame, action) :: since key where
  sums := fun key counters stored => by
    unfold storeCounters at stored
    rw [cell] at stored
    obtain ⟨before, present, rfl⟩ := Option.map_eq_some_iff.mp stored
    rw [present, Option.map_some, Option.map_some, Option.getD_some,
      sumCpus_update possible, keys.sums key before present, counted_cons]
  dropped := fun key stored item member carried => by
    have present : map key ≠ none := by
      intro absent
      apply stored
      rw [storeCounters, absent, Option.map_none]
    rcases List.mem_cons.mp member with rfl | earlier
    · exact drops key present carried
    · exact keys.dropped key present item earlier carried

/-- A key that stays keeps its counters, and a new one has zeros. -/
theorem change (keys : KeysCounted carries nrCpus map since)
    (kept : ∀ key counters, after key = some counters →
      map key = some counters ∨ (map key = none ∧ counters = fun _ => 0)) :
    KeysCounted carries nrCpus after (restart map after since) where
  sums := fun key counters present => by
    unfold restart
    rcases kept key counters present with same | ⟨absent, rfl⟩
    · rw [if_neg (by simp [same]), keys.sums key counters same]
    · rw [if_pos (by simp [absent, present]), sumCpus_zero]
      rfl
  dropped := fun key present item member carried => by
    unfold restart at member
    split at member
    case isTrue => cases member
    case isFalse before =>
      have there : map key ≠ none := fun absent => before ⟨absent, present⟩
      exact keys.dropped key there item member carried

variable [DecidableEq Key]

theorem blacklistModify_kept (room : Bool) (map : BpfMap Key Percpu) (own : Key)
    (action : Action) (key : Key) (counters : Percpu)
    (present : (blacklistModify room map own action).2 key = some counters) :
    map key = some counters ∨ (map key = none ∧ counters = fun _ => 0) := by
  cases action with
  | add =>
      unfold blacklistModify addKey at present
      by_cases listed : (map own).isSome = true
      · rw [if_pos listed] at present
        exact Or.inl present
      · rw [if_neg listed] at present
        cases room with
        | false => exact Or.inl present
        | true =>
            rw [if_pos rfl] at present
            dsimp only at present
            by_cases same : key = own
            · subst same
              rw [Function.update_self] at present
              cases present
              exact Or.inr ⟨by simpa using listed, rfl⟩
            · rw [Function.update_of_ne same] at present
              exact Or.inl present
  | del =>
      unfold blacklistModify deleteKey at present
      by_cases listed : (map own).isSome = true
      · rw [if_pos listed] at present
        dsimp only at present
        by_cases same : key = own
        · subst same
          rw [Function.update_self] at present
          cases present
        · rw [Function.update_of_ne same] at present
          exact Or.inl present
      · rw [if_neg listed] at present
        exact Or.inl present
  | other => exact Or.inl present

end KeysCounted

end Keys

/-! #### Every run -/

/-- What user space reads is what the packets were. -/
structure Traffic.Counted (nrCpus : Nat) (traffic : Traffic) : Prop where
  v4 : KeysCounted (fun frame key => CarriesV4 frame key) nrCpus traffic.kernel.blacklistv4
    traffic.sinceV4
  v6 : KeysCounted (fun frame key => CarriesV6 frame key) nrCpus traffic.kernel.blacklistv6
    traffic.sinceV6
  verdicts : ∀ action < 4, traffic.kernel.verdicts nrCpus action =
    counted (fun packet => packet.2 = action) traffic.packets
  testNet : traffic.kernel.verdicts nrCpus 4 =
    counted (fun packet => FromTestNet packet.1) traffic.packets

namespace Traffic.Counted

variable {nrCpus : Nat} {traffic next : Traffic}

theorem loaded (nrCpus : Nat) : Traffic.loaded.Counted nrCpus where
  v4 := .empty _ nrCpus _
  v6 := .empty _ nrCpus _
  verdicts := fun _ _ => sumCpus_zero nrCpus
  testNet := sumCpus_zero nrCpus

/-- A cell of `verdict_cnt` after a packet. -/
theorem verdicts_store {cpu : Nat} (possible : cpu < nrCpus) {kernel : KernelMaps} {maps : Maps}
    {cell : Nat} {amount : UInt64}
    (cells : maps.verdictCnt cell = (kernel.onCpu cpu).verdictCnt cell + amount) :
    (kernel.store cpu maps).verdicts nrCpus cell = kernel.verdicts nrCpus cell + amount := by
  have column : (fun other => (kernel.store cpu maps).verdictCnt other cell) =
      Function.update (fun other => kernel.verdictCnt other cell) cpu
        (kernel.verdictCnt cpu cell + amount) := by
    funext other
    by_cases same : other = cpu
    · subst same
      rw [Function.update_self]
      show Function.update kernel.verdictCnt other maps.verdictCnt other cell = _
      rw [Function.update_self]
      exact cells
    · rw [Function.update_of_ne same]
      show Function.update kernel.verdictCnt cpu maps.verdictCnt other cell = _
      rw [Function.update_of_ne same]
  unfold KernelMaps.verdicts
  rw [column]
  exact sumCpus_update possible _ amount

theorem packet (counts : traffic.Counted nrCpus) {cpu : Nat} {frame : Frame}
    (possible : cpu < nrCpus) (taken : traffic.step nrCpus (.packet cpu frame) = some next) :
    next.Counted nrCpus := by
  obtain ⟨⟨action, kernel⟩, arrived, rest⟩ := Option.bind_eq_some_iff.mp taken
  cases rest
  obtain ⟨⟨verdict, maps⟩, returned, stored⟩ := Option.bind_eq_some_iff.mp arrived
  cases stored
  obtain ⟨verdict', maps', returned', filtered, own, others⟩ :=
    xdpProg_filtered frame (traffic.kernel.onCpu cpu)
  cases returned'.symm.trans returned
  refine ⟨?_, ?_, fun cell small => ?_, ?_⟩
  · apply counts.v4.packet possible
    · intro key
      have cell := filtered.cellV4 key
      rw [KernelMaps.onCpu_blacklistv4] at cell
      simpa only [decide_eq_true_eq] using cell
    · intro key present carried
      obtain ⟨counters, listed⟩ := Option.ne_none_iff_exists'.mp present
      have onCpu : (traffic.kernel.onCpu cpu).blacklistv4 key = some (counters cpu) := by
        rw [KernelMaps.onCpu_blacklistv4, listed, Option.map_some]
      exact (filtered.dropV4 key (counters cpu) (of_decide_eq_true carried) onCpu).1
  · apply counts.v6.packet possible
    · intro key
      have cell := filtered.cellV6 key
      rw [KernelMaps.onCpu_blacklistv6] at cell
      simpa only [decide_eq_true_eq] using cell
    · intro key present carried
      obtain ⟨counters, listed⟩ := Option.ne_none_iff_exists'.mp present
      have onCpu : (traffic.kernel.onCpu cpu).blacklistv6 key = some (counters cpu) := by
        rw [KernelMaps.onCpu_blacklistv6, listed, Option.map_some]
      exact (filtered.dropV6 key (counters cpu) (of_decide_eq_true carried) onCpu).1
  · rw [counted_cons, ← counts.verdicts cell small]
    apply verdicts_store possible
    by_cases same : cell = action
    · subst same
      rw [own, if_pos (by simp)]
    · rw [others cell small same, if_neg (by simpa using Ne.symm same), UInt64.add_zero]
  · rw [counted_cons, ← counts.testNet]
    apply verdicts_store possible
    rw [xdpProg_testNet returned]
    simp only [decide_eq_true_eq]

theorem modify (counts : traffic.Counted nrCpus) {room : Bool} {ipString : List UInt8}
    {action : Action} (taken : traffic.step nrCpus (.modify room ipString action) = some next) :
    next.Counted nrCpus := by
  cases taken
  have same {Key : Type} {map : BpfMap Key Percpu} (key : Key) (counters : Percpu)
      (present : map key = some counters) :
      map key = some counters ∨ (map key = none ∧ counters = fun _ => 0) := Or.inl present
  unfold KernelMaps.modify
  cases Sf2b.inetPton4 ipString with
  | some bytes =>
      exact ⟨counts.v4.change (KeysCounted.blacklistModify_kept room _ _ action),
        counts.v6.change same, counts.verdicts, counts.testNet⟩
  | none =>
      cases Sf2b.inetPton6 ipString with
      | some bytes =>
          exact ⟨counts.v4.change same,
            counts.v6.change (KeysCounted.blacklistModify_kept room _ _ action),
            counts.verdicts, counts.testNet⟩
      | none =>
          exact ⟨counts.v4.change same, counts.v6.change same, counts.verdicts, counts.testNet⟩

theorem step (counts : traffic.Counted nrCpus) {call : TrafficCall}
    (permitted : Permitted nrCpus call) (taken : traffic.step nrCpus call = some next) :
    next.Counted nrCpus := by
  cases call with
  | packet cpu frame => exact counts.packet permitted taken
  | modify room ipString action => exact counts.modify taken
  | modifyPort countfd dport action proto =>
      cases taken
      exact ⟨counts.v4, counts.v6, counts.verdicts, counts.testNet⟩

end Traffic.Counted

/-- Over every run of packets on the CPUs and of calls for addresses and ports, the
sum of a blacklisted key is the number of packets with that source since the key
came into the map, all of which were dropped; the sums of `verdict_cnt` are the
numbers of packets with each verdict and from the test network. -/
theorem counters_exact_run {nrCpus : Nat} {calls : List TrafficCall} {last : Traffic}
    (run : Run (Traffic.step nrCpus) (fun _ call => Traffic.Permitted nrCpus call) .loaded calls
      last) :
    (∀ key, last.kernel.blacklistv4 key ≠ none →
      getKey32Value64Percpu nrCpus last.kernel.blacklistv4 key =
          some (counted (fun packet => CarriesV4 packet.1 key) (last.sinceV4 key)) ∧
        ∀ packet ∈ last.sinceV4 key, CarriesV4 packet.1 key → packet.2 = xdpDrop) ∧
    (∀ key, last.kernel.blacklistv6 key ≠ none →
      getKey128Value64Percpu nrCpus last.kernel.blacklistv6 key =
          counted (fun packet => CarriesV6 packet.1 key) (last.sinceV6 key) ∧
        ∀ packet ∈ last.sinceV6 key, CarriesV6 packet.1 key → packet.2 = xdpDrop) ∧
    (∀ action < 4, last.kernel.verdicts nrCpus action =
      counted (fun packet => packet.2 = action) last.packets) ∧
    last.kernel.verdicts nrCpus 4 =
      counted (fun packet => FromTestNet packet.1) last.packets := by
  have counts : last.Counted nrCpus :=
    run.invariant (fun _ _ _ counts permitted taken => counts.step permitted taken)
      (Traffic.Counted.loaded nrCpus)
  refine ⟨fun key present => ?_, fun key present => ?_, counts.verdicts, counts.testNet⟩
  · obtain ⟨counters, listed⟩ := Option.ne_none_iff_exists'.mp present
    refine ⟨?_, fun packet member carries =>
      counts.v4.dropped key present packet member (decide_eq_true carries)⟩
    rw [getKey32Value64Percpu, listed, Option.map_some, counts.v4.sums key counters listed]
  · obtain ⟨counters, listed⟩ := Option.ne_none_iff_exists'.mp present
    refine ⟨?_, fun packet member carries =>
      counts.v6.dropped key present packet member (decide_eq_true carries)⟩
    rw [getKey128Value64Percpu, listed]
    exact counts.v6.sums key counters listed

/-- A plain frame from 192.168.1.1. -/
def blockedFrame : Frame :=
  List.replicate 12 0 ++ [8, 0] ++ List.replicate 12 0 ++ [192, 168, 1, 1] ++ List.replicate 4 0

/-- The address is added, and its packets arrive on both CPUs. -/
def twoPackets : List TrafficCall :=
  [.packet 0 blockedFrame, .modify true (UdpServer.ascii "192.168.1.1") .add,
    .packet 0 blockedFrame, .packet 1 blockedFrame]

theorem counters_exact_run_twoPackets : ∃ last,
    Run (Traffic.step 2) (fun _ call => Traffic.Permitted 2 call) .loaded twoPackets last ∧
      last.kernel.blacklistv4 0x0101A8C0 ≠ none ∧
      getKey32Value64Percpu 2 last.kernel.blacklistv4 0x0101A8C0 = some 2 ∧
      getKey32Value64Percpu 2 last.kernel.blacklistv4 0x0101A8C0 =
        some (counted (fun packet => CarriesV4 packet.1 0x0101A8C0)
          (last.sinceV4 0x0101A8C0)) := by
  have executed : (Run.exec (Traffic.step 2) (fun _ call => Traffic.Permitted 2 call) .loaded
      twoPackets).any (fun last =>
        getKey32Value64Percpu 2 last.kernel.blacklistv4 0x0101A8C0 == some 2) = true := by
    decide +kernel
  obtain ⟨last, run, two⟩ := Run.of_exec_any executed
  have sum := eq_of_beq two
  have present : last.kernel.blacklistv4 0x0101A8C0 ≠ none := by
    intro absent
    rw [getKey32Value64Percpu, absent] at sum
    cases sum
  exact ⟨last, run, present, sum, ((counters_exact_run run).1 _ present).1⟩

end FipsIpc.Xdp
