import FipsIpc.Xdp.Program

/-!
Contract: the XDP program filters exactly the blacklisted sources.

Owns: which frames carry a packet behind VLAN tags, the parsers on all frames,
what each of them does to the maps, and the verdict of the program.

Does not own: the ports, beyond their leaving blacklists and verdicts alone.
-/

set_option autoImplicit false

namespace FipsIpc.Xdp

variable {frame : Frame} {maps : Maps}

theorem load_eq {offset count : Nat} (fits : offset + count ≤ frame.length) :
    load frame offset count = some (slice frame offset count) :=
  if_pos fits

/-! ### Frames that carry a packet -/

/-- The type field behind `tags` VLAN tags. -/
def etherType (frame : Frame) (tags : Nat) : Nat := beNat (slice frame (12 + 4 * tags) 2)

/-- Behind at most two tags the frame carries a packet of a type. -/
def Carries (frame : Frame) (ethType l3Offset : Nat) : Prop :=
  ∃ tags ≤ 2, l3Offset = 14 + 4 * tags ∧ l3Offset ≤ frame.length ∧
    (∀ tag < tags, IsVlan (etherType frame tag)) ∧ etherType frame tags = ethType

/-- The source address of an IPv4 header. -/
def sourceV4 (frame : Frame) (l3Offset : Nat) : BitVec 32 :=
  BitVec.ofNat 32 (leNat (slice frame (l3Offset + 12) 4))

def sourceV6 (frame : Frame) (l3Offset : Nat) : BitVec 128 :=
  BitVec.ofNat 128 (leNat (slice frame (l3Offset + 8) 16))

/-- The frame carries a complete IPv4 header with the source. -/
def CarriesV4 (frame : Frame) (source : BitVec 32) : Prop :=
  ∃ l3Offset, Carries frame ethPIp l3Offset ∧ l3Offset + sizeofIphdr ≤ frame.length ∧
    sourceV4 frame l3Offset = source

/-- The frame carries a complete IPv6 header with the source. -/
def CarriesV6 (frame : Frame) (source : BitVec 128) : Prop :=
  ∃ l3Offset, Carries frame ethPIpv6 l3Offset ∧ l3Offset + sizeofIpv6hdr ≤ frame.length ∧
    sourceV6 frame l3Offset = source

/-! ### Ethernet -/

/-- Types that `parse_eth` lets through. -/
def Reachable (ethType : Nat) : Prop := ethP8023Min ≤ ethType ∧ ¬IsVlan ethType

theorem reachable_ip : Reachable ethPIp := by
  unfold Reachable
  decide

theorem reachable_ipv6 : Reachable ethPIpv6 := by
  unfold Reachable
  decide

/-- A packet lies behind all the tags that are there. -/
theorem Carries.tags_le {ethType l3Offset tags : Nat} (carries : Carries frame ethType l3Offset)
    (plain : ¬IsVlan ethType) (tagged : ∀ tag < tags, IsVlan (etherType frame tag)) :
    14 + 4 * tags ≤ l3Offset := by
  obtain ⟨own, _, offset, _, _, same⟩ := carries
  have order : tags ≤ own := by
    by_contra more
    exact plain (same ▸ tagged own (Nat.lt_of_not_le more))
  omega

/-- Behind the last tag there is one packet. -/
theorem Carries.unique {ethType l3Offset tags : Nat} (carries : Carries frame ethType l3Offset)
    (plain : ¬IsVlan ethType) (tagged : ∀ tag < tags, IsVlan (etherType frame tag))
    (last : tags = 2 ∨ ¬IsVlan (etherType frame tags)) :
    ethType = etherType frame tags ∧ l3Offset = 14 + 4 * tags := by
  have enough := carries.tags_le plain tagged
  obtain ⟨own, atMost, offset, _, before, same⟩ := carries
  have exactly : own = tags := by
    rcases last with two | untagged
    · omega
    · by_contra different
      exact untagged (before tags (by omega))
  subst exactly
  exact ⟨same.symm, offset⟩

theorem parseVlan_eq (frame : Frame) (tags : Nat) :
    parseVlan frame (etherType frame tags) (14 + 4 * tags) =
      if IsVlan (etherType frame tags) then
        if 14 + 4 * (tags + 1) > frame.length then some none
        else some (some (etherType frame (tags + 1), 14 + 4 * (tags + 1)))
      else some (some (etherType frame tags, 14 + 4 * tags)) := by
  unfold parseVlan
  by_cases vlan : IsVlan (etherType frame tags)
  · rw [if_pos vlan, if_pos vlan]
    have next : 14 + 4 * tags + sizeofVlanHdr = 14 + 4 * (tags + 1) := by
      unfold sizeofVlanHdr
      omega
    rw [next]
    by_cases short : 14 + 4 * (tags + 1) > frame.length
    · rw [if_pos short, if_pos short]
    · rw [if_neg short, if_neg short, load_eq (by omega)]
      have field : 14 + 4 * tags + 2 = 12 + 4 * (tags + 1) := by omega
      rw [field]
      rfl
  · rw [if_neg vlan, if_neg vlan]

/-- The packet behind the last of the tags. -/
theorem carries_last {tags : Nat} (atMost : tags ≤ 2) (fits : 14 + 4 * tags ≤ frame.length)
    (tagged : ∀ tag < tags, IsVlan (etherType frame tag))
    (last : tags = 2 ∨ ¬IsVlan (etherType frame tags)) :
    Carries frame (etherType frame tags) (14 + 4 * tags) ∧
      ∀ ethType offset, Reachable ethType → Carries frame ethType offset →
        ethType = etherType frame tags ∧ offset = 14 + 4 * tags :=
  ⟨⟨tags, atMost, rfl, fits, tagged, rfl⟩,
    fun _ _ reachable carries => carries.unique reachable.2 tagged last⟩

/-- A frame that ends in a tag carries nothing. -/
theorem not_carries_short {tags ethType offset : Nat} (short : 14 + 4 * tags > frame.length)
    (tagged : ∀ tag < tags, IsVlan (etherType frame tag)) (reachable : Reachable ethType) :
    ¬Carries frame ethType offset := by
  intro carries
  have behind := carries.tags_le reachable.2 tagged
  obtain ⟨_, _, _, inside, _⟩ := carries
  omega

/-- What `parse_eth` finds: nothing that could be carried, or the packet behind
the last tag. -/
theorem parseEth_cases (frame : Frame) :
    ∃ action ethProto l3Offset, parseEth frame = some (action, ethProto, l3Offset) ∧
      ((action ≤ xdpPass ∧
          ∀ ethType offset, Reachable ethType → ¬Carries frame ethType offset) ∨
        (action = 5 ∧ Carries frame ethProto l3Offset ∧
          ∀ ethType offset, Reachable ethType → Carries frame ethType offset →
            ethType = ethProto ∧ offset = l3Offset)) := by
  have untagged : ∀ tag < 0, IsVlan (etherType frame tag) := by
    intro tag before
    omega
  unfold parseEth
  by_cases short : sizeofEthhdr > frame.length
  · rw [if_pos short]
    exact ⟨_, _, _, rfl, Or.inl ⟨by decide, fun _ _ reachable =>
      not_carries_short short untagged reachable⟩⟩
  · rw [if_neg short]
    have fits : 14 + 4 * 0 ≤ frame.length := Nat.le_of_not_lt short
    have loaded : load frame 12 2 = some (slice frame 12 2) := load_eq (by omega)
    have first : beNat (slice frame 12 2) = etherType frame 0 := rfl
    have start : sizeofEthhdr = 14 + 4 * 0 := rfl
    simp only [loaded, Option.bind_eq_bind, Option.bind_some, first, start]
    by_cases old : etherType frame 0 < ethP8023Min
    · rw [if_pos old]
      refine ⟨_, _, _, rfl, Or.inl ⟨by decide, fun ethType offset reachable carries => ?_⟩⟩
      have plain : ¬IsVlan (etherType frame 0) := by
        unfold IsVlan ethP8021q ethP8021ad
        unfold ethP8023Min at old
        omega
      have same := (carries.unique reachable.2 untagged (Or.inr plain)).1
      have large := reachable.1
      omega
    · rw [if_neg old, parseVlan_eq]
      by_cases outer : IsVlan (etherType frame 0)
      · have one : ∀ tag < 1, IsVlan (etherType frame tag) := by
          intro tag before
          rw [Nat.lt_one_iff.mp before]
          exact outer
        rw [if_pos outer]
        by_cases shorter : 14 + 4 * (0 + 1) > frame.length
        · rw [if_pos shorter]
          exact ⟨_, _, _, rfl, Or.inl ⟨by decide, fun _ _ reachable =>
            not_carries_short shorter one reachable⟩⟩
        · rw [if_neg shorter]
          simp only [Option.bind_some, parseVlan_eq]
          by_cases inner : IsVlan (etherType frame 1)
          · have two : ∀ tag < 2, IsVlan (etherType frame tag) := by
              intro tag before
              have cases : tag = 0 ∨ tag = 1 := by omega
              rcases cases with zero | next
              · rw [zero]
                exact outer
              · rw [next]
                exact inner
            rw [if_pos inner]
            by_cases shortest : 14 + 4 * (0 + 1 + 1) > frame.length
            · rw [if_pos shortest]
              exact ⟨_, _, _, rfl, Or.inl ⟨by decide, fun _ _ reachable =>
                not_carries_short shortest two reachable⟩⟩
            · rw [if_neg shortest]
              exact ⟨_, _, _, rfl, Or.inr ⟨rfl, carries_last (Nat.le_refl 2)
                (Nat.le_of_not_lt shortest) two (Or.inl rfl)⟩⟩
          · rw [if_neg inner]
            exact ⟨_, _, _, rfl, Or.inr ⟨rfl, carries_last (by decide)
              (Nat.le_of_not_lt shorter) one (Or.inr inner)⟩⟩
      · rw [if_neg outer]
        simp only [Option.bind_some, parseVlan_eq, if_neg outer]
        exact ⟨_, _, _, rfl, Or.inr ⟨rfl, carries_last (by decide) fits untagged
          (Or.inr outer)⟩⟩

/-! ### Ports and extension headers -/

/-- Blacklists and verdicts are as before. -/
structure SameLists (maps next : Maps) : Prop where
  blacklistv4 : next.blacklistv4 = maps.blacklistv4
  blacklistv6 : next.blacklistv6 = maps.blacklistv6
  verdictCnt : next.verdictCnt = maps.verdictCnt
  portBlacklist : next.portBlacklist = maps.portBlacklist

theorem SameLists.refl (maps : Maps) : SameLists maps maps := ⟨rfl, rfl, rfl, rfl⟩

/-- A parser returns one of the three actions and leaves the lists alone. -/
def Neutral (maps : Maps) (result : Option (Nat × Maps)) : Prop :=
  ∃ action next, result = some (action, next) ∧ action ≤ xdpPass ∧ SameLists maps next

theorem neutral_of_le {action : Nat} (known : action ≤ xdpPass) :
    Neutral maps (some (action, maps)) :=
  ⟨action, maps, rfl, known, .refl maps⟩

theorem parsePortHdr_neutral (frame : Frame) (hdr : Nat) {size : Nat} (ports : 4 ≤ size)
    (fproto : FilterProto) (maps : Maps) :
    Neutral maps (parsePortHdr frame hdr size fproto maps) := by
  unfold parsePortHdr
  by_cases short : hdr + size > frame.length
  · rw [if_pos short]
    exact neutral_of_le (by decide)
  · rw [if_neg short, load_eq (by omega)]
    change Neutral maps (some (portVerdict maps (beNat (slice frame (hdr + 2) 2)) fproto))
    unfold portVerdict
    split
    case isTrue =>
      cases fproto with
      | tcp => exact ⟨_, _, rfl, by decide, rfl, rfl, rfl, rfl⟩
      | udp => exact ⟨_, _, rfl, by decide, rfl, rfl, rfl, rfl⟩
    case isFalse => exact neutral_of_le (by decide)

theorem parsePort_neutral (frame : Frame) (proto hdr : Nat) (maps : Maps) :
    Neutral maps (parsePort frame proto hdr maps) := by
  unfold parsePort
  split
  case isTrue => exact parsePortHdr_neutral frame hdr (by decide) .udp maps
  case isFalse =>
    split
    case isTrue => exact parsePortHdr_neutral frame hdr (by decide) .tcp maps
    case isFalse => exact neutral_of_le (by decide)

/-- The loop over the extension headers stays in the frame, whatever lengths the
headers give. -/
theorem parseExtensions_neutral (frame : Frame) (maps : Maps) (rounds protocol l4Offset : Nat) :
    Neutral maps (parseExtensions frame maps rounds protocol l4Offset) := by
  induction rounds generalizing protocol l4Offset with
  | zero => exact neutral_of_le (by decide)
  | succ rounds inductionHypothesis =>
      rw [parseExtensions]
      split
      case isTrue => exact neutral_of_le (by decide)
      case isFalse =>
        split
        case isTrue =>
          by_cases short : l4Offset + sizeofIpv6FragHdr > frame.length
          · rw [if_pos short]
            exact neutral_of_le (by decide)
          · unfold sizeofIpv6FragHdr at short ⊢
            rw [if_neg short, load_eq (by omega)]
            exact inductionHypothesis _ _
        case isFalse =>
          split
          case isTrue =>
            by_cases short : l4Offset + 4 > frame.length
            · rw [if_pos short]
              exact neutral_of_le (by decide)
            · rw [if_neg short, load_eq (by omega), load_eq (by omega)]
              exact inductionHypothesis _ _
          case isFalse => exact parsePort_neutral frame protocol l4Offset maps

/-! ### Packets -/

/-- The filter on a frame, before the verdict is counted. -/
structure Filtered (frame : Frame) (maps : Maps) (action : Nat) (next : Maps) : Prop where
  dropV4 : ∀ source count, CarriesV4 frame source → maps.blacklistv4 source = some count →
    action = xdpDrop ∧ next.blacklistv4 source = some (count + 1)
  dropV6 : ∀ source count, CarriesV6 frame source → maps.blacklistv6 source = some count →
    action = xdpDrop ∧ next.blacklistv6 source = some (count + 1)
  passV4 : ∀ source, CarriesV4 frame source → maps.blacklistv4 source = none → action = xdpPass
  known : action ≤ xdpPass
  onlyV4 : ∀ source, next.blacklistv4 source ≠ maps.blacklistv4 source →
    CarriesV4 frame source ∧ maps.blacklistv4 source ≠ none
  onlyV6 : ∀ source, next.blacklistv6 source ≠ maps.blacklistv6 source →
    CarriesV6 frame source ∧ maps.blacklistv6 source ≠ none
  portBlacklist : next.portBlacklist = maps.portBlacklist

/-- A frame without a complete IPv4 or IPv6 header. -/
theorem Filtered.of_neither {action : Nat} {next : Maps} (same : SameLists maps next)
    (known : action ≤ xdpPass) (noV4 : ∀ source, ¬CarriesV4 frame source)
    (noV6 : ∀ source, CarriesV6 frame source → maps.blacklistv6 source = none) :
    Filtered frame maps action next where
  dropV4 := fun source _ carries => absurd carries (noV4 source)
  dropV6 := fun source count carries present => by
    rw [noV6 source carries] at present
    cases present
  passV4 := fun source carries => absurd carries (noV4 source)
  known := known
  onlyV4 := fun source changed => absurd (congrFun same.blacklistv4 source) changed
  onlyV6 := fun source changed => absurd (congrFun same.blacklistv6 source) changed
  portBlacklist := same.portBlacklist

/-- The packet that `parse_eth` has found. -/
structure Found (frame : Frame) (ethProto l3Offset : Nat) : Prop where
  carries : Carries frame ethProto l3Offset
  unique : ∀ ethType offset, Reachable ethType → Carries frame ethType offset →
    ethType = ethProto ∧ offset = l3Offset

theorem Found.v4 {ethProto l3Offset : Nat} (found : Found frame ethProto l3Offset)
    {source : BitVec 32} (carries : CarriesV4 frame source) :
    ethProto = ethPIp ∧ l3Offset + sizeofIphdr ≤ frame.length ∧
      sourceV4 frame l3Offset = source := by
  obtain ⟨offset, packet, complete, address⟩ := carries
  obtain ⟨sameType, sameOffset⟩ := found.unique ethPIp offset reachable_ip packet
  subst sameOffset
  exact ⟨sameType.symm, complete, address⟩

theorem Found.v6 {ethProto l3Offset : Nat} (found : Found frame ethProto l3Offset)
    {source : BitVec 128} (carries : CarriesV6 frame source) :
    ethProto = ethPIpv6 ∧ l3Offset + sizeofIpv6hdr ≤ frame.length ∧
      sourceV6 frame l3Offset = source := by
  obtain ⟨offset, packet, complete, address⟩ := carries
  obtain ⟨sameType, sameOffset⟩ := found.unique ethPIpv6 offset reachable_ipv6 packet
  subst sameOffset
  exact ⟨sameType.symm, complete, address⟩

theorem ethPIp_ne_ethPIpv6 : ethPIp ≠ ethPIpv6 := by decide

/-- Counting the test network leaves the lists and the actions' cells alone. -/
theorem countTestNet_spec (source : BitVec 32) (maps : Maps) :
    (countTestNet source maps).blacklistv4 = maps.blacklistv4 ∧
      (countTestNet source maps).blacklistv6 = maps.blacklistv6 ∧
      (countTestNet source maps).portBlacklist = maps.portBlacklist ∧
      ∀ cell < 4, (countTestNet source maps).verdictCnt cell = maps.verdictCnt cell := by
  unfold countTestNet
  split
  case isTrue =>
    refine ⟨rfl, rfl, rfl, fun cell before => ?_⟩
    have other : cell ≠ xdpActionMax - 1 := Nat.ne_of_lt before
    exact Function.update_of_ne other _ _
  case isFalse => exact ⟨rfl, rfl, rfl, fun _ _ => rfl⟩

theorem Found.noV6 {l3Offset : Nat} (found : Found frame ethPIp l3Offset)
    (source : BitVec 128) : ¬CarriesV6 frame source :=
  fun carries => ethPIp_ne_ethPIpv6 (found.v6 carries).1

theorem Found.noV4 {l3Offset : Nat} (found : Found frame ethPIpv6 l3Offset)
    (source : BitVec 32) : ¬CarriesV4 frame source :=
  fun carries => ethPIp_ne_ethPIpv6 (found.v4 carries).1.symm

/-- The lookup of the source of a complete IPv4 header. -/
theorem filterIpv4_filtered {l3Offset : Nat} (found : Found frame ethPIp l3Offset)
    (complete : l3Offset + 20 ≤ frame.length) :
    ∃ action next, filterIpv4 (sourceV4 frame l3Offset) maps = (action, next) ∧
      Filtered frame maps action next ∧
      ∀ cell < 4, next.verdictCnt cell = maps.verdictCnt cell := by
  obtain ⟨v4, v6, ports, cells⟩ := countTestNet_spec (sourceV4 frame l3Offset) maps
  have here : CarriesV4 frame (sourceV4 frame l3Offset) :=
    ⟨l3Offset, found.carries, complete, rfl⟩
  have only {source : BitVec 32} (carries : CarriesV4 frame source) :
      source = sourceV4 frame l3Offset := (found.v4 carries).2.2.symm
  unfold filterIpv4
  dsimp only
  rw [v4]
  cases listed : maps.blacklistv4 (sourceV4 frame l3Offset) with
  | some value =>
      refine ⟨_, _, rfl, ?_, cells⟩
      refine ⟨?_, ?_, ?_, by decide, ?_, ?_, ports⟩
      · intro source count carries present
        rw [only carries] at present ⊢
        cases listed.symm.trans present
        exact ⟨rfl, Function.update_self _ _ _⟩
      · intro source count carries
        exact absurd carries (found.noV6 source)
      · intro source carries absent
        rw [only carries] at absent
        cases listed.symm.trans absent
      · intro source changed
        by_cases same : source = sourceV4 frame l3Offset
        · subst same
          exact ⟨here, by rw [listed]; exact Option.some_ne_none value⟩
        · exact absurd (Function.update_of_ne same _ _) changed
      · intro source changed
        exact absurd (congrFun v6 source) changed
  | none =>
      refine ⟨_, _, rfl, ?_, cells⟩
      refine ⟨?_, ?_, fun _ _ _ => rfl, by decide, ?_, ?_, ports⟩
      · intro source count carries present
        rw [only carries] at present
        cases listed.symm.trans present
      · intro source count carries
        exact absurd carries (found.noV6 source)
      · intro source changed
        exact absurd (congrFun v4 source) changed
      · intro source changed
        exact absurd (congrFun v6 source) changed

theorem parseIpv4_filtered {l3Offset : Nat} (found : Found frame ethPIp l3Offset) :
    ∃ action next, parseIpv4 frame l3Offset maps = some (action, next) ∧
      Filtered frame maps action next ∧
      ∀ cell < 4, next.verdictCnt cell = maps.verdictCnt cell := by
  unfold parseIpv4
  by_cases short : l3Offset + sizeofIphdr > frame.length
  · rw [if_pos short]
    refine ⟨_, _, rfl, .of_neither (.refl maps) (by decide) ?_ ?_, fun _ _ => rfl⟩
    · intro source carries
      have complete := (found.v4 carries).2.1
      omega
    · intro source carries
      exact absurd carries (found.noV6 source)
  · have complete : l3Offset + 20 ≤ frame.length := Nat.le_of_not_lt short
    obtain ⟨action, next, filtered, rest⟩ := filterIpv4_filtered found complete
    rw [if_neg short, load_eq (by omega)]
    exact ⟨action, next, congrArg some filtered, rest⟩

theorem parseIpv6_filtered {l3Offset : Nat} (found : Found frame ethPIpv6 l3Offset) :
    ∃ action next, parseIpv6 frame l3Offset maps = some (action, next) ∧
      Filtered frame maps action next ∧
      ∀ cell < 4, next.verdictCnt cell = maps.verdictCnt cell := by
  unfold parseIpv6
  by_cases short : l3Offset + sizeofIpv6hdr > frame.length
  · rw [if_pos short]
    refine ⟨_, _, rfl, .of_neither (.refl maps) (by decide) found.noV4 ?_, fun _ _ => rfl⟩
    intro source carries
    have complete := (found.v6 carries).2.1
    omega
  · have complete : l3Offset + 40 ≤ frame.length := Nat.le_of_not_lt short
    rw [if_neg short, load_eq (by omega)]
    have only {source : BitVec 128} (carries : CarriesV6 frame source) :
        source = sourceV6 frame l3Offset := (found.v6 carries).2.2.symm
    simp only [Option.bind_eq_bind, Option.bind_some]
    rw [load_eq (show l3Offset + 6 + 1 ≤ frame.length by omega)]
    simp only [Option.bind_some]
    have source : BitVec.ofNat 128 (leNat (slice frame (l3Offset + 8) 16)) =
        sourceV6 frame l3Offset := rfl
    rw [source]
    cases listed : maps.blacklistv6 (sourceV6 frame l3Offset) with
    | some value =>
        refine ⟨_, _, rfl, ?_, fun _ _ => rfl⟩
        refine ⟨?_, ?_, ?_, by decide, ?_, ?_, rfl⟩
        · intro source count carries
          exact absurd carries (found.noV4 source)
        · intro source count carries present
          rw [only carries] at present ⊢
          cases listed.symm.trans present
          exact ⟨rfl, Function.update_self _ _ _⟩
        · intro source carries
          exact absurd carries (found.noV4 source)
        · intro source changed
          exact absurd rfl changed
        · intro source changed
          by_cases same : source = sourceV6 frame l3Offset
          · subst same
            refine ⟨⟨l3Offset, found.carries, complete, rfl⟩, ?_⟩
            rw [listed]
            exact Option.some_ne_none value
          · exact absurd (Function.update_of_ne same _ _) changed
    | none =>
        obtain ⟨action, next, returned, known, same⟩ := parseExtensions_neutral frame maps 10
          (beNat (slice frame (l3Offset + 6) 1)) (l3Offset + sizeofIpv6hdr)
        refine ⟨action, next, returned, .of_neither same known found.noV4 ?_,
          fun cell _ => congrFun same.verdictCnt cell⟩
        intro source carries
        rw [only carries]
        exact listed

/-! ### The program -/

theorem handleEthProtocol_filtered {ethProto l3Offset : Nat}
    (found : Found frame ethProto l3Offset) :
    ∃ action next, handleEthProtocol frame ethProto l3Offset maps = some (action, next) ∧
      Filtered frame maps action next ∧
      ∀ cell < 4, next.verdictCnt cell = maps.verdictCnt cell := by
  unfold handleEthProtocol
  split
  case isTrue ip =>
    subst ip
    exact parseIpv4_filtered found
  case isFalse notIp =>
    split
    case isTrue ipv6 =>
      subst ipv6
      exact parseIpv6_filtered found
    case isFalse notIpv6 =>
      refine ⟨_, _, rfl, .of_neither (.refl maps) (by decide) ?_ ?_, fun _ _ => rfl⟩
      · intro source carries
        exact notIp (found.v4 carries).1
      · intro source carries
        exact absurd (found.v6 carries).1 notIpv6

/-- Counting the verdict. -/
theorem statsActionVerdict_eq {action : Nat} (known : action ≤ xdpPass) (maps : Maps) :
    statsActionVerdict action maps =
      { maps with verdictCnt := countCell maps.verdictCnt action } := by
  unfold statsActionVerdict
  exact if_neg (Nat.not_le_of_lt (Nat.lt_of_le_of_lt known (by decide)))

theorem Filtered.stats {action : Nat} {next : Maps} (filtered : Filtered frame maps action next) :
    Filtered frame maps action (statsActionVerdict action next) := by
  rw [statsActionVerdict_eq filtered.known]
  exact ⟨filtered.dropV4, filtered.dropV6, filtered.passV4, filtered.known, filtered.onlyV4,
    filtered.onlyV6, filtered.portBlacklist⟩

/-- Every run of the program filters, and counts its action. -/
theorem xdpProg_filtered (frame : Frame) (maps : Maps) :
    ∃ action next, xdpProg frame maps = some (action, next) ∧
      Filtered frame maps action next ∧
      next.verdictCnt action = maps.verdictCnt action + 1 ∧
      ∀ cell < 4, cell ≠ action → next.verdictCnt cell = maps.verdictCnt cell := by
  have counts {action : Nat} {next : Maps} (filtered : Filtered frame maps action next)
      (cells : ∀ cell < 4, next.verdictCnt cell = maps.verdictCnt cell) :
      Filtered frame maps action (statsActionVerdict action next) ∧
        (statsActionVerdict action next).verdictCnt action = maps.verdictCnt action + 1 ∧
        ∀ cell < 4, cell ≠ action →
          (statsActionVerdict action next).verdictCnt cell = maps.verdictCnt cell := by
    have small : action < 4 := Nat.lt_of_le_of_lt filtered.known (by decide)
    refine ⟨filtered.stats, ?_, ?_⟩
    · rw [statsActionVerdict_eq filtered.known, ← cells action small]
      exact Function.update_self _ _ _
    · intro cell before other
      rw [statsActionVerdict_eq filtered.known, ← cells cell before]
      exact Function.update_of_ne other _ _
  unfold xdpProg
  obtain ⟨action, ethProto, l3Offset, parsed, outcome⟩ := parseEth_cases frame
  rw [parsed]
  simp only [Option.bind_eq_bind, Option.bind_some]
  rcases outcome with ⟨known, nothing⟩ | ⟨continues, carries, unique⟩
  · rw [if_pos (Nat.lt_of_le_of_lt known (by decide))]
    have filtered : Filtered frame maps action maps := by
      refine .of_neither (.refl maps) known ?_ ?_
      · intro source carries
        obtain ⟨offset, packet, _⟩ := carries
        exact nothing ethPIp offset reachable_ip packet
      · intro source carries
        obtain ⟨offset, packet, _⟩ := carries
        exact absurd packet (nothing ethPIpv6 offset reachable_ipv6)
    exact ⟨_, _, rfl, counts filtered fun _ _ => rfl⟩
  · rw [if_neg (by omega)]
    obtain ⟨verdict, next, handled, filtered, cells⟩ :=
      handleEthProtocol_filtered ⟨carries, unique⟩
    rw [handled]
    exact ⟨_, _, rfl, counts filtered cells⟩

/-- The source filter is exact: complete headers with a blacklisted source are
dropped and counted, other IPv4 packets pass, nothing else in the blacklists
changes, every action is counted once, and no load leaves the frame. -/
theorem xdpProg_exact (frame : Frame) (maps : Maps) :
    ∃ action next, xdpProg frame maps = some (action, next) ∧
      (∀ source count, CarriesV4 frame source → maps.blacklistv4 source = some count →
        action = xdpDrop ∧ next.blacklistv4 source = some (count + 1)) ∧
      (∀ source count, CarriesV6 frame source → maps.blacklistv6 source = some count →
        action = xdpDrop ∧ next.blacklistv6 source = some (count + 1)) ∧
      (∀ source, CarriesV4 frame source → maps.blacklistv4 source = none →
        action = xdpPass) ∧
      (action = xdpAborted ∨ action = xdpDrop ∨ action = xdpPass) ∧
      next.verdictCnt action = maps.verdictCnt action + 1 ∧
      (∀ cell < 4, cell ≠ action → next.verdictCnt cell = maps.verdictCnt cell) ∧
      (∀ source, next.blacklistv4 source ≠ maps.blacklistv4 source →
        CarriesV4 frame source ∧ maps.blacklistv4 source ≠ none) ∧
      (∀ source, next.blacklistv6 source ≠ maps.blacklistv6 source →
        CarriesV6 frame source ∧ maps.blacklistv6 source ≠ none) ∧
      next.portBlacklist = maps.portBlacklist := by
  obtain ⟨action, next, returned, filtered, own, others⟩ := xdpProg_filtered frame maps
  have three : action = xdpAborted ∨ action = xdpDrop ∨ action = xdpPass := by
    have known := filtered.known
    unfold xdpAborted xdpDrop
    unfold xdpPass at known ⊢
    omega
  exact ⟨action, next, returned, filtered.dropV4, filtered.dropV6, filtered.passV4, three, own,
    others, filtered.onlyV4, filtered.onlyV6, filtered.portBlacklist⟩

/-- A tagged frame from 192.168.1.1, which is blacklisted. -/
example :
    (xdpProg (List.replicate 12 0 ++ [0x81, 0, 0, 1, 8, 0] ++ List.replicate 12 0 ++
        [192, 168, 1, 1] ++ List.replicate 4 0)
      ⟨fun key => if key = 0x0101A8C0 then some 7 else none, fun _ => none, fun _ => 0,
        fun _ => 0, fun _ => 0, fun _ => 0⟩).map
      (fun result => (result.1, result.2.blacklistv4 0x0101A8C0, result.2.verdictCnt xdpDrop)) =
    some (xdpDrop, some 8, 1) := by
  decide

end FipsIpc.Xdp
