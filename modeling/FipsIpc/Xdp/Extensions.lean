import FipsIpc.Xdp.Ports

/-!
Contract: IPv6 extension headers in the XDP program.

Owns: chains of extension headers as the RFCs define them, and where
`parse_ipv6` looks for the TCP or UDP header behind a chain.

The program computes the length of every header that is not a fragment header as
`hdrlen * 8 + 8`.  The length of an authentication header counts words of four
bytes instead, so the program goes past its end.

Does not own: the order of the headers, which the program does not look at, and
what stands in their options.
-/

set_option autoImplicit false

namespace FipsIpc.Xdp

variable {frame : Frame} {maps : Maps}

/-! ### Chains -/

def byteAt (frame : Frame) (offset : Nat) : Nat := beNat (slice frame offset 1)

/-- The number of the authentication header. -/
def authentication : Nat := 51

/-- The number of the fragment header. -/
def fragment : Nat := 44

/-- An extension header of a number at an offset of the frame. -/
structure ExtensionHeader where
  protocol : Nat
  offset : Nat
deriving DecidableEq, Repr

def ExtensionHeader.hdrlen (header : ExtensionHeader) (frame : Frame) : Nat :=
  byteAt frame (header.offset + 1)

/-- The length of a header in bytes: fragment headers are fixed, authentication
headers count words of four bytes less two, all others units of eight less one. -/
def ExtensionHeader.length (header : ExtensionHeader) (frame : Frame) : Nat :=
  if header.protocol = fragment then sizeofIpv6FragHdr
  else if header.protocol = authentication then 4 * (header.hdrlen frame + 2)
  else 8 * header.hdrlen frame + 8

/-- A header of one of the kinds, inside the frame.  An authentication header has
twelve fixed bytes and is padded to eight, a fragment header is the first one. -/
structure WellFormedHeader (frame : Frame) (header : ExtensionHeader) : Prop where
  known : header.protocol = fragment ∨ header.protocol ∈ extensionHeaders
  inside : header.offset + header.length frame ≤ frame.length
  padded : header.protocol = authentication →
    12 ≤ header.length frame ∧ header.length frame % 8 = 0
  first : header.protocol = fragment → beNat (slice frame (header.offset + 2) 2) / 8 = 0

/-- The chain from a header to what stands behind the last one. -/
inductive HeaderPath (frame : Frame) :
    (protocol offset : Nat) → List ExtensionHeader → (lastProtocol lastOffset : Nat) → Prop where
  | nil (protocol offset : Nat) : HeaderPath frame protocol offset [] protocol offset
  | cons {header : ExtensionHeader} {headers : List ExtensionHeader}
      {lastProtocol lastOffset : Nat} (wellFormed : WellFormedHeader frame header)
      (rest : HeaderPath frame (byteAt frame header.offset)
        (header.offset + header.length frame) headers lastProtocol lastOffset) :
      HeaderPath frame header.protocol header.offset (header :: headers) lastProtocol lastOffset

/-- An IPv6 packet with a chain of at most nine headers in front of a complete TCP
or UDP header. -/
structure ChainPacket (frame : Frame) (l3Offset : Nat) (headers : List ExtensionHeader)
    (proto : FilterProto) (hdr : Nat) : Prop where
  path : HeaderPath frame (byteAt frame (l3Offset + 6)) (l3Offset + sizeofIpv6hdr) headers
    proto.ipproto hdr
  atMost : headers.length ≤ 9
  whole : l3Offset + sizeofIpv6hdr ≤ frame.length
  complete : hdr + proto.hdrSize ≤ frame.length

theorem HeaderPath.of_append {protocol offset lastProtocol lastOffset : Nat}
    {before after : List ExtensionHeader}
    (path : HeaderPath frame protocol offset (before ++ after) lastProtocol lastOffset) :
    ∃ middleProtocol middleOffset,
      HeaderPath frame protocol offset before middleProtocol middleOffset ∧
      HeaderPath frame middleProtocol middleOffset after lastProtocol lastOffset := by
  induction before generalizing protocol offset with
  | nil => exact ⟨protocol, offset, .nil protocol offset, path⟩
  | cons header before inductionHypothesis =>
      cases path with
      | cons wellFormed rest =>
          obtain ⟨middleProtocol, middleOffset, left, right⟩ := inductionHypothesis rest
          exact ⟨middleProtocol, middleOffset, .cons wellFormed left, right⟩

theorem HeaderPath.of_nil {protocol offset lastProtocol lastOffset : Nat}
    (path : HeaderPath frame protocol offset [] lastProtocol lastOffset) :
    protocol = lastProtocol ∧ offset = lastOffset := by
  cases path
  exact ⟨rfl, rfl⟩

theorem HeaderPath.of_singleton {protocol offset lastProtocol lastOffset : Nat}
    {header : ExtensionHeader}
    (path : HeaderPath frame protocol offset [header] lastProtocol lastOffset) :
    WellFormedHeader frame header ∧ header.protocol = protocol ∧ header.offset = offset ∧
      byteAt frame header.offset = lastProtocol ∧
      header.offset + header.length frame = lastOffset := by
  cases path with
  | cons wellFormed rest => exact ⟨wellFormed, rfl, rfl, rest.of_nil⟩

/-! ### The loop -/

/-- How far the program goes for a header. -/
def ExtensionHeader.step (header : ExtensionHeader) (frame : Frame) : Nat :=
  if header.protocol = fragment then sizeofIpv6FragHdr else header.hdrlen frame * 8 + 8

theorem ExtensionHeader.step_eq_length {header : ExtensionHeader}
    (plain : header.protocol ≠ authentication) : header.step frame = header.length frame := by
  unfold step length
  rw [if_neg plain, Nat.mul_comm]

theorem ExtensionHeader.step_authentication {header : ExtensionHeader}
    (auth : header.protocol = authentication) :
    header.step frame = header.length frame + 4 * header.hdrlen frame := by
  have different : ¬header.protocol = fragment := by
    rw [auth]
    decide
  unfold step length
  rw [if_neg different, if_neg different, if_pos auth]
  omega

/-- Every header of a chain has at least eight bytes. -/
theorem ExtensionHeader.eight_le_length (header : ExtensionHeader) (frame : Frame) :
    8 ≤ header.length frame := by
  unfold length sizeofIpv6FragHdr
  split
  · exact Nat.le_refl 8
  · split
    · omega
    · omega

/-- One round of the loop on a header of a chain. -/
theorem parseExtensions_header {header : ExtensionHeader}
    (wellFormed : WellFormedHeader frame header) (maps : Maps) (rounds : Nat) :
    parseExtensions frame maps (rounds + 1) header.protocol header.offset =
      parseExtensions frame maps rounds (byteAt frame header.offset)
        (header.offset + header.step frame) := by
  have inside := wellFormed.inside
  have size := header.eight_le_length frame
  have assigned : ¬header.protocol > 143 := by
    rcases wellFormed.known with fragmented | listed
    · rw [fragmented]
      decide
    · have bounded : ∀ number ∈ extensionHeaders, ¬number > 143 := by decide
      exact bounded header.protocol listed
  rw [parseExtensions, if_neg assigned]
  unfold ExtensionHeader.step
  by_cases fragmented : header.protocol = fragment
  · have number : header.protocol = 44 := fragmented
    have room : ¬header.offset + sizeofIpv6FragHdr > frame.length := by
      unfold sizeofIpv6FragHdr
      omega
    rw [if_pos number, if_neg room, load_eq (by omega), if_pos fragmented]
    rfl
  · have number : ¬header.protocol = 44 := fragmented
    have listed := wellFormed.known.resolve_left fragmented
    rw [if_neg number, if_pos listed, if_neg (by omega), load_eq (by omega),
      load_eq (by omega), if_neg fragmented]
    rfl

/-- The loop follows a chain without authentication headers. -/
theorem parseExtensions_path {protocol offset lastProtocol lastOffset : Nat}
    {headers : List ExtensionHeader}
    (path : HeaderPath frame protocol offset headers lastProtocol lastOffset)
    (plain : ∀ header ∈ headers, header.protocol ≠ authentication) (maps : Maps)
    (rounds : Nat) :
    parseExtensions frame maps (headers.length + rounds) protocol offset =
      parseExtensions frame maps rounds lastProtocol lastOffset := by
  induction path with
  | nil protocol offset => rw [List.length_nil, Nat.zero_add]
  | @cons header headers lastProtocol lastOffset wellFormed rest inductionHypothesis =>
      have further : (header :: headers).length + rounds = headers.length + rounds + 1 := by
        rw [List.length_cons]
        omega
      rw [further, parseExtensions_header wellFormed,
        ExtensionHeader.step_eq_length (plain header List.mem_cons_self)]
      exact inductionHypothesis fun other member => plain other (List.mem_cons_of_mem _ member)

theorem parseIpv6_unlisted {l3Offset : Nat} (whole : l3Offset + sizeofIpv6hdr ≤ frame.length)
    (unlisted : maps.blacklistv6 (sourceV6 frame l3Offset) = none) :
    parseIpv6 frame l3Offset maps =
      parseExtensions frame maps 10 (byteAt frame (l3Offset + 6))
        (l3Offset + sizeofIpv6hdr) := by
  have size : l3Offset + 40 ≤ frame.length := whole
  have source : maps.blacklistv6
      (BitVec.ofNat 128 (leNat (slice frame (l3Offset + 8) 16))) = none := unlisted
  rw [parseIpv6, if_neg (Nat.not_lt_of_le whole), load_eq (by omega)]
  simp only [Option.bind_eq_bind, Option.bind_some]
  rw [source, load_eq (by omega)]
  rfl

/-! ### The port rule -/

def destPort (frame : Frame) (hdr : Nat) : Nat := beNat (slice frame (hdr + 2) 2)

/-- The port is blocked for the protocol. -/
def PortBlocked (maps : Maps) (dport : Nat) (proto : FilterProto) : Prop :=
  (maps.portBlacklist dport).toUInt32 &&& proto.mask ≠ 0

/-- Whatever the maps hold, as long as the source is not blacklisted: the result is
that of the port rule for the header at `hdr`, so the packet is dropped exactly if
its port is blocked. -/
def PortRuleApplied (frame : Frame) (l3Offset : Nat) (proto : FilterProto) (hdr : Nat) : Prop :=
  ∀ maps : Maps, maps.blacklistv6 (sourceV6 frame l3Offset) = none →
    parseIpv6 frame l3Offset maps = parsePort frame proto.ipproto hdr maps ∧
    ((∃ next, parseIpv6 frame l3Offset maps = some (xdpDrop, next)) ↔
      PortBlocked maps (destPort frame hdr) proto)

theorem parsePort_ipproto (frame : Frame) (proto : FilterProto) (hdr : Nat) (maps : Maps) :
    parsePort frame proto.ipproto hdr maps = parsePortHdr frame hdr proto.hdrSize proto maps := by
  cases proto <;> rfl

/-- The last round, on the TCP or UDP header. -/
theorem parseExtensions_transport (frame : Frame) (maps : Maps) (rounds : Nat)
    (proto : FilterProto) (hdr : Nat) :
    parseExtensions frame maps (rounds + 1) proto.ipproto hdr =
      parsePort frame proto.ipproto hdr maps := by
  cases proto <;> rfl

theorem parsePort_complete {proto : FilterProto} {hdr : Nat}
    (complete : hdr + proto.hdrSize ≤ frame.length) (maps : Maps) :
    parsePort frame proto.ipproto hdr maps =
      some (portVerdict maps (destPort frame hdr) proto) := by
  rw [← parseExtensions_transport frame maps 0]
  exact parseExtensions_port frame maps 0 proto hdr complete

theorem parsePort_short {proto : FilterProto} {hdr : Nat}
    (short : ¬hdr + proto.hdrSize ≤ frame.length) (maps : Maps) :
    parsePort frame proto.ipproto hdr maps = some (xdpAborted, maps) := by
  rw [parsePort_ipproto, parsePortHdr, if_pos (Nat.lt_of_not_le short)]

theorem portVerdict_drop_iff (maps : Maps) (dport : Nat) (proto : FilterProto) :
    (∃ next, some (portVerdict maps dport proto) = some (xdpDrop, next)) ↔
      PortBlocked maps dport proto := by
  unfold portVerdict PortBlocked
  split
  case isTrue blocked => simp [blocked]
  case isFalse passes => simp [passes, xdpPass, xdpDrop]

/-- Only this port is blocked, for both protocols. -/
def onlyBlocked (dport : Nat) : Maps :=
  { emptyMaps with portBlacklist := fun port => if port = dport then 3 else 0 }

theorem onlyBlocked_iff (dport port : Nat) (proto : FilterProto) :
    PortBlocked (onlyBlocked dport) port proto ↔ port = dport := by
  have cell : (onlyBlocked dport).portBlacklist port = if port = dport then 3 else 0 := rfl
  unfold PortBlocked
  rw [cell]
  by_cases same : port = dport
  · rw [if_pos same]
    cases proto <;> simp [same] <;> decide
  · rw [if_neg same]
    cases proto <;> simp [same]

/-- Where the program takes the rule from a header at `looked`, this is as good as
the one at `hdr` exactly if it is complete and has the same port. -/
theorem portRuleApplied_iff_same {l3Offset hdr looked : Nat} {proto : FilterProto}
    (complete : hdr + proto.hdrSize ≤ frame.length)
    (parsed : ∀ maps : Maps, maps.blacklistv6 (sourceV6 frame l3Offset) = none →
      parseIpv6 frame l3Offset maps = parsePort frame proto.ipproto looked maps) :
    PortRuleApplied frame l3Offset proto hdr ↔
      looked + proto.hdrSize ≤ frame.length ∧ destPort frame looked = destPort frame hdr := by
  constructor
  · intro applied
    have unlisted : (onlyBlocked (destPort frame hdr)).blacklistv6 (sourceV6 frame l3Offset) =
        none := rfl
    have verdict := (applied _ unlisted).2
    rw [parsed _ unlisted, onlyBlocked_iff] at verdict
    obtain ⟨next, drops⟩ := verdict.mpr rfl
    by_cases reached : looked + proto.hdrSize ≤ frame.length
    · rw [parsePort_complete reached] at drops
      have blocked := (portVerdict_drop_iff _ _ _).mp ⟨next, drops⟩
      exact ⟨reached, (onlyBlocked_iff _ _ _).mp blocked⟩
    · rw [parsePort_short reached] at drops
      simp [xdpAborted, xdpDrop] at drops
  · intro same maps unlisted
    obtain ⟨reached, port⟩ := same
    rw [parsed maps unlisted, parsePort_complete reached, parsePort_complete complete, port]
    exact ⟨rfl, portVerdict_drop_iff _ _ _⟩

/-- Behind a chain without authentication headers the program applies the port rule
at the right place.  Behind one that ends in its only authentication header it looks
`4 * hdrlen` bytes further. -/
theorem portRule_applied {l3Offset : Nat} {headers : List ExtensionHeader} {proto : FilterProto}
    {hdr : Nat} (packet : ChainPacket frame l3Offset headers proto hdr) :
    ((∀ header ∈ headers, header.protocol ≠ authentication) →
      PortRuleApplied frame l3Offset proto hdr) ∧
    (∀ earlier auth, headers = earlier ++ [auth] →
      (∀ header ∈ earlier, header.protocol ≠ authentication) →
      auth.protocol = authentication →
      (PortRuleApplied frame l3Offset proto hdr ↔
        hdr + 4 * auth.hdrlen frame + proto.hdrSize ≤ frame.length ∧
        destPort frame (hdr + 4 * auth.hdrlen frame) = destPort frame hdr)) := by
  obtain ⟨path, atMost, whole, complete⟩ := packet
  constructor
  · intro plain
    apply (portRuleApplied_iff_same complete ?_).mpr ⟨complete, rfl⟩
    intro maps unlisted
    have rounds : 10 = headers.length + (9 - headers.length + 1) := by omega
    rw [parseIpv6_unlisted whole unlisted, rounds, parseExtensions_path path plain,
      parseExtensions_transport]
  · intro earlier auth split plain isAuth
    subst split
    apply portRuleApplied_iff_same complete
    intro maps unlisted
    obtain ⟨protocol, offset, before, last⟩ := path.of_append
    have rounds : 10 = earlier.length + (8 - earlier.length + 1 + 1) := by
      rw [List.length_append, List.length_singleton] at atMost
      omega
    obtain ⟨wellFormed, sameProtocol, sameOffset, transport, place⟩ := last.of_singleton
    subst sameProtocol sameOffset
    have looked : auth.offset + auth.step frame = hdr + 4 * auth.hdrlen frame := by
      rw [ExtensionHeader.step_authentication isAuth]
      omega
    rw [parseIpv6_unlisted whole unlisted, rounds, parseExtensions_path before plain,
      parseExtensions_header wellFormed, transport, looked, parseExtensions_transport]

/-- An IPv6 packet from `::` with one extension header, for TCP port 22. -/
def port22Behind (number : UInt8) (extension : List UInt8) : Frame :=
  List.replicate 12 0 ++ [0x86, 0xDD] ++ List.replicate 6 0 ++ [number] ++ List.replicate 33 0 ++
    extension ++ [0, 0, 0, 22] ++ List.replicate 36 0

/-- Destination options of sixteen bytes. -/
def behindOptions : Frame := port22Behind 60 ([6, 1] ++ List.replicate 14 0)

theorem chainPacket_options : ChainPacket behindOptions 14 [⟨60, 54⟩] .tcp 70 where
  path := by
    have wellFormed : WellFormedHeader behindOptions ⟨60, 54⟩ :=
      ⟨by decide, by decide, by decide, by decide⟩
    exact .cons wellFormed (.nil _ _)
  atMost := by decide
  whole := by decide
  complete := by decide

theorem portRule_applied_options :
    ChainPacket behindOptions 14 [⟨60, 54⟩] .tcp 70 ∧
    PortRuleApplied behindOptions 14 .tcp 70 :=
  ⟨chainPacket_options, (portRule_applied chainPacket_options).1 (by decide)⟩

/-- An authentication header with an integrity check value of twelve bytes. -/
def behindAuthentication : Frame := port22Behind 51 ([6, 4] ++ List.replicate 22 0)

/-- With port 22 blocked, a packet for it passes behind an authentication header. -/
theorem portRule_missed :
    ChainPacket behindAuthentication 14 [⟨51, 54⟩] .tcp 78 ∧
    (onlyBlocked 22).blacklistv6 (sourceV6 behindAuthentication 14) = none ∧
    PortBlocked (onlyBlocked 22) (destPort behindAuthentication 78) .tcp ∧
    (parseIpv6 behindAuthentication 14 (onlyBlocked 22)).map Prod.fst = some xdpPass ∧
    ¬PortRuleApplied behindAuthentication 14 .tcp 78 := by
  have packet : ChainPacket behindAuthentication 14 [⟨51, 54⟩] .tcp 78 := by
    refine ⟨?_, by decide, by decide, by decide⟩
    have wellFormed : WellFormedHeader behindAuthentication ⟨51, 54⟩ :=
      ⟨by decide, by decide, by decide, by decide⟩
    exact .cons wellFormed (.nil _ _)
  have blocked : PortBlocked (onlyBlocked 22) (destPort behindAuthentication 78) .tcp :=
    (onlyBlocked_iff _ _ _).mpr (by decide)
  have passes : (parseIpv6 behindAuthentication 14 (onlyBlocked 22)).map Prod.fst =
      some xdpPass := by decide
  refine ⟨packet, rfl, blocked, passes, fun applied => ?_⟩
  obtain ⟨next, drops⟩ := (applied (onlyBlocked 22) rfl).2.mpr blocked
  rw [drops] at passes
  simp [xdpDrop, xdpPass] at passes

end FipsIpc.Xdp
