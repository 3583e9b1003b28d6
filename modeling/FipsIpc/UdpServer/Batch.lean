import FipsIpc.ShmRingbuf.Segment
import FipsIpc.UdpServer.Producer
import Mathlib.Data.List.Induction

/-!
Contract: the log lines of one receive batch in `listen_and_reply`, for the log
file and the copying ring.

Owns: the loop that formats the lines of a batch into one buffer, where it puts
them, and when the stride of the buffer is wide enough.

The stride is the length of `LOG_STR_FMT_IP6`, a string that is not used for
formatting.  Its date has one character less than `DATE_FMT`, and it has no `#`
behind the address.

Does not own: the zero-copy buffer as log target, `UdpServer.Producer`, and the
fate of the lines behind the loop.
-/

set_option autoImplicit false

namespace FipsIpc.UdpServer

open FipsIpc.FipsBuf

/-! ### The loop -/

def strSizeIp6 : Nat := (ascii "DDDD:DDDD:DDDD:DDDD:DDDD:DDDD:DDDD:DDDD").length

def logStrFmtIp6 : List UInt8 :=
  ascii "YYYY-MM-DD HH:MM:SS client DDDD:DDDD:DDDD:DDDD:DDDD:DDDD:DDDD:DDDD " ++
    ascii "exceeded request rate limit\n"

def logBufSizeIp6 : Nat := logStrFmtIp6.length

/-- `logbuf_size` of `listen_and_reply`. -/
def logbufSize (logshort : Bool) : Nat := if logshort then strSizeIp6 + 1 else logBufSizeIp6

/-- `line_size` of the ring that `main` creates. -/
def ringLineSize (logshort : Bool) : Nat := if logshort then strSizeIp6 + 1 else logBufSizeIp6

/-- A received packet: its client, and the date buffer when its line is formatted. -/
structure Received where
  addr : In6Addr
  date : DateBuf

/-- What `logstr_short` or `logstr_long` writes for a packet. -/
def logstr (logshort : Bool) (packet : Received) : List UInt8 :=
  if logshort then logstrShort packet.addr else logstrLong packet.date packet.addr

/-- `logstr_buf`, the first `invalid_count` entries of `log_iovs`, and
`logstr_index`. -/
structure LineBatch where
  data : Data
  logIovs : List Iovec
  logstrIndex : Nat

/-- The loop body for a packet. -/
def formatLine (logshort : Bool) (batch : LineBatch) (packet : Received) : LineBatch :=
  let text := logstr logshort packet
  let data := memcpy batch.data batch.logstrIndex text
  if text.length > 0 then
    { data := data
      logIovs := batch.logIovs ++ [⟨batch.logstrIndex, text.length⟩]
      logstrIndex := (batch.logstrIndex + logbufSize logshort) % 2 ^ 32 }
  else { batch with data := data }

/-- The loop over the packets of a batch. -/
def formatBatch (logshort : Bool) (data : Data) (packets : List Received) : LineBatch :=
  packets.foldl (formatLine logshort) ⟨data, [], 0⟩

/-- The lines that `log_iovs` denotes. -/
def LineBatch.lines (batch : LineBatch) : List (List UInt8) :=
  batch.logIovs.map (Iovec.bytes batch.data)

/-- Every line of the batch is the string of its packet, is not wider than the
stride, and is not rejected by a ring whose lines have the width of the stride. -/
structure LinesKept (logshort : Bool) (data : Data) (packets : List Received) : Prop where
  denotes : (formatBatch logshort data packets).lines = packets.map (logstr logshort)
  fits : ∀ packet ∈ packets, (logstr logshort packet).length ≤ logbufSize logshort
  accepted : ∀ (hdr : ShmRingbuf.GlobalHdr) (argsSegmentCount segmentId : Nat)
    (segment : ShmRingbuf.Segment), hdr.lineSize = ringLineSize logshort →
    (ShmRingbuf.shmrbufWritev hdr argsSegmentCount segmentId segment
      (formatBatch logshort data packets).lines packets.length).1 ≠ ShmRingbuf.ioIpcSizeErr

/-! ### Lines that fit -/

section Fits

variable {logshort : Bool} {data : Data} {packet : Received} {packets : List Received}
  {batch : LineBatch}

theorem length_logstr_pos (logshort : Bool) (packet : Received) :
    0 < (logstr logshort packet).length := by
  unfold logstr
  split
  · simp [logstrShort]
  · rw [length_logstrLong]
    omega

/-- What holds in the loop after some packets. -/
structure Formatted (logshort : Bool) (packets : List Received) (batch : LineBatch) : Prop where
  index : batch.logstrIndex = packets.length * logbufSize logshort
  count : batch.logIovs.length = packets.length
  iovs : ∀ iov ∈ batch.logIovs, iov.base + iov.len ≤ batch.logstrIndex
  lines : batch.lines = packets.map (logstr logshort)

/-- One packet whose string fits. -/
theorem Formatted.formatLine (formatted : Formatted logshort packets batch)
    (room : (packets.length + 1) * logbufSize logshort < 2 ^ 32)
    (fits : (logstr logshort packet).length ≤ logbufSize logshort) :
    Formatted logshort (packets ++ [packet]) (formatLine logshort batch packet) := by
  have next : (batch.logstrIndex + logbufSize logshort) % 2 ^ 32 =
      (packets.length + 1) * logbufSize logshort := by
    rw [formatted.index, ← Nat.succ_mul]
    exact Nat.mod_eq_of_lt room
  have step : (packets.length + 1) * logbufSize logshort =
      batch.logstrIndex + logbufSize logshort := by
    rw [formatted.index, Nat.succ_mul]
  unfold UdpServer.formatLine
  dsimp only
  rw [if_pos (length_logstr_pos logshort packet), next]
  refine ⟨?_, ?_, ?_, ?_⟩
  · simp
  · simp [formatted.count]
  · intro iov member
    dsimp only
    rw [step]
    rcases List.mem_append.mp member with earlier | last
    · have before := formatted.iovs iov earlier
      omega
    · rw [List.mem_singleton.mp last]
      dsimp only
      omega
  · have kept : batch.logIovs.map
        (Iovec.bytes (memcpy batch.data batch.logstrIndex (logstr logshort packet))) =
        packets.map (logstr logshort) := by
      rw [← formatted.lines]
      apply List.map_congr_left
      intro iov member
      exact bytes_memcpy_before (formatted.iovs iov member) _
    rw [LineBatch.lines, List.map_append, List.map_append, kept, List.map_singleton,
      List.map_singleton, bytes_memcpy]

/-- All packets of a batch whose strings fit. -/
theorem formatBatch_formatted (few : packets.length ≤ maxMsg)
    (fits : ∀ packet ∈ packets, (logstr logshort packet).length ≤ logbufSize logshort) :
    Formatted logshort packets (formatBatch logshort data packets) := by
  have stride : logbufSize logshort ≤ 95 := by
    cases logshort <;> decide
  have most : maxMsg = 1024 := rfl
  induction packets using List.reverseRecOn with
  | nil => exact ⟨by simp [formatBatch], rfl, by simp [formatBatch], rfl⟩
  | append_singleton packets packet inductionHypothesis =>
      rw [List.length_append, List.length_singleton] at few
      rw [List.forall_mem_append, List.forall_mem_singleton] at fits
      have formatted := inductionHypothesis (by omega) fits.1
      have room : (packets.length + 1) * logbufSize logshort ≤ 1024 * 95 :=
        Nat.mul_le_mul (by omega) stride
      rw [formatBatch, List.foldl_append]
      exact formatted.formatLine (by omega) fits.2

end Fits

/-! ### The ring -/

section Ring

open FipsIpc.ShmRingbuf

variable {iovecs : List (List UInt8)} {lineSize : Nat}

/-- Lines that are not too long are copied. -/
theorem copyLines_accepts (short : ∀ line ∈ iovecs, line.length ≤ lineSize)
    (count index dest : Nat) (data : ShmRingbuf.Data) :
    (copyLines lineSize iovecs count index dest data).1 = true := by
  induction count generalizing index dest data with
  | zero => rfl
  | succ count inductionHypothesis =>
      have length : (iovecs.getD index []).length ≤ lineSize := by
        rw [List.getD_eq_getElem?_getD]
        cases present : iovecs[index]? with
        | none => exact Nat.zero_le _
        | some line => exact short line (List.mem_of_getElem? present)
      have narrowed := (Nat.mod_le (iovecs.getD index []).length (2 ^ 16)).trans length
      rw [copyLines, if_neg (Nat.not_lt_of_le narrowed)]
      exact inductionHypothesis _ _ _

/-- A vector write of such lines is not rejected for a length. -/
theorem shmrbufWritev_accepts {hdr : GlobalHdr}
    (short : ∀ line ∈ iovecs, line.length ≤ hdr.lineSize)
    (argsSegmentCount segmentId : Nat) (segment : ShmRingbuf.Segment) (vsize : Nat) :
    (shmrbufWritev hdr argsSegmentCount segmentId segment iovecs vsize).1 ≠ ioIpcSizeErr := by
  have stops {count index dest : Nat} {data after : ShmRingbuf.Data} :
      copyLines hdr.lineSize iovecs count index dest data ≠ (false, after) := by
    intro copied
    have accepts := copyLines_accepts short count index dest data
    rw [copied] at accepts
    cases accepts
  have nonneg (count : Nat) : (count : Int) ≠ ioIpcSizeErr := by
    have negative : ioIpcSizeErr < 0 := by decide
    omega
  unfold shmrbufWritev
  dsimp only
  split
  · exact (by decide : ioIpcArgErr ≠ ioIpcSizeErr)
  · split
    · exact nonneg 0
    · split
      · exact nonneg 0
      · split
        · split
          case h_1 copied => exact absurd copied stops
          case h_2 => exact nonneg _
        · split
          case h_1 copied => exact absurd copied stops
          case h_2 =>
            split
            case h_1 copied => exact absurd copied stops
            case h_2 => exact nonneg _

end Ring

/-! ### When the lines are kept -/

section Kept

variable {logshort : Bool} {data : Data} {packets : List Received}

/-- Short lines fit. -/
theorem length_logstr_short (packet : Received) :
    (logstr true packet).length ≤ logbufSize true := by
  have stride : logbufSize true = 40 := by decide
  rw [stride]
  exact length_logstrShort_le packet.addr

/-- A long line fits exactly if its client is IPv4-mapped. -/
theorem length_logstr_long (packet : Received) :
    (logstr false packet).length ≤ logbufSize false ↔ in6IsAddrV4mapped packet.addr = true := by
  have stride : logbufSize false = 95 := by decide
  have text : logstr false packet = logstrLong packet.date packet.addr := rfl
  rw [stride, text, length_logstrLong, addressStr]
  cases mapped : in6IsAddrV4mapped packet.addr with
  | true =>
      have width := length_ipv4ToStr_le packet.addr
      rw [if_pos rfl]
      simp only [iff_true]
      omega
  | false =>
      rw [if_neg (by decide), length_ipv6ToStr]
      decide

theorem LinesKept.of_fits (few : packets.length ≤ maxMsg)
    (fits : ∀ packet ∈ packets, (logstr logshort packet).length ≤ logbufSize logshort) :
    LinesKept logshort data packets := by
  have formatted := @formatBatch_formatted logshort data packets few fits
  refine ⟨formatted.lines, fits, ?_⟩
  intro hdr argsSegmentCount segmentId segment width
  apply shmrbufWritev_accepts
  intro line member
  rw [formatted.lines] at member
  obtain ⟨packet, isPacket, rfl⟩ := List.mem_map.mp member
  rw [width]
  exact fits packet isPacket

/-- The lines of a batch are kept apart exactly if they are short or all clients are
IPv4-mapped. -/
theorem linesKept_iff (few : packets.length ≤ maxMsg) :
    LinesKept logshort data packets ↔
      logshort = true ∨ ∀ packet ∈ packets, in6IsAddrV4mapped packet.addr = true := by
  cases logshort with
  | true =>
      apply iff_of_true _ (Or.inl rfl)
      apply LinesKept.of_fits few
      intro packet _
      exact length_logstr_short packet
  | false =>
      constructor
      · intro kept
        exact Or.inr fun packet member => (length_logstr_long packet).mp (kept.fits packet member)
      · intro condition
        have mapped := condition.resolve_left (by decide)
        apply LinesKept.of_fits few
        intro packet member
        exact (length_logstr_long packet).mpr (mapped packet member)

end Kept

/-- 13-May-2025 09:21:59. -/
def batchDate : DateBuf :=
  #v[49, 51, 45, 77, 97, 121, 45, 50, 48, 50, 53, 32, 48, 57, 58, 50, 49, 58, 53, 57]

/-- A packet from 192.0.2.9. -/
def mappedPacket : Received :=
  ⟨#v[0, 0, 0, 0, 0, 0, 0, 0, 0, 0, 0xff, 0xff, 192, 0, 2, 9], batchDate⟩

theorem linesKept_iff_mapped :
    [mappedPacket, mappedPacket].length ≤ maxMsg ∧
      LinesKept false (fun _ => 0) [mappedPacket, mappedPacket] := by
  have few : [mappedPacket, mappedPacket].length ≤ maxMsg := by decide
  refine ⟨few, (linesKept_iff few).mpr (Or.inr ?_)⟩
  intro packet member
  have same : packet = mappedPacket := by simpa using member
  rw [same]
  decide

/-- A packet from 2001:db8::9. -/
def ipv6Packet : Received :=
  ⟨#v[0x20, 1, 0x0d, 0xb8, 0, 0, 0, 0, 0, 0, 0, 0, 0, 0, 0, 9], batchDate⟩

/-- The second line overwrites the last two characters of the first one. -/
theorem linesKept_fails_ipv6 :
    [ipv6Packet, ipv6Packet].length ≤ maxMsg ∧
      (formatBatch false (fun _ => 0) [ipv6Packet, ipv6Packet]).lines.head? =
        some ((logstr false ipv6Packet).take 95 ++ ascii "13") ∧
      ¬ LinesKept false (fun _ => 0) [ipv6Packet, ipv6Packet] := by
  refine ⟨by decide, by decide +kernel, ?_⟩
  intro kept
  have mapped := (length_logstr_long ipv6Packet).mp (kept.fits ipv6Packet (by simp))
  revert mapped
  decide

end FipsIpc.UdpServer
