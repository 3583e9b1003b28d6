import FipsIpc.FipsBuf.Lines
import FipsIpc.UdpServer.Logstr

/-!
Contract: the receive loop of `listen_and_reply` in `programs/udp_server.c`
with the zero-copy buffer as its log.

Owns: the loop over receive batches with its three counters, the reservations
and commits it makes, what it should log, and that it does when every committed
reservation is filled within one batch.

A reservation of `MAX_MSG` lines lives across batches, and `available_iovs` with
it, but `logstr_index` and `invalid_count` start from zero in every batch.  What
the loop finds when it handles a packet is part of the packet: the date buffer,
the clock and the positions of the readers.  The committed lines and the refused
reservations are recorded next to the variables of the loop.

Does not own: sockets, replies, the other log targets, and reservations that
span batches.
-/

set_option autoImplicit false

namespace FipsIpc.UdpServer

open FipsIpc.FipsBuf FipsIpc.Lib.RingLog

/-- `__IOV_MAX`. -/
def maxMsg : Nat := 1024

/-- The options `binary` and `logshort`. -/
structure Mode where
  binary : Bool
  logshort : Bool
deriving DecidableEq, Repr

/-- A received packet and what is found while it is handled. -/
structure Packet where
  addr : In6Addr
  date : DateBuf
  time : UInt64
  readers : Nat → ReaderPointer

/-- The variables of the loop, the attached segment and the history. -/
structure Producer where
  segment : Segment
  logIovs : Nat → Iovec
  availableIovs : Nat
  logstrIndex : Nat
  invalidCount : Nat
  msgOut : Nat
  committed : List (List (List UInt8))
  refused : Nat

/-- The loop is entered with a `calloc`ed array and no reservation. -/
def Producer.attached (segment : Segment) : Producer :=
  ⟨segment, fun _ => ⟨0, 0⟩, 0, 0, 0, 0, [], 0⟩

/-! ### Records -/

/-- What the `logstr_*` function of the mode writes. -/
def recordFields (mode : Mode) (packet : Packet) : List Field :=
  match mode.binary, mode.logshort with
  | true, true => logstrBinShort packet.addr
  | true, false => logstrBinLong packet.time packet.addr
  | false, true => [⟨0, logstrShort packet.addr⟩]
  | false, false => [⟨0, logstrLong packet.date packet.addr⟩]

/-- The length of the record: the returned one for text. -/
def recordLen (mode : Mode) (packet : Packet) : Nat :=
  match mode.binary, mode.logshort with
  | true, _ => sizeofBinMessage
  | false, true => (logstrShort packet.addr).length
  | false, false => (logstrLong packet.date packet.addr).length

/-- The bytes a record of the mode may need. -/
def recordExtent (mode : Mode) : Nat :=
  match mode.binary, mode.logshort with
  | true, _ => 32
  | false, true => 40
  | false, false => 97

/-- The line is the record of the packet, with the record's own length. -/
def IsRecord (mode : Mode) (packet : Packet) (bytes : List UInt8) : Prop :=
  bytes.length = recordLen mode packet ∧
    ∀ field ∈ recordFields mode packet, ∀ index byte, field.bytes[index]? = some byte →
      bytes[field.offset + index]? = some byte

/-! ### The loop -/

/-- `fips_get_write_buffer` when no reserved line is left; its result is
ignored. -/
def reserve (hdr : Header) (packet : Packet) (state : Producer) : Producer :=
  let segment := { state.segment with readers := packet.readers }
  if state.availableIovs < 1 then
    match fipsGetWriteBuffer hdr segment maxMsg with
    | .ok (iov, segment) =>
        { state with
          segment := segment
          logIovs := fun index => iov.getD index (state.logIovs index)
          availableIovs := maxMsg
          logstrIndex := 0 }
    | .error _ =>
        { state with
          segment := segment
          availableIovs := maxMsg
          logstrIndex := 0
          refused := state.refused + 1 }
  else { state with segment := segment }

/-- The record goes to the line at `logstr_index`; its length is stored at that
index for text, at `invalid_count` for binary records. -/
def writeRecord (mode : Mode) (packet : Packet) (state : Producer) : Producer :=
  let base := (state.logIovs state.logstrIndex).base
  let lenIndex := if mode.binary then state.invalidCount else state.logstrIndex
  { state with
    segment := { state.segment with
      data := storeFields state.segment.data base (recordFields mode packet) }
    logIovs := Function.update state.logIovs lenIndex
      { state.logIovs lenIndex with len := recordLen mode packet }
    logstrIndex := state.logstrIndex + 1
    availableIovs := state.availableIovs - 1
    invalidCount := state.invalidCount + 1 }

/-- The lines of a commit that starts at `commitOffset`, as a reader finds
them. -/
def committedLines (hdr : Header) (data : Data) (commitOffset : Nat) : List (List UInt8) :=
  (List.range maxMsg).map fun offset => slotLine hdr data (hdr.wrapLine (commitOffset + offset))

/-- The data after the widths of all reserved lines were stored. -/
def widthsStored (state : Producer) : Data :=
  ((List.range maxMsg).map state.logIovs).foldl putWidth state.segment.data

/-- `fips_buf_write` when all reserved lines are used. -/
def commitFull (hdr : Header) (state : Producer) : Producer :=
  if state.availableIovs < 1 then
    let result := fipsBufWrite hdr state.segment ((List.range maxMsg).map state.logIovs)
    { state with
      segment := result.2
      committed :=
        if result.1 = fipsBufSuccess then
          state.committed ++ [committedLines hdr result.2.data state.segment.commitOffset]
        else state.committed }
  else state

def logPacket (hdr : Header) (mode : Mode) (state : Producer) (packet : Packet) : Producer :=
  commitFull hdr (writeRecord mode packet (reserve hdr packet state))

/-- One receive batch. -/
def receiveBatch (hdr : Header) (mode : Mode) (state : Producer) (packets : List Packet) :
    Producer :=
  let state := packets.foldl (logPacket hdr mode) { state with logstrIndex := 0 }
  { state with msgOut := state.msgOut + state.invalidCount, invalidCount := 0 }

def listenAndReply (hdr : Header) (mode : Mode) (state : Producer)
    (batches : List (List Packet)) : Producer :=
  batches.foldl (receiveBatch hdr mode) state

/-! ### The property -/

/-- Line `offset` of commit `index` is the record of packet
`index * MAX_MSG + offset`, and as many commits were made as packets allow. -/
def LogsEveryPacketOnce (mode : Mode) (packets : List Packet)
    (committed : List (List (List UInt8))) : Prop :=
  committed.length = packets.length / maxMsg ∧
    ∀ index lines, committed[index]? = some lines → lines.length = maxMsg ∧
      ∀ offset line packet, lines[offset]? = some line →
        packets[index * maxMsg + offset]? = some packet → IsRecord mode packet line

/-- After the leading batches of `MAX_MSG` packets fewer than `MAX_MSG` packets
arrive, so that no commit covers more than one batch. -/
def WholeBatches (sizes : List Nat) : Prop :=
  (sizes.dropWhile (· == maxMsg)).sum < maxMsg

instance (sizes : List Nat) : Decidable (WholeBatches sizes) := inferInstanceAs (Decidable (_ < _))

/-- A reservation fits the buffer and every record fits its line. -/
structure Adequate (hdr : Header) (mode : Mode) : Prop where
  fits : hdr.Fits
  lines : maxMsg ≤ hdr.lineCount
  record : recordExtent mode ≤ hdr.lineSize

/-! ### Records fit their lines -/

section Records

variable (mode : Mode) (packet : Packet)

theorem within_recordFields : Within (recordFields mode packet) (recordExtent mode) := by
  rcases mode with ⟨_ | _, _ | _⟩
  · simp [Within, recordFields, recordExtent, length_logstrLong]
    have bound := length_addressStr_le packet.addr
    omega
  · simpa [Within, recordFields, recordExtent] using length_logstrShort_le packet.addr
  · intro field member
    rcases List.mem_cons.mp member with rfl | later
    · simp [timeBytes, recordExtent]
    · exact within_addressFields _ field later
  · exact within_addressFields _

theorem ordered_recordFields : Ordered (recordFields mode packet) := by
  rcases mode with ⟨_ | _, _ | _⟩
  · exact List.pairwise_singleton _ _
  · exact List.pairwise_singleton _ _
  · refine List.pairwise_cons.mpr ⟨?_, ordered_addressFields _⟩
    intro field member
    have behind : 8 ≤ field.offset := by
      unfold addressFields at member
      split at member <;> simp at member <;> rcases member with rfl | rfl <;> simp
    simpa [timeBytes] using behind
  · exact ordered_addressFields _

/-- The fields of a record end within its length. -/
theorem within_recordLen : Within (recordFields mode packet) (recordLen mode packet) := by
  rcases mode with ⟨_ | _, _ | _⟩
  · simp [Within, recordFields, recordLen]
  · simp [Within, recordFields, recordLen]
  all_goals
    intro field member
    exact (within_recordFields _ packet field member).trans (by simp [recordExtent, recordLen,
      sizeofBinMessage])

theorem recordLen_lt : recordLen mode packet < 2 ^ 16 := by
  have short := length_logstrShort_le packet.addr
  have long := length_logstrLong packet.date packet.addr
  have bound := length_addressStr_le packet.addr
  rcases mode with ⟨_ | _, _ | _⟩ <;> simp [recordLen, sizeofBinMessage] <;> omega

/-- A line is the record of a text mode when it is its text. -/
theorem isRecord_text {bytes : List UInt8} (text : mode.binary = false) :
    IsRecord mode packet bytes ↔ bytes =
      if mode.logshort then logstrShort packet.addr else logstrLong packet.date packet.addr := by
  have whole : ∀ record : List UInt8,
      (bytes.length = record.length ∧ ∀ field ∈ [Field.mk 0 record], ∀ index byte,
        field.bytes[index]? = some byte → bytes[field.offset + index]? = some byte) ↔
      bytes = record := by
    intro record
    constructor
    · intro facts
      rcases facts with ⟨length, same⟩
      apply List.ext_getElem?
      intro index
      cases present : record[index]? with
      | none =>
          rw [List.getElem?_eq_none_iff] at present ⊢
          omega
      | some byte => simpa using same _ (List.mem_singleton_self _) index byte present
    · intro same
      subst same
      simp
  rcases mode with ⟨_ | _, _ | _⟩
  · exact whole _
  · exact whole _
  · cases text
  · cases text

end Records

/-! ### Where the loop stands -/

/-- The slot of line `offset` in reservation number `window`. -/
def windowSlot (hdr : Header) (start window offset : Nat) : Nat :=
  (start + window * maxMsg + offset) % hdr.lineCount

/-- `used` lines of reservation number `window` are used. -/
structure Reserved (hdr : Header) (start window used : Nat) (state : Producer) : Prop where
  available : state.availableIovs = maxMsg - used
  head : state.segment.headOffset = windowSlot hdr start (window + 1) 0
  commit : state.segment.commitOffset = windowSlot hdr start window 0
  commits : state.committed.length = window
  bases : ∀ offset < maxMsg,
    (state.logIovs offset).base = slotBase hdr (windowSlot hdr start window offset)

/-- `window` reservations are committed and no line is left. -/
structure Idle (hdr : Header) (start window : Nat) (state : Producer) : Prop where
  available : state.availableIovs = 0
  head : state.segment.headOffset = windowSlot hdr start window 0
  commit : state.segment.commitOffset = windowSlot hdr start window 0
  commits : state.committed.length = window

/-- The loop after `handled` packets, however they were batched. -/
def Standing (hdr : Header) (start handled : Nat) (state : Producer) : Prop :=
  if handled % maxMsg = 0 then Idle hdr start (handled / maxMsg) state
  else Reserved hdr start (handled / maxMsg) (handled % maxMsg) state

section Standing

variable {hdr : Header} {mode : Mode} {start window used handled : Nat} {state : Producer}
  {packet : Packet}

theorem wrapLine_windowSlot (offset : Nat) :
    hdr.wrapLine (windowSlot hdr start window 0 + offset) = windowSlot hdr start window offset := by
  rw [hdr.wrapLine_eq_mod, windowSlot, Nat.add_zero, Nat.mod_add_mod, windowSlot]

theorem windowSlot_maxMsg :
    windowSlot hdr start window maxMsg = windowSlot hdr start (window + 1) 0 := by
  unfold windowSlot
  rw [Nat.add_zero, Nat.succ_mul, ← Nat.add_assoc]

/-- Distinct lines of one reservation have distinct slots. -/
theorem windowSlot_inj (lines : maxMsg ≤ hdr.lineCount) {left right : Nat} (leftIn : left < maxMsg)
    (rightIn : right < maxMsg) (same : windowSlot hdr start window left =
      windowSlot hdr start window right) : left = right := by
  unfold windowSlot at same
  rcases Nat.lt_trichotomy left right with before | equal | after
  · exact absurd same (mod_ne_of_lt_of_lt_add (by omega) (by omega))
  · exact equal
  · exact absurd same.symm (mod_ne_of_lt_of_lt_add (by omega) (by omega))

/-- A used-up reservation is replaced by the next one. -/
theorem Idle.reserve (idle : Idle hdr start window state)
    (granted : (reserve hdr packet state).refused = state.refused) :
    Reserved hdr start window 0 (reserve hdr packet state) ∧
      (reserve hdr packet state).logstrIndex = 0 ∧
      (reserve hdr packet state).invalidCount = state.invalidCount ∧
      (reserve hdr packet state).committed = state.committed := by
  unfold UdpServer.reserve at granted ⊢
  have empty : state.availableIovs < 1 := by
    rw [idle.available]
    exact Nat.one_pos
  simp only [if_pos empty] at granted ⊢
  generalize outcome : fipsGetWriteBuffer hdr { state.segment with readers := packet.readers }
    maxMsg = result at granted ⊢
  rcases result with code | ⟨iov, segment⟩
  · simp at granted
  rw [fipsGetWriteBuffer_eq] at outcome
  dsimp only at outcome
  split at outcome
  · cases outcome
  rcases Prod.mk.inj (Except.ok.inj outcome) with ⟨rfl, rfl⟩
  refine ⟨⟨rfl, ?_, idle.commit, idle.commits, ?_⟩, rfl, rfl, rfl⟩
  · dsimp only
    rw [idle.head, wrapLine_windowSlot, windowSlot_maxMsg]
  · intro offset inside
    simp only [List.getD_eq_getElem?_getD, List.getElem?_map, List.getElem?_range inside,
      Option.map_some, Option.getD_some, idle.head, wrapLine_windowSlot]

/-- An open reservation is kept. -/
theorem Reserved.reserve (reserved : Reserved hdr start window used state)
    (unused : used < maxMsg) : reserve hdr packet state =
      { state with segment := { state.segment with readers := packet.readers } } := by
  unfold UdpServer.reserve
  have left : ¬ state.availableIovs < 1 := by
    rw [reserved.available]
    omega
  rw [if_neg left]

theorem Reserved.setReaders (reserved : Reserved hdr start window used state)
    (readers : Nat → ReaderPointer) : Reserved hdr start window used
      { state with segment := { state.segment with readers := readers } } :=
  ⟨reserved.available, reserved.head, reserved.commit, reserved.commits, reserved.bases⟩

/-- Storing a length leaves the address of every line alone. -/
theorem base_writeRecord (offset : Nat) :
    ((writeRecord mode packet state).logIovs offset).base = (state.logIovs offset).base := by
  simp only [writeRecord]
  generalize (if mode.binary then state.invalidCount else state.logstrIndex) = lenIndex
  by_cases same : offset = lenIndex
  · rw [same, Function.update_self]
  · rw [Function.update_of_ne same]

theorem Reserved.writeRecord (reserved : Reserved hdr start window used state) :
    Reserved hdr start window (used + 1) (writeRecord mode packet state) := by
  refine ⟨?_, reserved.head, reserved.commit, reserved.commits, ?_⟩
  · have available := reserved.available
    simp only [UdpServer.writeRecord]
    omega
  · intro offset inside
    exact (base_writeRecord offset).trans (reserved.bases offset inside)

/-- Nothing is committed while a reserved line is left. -/
theorem Reserved.commitFull_open (reserved : Reserved hdr start window used state)
    (unused : used < maxMsg) : commitFull hdr state = state := by
  unfold commitFull
  rw [if_neg]
  rw [reserved.available]
  omega

/-- A full reservation is committed as a whole. -/
theorem Reserved.commitFull (reserved : Reserved hdr start window maxMsg state) :
    Idle hdr start (window + 1) (commitFull hdr state) ∧
      (commitFull hdr state).committed = state.committed ++
        [committedLines hdr (widthsStored state) (windowSlot hdr start window 0)] := by
  have used : state.availableIovs < 1 := by
    rw [reserved.available, Nat.sub_self]
    exact Nat.one_pos
  have written : fipsBufWrite hdr state.segment ((List.range maxMsg).map state.logIovs) =
      (fipsBufSuccess, { state.segment with
        data := widthsStored state
        commitOffset := windowSlot hdr start (window + 1) 0 }) := by
    unfold fipsBufWrite
    dsimp only
    rw [List.length_map, List.length_range, reserved.commit, wrapLine_windowSlot,
      windowSlot_maxMsg, reserved.head, if_neg (Nat.lt_irrefl _)]
    rfl
  unfold UdpServer.commitFull
  rw [if_pos used, written]
  refine ⟨⟨?_, reserved.head, rfl, ?_⟩, ?_⟩
  · exact Nat.lt_one_iff.mp used
  · simp [reserved.commits]
  · simp [reserved.commit]

theorem maxMsg_pos : 0 < maxMsg := by decide

/-- Before a record is written the reservation is open. -/
theorem Standing.reserve (standing : Standing hdr start handled state)
    (granted : (reserve hdr packet state).refused = state.refused) :
    Reserved hdr start (handled / maxMsg) (handled % maxMsg) (reserve hdr packet state) := by
  unfold Standing at standing
  split at standing
  case isTrue used =>
    rw [used]
    exact (standing.reserve granted).1
  case isFalse =>
    rw [Reserved.reserve standing (Nat.mod_lt _ maxMsg_pos)]
    exact standing.setReaders _

theorem refused_commitFull : (commitFull hdr state).refused = state.refused := by
  unfold commitFull
  split <;> rfl

theorem refused_logPacket :
    (logPacket hdr mode state packet).refused = (reserve hdr packet state).refused := by
  rw [logPacket, refused_commitFull]
  rfl

theorem Standing.of_mod_eq_zero (whole : handled % maxMsg = 0)
    (idle : Idle hdr start (handled / maxMsg) state) : Standing hdr start handled state := by
  unfold Standing
  rwa [if_pos whole]

theorem Standing.of_mod_ne_zero (partly : handled % maxMsg ≠ 0)
    (reserved : Reserved hdr start (handled / maxMsg) (handled % maxMsg) state) :
    Standing hdr start handled state := by
  unfold Standing
  rwa [if_neg partly]

/-- The counters of the buffer agree whatever the batches are. -/
theorem Standing.logPacket (standing : Standing hdr start handled state)
    (granted : (logPacket hdr mode state packet).refused = state.refused) :
    Standing hdr start (handled + 1) (logPacket hdr mode state packet) := by
  rw [refused_logPacket] at granted
  have written : Reserved hdr start (handled / maxMsg) (handled % maxMsg + 1)
      (writeRecord mode packet (UdpServer.reserve hdr packet state)) :=
    (standing.reserve granted).writeRecord
  have below := Nat.mod_lt handled maxMsg_pos
  unfold UdpServer.logPacket
  rcases Nat.lt_or_ge (handled % maxMsg + 1) maxMsg with unused | full
  · have position : (handled + 1) / maxMsg = handled / maxMsg ∧
        (handled + 1) % maxMsg = handled % maxMsg + 1 := by
      unfold maxMsg at *
      omega
    rw [written.commitFull_open unused]
    refine .of_mod_ne_zero (by omega) ?_
    rwa [position.1, position.2]
  · have position : (handled + 1) / maxMsg = handled / maxMsg + 1 ∧ (handled + 1) % maxMsg = 0 := by
      unfold maxMsg at *
      omega
    have last : handled % maxMsg + 1 = maxMsg := by omega
    rw [last] at written
    refine .of_mod_eq_zero position.2 ?_
    rw [position.1]
    exact written.commitFull.1

/-! ### What only grows -/

/-- Commits are final and refusals are counted. -/
structure Extends (first last : Producer) : Prop where
  committed : first.committed <+: last.committed
  refused : first.refused ≤ last.refused

theorem Extends.refl (state : Producer) : Extends state state := ⟨List.prefix_refl _, Nat.le_refl _⟩

theorem Extends.trans {first middle last : Producer} (left : Extends first middle)
    (right : Extends middle last) : Extends first last :=
  ⟨left.committed.trans right.committed, left.refused.trans right.refused⟩

/-- Where nothing is refused in the end, nothing was before. -/
theorem Extends.granted {first middle last : Producer} (left : Extends first middle)
    (right : Extends middle last) (granted : last.refused = first.refused) :
    middle.refused = first.refused ∧ last.refused = middle.refused := by
  have before := left.refused
  have after := right.refused
  omega

theorem extends_reserve : Extends state (reserve hdr packet state) := by
  unfold reserve
  dsimp only
  split
  · split
    · exact ⟨List.prefix_refl _, Nat.le_refl _⟩
    · exact ⟨List.prefix_refl _, Nat.le_succ _⟩
  · exact ⟨List.prefix_refl _, Nat.le_refl _⟩

theorem extends_commitFull : Extends state (commitFull hdr state) := by
  refine ⟨?_, refused_commitFull.ge⟩
  unfold commitFull
  split
  · dsimp only
    split
    · exact List.prefix_append _ _
    · exact List.prefix_refl _
  · exact List.prefix_refl _

theorem extends_logPacket : Extends state (logPacket hdr mode state packet) := by
  have written : Extends (reserve hdr packet state)
      (writeRecord mode packet (reserve hdr packet state)) :=
    ⟨List.prefix_refl _, Nat.le_refl _⟩
  exact (extends_reserve.trans written).trans extends_commitFull

theorem extends_logPackets (packets : List Packet) :
    Extends state (packets.foldl (logPacket hdr mode) state) := by
  induction packets generalizing state with
  | nil => exact .refl _
  | cons packet rest inductionHypothesis => exact extends_logPacket.trans inductionHypothesis

theorem extends_receiveBatch (packets : List Packet) :
    Extends state (receiveBatch hdr mode state packets) := by
  have logged : Extends { state with logstrIndex := 0 }
      (packets.foldl (logPacket hdr mode) { state with logstrIndex := 0 }) :=
    extends_logPackets packets
  exact ⟨logged.committed, logged.refused⟩

theorem extends_listenAndReply (batches : List (List Packet)) :
    Extends state (listenAndReply hdr mode state batches) := by
  induction batches generalizing state with
  | nil => exact .refl _
  | cons batch rest inductionHypothesis =>
      exact (extends_receiveBatch batch).trans inductionHypothesis

/-! ### Counters of a run -/

/-- Where the loop stands does not depend on the counters of the batch. -/
theorem Standing.setBatch (standing : Standing hdr start handled state)
    (logstrIndex invalidCount msgOut : Nat) : Standing hdr start handled
      { state with
        logstrIndex := logstrIndex
        invalidCount := invalidCount
        msgOut := msgOut } := by
  unfold Standing at standing
  split at standing
  case isTrue whole =>
    exact .of_mod_eq_zero whole
      ⟨standing.available, standing.head, standing.commit, standing.commits⟩
  case isFalse partly =>
    exact .of_mod_ne_zero partly
      ⟨standing.available, standing.head, standing.commit, standing.commits, standing.bases⟩

theorem Standing.logPackets (packets : List Packet) (standing : Standing hdr start handled state)
    (granted : (packets.foldl (UdpServer.logPacket hdr mode) state).refused = state.refused) :
    Standing hdr start (handled + packets.length)
      (packets.foldl (UdpServer.logPacket hdr mode) state) := by
  induction packets generalizing state handled with
  | nil => exact standing
  | cons packet rest inductionHypothesis =>
      rw [List.foldl_cons] at granted ⊢
      rcases extends_logPacket.granted (extends_logPackets rest) granted with ⟨first, later⟩
      rw [List.length_cons, Nat.add_comm rest.length, ← Nat.add_assoc]
      exact inductionHypothesis (standing.logPacket first) later

theorem Standing.receiveBatch (packets : List Packet) (standing : Standing hdr start handled state)
    (granted : (receiveBatch hdr mode state packets).refused = state.refused) :
    Standing hdr start (handled + packets.length) (receiveBatch hdr mode state packets) :=
  ((standing.setBatch 0 state.invalidCount state.msgOut).logPackets packets granted).setBatch _ _ _

theorem Standing.listenAndReply (batches : List (List Packet))
    (standing : Standing hdr start handled state)
    (granted : (listenAndReply hdr mode state batches).refused = state.refused) :
    Standing hdr start (handled + batches.flatten.length)
      (listenAndReply hdr mode state batches) := by
  induction batches generalizing state handled with
  | nil => exact standing
  | cons batch rest inductionHypothesis =>
      rcases (extends_receiveBatch batch).granted (extends_listenAndReply rest) granted with
        ⟨first, later⟩
      rw [List.flatten_cons, List.length_append, ← Nat.add_assoc]
      exact inductionHypothesis (standing.receiveBatch batch first) later

end Standing

/-! ### Filling one reservation within a batch -/

/-- The first `used` packets of the batch are in their lines. -/
structure Filling (hdr : Header) (mode : Mode) (start window : Nat) (batch : List Packet)
    (used : Nat) (state : Producer) : Prop where
  reserved : Reserved hdr start window used state
  index : state.logstrIndex = used
  count : state.invalidCount = used
  lens : ∀ offset < used, ∀ packet, batch[offset]? = some packet →
    (state.logIovs offset).len = recordLen mode packet
  stored : ∀ offset < used, ∀ packet, batch[offset]? = some packet →
    Stored state.segment.data (slotBase hdr (windowSlot hdr start window offset))
      (recordFields mode packet)

/-- The lines of one commit are the records of one batch. -/
def BatchLines (mode : Mode) (batch : List Packet) (lines : List (List UInt8)) : Prop :=
  lines.length = maxMsg ∧ ∀ (offset : Nat) line packet, lines[offset]? = some line →
    batch[offset]? = some packet → IsRecord mode packet line

section Filling

variable {hdr : Header} {mode : Mode} {start window used : Nat} {state : Producer}
  {batch : List Packet} {packet : Packet}

/-- The bytes of a line are no widths. -/
theorem putWidths_line (fits : hdr.Fits) (reserved : Reserved hdr start window used state)
    {slot location : Nat} (after : slotBase hdr slot ≤ location)
    (before : location < slotBase hdr slot + hdr.lineSize) :
    widthsStored state location = state.segment.data location := by
  apply foldl_putWidth_of_ne
  intro iovec member
  rcases List.mem_map.mp member with ⟨offset, inside, rfl⟩
  rw [reserved.bases offset (List.mem_range.mp inside)]
  generalize windowSlot hdr start window offset = other
  by_cases same : other = slot
  · have base := slotBase_eq fits slot
    rw [same]
    omega
  · have apart := slotBase_apart fits same
    omega

/-- The next packet of the batch takes the next line. -/
theorem Filling.writeRecord (adequate : Adequate hdr mode)
    (filling : Filling hdr mode start window batch used state) (unused : used < maxMsg)
    (next : batch[used]? = some packet) :
    Filling hdr mode start window batch (used + 1) (writeRecord mode packet state) := by
  have base : (state.logIovs state.logstrIndex).base =
      slotBase hdr (windowSlot hdr start window used) := by
    rw [filling.index]
    exact filling.reserved.bases used unused
  have lenIndex : (if mode.binary then state.invalidCount else state.logstrIndex) = used := by
    rw [filling.index, filling.count, ite_self]
  refine ⟨filling.reserved.writeRecord, congrArg (· + 1) filling.index,
    congrArg (· + 1) filling.count, ?_, ?_⟩
  · intro offset inside other isOther
    simp only [UdpServer.writeRecord, lenIndex]
    by_cases same : offset = used
    · rw [same] at isOther ⊢
      rw [Function.update_self, Option.some.inj (next.symm.trans isOther)]
    · rw [Function.update_of_ne same]
      exact filling.lens offset (by omega) other isOther
  · intro offset inside other isOther
    simp only [UdpServer.writeRecord, base]
    by_cases same : offset = used
    · rw [same] at isOther ⊢
      rw [Option.some.inj (next.symm.trans isOther)]
      exact stored_storeFields (ordered_recordFields mode other)
    · refine (filling.stored offset (by omega) other isOther).congr
        (within_recordFields mode other) fun location after before => ?_
      have different : windowSlot hdr start window offset ≠ windowSlot hdr start window used :=
        fun equal => same (windowSlot_inj adequate.lines (by omega) unused equal)
      have apart := slotBase_apart adequate.fits different
      have room := adequate.record
      exact storeFields_outside (within_recordFields mode packet) (by omega)

/-- The reserved addresses are apart. -/
theorem Reserved.bases_apart (adequate : Adequate hdr mode)
    (reserved : Reserved hdr start window used state) :
    (((List.range maxMsg).map state.logIovs).map Iovec.base).Pairwise
      fun left right => left + 2 ≤ right ∨ right + 2 ≤ left := by
  rw [List.map_map, List.pairwise_map]
  have distinct : (List.range maxMsg).Pairwise fun left right => left ≠ right := List.nodup_range
  apply distinct.imp_of_mem
  intro left right leftIn rightIn different
  have leftBelow := List.mem_range.mp leftIn
  have rightBelow := List.mem_range.mp rightIn
  have slots : windowSlot hdr start window left ≠ windowSlot hdr start window right :=
    fun equal => different (windowSlot_inj adequate.lines leftBelow rightBelow equal)
  have apart := slotBase_apart adequate.fits slots
  simp only [Function.comp_apply]
  rw [reserved.bases left leftBelow, reserved.bases right rightBelow]
  omega

/-- The committed line of a packet is its record. -/
theorem Filling.isRecord (adequate : Adequate hdr mode) (full : batch.length = maxMsg)
    (filling : Filling hdr mode start window batch maxMsg state) {offset : Nat}
    (inside : offset < maxMsg) (isPacket : batch[offset]? = some packet) :
    IsRecord mode packet
      (slotLine hdr (widthsStored state) (windowSlot hdr start window offset)) := by
  have base := filling.reserved.bases offset inside
  have narrow : ∀ iovec ∈ (List.range maxMsg).map state.logIovs,
      2 ≤ iovec.base ∧ iovec.len < 2 ^ 16 := by
    intro iovec member
    rcases List.mem_map.mp member with ⟨other, otherIn, rfl⟩
    have below := List.mem_range.mp otherIn
    have present : batch[other]? = some (batch.get ⟨other, by omega⟩) :=
      List.getElem?_eq_getElem (by omega)
    rw [filling.reserved.bases other below, slotBase_eq adequate.fits,
      filling.lens other below _ present]
    exact ⟨Nat.le_add_left _ _, recordLen_lt mode _⟩
  have member : state.logIovs offset ∈ (List.range maxMsg).map state.logIovs :=
    List.mem_map_of_mem (List.mem_range.mpr inside)
  have width : lineWidth (widthsStored state) (state.logIovs offset).base =
      (state.logIovs offset).len :=
    lineWidth_foldl_putWidth member (filling.reserved.bases_apart adequate) narrow
  rw [base, filling.lens offset inside packet isPacket] at width
  have stored : Stored (widthsStored state) (slotBase hdr (windowSlot hdr start window offset))
      (recordFields mode packet) := by
    apply (filling.stored offset inside packet isPacket).congr (within_recordFields mode packet)
    intro location after before
    exact putWidths_line adequate.fits filling.reserved after
      (Nat.lt_of_lt_of_le before (Nat.add_le_add_left adequate.record _))
  constructor
  · rw [length_slotLine, width]
  · intro field isField index byte present
    have inBytes : index < field.bytes.length := (List.getElem?_eq_some_iff.mp present).1
    have inLine := within_recordLen mode packet field isField
    unfold slotLine Iovec.bytes
    dsimp only
    rw [width, List.getElem?_map, List.getElem?_range (by omega), Option.map_some,
      ← Nat.add_assoc, stored field isField index byte present]

theorem getElem?_committedLines {data : Data} {offset : Nat} (inside : offset < maxMsg) :
    (committedLines hdr data (windowSlot hdr start window 0))[offset]? =
      some (slotLine hdr data (windowSlot hdr start window offset)) := by
  unfold committedLines
  rw [List.getElem?_map, List.getElem?_range inside, Option.map_some, wrapLine_windowSlot]

/-- A reservation filled within one batch is committed with its records. -/
theorem Filling.commitFull (adequate : Adequate hdr mode) (full : batch.length = maxMsg)
    (filling : Filling hdr mode start window batch maxMsg state) :
    ∃ lines, (commitFull hdr state).committed = state.committed ++ [lines] ∧
      BatchLines mode batch lines := by
  refine ⟨_, filling.reserved.commitFull.2, by simp [committedLines], ?_⟩
  intro offset line packet isLine isPacket
  have inside : offset < maxMsg := by
    rw [← full]
    exact (List.getElem?_eq_some_iff.mp isPacket).1
  rw [getElem?_committedLines inside] at isLine
  rw [← Option.some.inj isLine]
  exact filling.isRecord adequate full inside isPacket

theorem Filling.setReaders (filling : Filling hdr mode start window batch used state)
    (readers : Nat → ReaderPointer) : Filling hdr mode start window batch used
      { state with segment := { state.segment with readers := readers } } :=
  ⟨filling.reserved.setReaders readers, filling.index, filling.count, filling.lens, filling.stored⟩

theorem committed_reserve : (reserve hdr packet state).committed = state.committed := by
  unfold reserve
  dsimp only
  split
  · split <;> rfl
  · rfl

/-- The rest of a batch that fills a reservation. -/
theorem Filling.logPackets (adequate : Adequate hdr mode) (full : batch.length = maxMsg)
    {rest : List Packet} (remaining : batch.drop used = packet :: rest)
    (filling : Filling hdr mode start window batch used (reserve hdr packet state)) :
    ∃ lines, ((packet :: rest).foldl (logPacket hdr mode) state).committed =
        state.committed ++ [lines] ∧ BatchLines mode batch lines := by
  induction rest generalizing used packet state with
  | nil =>
      have last : used + 1 = maxMsg := by
        have length := congrArg List.length remaining
        rw [List.length_drop, List.length_singleton] at length
        omega
      have next : batch[used]? = some packet := by
        rw [← List.head?_drop, remaining, List.head?_cons]
      have written := filling.writeRecord adequate (by omega) next
      rw [last] at written
      rcases written.commitFull adequate full with ⟨lines, appended, held⟩
      refine ⟨lines, appended.trans ?_, held⟩
      exact congrArg (· ++ [lines]) committed_reserve
  | cons following rest inductionHypothesis =>
      have length := congrArg List.length remaining
      rw [List.length_drop, List.length_cons, List.length_cons] at length
      have next : batch[used]? = some packet := by
        rw [← List.head?_drop, remaining, List.head?_cons]
      have written := filling.writeRecord adequate (by omega) next
      have unchanged : logPacket hdr mode state packet =
          UdpServer.writeRecord mode packet (reserve hdr packet state) :=
        written.reserved.commitFull_open (by omega)
      have later : batch.drop (used + 1) = following :: rest := by
        rw [← List.tail_drop, remaining, List.tail_cons]
      have kept : (logPacket hdr mode state packet).committed = state.committed := by
        rw [unchanged]
        exact committed_reserve
      have again : Filling hdr mode start window batch (used + 1)
          (reserve hdr following (logPacket hdr mode state packet)) := by
        rw [unchanged, written.reserved.reserve (by omega)]
        exact written.setReaders _
      rw [List.foldl_cons, ← kept]
      exact inductionHypothesis later again

/-- A batch of `MAX_MSG` packets that finds no reservation is one commit. -/
theorem Idle.receiveBatch (adequate : Adequate hdr mode) (idle : Idle hdr start window state)
    (counted : state.invalidCount = 0) (full : batch.length = maxMsg)
    (granted : (receiveBatch hdr mode state batch).refused = state.refused) :
    ∃ lines, (receiveBatch hdr mode state batch).committed = state.committed ++ [lines] ∧
      BatchLines mode batch lines := by
  cases batch with
  | nil => exact absurd full (by decide)
  | cons packet rest =>
      have begun : Idle hdr start window { state with logstrIndex := 0 } :=
        ⟨idle.available, idle.head, idle.commit, idle.commits⟩
      have first : (logPacket hdr mode { state with logstrIndex := 0 } packet).refused =
          state.refused := (extends_logPacket.granted (extends_logPackets rest) granted).1
      rw [refused_logPacket] at first
      rcases begun.reserve first with ⟨reserved, index, count, -⟩
      have filling : Filling hdr mode start window (packet :: rest) 0
          (UdpServer.reserve hdr packet { state with logstrIndex := 0 }) := by
        refine ⟨reserved, index, count.trans counted, ?_, ?_⟩ <;>
        · intro offset inside
          exact absurd inside (Nat.not_lt_zero _)
      exact filling.logPackets adequate full rfl

end Filling

/-! ### Whole runs -/

section Runs

variable {hdr : Header} {mode : Mode} {start window handled : Nat} {state : Producer}

theorem standing_iff_idle :
    Standing hdr start (window * maxMsg) state ↔ Idle hdr start window state := by
  unfold Standing
  rw [Nat.mul_mod_left, if_pos rfl, Nat.mul_div_cancel _ maxMsg_pos]

theorem Standing.commits (standing : Standing hdr start handled state) :
    state.committed.length = handled / maxMsg := by
  unfold Standing at standing
  split at standing
  · exact standing.commits
  · exact standing.commits

theorem LogsEveryPacketOnce.nil {packets : List Packet} (few : packets.length < maxMsg) :
    LogsEveryPacketOnce mode packets [] := by
  constructor
  · rw [Nat.div_eq_of_lt few, List.length_nil]
  · intro index lines present
    simp at present

/-- A commit in front, made from a batch in front. -/
theorem LogsEveryPacketOnce.cons {batch packets : List Packet} {lines : List (List UInt8)}
    {committed : List (List (List UInt8))} (full : batch.length = maxMsg)
    (held : BatchLines mode batch lines) (logged : LogsEveryPacketOnce mode packets committed) :
    LogsEveryPacketOnce mode (batch ++ packets) (lines :: committed) := by
  constructor
  · rw [List.length_cons, List.length_append, full, logged.1, Nat.add_div_left _ maxMsg_pos]
  · intro index commit present
    cases index with
    | zero =>
        rw [List.getElem?_cons_zero, Option.some_inj] at present
        subst present
        refine ⟨held.1, fun offset line packet isLine isPacket => ?_⟩
        have inside : offset < batch.length := by
          rw [full, ← held.1]
          exact (List.getElem?_eq_some_iff.mp isLine).1
        rw [Nat.zero_mul, Nat.zero_add, List.getElem?_append_left inside] at isPacket
        exact held.2 offset line packet isLine isPacket
    | succ index =>
        rw [List.getElem?_cons_succ] at present
        rcases logged.2 index commit present with ⟨length, records⟩
        refine ⟨length, fun offset line packet isLine isPacket => ?_⟩
        have behind : (index + 1) * maxMsg + offset = batch.length + (index * maxMsg + offset) := by
          rw [full, Nat.succ_mul]
          omega
        rw [behind, List.getElem?_append_right (Nat.le_add_right _ _),
          Nat.add_sub_cancel_left] at isPacket
        exact records offset line packet isLine isPacket

/-- Batches that fill their reservations, followed by fewer than `MAX_MSG`
packets, are logged as they should. -/
theorem Idle.listenAndReply (adequate : Adequate hdr mode) {batches : List (List Packet)}
    (whole : WholeBatches (batches.map List.length)) (idle : Idle hdr start window state)
    (counted : state.invalidCount = 0)
    (granted : (listenAndReply hdr mode state batches).refused = state.refused) :
    ∃ commits, (listenAndReply hdr mode state batches).committed = state.committed ++ commits ∧
      LogsEveryPacketOnce mode batches.flatten commits := by
  induction batches generalizing state window with
  | nil => exact ⟨[], (List.append_nil _).symm, .nil maxMsg_pos⟩
  | cons batch rest inductionHypothesis =>
      have standing := standing_iff_idle.mpr idle
      by_cases full : batch.length = maxMsg
      · rcases (extends_receiveBatch batch).granted (extends_listenAndReply rest) granted with
          ⟨accepted, later⟩
        have next : Idle hdr start (window + 1) (UdpServer.receiveBatch hdr mode state batch) := by
          have moved := standing.receiveBatch batch accepted
          rw [full, ← Nat.succ_mul] at moved
          exact standing_iff_idle.mp moved
        have wholeRest : WholeBatches (rest.map List.length) := by
          unfold WholeBatches at whole ⊢
          rwa [List.map_cons, full, List.dropWhile_cons_of_pos (by simp)] at whole
        rcases idle.receiveBatch adequate counted full accepted with ⟨lines, appended, held⟩
        rcases inductionHypothesis wholeRest next rfl later with
          ⟨commits, moreAppended, logged⟩
        refine ⟨lines :: commits, ?_, ?_⟩
        · rw [List.append_cons, ← appended]
          exact moreAppended
        · rw [List.flatten_cons]
          exact .cons full held logged
      · have few : (batch :: rest).flatten.length < maxMsg := by
          unfold WholeBatches at whole
          rw [List.map_cons, List.dropWhile_cons_of_neg (by simpa using full), ← List.map_cons,
            ← List.length_flatten] at whole
          exact whole
        have stays := (standing.listenAndReply (batch :: rest) granted).commits
        have grows : Extends state (UdpServer.listenAndReply hdr mode state (batch :: rest)) :=
          extends_listenAndReply _
        refine ⟨[], ?_, .nil few⟩
        rw [List.append_nil]
        symm
        apply grows.committed.eq_of_length
        rw [stays, idle.commits, Nat.mul_comm, Nat.mul_add_div maxMsg_pos, Nat.div_eq_of_lt few,
          Nat.add_zero]

end Runs

end FipsIpc.UdpServer
