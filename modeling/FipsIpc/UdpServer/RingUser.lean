import FipsIpc.FipsBuf.ZeroCopy
import FipsIpc.UdpServer.Producer
import Mathlib.Data.List.Forall2

/-!
Contract: `listen_and_reply` of `programs/udp_server.c` as the writer of a segment
that others read meanwhile.

Owns: one packet of a full receive batch, what the loop keeps true of its segment
and of the packets so far, and that every line it commits is the record of its
packet.

With `MSG_WAITALL` a call of `recvmmsg` returns with `MAX_MSG` packets, so that
the counters start again after as many.  Between two packets the readers take and
return lines; the bytes of the segment are the writer's alone.

Does not own: batches that are cut short, and refused reservations.
-/

set_option autoImplicit false

namespace FipsIpc.UdpServer

open FipsIpc.FipsBuf
open FipsIpc.Lib.RingLog

/-- After a full batch the next one begins. -/
def Producer.nextBatch (producer : Producer) : Producer :=
  if producer.invalidCount = maxMsg then
    { producer with
      logstrIndex := 0
      msgOut := producer.msgOut + producer.invalidCount
      invalidCount := 0 }
  else producer

/-- The writer of a segment before a packet: its variables and the segment as it
is now. -/
def Producer.onto (producer : Producer) (segment : Segment) : Producer :=
  { producer.nextBatch with segment := segment }

/-- A packet and the readers it is handled beside. -/
def Packet.beside (packet : Packet) (segment : Segment) : Packet :=
  { packet with readers := segment.readers }

/-- The loop body of `listen_and_reply` for a packet. -/
def receivePacket (hdr : Header) (mode : Mode) (segment : Segment) (producer : Producer)
    (packet : Packet) : Producer :=
  logPacket hdr mode (producer.onto segment) (packet.beside segment)

/-- A reservation leaves a line free, and a line takes a record with its length. -/
structure RingFits (hdr : Header) (mode : Mode) : Prop where
  fits : hdr.Fits
  lines : maxMsg < hdr.lineCount
  room : (if mode.binary then sizeofBinMessage else recordExtent mode) ≤ hdr.lineSize

instance (hdr : Header) (mode : Mode) : Decidable (RingFits hdr mode) :=
  decidable_of_iff (hdr.Fits ∧ maxMsg < hdr.lineCount ∧
    (if mode.binary then sizeofBinMessage else recordExtent mode) ≤ hdr.lineSize)
    ⟨fun fits => ⟨fits.1, fits.2.1, fits.2.2⟩, fun fits => ⟨fits.fits, fits.lines, fits.room⟩⟩

section RingFits

variable {hdr : Header} {mode : Mode}

theorem RingFits.recordLen_le (fits : RingFits hdr mode) (packet : Packet) :
    recordLen mode packet ≤ hdr.lineSize := by
  refine Nat.le_trans ?_ fits.room
  have short := length_logstrShort_le packet.addr
  have long := length_logstrLong packet.date packet.addr
  have bound := length_addressStr_le packet.addr
  rcases mode with ⟨_ | _, _ | _⟩
  · simp only [recordLen, recordExtent, Bool.false_eq_true, if_false]
    omega
  · simpa [recordLen, recordExtent] using short
  · exact Nat.le_refl _
  · exact Nat.le_refl _

theorem RingFits.adequate (fits : RingFits hdr mode) : Adequate hdr mode := by
  refine ⟨fits.fits, fits.lines.le, Nat.le_trans ?_ fits.room⟩
  rcases mode with ⟨_ | _, _ | _⟩ <;> decide

theorem RingFits.batchSize (fits : RingFits hdr mode) : BufferHistory.BatchSize hdr maxMsg :=
  ⟨maxMsg_pos, fits.lines, by decide⟩

end RingFits

/-! ### The writer between two packets -/

/-- The packets `done` are committed and those of `current` are in the lines of the
open reservation, or there is none. -/
structure Logging (hdr : Header) (mode : Mode) (history : SegmentHistory) (producer : Producer)
    (window : Nat) (done current : List Packet) : Prop where
  whole : done.length = window * maxMsg
  records : List.Forall₂ (IsRecord mode) done history.committed
  place :
    (current = [] ∧ history.reserved = [] ∧
      Idle hdr 0 window (producer.onto history.segment) ∧
      (producer.onto history.segment).invalidCount = 0) ∨
    (current.length < maxMsg ∧ history.reserved.length = maxMsg ∧
      Filling hdr mode 0 window current current.length (producer.onto history.segment))

section Writer

variable {hdr : Header} {mode : Mode} {history : SegmentHistory} {producer : Producer}
  {index window : Nat} {done current : List Packet} {packet : Packet}

/-- A committed line is the record of the packet at its position. -/
theorem Logging.isRecord (logging : Logging hdr mode history producer window done current)
    {position : Nat} {line : List UInt8} (committed : history.committed[position]? = some line) :
    ∃ packet, (done ++ current)[position]? = some packet ∧ IsRecord mode packet line := by
  obtain ⟨inside, rfl⟩ := List.getElem?_eq_some_iff.mp committed
  have below : position < done.length := by
    rw [logging.records.length_eq]
    exact inside
  refine ⟨done[position], ?_, logging.records.get below inside⟩
  rw [List.getElem?_append_left below, List.getElem?_eq_getElem below]

/-- The writer after its reservation: a line is open for the packet. -/
structure Ready (hdr : Header) (mode : Mode) (index : Nat) (history : SegmentHistory)
    (producer : Producer) (window : Nat) (done current : List Packet) (packet : Packet) : Prop where
  inv : history.Inv hdr index
  segment : producer.segment = history.segment
  whole : done.length = window * maxMsg
  records : List.Forall₂ (IsRecord mode) done history.committed
  room : current.length < maxMsg
  reserved : history.reserved.length = maxMsg
  filling : Filling hdr mode 0 window (current ++ [packet]) current.length producer

/-- The other sides of the history are left alone. -/
structure OnlyWriter (history next : SegmentHistory) : Prop where
  received : next.received = history.received
  outstanding : next.outstanding = history.outstanding

theorem Filling.extend {used : Nat} {state : Producer}
    (filling : Filling hdr mode 0 window current used state) (inside : used ≤ current.length)
    (packet : Packet) : Filling hdr mode 0 window (current ++ [packet]) used state := by
  have same {offset : Nat} (below : offset < used) :
      (current ++ [packet])[offset]? = current[offset]? :=
    List.getElem?_append_left (by omega)
  refine ⟨filling.reserved, filling.index, filling.count, ?_, ?_⟩
  · intro offset below other isOther
    rw [same below] at isOther
    exact filling.lens offset below other isOther
  · intro offset below other isOther
    rw [same below] at isOther
    exact filling.stored offset below other isOther

/-- A reservation is open, or it is granted now. -/
theorem Logging.reserve (logging : Logging hdr mode history producer window done current)
    (inv : history.Inv hdr index) (blocking : hdr.overwrite = false) (fits : RingFits hdr mode)
    (granted : (UdpServer.reserve hdr (packet.beside history.segment)
      (producer.onto history.segment)).refused = (producer.onto history.segment).refused) :
    ∃ next, Ready hdr mode index next
        (UdpServer.reserve hdr (packet.beside history.segment) (producer.onto history.segment))
        window done current (packet.beside history.segment) ∧
      OnlyWriter history next := by
  rcases logging.place with ⟨nothing, free, idle, count⟩ | ⟨room, reserved, filling⟩
  · obtain ⟨open', position, counted, commits⟩ := idle.reserve granted
    have empty : (producer.onto history.segment).availableIovs < 1 := by
      rw [idle.available]
      exact Nat.one_pos
    have ok : ∃ iov segment, fipsGetWriteBuffer hdr history.segment maxMsg = .ok (iov, segment) ∧
        (UdpServer.reserve hdr (packet.beside history.segment)
          (producer.onto history.segment)).segment = segment := by
      unfold UdpServer.reserve at granted ⊢
      rw [if_pos empty] at granted
      rw [if_pos empty]
      cases outcome : fipsGetWriteBuffer hdr history.segment maxMsg with
      | error code =>
          have refused : fipsGetWriteBuffer hdr
              { (producer.onto history.segment).segment with
                readers := (packet.beside history.segment).readers } maxMsg = .error code := outcome
          rw [refused] at granted
          exact absurd granted (Nat.succ_ne_self _)
      | ok result =>
          have accepted : fipsGetWriteBuffer hdr
              { (producer.onto history.segment).segment with
                readers := (packet.beside history.segment).readers } maxMsg = .ok result := outcome
          rw [accepted]
          exact ⟨result.1, result.2, rfl, rfl⟩
    obtain ⟨iov, segment, ok, after⟩ := ok
    have kept := inv.getWriteBuffer blocking free fits.batchSize ok
    refine ⟨{ history with segment := segment, reserved := iov }, ?_, ⟨rfl, rfl⟩⟩
    refine ⟨kept, after, logging.whole, logging.records, ?_, ?_, ?_⟩
    · rw [nothing]
      exact maxMsg_pos
    · exact (inv.getWriteBuffer_ok blocking fits.batchSize ok).1
    · rw [nothing]
      refine ⟨open', position, counted.trans count, ?_, ?_⟩
      · exact fun offset below => absurd below (Nat.not_lt_zero _)
      · exact fun offset below => absurd below (Nat.not_lt_zero _)
  · have same : UdpServer.reserve hdr (packet.beside history.segment)
        (producer.onto history.segment) = producer.onto history.segment :=
      filling.reserved.reserve room
    rw [same]
    exact ⟨history, ⟨inv, rfl, logging.whole, logging.records, room, reserved,
      filling.extend (Nat.le_refl _) _⟩, rfl, rfl⟩

/-- The slots of the writer are those of the history. -/
theorem Ready.slot (ready : Ready hdr mode index history producer window done current packet)
    (offset : Nat) :
    windowSlot hdr 0 window offset = (history.committed.length + offset) % hdr.lineCount := by
  rw [windowSlot, Nat.zero_add, ← ready.whole, ready.records.length_eq]

/-- The record goes into a reserved line. -/
theorem Ready.write (ready : Ready hdr mode index history producer window done current packet)
    (fits : RingFits hdr mode) :
    let next : SegmentHistory :=
      { history with segment := (writeRecord mode packet producer).segment }
    next.Inv hdr index ∧
      Filling hdr mode 0 window (current ++ [packet]) (current.length + 1)
        (writeRecord mode packet producer) := by
  have base : (producer.logIovs producer.logstrIndex).base =
      slotBase hdr ((history.committed.length + current.length) % hdr.lineCount) := by
    rw [ready.filling.index, ready.filling.reserved.bases _ ready.room, ready.slot]
  have present : (current ++ [packet])[current.length]? = some packet := by
    rw [List.getElem?_append_right (Nat.le_refl _), Nat.sub_self]
    rfl
  refine ⟨?_, ready.filling.writeRecord fits.adequate ready.room present⟩
  -- the reserved line that the record goes to
  obtain ⟨iovec, member, isBase⟩ : ∃ iovec ∈ history.reserved,
      iovec.base = (producer.logIovs producer.logstrIndex).base := by
    have listed : (producer.logIovs producer.logstrIndex).base ∈
        history.reserved.map Iovec.base := by
      rw [ready.inv.reserved, base, ready.reserved]
      exact List.mem_map_of_mem (List.mem_range.mpr ready.room)
    exact List.mem_map.mp listed
  have stored : (writeRecord mode packet producer).segment =
      { history.segment with
        data := storeFields history.segment.data (producer.logIovs producer.logstrIndex).base
          (recordFields mode packet) } := by
    rw [← ready.segment]
    rfl
  rw [stored]
  apply ready.inv.withData
  apply ready.inv.retains_of_reserved fits.fits
  intro address changed
  refine ⟨iovec, member, ?_⟩
  by_contra outside
  apply changed
  have room := fits.adequate.record
  exact storeFields_outside (within_recordFields mode packet) (by omega)

/-- A full reservation is committed with the records of its packets. -/
theorem commitFull_records {batch : List Packet} (inv : history.Inv hdr index)
    (fits : RingFits hdr mode) (segment : producer.segment = history.segment)
    (start : history.committed.length = window * maxMsg)
    (reserved : history.reserved.length = maxMsg)
    (full : batch.length = maxMsg)
    (filling : Filling hdr mode 0 window batch maxMsg producer) :
    ∃ lines, List.Forall₂ (IsRecord mode) batch lines ∧
      SegmentHistory.Inv hdr index
        { history with
          segment := (commitFull hdr producer).segment
          committed := history.committed ++ lines
          reserved := [] } := by
  let iov := (List.range maxMsg).map producer.logIovs
  have slot (offset : Nat) :
      windowSlot hdr 0 window offset = (history.committed.length + offset) % hdr.lineCount := by
    rw [windowSlot, Nat.zero_add, start]
  have bases : iov.map Iovec.base = history.reserved.map Iovec.base := by
    rw [inv.reserved, reserved, List.map_map]
    apply List.map_congr_left
    intro offset member
    rw [← slot]
    exact filling.reserved.bases offset (List.mem_range.mp member)
  have lens (offset : Nat) (inside : offset < maxMsg) :
      ∃ packet, batch[offset]? = some packet ∧
        (producer.logIovs offset).len = recordLen mode packet := by
    have present : batch[offset]? = some (batch.get ⟨offset, by omega⟩) :=
      List.getElem?_eq_getElem (by omega)
    exact ⟨_, present, filling.lens offset inside _ present⟩
  have widths : ∀ iovec ∈ iov, iovec.len ≤ hdr.lineSize ∧ iovec.len < 2 ^ 16 := by
    intro iovec member
    obtain ⟨offset, isOffset, rfl⟩ := List.mem_map.mp member
    obtain ⟨packet, -, len⟩ := lens offset (List.mem_range.mp isOffset)
    rw [len]
    exact ⟨fits.recordLen_le packet, recordLen_lt mode packet⟩
  have written := inv.write fits.fits bases widths
  have after : (commitFull hdr producer).segment =
      { history.segment with
        data := iov.foldl putWidth history.segment.data
        commitOffset := (history.committed.length + history.reserved.length) % hdr.lineCount } := by
    have used : producer.availableIovs < 1 := by
      rw [filling.reserved.available, Nat.sub_self]
      exact Nat.one_pos
    have length : iov.length = history.reserved.length := by
      rw [reserved, List.length_map, List.length_range]
    unfold commitFull
    rw [if_pos used, segment, inv.fipsBufWrite_eq length]
  rw [after]
  refine ⟨iov.map (Iovec.bytes history.segment.data), ?_, written⟩
  rw [List.forall₂_iff_get]
  refine ⟨?_, fun offset inBatch inLines => ?_⟩
  · rw [List.length_map, List.length_map, List.length_range, full]
  · have inside : offset < maxMsg := by omega
    have isLine : iov[offset]? = some (producer.logIovs offset) := by
      rw [List.getElem?_map, List.getElem?_range inside, Option.map_some]
    have present : batch[offset]? = some (batch.get ⟨offset, inBatch⟩) :=
      List.getElem?_eq_getElem inBatch
    have record := filling.isRecord fits.adequate full inside present
    have line : slotLine hdr (widthsStored producer) (windowSlot hdr 0 window offset) =
        Iovec.bytes history.segment.data (producer.logIovs offset) := by
      rw [slot, widthsStored, segment]
      exact inv.slotLine_committed fits.fits bases widths isLine
    rw [line] at record
    simpa [iov] using record

theorem Producer.nextBatch_open (unfinished : producer.invalidCount ≠ maxMsg) :
    producer.nextBatch = producer :=
  if_neg unfinished

/-- The writer's variables when it looks at its own segment again. -/
theorem Producer.onto_self (producer : Producer) :
    producer.onto producer.segment = producer.nextBatch := by
  unfold Producer.onto Producer.nextBatch
  split <;> rfl

theorem invalidCount_commitFull :
    (UdpServer.commitFull hdr producer).invalidCount = producer.invalidCount := by
  unfold UdpServer.commitFull
  split <;> rfl

/-- One packet: its line is filled, and a reservation that is used up is committed. -/
theorem Logging.receivePacket (logging : Logging hdr mode history producer window done current)
    (inv : history.Inv hdr index) (blocking : hdr.overwrite = false) (fits : RingFits hdr mode)
    (granted : (UdpServer.reserve hdr (packet.beside history.segment)
      (producer.onto history.segment)).refused = (producer.onto history.segment).refused) :
    ∃ next window' done' current', next.Inv hdr index ∧ OnlyWriter history next ∧
      next.segment = (UdpServer.receivePacket hdr mode history.segment producer packet).segment ∧
      done' ++ current' = done ++ current ++ [packet.beside history.segment] ∧
      Logging hdr mode next (UdpServer.receivePacket hdr mode history.segment producer packet)
        window' done' current' := by
  obtain ⟨middle, ready, only⟩ := logging.reserve inv blocking fits granted
  obtain ⟨written, filling⟩ := ready.write fits
  unfold UdpServer.receivePacket logPacket
  generalize UdpServer.reserve hdr (packet.beside history.segment)
    (producer.onto history.segment) = reserved at ready written filling
  generalize wrote : writeRecord mode (packet.beside history.segment) reserved = after
    at written filling
  have count : after.invalidCount = current.length + 1 := filling.count
  rcases Nat.lt_or_ge (current.length + 1) maxMsg with unused | full
  · rw [filling.reserved.commitFull_open unused]
    refine ⟨_, window, done, current ++ [packet.beside history.segment], written,
      ⟨only.received, only.outstanding⟩, rfl, (List.append_assoc _ _ _).symm, ready.whole,
      ready.records, Or.inr ⟨?_, ready.reserved, ?_⟩⟩
    · rw [List.length_append]
      exact unused
    · rw [List.length_append, after.onto_self, Producer.nextBatch_open (by omega)]
      exact filling
  · have last : current.length + 1 = maxMsg := by
      have room := ready.room
      omega
    have batch : (current ++ [packet.beside history.segment]).length = maxMsg := by
      rw [List.length_append]
      exact last
    rw [last] at filling
    have start : middle.committed.length = window * maxMsg :=
      ready.records.length_eq.symm.trans ready.whole
    obtain ⟨lines, records, committed⟩ :=
      commitFull_records written fits rfl start ready.reserved batch filling
    refine ⟨_, window + 1, done ++ (current ++ [packet.beside history.segment]), [], committed,
      ⟨only.received, only.outstanding⟩, rfl, ?_, ?_, ?_, Or.inl ⟨rfl, rfl, ?_, ?_⟩⟩
    · rw [List.append_nil, List.append_assoc]
    · rw [List.length_append, batch, ready.whole, Nat.succ_mul]
    · exact List.rel_append ready.records records
    · rw [Producer.onto_self]
      have idle := filling.reserved.commitFull.1
      unfold Producer.nextBatch
      split
      · exact ⟨idle.available, idle.head, idle.commit, idle.commits⟩
      · exact idle
    · rw [Producer.onto_self]
      have counted := @invalidCount_commitFull hdr after
      rw [count, last] at counted
      unfold Producer.nextBatch
      rw [if_pos counted]

/-- Readers take lines and return them without the writer. -/
theorem Logging.withReaders {next : SegmentHistory}
    (logging : Logging hdr mode history producer window done current)
    (segment : next.segment = { history.segment with readers := next.segment.readers })
    (committed : next.committed = history.committed) (reserved : next.reserved = history.reserved) :
    Logging hdr mode next producer window done current := by
  have onto : producer.onto next.segment =
      { producer.onto history.segment with
        segment := { (producer.onto history.segment).segment with
          readers := next.segment.readers } } := by
    rw [segment]
    rfl
  refine ⟨logging.whole, by rw [committed]; exact logging.records, ?_⟩
  rw [onto, reserved]
  rcases logging.place with ⟨nothing, free, idle, count⟩ | ⟨room, length, filling⟩
  · exact Or.inl ⟨nothing, free, ⟨idle.available, idle.head, idle.commit, idle.commits⟩, count⟩
  · exact Or.inr ⟨room, length, filling.setReaders _⟩

/-- The loop is entered with nothing logged. -/
theorem Logging.attached (hdr : Header) (mode : Mode) (data : Data) :
    Logging hdr mode (.created hdr data) (.attached (.created hdr data)) 0 [] [] := by
  refine ⟨rfl, List.Forall₂.nil, Or.inl ⟨rfl, rfl, ⟨rfl, ?_, ?_, rfl⟩, rfl⟩⟩
  · simp [windowSlot, Producer.onto, SegmentHistory.created, Segment.created]
  · simp [windowSlot, Producer.onto, SegmentHistory.created, Segment.created]

end Writer

end FipsIpc.UdpServer
