import FipsIpc.UdpServer.Producer

/-!
Contract: reservations of the producer that span receive batches.

Owns: packets that tell the first client of a reservation from all others, that
a reservation continued in a second batch loses its first record, and the
theorem that the producer logs every packet once exactly when the batches fill
their reservations.

A batch that finds an open reservation starts at its first line again.  The
first line is then written by a later packet, so that it cannot be the record of
the first packet when that one is the only IPv4-mapped client.

Does not own: the loop and its counters.
-/

set_option autoImplicit false

namespace FipsIpc.UdpServer

open FipsIpc.FipsBuf

/-! ### Telling packets -/

def mappedClient : In6Addr := #v[0, 0, 0, 0, 0, 0, 0, 0, 0, 0, 0xff, 0xff, 0, 0, 0, 0]

def otherClient : In6Addr := #v[0, 0, 0, 0, 0, 0, 0, 0, 0, 0, 0, 0, 0, 0, 0, 0]

/-- Packet number `handled`; only the first of reservation `window` is from an
IPv4-mapped client, and the readers have followed the writer. -/
def probe (hdr : Header) (start window handled : Nat) : Packet where
  addr := if handled = window * maxMsg then mappedClient else otherClient
  date := Vector.replicate dateSize 48
  time := 0
  readers := fun _ =>
    ⟨0, (start + handled) % hdr.lineCount, ⟨0, 0, 0, none, fun _ => ⟨.zero, none⟩⟩⟩

/-- Where the two kinds of records differ. -/
def markOffset (mode : Mode) : Nat :=
  match mode.binary, mode.logshort with
  | true, _ => 8
  | false, true => 1
  | false, false => 29

def mappedMark (mode : Mode) : UInt8 := if mode.binary then 4 else dot

def otherMark (mode : Mode) : UInt8 := if mode.binary then 16 else 48

/-- A field has the byte at the offset. -/
def HasByte (fields : List Field) (offset : Nat) (byte : UInt8) : Prop :=
  ∃ field ∈ fields, ∃ index, field.offset + index = offset ∧ field.bytes[index]? = some byte

theorem mark_ne (mode : Mode) : otherMark mode ≠ mappedMark mode := by
  rcases mode with ⟨_ | _, _ | _⟩ <;> decide

theorem markOffset_lt (mode : Mode) : markOffset mode < recordExtent mode := by
  rcases mode with ⟨_ | _, _ | _⟩ <;> decide

theorem hasByte_mapped (mode : Mode) (hdr : Header) (start window : Nat) :
    HasByte (recordFields mode (probe hdr start window (window * maxMsg))) (markOffset mode)
      (mappedMark mode) := by
  have isMapped : (probe hdr start window (window * maxMsg)).addr = mappedClient := if_pos rfl
  rcases mode with ⟨_ | _, _ | _⟩ <;>
    simp only [recordFields, logstrBinShort, logstrBinLong, isMapped]
  · have text : (logstrLong (Vector.replicate dateSize 48) mappedClient)[29]? = some dot := by
      decide
    exact ⟨_, List.mem_singleton_self _, 29, rfl, text⟩
  · exact ⟨_, List.mem_singleton_self _, 1, rfl, by decide⟩
  · exact ⟨⟨8, [4]⟩, List.mem_cons_of_mem _ (by decide), 0, rfl, rfl⟩
  · exact ⟨⟨8, [4]⟩, by decide, 0, rfl, rfl⟩

theorem hasByte_other (mode : Mode) (hdr : Header) {start window handled : Nat}
    (later : handled ≠ window * maxMsg) :
    HasByte (recordFields mode (probe hdr start window handled)) (markOffset mode)
      (otherMark mode) := by
  have isOther : (probe hdr start window handled).addr = otherClient := if_neg later
  rcases mode with ⟨_ | _, _ | _⟩ <;>
    simp only [recordFields, logstrBinShort, logstrBinLong, isOther]
  · have text : (logstrLong (Vector.replicate dateSize 48) otherClient)[29]? = some 48 := by decide
    exact ⟨_, List.mem_singleton_self _, 29, rfl, text⟩
  · exact ⟨_, List.mem_singleton_self _, 1, rfl, by decide⟩
  · exact ⟨⟨8, [16]⟩, List.mem_cons_of_mem _ (by decide), 0, rfl, rfl⟩
  · exact ⟨⟨8, [16]⟩, by decide, 0, rfl, rfl⟩

/-- A stored byte is where its field says. -/
theorem Stored.at_hasByte {data : Data} {base offset : Nat} {fields : List Field} {byte : UInt8}
    (stored : Stored data base fields) (has : HasByte fields offset byte) :
    data (base + offset) = byte := by
  rcases has with ⟨field, member, index, position, present⟩
  rw [← position, ← Nat.add_assoc]
  exact stored field member index byte present

theorem IsRecord.at_hasByte {mode : Mode} {packet : Packet} {bytes : List UInt8} {offset : Nat}
    {byte : UInt8} (isRecord : IsRecord mode packet bytes)
    (has : HasByte (recordFields mode packet) offset byte) : bytes[offset]? = some byte := by
  rcases has with ⟨field, member, index, position, present⟩
  rw [← position]
  exact isRecord.2 field member index byte present

/-! ### Batches of given sizes -/

/-- Consecutive packets in batches of the given sizes. -/
def numbered (packetAt : Nat → Packet) : (handled : Nat) → List Nat → List (List Packet)
  | _, [] => []
  | handled, size :: rest =>
      (List.range' handled size).map packetAt :: numbered packetAt (handled + size) rest

section Numbered

variable {packetAt : Nat → Packet}

theorem map_length_numbered (handled : Nat) (sizes : List Nat) :
    (numbered packetAt handled sizes).map List.length = sizes := by
  induction sizes generalizing handled with
  | nil => rfl
  | cons size rest inductionHypothesis =>
      rw [numbered, List.map_cons, inductionHypothesis, List.length_map, List.length_range']

theorem numbered_append (handled : Nat) (before after : List Nat) :
    numbered packetAt handled (before ++ after) =
      numbered packetAt handled before ++ numbered packetAt (handled + before.sum) after := by
  induction before generalizing handled with
  | nil => rfl
  | cons size rest inductionHypothesis =>
      rw [List.cons_append, numbered, inductionHypothesis, numbered, List.sum_cons,
        List.cons_append, Nat.add_assoc]

theorem getElem?_flatten_numbered (handled : Nat) (sizes : List Nat) {index : Nat}
    (inside : index < sizes.sum) :
    (numbered packetAt handled sizes).flatten[index]? = some (packetAt (handled + index)) := by
  induction sizes generalizing handled index with
  | nil => simp at inside
  | cons size rest inductionHypothesis =>
      rw [List.sum_cons] at inside
      have length : ((List.range' handled size).map packetAt).length = size := by
        rw [List.length_map, List.length_range']
      rw [numbered, List.flatten_cons]
      rcases Nat.lt_or_ge index size with here | later
      · rw [List.getElem?_append_left (by omega), List.getElem?_map, List.getElem?_range' here,
          Option.map_some, Nat.one_mul]
      · rw [List.getElem?_append_right (by omega), length,
          inductionHypothesis (handled + size) (by omega)]
        congr 2
        omega

end Numbered

/-- The batch at which a reservation is left open and later filled. -/
theorem exists_spanning {sizes : List Nat} (spans : ¬ WholeBatches sizes) :
    ∃ window size rest, sizes = List.replicate window maxMsg ++ size :: rest ∧
      size ≠ maxMsg ∧ maxMsg ≤ size + rest.sum := by
  induction sizes with
  | nil => exact absurd maxMsg_pos spans
  | cons size rest inductionHypothesis =>
      unfold WholeBatches at spans
      by_cases full : size = maxMsg
      · rw [full, List.dropWhile_cons_of_pos (by simp)] at spans
        rcases inductionHypothesis spans with ⟨window, first, later, split, facts⟩
        exact ⟨window + 1, first, later, by rw [full, split]; rfl, facts⟩
      · rw [List.dropWhile_cons_of_neg (by simpa using full), List.sum_cons] at spans
        exact ⟨0, size, rest, rfl, full, Nat.le_of_not_lt spans⟩

/-! ### Readers that refuse nothing -/

section Granted

variable {hdr : Header} {mode : Mode} {start window handled : Nat} {state : Producer}

theorem granted_probe (standing : Standing hdr start handled state) :
    (reserve hdr (probe hdr start window handled) state).refused = state.refused := by
  unfold Standing at standing
  split at standing
  case isTrue whole =>
    have position : windowSlot hdr start (handled / maxMsg) 0 =
        (start + handled) % hdr.lineCount := by
      rw [windowSlot, Nat.add_zero, Nat.div_mul_cancel (Nat.dvd_of_mod_eq_zero whole)]
    have head := standing.head
    rw [position] at head
    unfold reserve
    dsimp only
    split
    case isTrue =>
      rw [fipsGetWriteBuffer_eq]
      dsimp only
      rw [if_neg]
      intro refusal
      rcases refusal with ⟨-, reader, -, overtakes⟩
      unfold Overtakes at overtakes
      simp only [probe, head] at overtakes
      omega
    case isFalse => rfl
  case isFalse =>
    rw [Reserved.reserve standing (Nat.mod_lt _ maxMsg_pos)]

theorem granted_probes (size : Nat) (standing : Standing hdr start handled state) :
    (((List.range' handled size).map (probe hdr start window)).foldl (logPacket hdr mode)
      state).refused = state.refused := by
  induction size generalizing handled state with
  | zero => rfl
  | succ size inductionHypothesis =>
      have first : (logPacket hdr mode state (probe hdr start window handled)).refused =
          state.refused := refused_logPacket.trans (granted_probe standing)
      rw [List.range'_succ, List.map_cons, List.foldl_cons,
        inductionHypothesis (standing.logPacket first), first]

theorem granted_numbered (sizes : List Nat) (standing : Standing hdr start handled state) :
    (listenAndReply hdr mode state (numbered (probe hdr start window) handled sizes)).refused =
      state.refused := by
  induction sizes generalizing handled state with
  | nil => rfl
  | cons size rest inductionHypothesis =>
      have first : (receiveBatch hdr mode state
          ((List.range' handled size).map (probe hdr start window))).refused = state.refused :=
        granted_probes size (standing.setBatch 0 state.invalidCount state.msgOut)
      have moved := standing.receiveBatch _ first
      rw [List.length_map, List.length_range'] at moved
      exact (inductionHypothesis moved).trans first

end Granted

/-! ### The lost record -/

/-- The first line of commit `window` is not the record of a mapped client. -/
def FirstLost (mode : Mode) (window : Nat) (committed : List (List (List UInt8))) : Prop :=
  ∃ lines bytes, committed[window]? = some lines ∧ lines[0]? = some bytes ∧
    bytes[markOffset mode]? ≠ some (mappedMark mode)

/-- The first line of reservation `window` holds the record of a later packet. -/
def Overwritten (hdr : Header) (mode : Mode) (start window : Nat) (data : Data) : Prop :=
  data (slotBase hdr (windowSlot hdr start window 0) + markOffset mode) = otherMark mode

/-- Between batches, after reservation `window` was left open. -/
structure Doomed (hdr : Header) (mode : Mode) (start window handled : Nat) (state : Producer) :
    Prop where
  standing : Standing hdr start handled state
  begun : window * maxMsg < handled
  lost : (window + 1) * maxMsg ≤ handled → FirstLost mode window state.committed

/-- Within such a batch: the first line is written first. -/
structure Continued (hdr : Header) (mode : Mode) (start window handled : Nat) (state : Producer) :
    Prop where
  doomed : Doomed hdr mode start window handled state
  first : handled < (window + 1) * maxMsg →
    state.logstrIndex = 0 ∨ Overwritten hdr mode start window state.segment.data

section Lost

variable {hdr : Header} {mode : Mode} {start window handled : Nat} {state : Producer}

theorem FirstLost.extends {later : Producer} (lost : FirstLost mode window state.committed)
    (grows : Extends state later) : FirstLost mode window later.committed := by
  rcases lost with ⟨lines, line, isCommit, facts⟩
  rcases grows.committed with ⟨more, appended⟩
  have inside : window < state.committed.length := (List.getElem?_eq_some_iff.mp isCommit).1
  refine ⟨lines, line, ?_, facts⟩
  rw [← appended, List.getElem?_append_left inside, isCommit]

/-- Any later packet leaves its own kind of record in the first line. -/
theorem overwritten_writeRecord {used : Nat} (adequate : Adequate hdr mode)
    (reserved : Reserved hdr start window used state) (room : state.logstrIndex < maxMsg)
    (later : handled ≠ window * maxMsg)
    (first : state.logstrIndex = 0 ∨ Overwritten hdr mode start window state.segment.data) :
    Overwritten hdr mode start window
      (writeRecord mode (probe hdr start window handled) state).segment.data := by
  have base := reserved.bases state.logstrIndex room
  unfold Overwritten
  simp only [writeRecord, base]
  by_cases isFirst : state.logstrIndex = 0
  · rw [isFirst]
    exact (stored_storeFields (ordered_recordFields mode _)).at_hasByte
      (hasByte_other mode hdr later)
  · have different : windowSlot hdr start window 0 ≠
        windowSlot hdr start window state.logstrIndex :=
      fun equal => isFirst (windowSlot_inj adequate.lines maxMsg_pos room equal).symm
    have apart := slotBase_apart adequate.fits different
    have inside := markOffset_lt mode
    have fits := adequate.record
    rw [storeFields_outside (within_recordFields mode _) (by omega)]
    exact first.resolve_left isFirst

/-- The commit of an overwritten first line loses the record. -/
theorem firstLost_commitFull (adequate : Adequate hdr mode)
    (reserved : Reserved hdr start window maxMsg state)
    (overwritten : Overwritten hdr mode start window state.segment.data) :
    FirstLost mode window (commitFull hdr state).committed := by
  have inside := markOffset_lt mode
  have fits := adequate.record
  have isCommit : (commitFull hdr state).committed[window]? =
      some (committedLines hdr (widthsStored state) (windowSlot hdr start window 0)) := by
    rw [reserved.commitFull.2, List.getElem?_append_right reserved.commits.le, reserved.commits,
      Nat.sub_self, List.getElem?_cons_zero]
  refine ⟨_, _, isCommit, getElem?_committedLines maxMsg_pos, ?_⟩
  unfold slotLine Iovec.bytes
  dsimp only
  rw [List.getElem?_map]
  intro isMapped
  rcases Option.map_eq_some_iff.mp isMapped with ⟨offset, present, byte⟩
  rcases List.getElem?_eq_some_iff.mp present with ⟨below, position⟩
  rw [List.getElem_range] at position
  rw [← position, putWidths_line adequate.fits reserved (Nat.le_add_right _ _) (by omega),
    overwritten] at byte
  exact mark_ne mode byte

theorem logstrIndex_logPacket_le {packet : Packet} :
    (logPacket hdr mode state packet).logstrIndex ≤ state.logstrIndex + 1 := by
  have reserved : (reserve hdr packet state).logstrIndex ≤ state.logstrIndex := by
    unfold reserve
    dsimp only
    split
    · split <;> exact Nat.zero_le _
    · exact Nat.le_refl _
  have committed : (logPacket hdr mode state packet).logstrIndex =
      (reserve hdr packet state).logstrIndex + 1 := by
    unfold logPacket commitFull
    split <;> rfl
  omega

/-- One more packet of a batch that continues reservation `window`. -/
theorem Continued.logPacket (adequate : Adequate hdr mode)
    (continued : Continued hdr mode start window handled state)
    (room : state.logstrIndex < maxMsg) : Continued hdr mode start window (handled + 1)
      (logPacket hdr mode state (probe hdr start window handled)) := by
  have begun := continued.doomed.begun
  have granted : (reserve hdr (probe hdr start window handled) state).refused = state.refused :=
    granted_probe continued.doomed.standing
  have standing : Standing hdr start (handled + 1)
      (UdpServer.logPacket hdr mode state (probe hdr start window handled)) :=
    continued.doomed.standing.logPacket (refused_logPacket.trans granted)
  rcases Nat.lt_or_ge handled ((window + 1) * maxMsg) with inside | past
  · -- The reservation is still open, so the record goes to one of its lines.
    have position : handled / maxMsg = window ∧ handled % maxMsg ≠ 0 := by
      unfold maxMsg at *
      omega
    have reserved := continued.doomed.standing.reserve granted
    rw [position.1] at reserved
    have kept : reserve hdr (probe hdr start window handled) state =
        { state with segment := { state.segment with
          readers := (probe hdr start window handled).readers } } := by
      have before := continued.doomed.standing
      rw [Standing, if_neg position.2] at before
      exact before.reserve (Nat.mod_lt _ maxMsg_pos)
    have overwritten : Overwritten hdr mode start window (writeRecord mode
        (probe hdr start window handled)
        (reserve hdr (probe hdr start window handled) state)).segment.data := by
      apply overwritten_writeRecord adequate reserved _ (by omega) _
      · rw [kept]
        exact room
      · rw [kept]
        exact continued.first inside
    have written : Reserved hdr start window (handled % maxMsg + 1) (writeRecord mode
        (probe hdr start window handled)
        (reserve hdr (probe hdr start window handled) state)) := reserved.writeRecord
    refine ⟨⟨standing, by omega, fun full => ?_⟩, fun unused => Or.inr ?_⟩
    · have last : handled % maxMsg + 1 = maxMsg := by
        unfold maxMsg at *
        omega
      rw [last] at written
      exact firstLost_commitFull adequate written overwritten
    · have unfilled : handled % maxMsg + 1 < maxMsg := by
        unfold maxMsg at *
        omega
      unfold UdpServer.logPacket
      rwa [written.commitFull_open unfilled]
  · refine ⟨⟨standing, by omega, fun _ => ?_⟩, fun unused => absurd unused (by omega)⟩
    exact (continued.doomed.lost past).extends extends_logPacket

theorem Continued.logPackets (adequate : Adequate hdr mode) (size : Nat)
    (continued : Continued hdr mode start window handled state)
    (room : state.logstrIndex + size ≤ maxMsg) : Continued hdr mode start window (handled + size)
      (((List.range' handled size).map (probe hdr start window)).foldl
        (UdpServer.logPacket hdr mode) state) := by
  induction size generalizing handled state with
  | zero => exact continued
  | succ size inductionHypothesis =>
      have next : (UdpServer.logPacket hdr mode state
          (probe hdr start window handled)).logstrIndex ≤ state.logstrIndex + 1 :=
        logstrIndex_logPacket_le
      rw [List.range'_succ, List.map_cons, List.foldl_cons, Nat.add_comm size, ← Nat.add_assoc]
      exact inductionHypothesis (continued.logPacket adequate (by omega)) (by omega)

/-- Every batch after the first of the reservation starts at its first line. -/
theorem Doomed.receiveBatch (adequate : Adequate hdr mode) {size : Nat} (fits : size ≤ maxMsg)
    (doomed : Doomed hdr mode start window handled state) :
    Doomed hdr mode start window (handled + size) (receiveBatch hdr mode state
      ((List.range' handled size).map (probe hdr start window))) := by
  have begun : Continued hdr mode start window handled { state with logstrIndex := 0 } :=
    ⟨⟨doomed.standing.setBatch 0 _ _, doomed.begun, doomed.lost⟩, fun _ => Or.inl rfl⟩
  have done := (begun.logPackets adequate size (by simpa using fits)).doomed
  exact ⟨done.standing.setBatch _ _ _, done.begun, done.lost⟩

theorem Doomed.listenAndReply (adequate : Adequate hdr mode) {sizes : List Nat}
    (fits : ∀ size ∈ sizes, size ≤ maxMsg)
    (doomed : Doomed hdr mode start window handled state) :
    Doomed hdr mode start window (handled + sizes.sum)
      (listenAndReply hdr mode state (numbered (probe hdr start window) handled sizes)) := by
  induction sizes generalizing handled state with
  | nil => exact doomed
  | cons size rest inductionHypothesis =>
      rw [List.sum_cons, ← Nat.add_assoc]
      exact inductionHypothesis (fun other member => fits other (by simp [member]))
        (doomed.receiveBatch adequate (fits size (by simp)))

/-- The producer attaches to a segment without a reservation. -/
def AtRest (hdr : Header) (segment : Segment) : Prop :=
  segment.headOffset = segment.commitOffset ∧ segment.commitOffset < hdr.lineCount

instance (hdr : Header) (segment : Segment) : Decidable (AtRest hdr segment) :=
  inferInstanceAs (Decidable (_ ∧ _))

theorem AtRest.idle {segment : Segment} (atRest : AtRest hdr segment) :
    Idle hdr segment.commitOffset 0 (.attached segment) := by
  have position : windowSlot hdr segment.commitOffset 0 0 = segment.commitOffset := by
    rw [windowSlot, Nat.zero_mul, Nat.add_zero, Nat.mod_eq_of_lt atRest.2]
  exact ⟨rfl, atRest.1.trans position.symm, position.symm, rfl⟩

theorem AtRest.standing {segment : Segment} (atRest : AtRest hdr segment) :
    Standing hdr segment.commitOffset 0 (.attached segment) := by
  apply Standing.of_mod_eq_zero (Nat.zero_mod _)
  rw [Nat.zero_div]
  exact atRest.idle

/-- A reservation left open by its first batch and filled later loses the record
of its first packet. -/
theorem not_logs_numbered (adequate : Adequate hdr mode) {segment : Segment}
    (atRest : AtRest hdr segment) {size : Nat} {rest : List Nat}
    (nonempty : 0 < size) (unfilled : size < maxMsg) (fits : ∀ other ∈ rest, other ≤ maxMsg)
    (filled : maxMsg ≤ size + rest.sum) :
    ¬ LogsEveryPacketOnce mode
      (numbered (probe hdr segment.commitOffset window) 0
        (List.replicate window maxMsg ++ size :: rest)).flatten
      (listenAndReply hdr mode (.attached segment)
        (numbered (probe hdr segment.commitOffset window) 0
          (List.replicate window maxMsg ++ size :: rest))).committed := by
  have atFirst : (numbered (probe hdr segment.commitOffset window) 0
      (List.replicate window maxMsg ++ size :: rest)).flatten[window * maxMsg + 0]? =
      some (probe hdr segment.commitOffset window (window * maxMsg)) := by
    rw [getElem?_flatten_numbered 0 _ (by simp; omega), Nat.add_zero, Nat.zero_add]
  intro logged
  rw [List.append_cons, numbered_append] at logged atFirst
  generalize leading : List.replicate window maxMsg ++ [size] = before at logged atFirst
  have handledFirst : before.sum = window * maxMsg + size := by
    rw [← leading]
    simp
  -- The counters after the batch that leaves the reservation open.
  have granted : (listenAndReply hdr mode (.attached segment)
      (numbered (probe hdr segment.commitOffset window) 0 before)).refused = 0 :=
    granted_numbered before atRest.standing
  have standing := atRest.standing.listenAndReply _ granted
  rw [List.length_flatten, map_length_numbered, handledFirst, Nat.zero_add] at standing
  have doomed : Doomed hdr mode segment.commitOffset window (window * maxMsg + size)
      (listenAndReply hdr mode (.attached segment)
        (numbered (probe hdr segment.commitOffset window) 0 before)) := by
    refine ⟨standing, by omega, fun full => ?_⟩
    rw [Nat.succ_mul] at full
    omega
  rw [Nat.zero_add, handledFirst, UdpServer.listenAndReply, List.foldl_append] at logged
  rcases (doomed.listenAndReply adequate fits).lost (by rw [Nat.succ_mul]; omega) with
    ⟨lines, line, isCommit, isLine, isOther⟩
  rw [Nat.zero_add, handledFirst] at atFirst
  have isRecord := (logged.2 window lines isCommit).2 0 line _ isLine atFirst
  exact isOther (isRecord.at_hasByte (hasByte_mapped mode hdr _ window))

/-- In every run over batches of these sizes, whoever the clients are and
wherever the readers stand, every packet is logged once, exactly when the batches
fill their reservations. -/
theorem logsEveryPacketOnce_iff_wholeBatches (adequate : Adequate hdr mode) {segment : Segment}
    (atRest : AtRest hdr segment) {sizes : List Nat}
    (received : ∀ size ∈ sizes, 0 < size ∧ size ≤ maxMsg) :
    (∀ batches : List (List Packet), batches.map List.length = sizes →
      (listenAndReply hdr mode (.attached segment) batches).refused = 0 →
      LogsEveryPacketOnce mode batches.flatten
        (listenAndReply hdr mode (.attached segment) batches).committed) ↔
    WholeBatches sizes := by
  constructor
  · intro logged
    by_contra spans
    rcases exists_spanning spans with ⟨window, size, rest, rfl, notFull, filled⟩
    have bounds := received size (by simp)
    have fits : ∀ other ∈ rest, other ≤ maxMsg :=
      fun other member => (received other (by simp [member])).2
    exact not_logs_numbered adequate atRest bounds.1 (by omega) fits filled
      (logged _ (map_length_numbered 0 _) (granted_numbered _ atRest.standing))
  · intro whole batches isSizes granted
    subst isSizes
    rcases atRest.idle.listenAndReply adequate whole rfl granted with ⟨commits, appended, logged⟩
    rw [appended]
    exact logged

end Lost

/-- A buffer of 1024 lines of 97 bytes, read by one process. -/
def wideLines : Header :=
  .ofFields 1 1 1 1 10 97 4 false (by decide)

def freshSegment : Segment := .created wideLines fun _ => 0

theorem adequate_wideLines (mode : Mode) : Adequate wideLines mode := by
  refine ⟨by decide, by decide, ?_⟩
  rcases mode with ⟨_ | _, _ | _⟩ <;> decide

/-- Two full batches and a short one. -/
theorem logsEveryPacketOnce_full_batches :
    (∀ size ∈ [1024, 1024, 5], 0 < size ∧ size ≤ maxMsg) ∧
      LogsEveryPacketOnce ⟨false, false⟩ (numbered (probe wideLines 0 1) 0 [1024, 1024, 5]).flatten
        (listenAndReply wideLines ⟨false, false⟩ (.attached freshSegment)
          (numbered (probe wideLines 0 1) 0 [1024, 1024, 5])).committed := by
  have atRest : AtRest wideLines freshSegment := by decide
  have received : ∀ size ∈ [1024, 1024, 5], 0 < size ∧ size ≤ maxMsg := by decide
  refine ⟨received, ?_⟩
  exact (logsEveryPacketOnce_iff_wholeBatches (adequate_wideLines _) atRest received).mpr
    (by decide) _ (map_length_numbered 0 _) (granted_numbered _ atRest.standing)

/-- A batch of one packet and a batch that fills the reservation: no call is
refused, and the second batch overwrites the record of the first packet. -/
theorem first_record_lost_one_packet_batch :
    (numbered (probe wideLines 0 0) 0 [1, 1023]).map List.length = [1, 1023] ∧
      (listenAndReply wideLines ⟨false, false⟩ (.attached freshSegment)
        (numbered (probe wideLines 0 0) 0 [1, 1023])).refused = 0 ∧
      ¬ LogsEveryPacketOnce ⟨false, false⟩ (numbered (probe wideLines 0 0) 0 [1, 1023]).flatten
        (listenAndReply wideLines ⟨false, false⟩ (.attached freshSegment)
          (numbered (probe wideLines 0 0) 0 [1, 1023])).committed := by
  have atRest : AtRest wideLines freshSegment := by decide
  have spans : ¬ LogsEveryPacketOnce ⟨false, false⟩
      (numbered (probe wideLines 0 0) 0 (List.replicate 0 maxMsg ++ 1 :: [1023])).flatten
      (listenAndReply wideLines ⟨false, false⟩ (.attached freshSegment)
        (numbered (probe wideLines 0 0) 0
          (List.replicate 0 maxMsg ++ 1 :: [1023]))).committed :=
    not_logs_numbered (adequate_wideLines _) atRest (by decide) (by decide) (by decide) (by decide)
  exact ⟨map_length_numbered 0 _, granted_numbered _ atRest.standing, spans⟩

end FipsIpc.UdpServer
