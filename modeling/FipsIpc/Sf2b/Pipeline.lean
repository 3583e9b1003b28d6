import FipsIpc.Sf2b.BinaryRecord
import FipsIpc.Sf2b.Consistency
import FipsIpc.UdpServer.RingUser

/-!
Contract: from the packets of `programs/udp_server.c` through the zero-copy buffer
to the counters of binary ban servers.

Owns: the system of all writer threads and of all reader processes, each a ban
server with one ban thread and its unban thread, step by step; what a ban server
counts along every run of it.

Writers log long binary records in full batches, one packet at a time.  A ban
thread reads `QUEUE_SIZE` lines, looks at the memory of a line when it comes to it
and returns the range after the last one; meanwhile everybody else goes on.

`Direct` says what this is for: the same ban server that takes the packets of every
thread in order, with no buffer and no records in between.

Does not own: several ban threads in a process, the steps inside a message or a
sweep, detaching, and refused reservations.
-/

set_option autoImplicit false

namespace FipsIpc.Sf2b.Binary

open FipsIpc.Lib
open FipsIpc.FipsBuf
open FipsIpc.IpHashtable
open FipsIpc.UdpServer

def queueSize : Nat := 100

/-- Options `binary` and not `logshort`. -/
def binaryLong : Mode := ⟨true, false⟩

/-! ### The system -/

/-- The iovecs of `get_lines_ipc` that are still to be processed, and the tag. -/
structure Hands where
  iovecs : List Iovec
  tag : Range

structure Consumer where
  server : Server
  hands : Option Hands

/-- `logged` has the packets that the writer of each segment has logged. -/
structure Pipeline where
  segments : Nat → Segment
  producers : Nat → Producer
  logged : Nat → List Packet
  consumers : Nat → Consumer

inductive PipelineCall where
  | packet (index : Nat) (packet : Packet)
  | getLines (reader : Nat) (area : AssignmentArea) (thread : ReaderThread)
  | banMessage (reader : Nat) (ts : Int) (answers : BanAnswers)
  | returnLines (reader : Nat)
  | sweep (reader : Nat) (ts : Int) (readings : Nat → Int × Answers)

namespace Pipeline

def started (hdr : Header) (config : Config) (data : Nat → Data) (memory : Nat → Nat → Entry) :
    Pipeline where
  segments := fun index => .created hdr (data index)
  producers := fun index => .attached (.created hdr (data index))
  logged := fun _ => []
  consumers := fun reader => ⟨.started config (memory reader), none⟩

def setConsumer (pipeline : Pipeline) (reader : Nat) (consumer : Consumer) : Pipeline :=
  { pipeline with consumers := Function.update pipeline.consumers reader consumer }

def step (hdr : Header) (config : Config) (pipeline : Pipeline) : PipelineCall → Option Pipeline
  | .packet index packet =>
      let segment := pipeline.segments index
      let producer := receivePacket hdr binaryLong segment (pipeline.producers index) packet
      some { pipeline with
        segments := Function.update pipeline.segments index producer.segment
        producers := Function.update pipeline.producers index producer
        logged := Function.update pipeline.logged index
          (pipeline.logged index ++ [packet.beside segment]) }
  | .getLines reader area thread =>
      let consumer := pipeline.consumers reader
      match consumer.hands with
      | some _ => none
      | none => do
          let outcome ← fipsBufRead hdr area pipeline.segments
            { thread with readerIndex := reader } queueSize 0
          some ({ pipeline with segments := outcome.segments }.setConsumer reader
            { consumer with hands := outcome.lines.map fun (iov, tag) => ⟨iov, tag⟩ })
  | .banMessage reader ts answers =>
      let consumer := pipeline.consumers reader
      match consumer.hands with
      | some ⟨iovec :: rest, tag⟩ => do
          let message := messageAt (pipeline.segments tag.segmentIndex).data iovec.base
          let server ← Binary.banMessage config ts answers message consumer.server
          some (pipeline.setConsumer reader ⟨server, some ⟨rest, tag⟩⟩)
      | _ => none
  | .returnLines reader =>
      let consumer := pipeline.consumers reader
      match consumer.hands with
      | some ⟨[], tag⟩ => do
          let (_, segments) ← fipsBufReturn hdr pipeline.segments tag
          some ({ pipeline with segments := segments }.setConsumer reader
            { consumer with hands := none })
      | _ => none
  | .sweep reader ts readings => do
      let consumer := pipeline.consumers reader
      let server ← unbanSweep config ts readings consumer.server
      some (pipeline.setConsumer reader { consumer with server := server })

/-- A reservation that a packet needs is granted. -/
def Granted (hdr : Header) (pipeline : Pipeline) (index : Nat) (packet : Packet) : Prop :=
  let segment := pipeline.segments index
  let producer := (pipeline.producers index).onto segment
  (reserve hdr (packet.beside segment) producer).refused = producer.refused

def Permitted (hdr : Header) (pipeline : Pipeline) : PipelineCall → Prop
  | .packet index packet => pipeline.Granted hdr index packet
  | .getLines reader _ _ | .banMessage reader _ _ | .returnLines reader | .sweep reader _ _ =>
      reader < hdr.readerCount

instance (hdr : Header) (pipeline : Pipeline) (call : PipelineCall) :
    Decidable (pipeline.Permitted hdr call) :=
  match call with
  | .packet _ _ => inferInstanceAs (Decidable (_ = _))
  | .getLines _ _ _ | .banMessage _ _ _ | .returnLines _ | .sweep _ _ _ =>
      inferInstanceAs (Decidable (_ < _))

end Pipeline

/-! ### The ban server without the buffer -/

/-- `position` is how many packets of each thread are counted. -/
structure Direct where
  server : Server
  position : Nat → Nat

inductive DirectCall where
  | count (index : Nat) (ts : Int) (answers : BanAnswers)
  | sweep (ts : Int) (readings : Nat → Int × Answers)

/-- What the two threads of a ban server have done. -/
inductive Work where
  | ban (ts : Int) (answers : BanAnswers)
  | unban (ts : Int) (readings : Nat → Int × Answers)

def PipelineCall.work (reader : Nat) : PipelineCall → Option Work
  | .banMessage other ts answers => if other = reader then some (.ban ts answers) else none
  | .sweep other ts readings => if other = reader then some (.unban ts readings) else none
  | .packet _ _ | .getLines _ _ _ | .returnLines _ => none

def DirectCall.work : DirectCall → Work
  | .count _ ts answers => .ban ts answers
  | .sweep ts readings => .unban ts readings

namespace Direct

def started (config : Config) (memory : Nat → Entry) : Direct :=
  ⟨.started config memory, fun _ => 0⟩

/-- The next packet of a thread is counted, or the unban thread makes a pass. -/
def step (config : Config) (logged : Nat → List Packet) (direct : Direct) :
    DirectCall → Option Direct
  | .count index ts answers => do
      let packet ← (logged index)[direct.position index]?
      let server ← Binary.banMessage config ts answers (packetMessage packet) direct.server
      some ⟨server, Function.update direct.position index (direct.position index + 1)⟩
  | .sweep ts readings => do
      let server ← unbanSweep config ts readings direct.server
      some { direct with server := server }

variable {config : Config} {logged later : Nat → List Packet} {first last next : Direct}

/-- A step needs only the packets that are there. -/
theorem step_mono (grows : ∀ index, logged index <+: later index) {call : DirectCall}
    (taken : first.step config logged call = some next) :
    first.step config later call = some next := by
  cases call with
  | count index ts answers =>
      obtain ⟨packet, present, rest⟩ := Option.bind_eq_some_iff.mp taken
      obtain ⟨more, appended⟩ := grows index
      have still : (later index)[first.position index]? = some packet := by
        rw [← appended, List.getElem?_append_left (List.getElem?_eq_some_iff.mp present).1]
        exact present
      exact Option.bind_eq_some_iff.mpr ⟨packet, still, rest⟩
  | sweep ts readings => exact taken

theorem run_mono (grows : ∀ index, logged index <+: later index) {calls : List DirectCall}
    (run : Run (Direct.step config logged) (fun _ _ => True) first calls last) :
    Run (Direct.step config later) (fun _ _ => True) first calls last := by
  induction run with
  | nil => exact .nil _
  | cons _ taken _ inductionHypothesis =>
      exact .cons trivial (step_mono grows taken) inductionHypothesis

end Direct

/-! ### The invariant -/

/-- What a ban thread holds against the history of the buffer: the counted lines and
those in its hands are the lines it has received. -/
structure Handed (history : BufferHistory) (hdr : Header) (reader : Nat) (hands : Option Hands)
    (position : Nat → Nat) : Prop where
  idle : hands = none → ∀ index, (history index).outstanding reader = [] ∧
    position index = ((history index).received reader).length
  busy : ∀ iovecs tag, hands = some ⟨iovecs, tag⟩ →
    tag.readerIndex = reader ∧
    (history tag.segmentIndex).outstanding reader = [tag] ∧
    position tag.segmentIndex + iovecs.length =
      ((history tag.segmentIndex).received reader).length ∧
    iovecs.map Iovec.base <:+ tag.bases hdr ∧
    ∀ index, index ≠ tag.segmentIndex → (history index).outstanding reader = [] ∧
      position index = ((history index).received reader).length

/-- The ban server is where the same server without the buffer would be after the
same work. -/
def Pipeline.Tracks (config : Config) (memory : Nat → Entry) (pipeline : Pipeline)
    (calls : List PipelineCall) (reader : Nat) (direct : Direct) : Prop :=
  direct.server = (pipeline.consumers reader).server ∧
  ∃ counted, counted.map DirectCall.work = calls.filterMap (PipelineCall.work reader) ∧
    Run (Direct.step config pipeline.logged) (fun _ _ => True) (.started config memory)
      counted direct

structure Pipeline.Follows (hdr : Header) (config : Config) (memory : Nat → Nat → Entry)
    (calls : List PipelineCall) (pipeline : Pipeline) (history : BufferHistory) : Prop where
  inv : history.Inv hdr
  segments : ∀ index, (history index).segment = pipeline.segments index
  writers : ∀ index, ∃ window done current, pipeline.logged index = done ++ current ∧
    Logging hdr binaryLong (history index) (pipeline.producers index) window done current
  readers : ∀ reader < hdr.readerCount, ∃ direct,
    pipeline.Tracks config (memory reader) calls reader direct ∧
    Handed history hdr reader (pipeline.consumers reader).hands direct.position

section Steps

variable {hdr : Header} {config : Config} {memory : Nat → Nat → Entry}
  {calls : List PipelineCall} {pipeline next : Pipeline} {history : BufferHistory}
  {reader index : Nat}

/-- A hand that holds nothing while the history of this reader is as before. -/
theorem Handed.congr {hands : Option Hands} {position : Nat → Nat}
    (handed : Handed history hdr reader hands position) {later : BufferHistory}
    (outstanding : ∀ index, (later index).outstanding reader = (history index).outstanding reader)
    (received : ∀ index, (later index).received reader = (history index).received reader) :
    Handed later hdr reader hands position := by
  refine ⟨fun nothing index => ?_, fun iovecs tag holds => ?_⟩
  · rw [outstanding, received]
    exact handed.idle nothing index
  · obtain ⟨process, held, counted, bases, others⟩ := handed.busy iovecs tag holds
    refine ⟨process, ?_, ?_, bases, fun index different => ?_⟩
    · rw [outstanding]
      exact held
    · rw [received]
      exact counted
    · rw [outstanding, received]
      exact others index different

/-- The lines of a read come into empty hands. -/
theorem Handed.take {position : Nat → Nat} (handed : Handed history hdr reader none position)
    {segment : Segment} :
    Handed
      (Function.update history index
        { history index with
          segment := segment
          received := Function.update (history index).received reader
            ((history index).received reader ++
              (takeLines hdr (history index).segment index reader queueSize).1.map
                (Iovec.bytes (history index).segment.data))
          outstanding := Function.update (history index).outstanding reader
            ((history index).outstanding reader ++
              [(takeLines hdr (history index).segment index reader queueSize).2.1]) })
      hdr reader
      (some ⟨(takeLines hdr (history index).segment index reader queueSize).1,
        (takeLines hdr (history index).segment index reader queueSize).2.1⟩) position := by
  refine ⟨(fun nothing => by cases nothing), fun iovecs tag holds => ?_⟩
  cases holds
  have before := handed.idle rfl
  refine ⟨rfl, ?_, ?_, ?_, fun other different => ?_⟩
  · show (Function.update history index _ index).outstanding reader = _
    rw [Function.update_self]
    show Function.update (history index).outstanding reader _ reader = _
    rw [Function.update_self, (before index).1, List.nil_append]
  · show position index + _ = ((Function.update history index _ index).received reader).length
    rw [Function.update_self]
    show _ = (Function.update (history index).received reader _ reader).length
    rw [Function.update_self, List.length_append, List.length_map, (before index).2]
  · have bases : (takeLines hdr (history index).segment index reader queueSize).1.map Iovec.base =
        (takeLines hdr (history index).segment index reader queueSize).2.1.bases hdr := by
      unfold takeLines Range.bases
      rw [List.map_map]
      rfl
    exact ⟨[], bases⟩
  · have own : other ≠ index := different
    rw [Function.update_of_ne own]
    exact before other

/-- One line fewer is in the hands, and one more counted. -/
theorem Handed.count {iovec : Iovec} {rest : List Iovec} {tag : Range} {position : Nat → Nat}
    (handed : Handed history hdr reader (some ⟨iovec :: rest, tag⟩) position) :
    Handed history hdr reader (some ⟨rest, tag⟩)
      (Function.update position tag.segmentIndex (position tag.segmentIndex + 1)) := by
  refine ⟨(fun nothing => by cases nothing), fun iovecs other holds => ?_⟩
  cases holds
  obtain ⟨process, held, counted, bases, others⟩ := handed.busy _ _ rfl
  refine ⟨process, held, ?_, ?_, fun index different => ?_⟩
  · rw [Function.update_self, ← counted, List.length_cons]
    omega
  · exact (List.suffix_cons _ _).trans bases
  · rw [Function.update_of_ne different]
    exact others index different

/-- After the last line the range is returned. -/
theorem Handed.giveBack {tag : Range} {position : Nat → Nat}
    (handed : Handed history hdr reader (some ⟨[], tag⟩) position) {segment : Segment} :
    Handed
      (Function.update history tag.segmentIndex
        { history tag.segmentIndex with
          segment := segment
          outstanding := Function.update (history tag.segmentIndex).outstanding tag.readerIndex
            ((history tag.segmentIndex).outstanding tag.readerIndex).tail })
      hdr reader none position := by
  obtain ⟨process, held, counted, -, others⟩ := handed.busy _ _ rfl
  refine ⟨fun _ index => ?_, (fun _ _ holds => by cases holds)⟩
  by_cases same : index = tag.segmentIndex
  · subst same
    rw [Function.update_self]
    refine ⟨?_, counted⟩
    dsimp only
    rw [process, Function.update_self, held]
    rfl
  · rw [Function.update_of_ne same]
    exact others index same

/-- The line a ban thread comes to holds the next packet of the segment. -/
theorem Handed.line {iovec : Iovec} {rest : List Iovec} {tag : Range} {position : Nat → Nat}
    (handed : Handed history hdr reader (some ⟨iovec :: rest, tag⟩) position)
    (inv : history.Inv hdr) (fits : hdr.Fits) (blocking : hdr.overwrite = false)
    (registered : reader < hdr.readerCount) :
    ∃ line, (history tag.segmentIndex).committed[position tag.segmentIndex]? = some line ∧
      line = Iovec.bytes (history tag.segmentIndex).segment.data
        ⟨iovec.base, lineWidth (history tag.segmentIndex).segment.data iovec.base⟩ := by
  obtain ⟨-, held, counted, bases, -⟩ := handed.busy _ _ rfl
  have zeroCopy := (inv tag.segmentIndex).zeroCopy fits blocking
  have lines := zeroCopy.heldLines reader registered
  rw [held, List.flatMap_cons, List.flatMap_nil, List.append_nil] at lines
  have taken := zeroCopy.receivedPrefix reader registered
  generalize history tag.segmentIndex = segment at held counted lines taken
  -- position `tag.count - left` of the range, `left` from its end
  have left : (iovec :: rest).length ≤ tag.count := by
    have short := bases.length_le
    simpa [Range.bases] using short
  have isBase : (tag.bases hdr)[tag.count - (iovec :: rest).length]? = some iovec.base := by
    have dropped := List.suffix_iff_eq_drop.mp bases
    have front := congrArg (fun list => list[0]?) dropped
    simpa [Range.bases] using front.symm
  have inside : tag.count - (iovec :: rest).length < tag.count := by
    rw [List.length_cons] at left ⊢
    omega
  have isLine : (tag.lines hdr segment.segment.data)[tag.count - (iovec :: rest).length]? =
      some (Iovec.bytes segment.segment.data
        ⟨iovec.base, lineWidth segment.segment.data iovec.base⟩) := by
    unfold Range.bases at isBase
    rw [List.getElem?_map, List.getElem?_range inside, Option.map_some] at isBase
    unfold Range.lines
    rw [List.getElem?_map, List.getElem?_range inside, Option.map_some, ← Option.some.inj isBase]
    rfl
  have length : (tag.lines hdr segment.segment.data).length = tag.count := by
    simp [Range.lines]
  refine ⟨_, ?_, rfl⟩
  obtain ⟨more, appended⟩ := taken
  obtain ⟨before, whole⟩ := lines
  have total : before.length + tag.count = (segment.received reader).length := by
    rw [← whole, List.length_append, length]
  have place : position tag.segmentIndex =
      before.length + (tag.count - (iovec :: rest).length) := by
    omega
  have inReceived : position tag.segmentIndex < (segment.received reader).length := by
    rw [List.length_cons] at counted
    omega
  rw [← appended, List.getElem?_append_left inReceived, ← whole, place,
    List.getElem?_append_right (Nat.le_add_right _ _), Nat.add_sub_cancel_left, isLine]

/-- What a ban thread finds in memory says what is to be said of the next packet. -/
theorem Pipeline.Follows.message (follows : pipeline.Follows hdr config memory calls history)
    (fits : RingFits hdr binaryLong) (blocking : hdr.overwrite = false)
    (registered : reader < hdr.readerCount) {iovec : Iovec} {rest : List Iovec} {tag : Range}
    {position : Nat → Nat}
    (handed : Handed history hdr reader (some ⟨iovec :: rest, tag⟩) position) :
    ∃ packet, (pipeline.logged tag.segmentIndex)[position tag.segmentIndex]? = some packet ∧
      SameMessage (messageAt (pipeline.segments tag.segmentIndex).data iovec.base)
        (packetMessage packet) := by
  obtain ⟨line, committed, isLine⟩ := handed.line follows.inv fits.fits blocking registered
  obtain ⟨window, done, current, logged, logging⟩ := follows.writers tag.segmentIndex
  obtain ⟨packet, present, record⟩ := logging.isRecord committed
  rw [isLine] at record
  refine ⟨packet, ?_, ?_⟩
  · rw [logged]
    exact present
  · rw [← follows.segments]
    exact messageAt_stored (stored_of_isRecord record)

theorem filterMap_work_append {call : PipelineCall} (nothing : call.work reader = none)
    (calls : List PipelineCall) :
    (calls ++ [call]).filterMap (PipelineCall.work reader) =
      calls.filterMap (PipelineCall.work reader) := by
  rw [List.filterMap_append, List.filterMap_cons_none nothing, List.filterMap_nil,
    List.append_nil]

/-- A call at which a ban server does nothing, while packets may be logged. -/
theorem Pipeline.Tracks.idle {call : PipelineCall} {direct : Direct} {memory : Nat → Entry}
    (tracks : pipeline.Tracks config memory calls reader direct)
    (nothing : call.work reader = none)
    (grows : ∀ index, pipeline.logged index <+: next.logged index)
    (same : (next.consumers reader).server = (pipeline.consumers reader).server) :
    next.Tracks config memory (calls ++ [call]) reader direct := by
  obtain ⟨server, counted, works, run⟩ := tracks
  refine ⟨server.trans same.symm, counted, ?_, Direct.run_mono grows run⟩
  rw [filterMap_work_append nothing]
  exact works

/-- Its next work. -/
theorem Pipeline.Tracks.works {call : PipelineCall} {work : Work} {direct after : Direct}
    {directCall : DirectCall} {memory : Nat → Entry}
    (tracks : pipeline.Tracks config memory calls reader direct)
    (does : call.work reader = some work) (counts : directCall.work = work)
    (taken : direct.step config pipeline.logged directCall = some after)
    (logged : next.logged = pipeline.logged)
    (server : (next.consumers reader).server = after.server) :
    next.Tracks config memory (calls ++ [call]) reader after := by
  obtain ⟨-, counted, works, run⟩ := tracks
  refine ⟨server.symm, counted ++ [directCall], ?_, ?_⟩
  · rw [List.map_append, List.filterMap_append, works, List.filterMap_cons_some does, ← counts]
    rfl
  · rw [logged]
    exact run.append (.single trivial taken)

/-- The other ban servers, when one has changed and no packet was logged. -/
theorem Pipeline.Tracks.setConsumer {call : PipelineCall} {other : Nat} {consumer : Consumer}
    {direct : Direct} (tracks : pipeline.Tracks config (memory other) calls other direct)
    (different : other ≠ reader) (nothing : call.work other = none) {segments : Nat → Segment} :
    ({ pipeline with segments := segments }.setConsumer reader consumer).Tracks config
      (memory other) (calls ++ [call]) other direct := by
  refine tracks.idle nothing (fun _ => List.prefix_refl _) ?_
  unfold Pipeline.setConsumer
  dsimp only
  rw [Function.update_of_ne different]

theorem Pipeline.consumers_setConsumer (pipeline : Pipeline) (reader : Nat) (consumer : Consumer) :
    (pipeline.setConsumer reader consumer).consumers reader = consumer :=
  Function.update_self _ _ _

theorem Pipeline.consumers_setConsumer_of_ne {other : Nat} (different : other ≠ reader)
    (pipeline : Pipeline) (consumer : Consumer) :
    (pipeline.setConsumer reader consumer).consumers other = pipeline.consumers other :=
  Function.update_of_ne different _ _

/-- A writer logs a packet. -/
theorem Pipeline.Follows.packet (follows : pipeline.Follows hdr config memory calls history)
    (fits : RingFits hdr binaryLong) (blocking : hdr.overwrite = false) {packet : Packet}
    (granted : pipeline.Granted hdr index packet)
    (taken : pipeline.step hdr config (.packet index packet) = some next) :
    ∃ later, next.Follows hdr config memory (calls ++ [.packet index packet]) later := by
  obtain ⟨window, done, current, logged, logging⟩ := follows.writers index
  have segment := follows.segments index
  unfold Pipeline.Granted at granted
  rw [← segment] at granted
  obtain ⟨segmentNext, window', done', current', inv, only, after, more, kept⟩ :=
    logging.receivePacket (follows.inv index) blocking fits granted
  cases taken
  rw [← segment]
  refine ⟨Function.update history index segmentNext, follows.inv.update inv, ?_, ?_, ?_⟩
  · intro other
    dsimp only
    by_cases same : other = index
    · subst same
      rw [Function.update_self, Function.update_self, after]
    · rw [Function.update_of_ne same, Function.update_of_ne same]
      exact follows.segments other
  · intro other
    by_cases same : other = index
    · subst same
      refine ⟨window', done', current', ?_, ?_⟩
      · dsimp only
        rw [Function.update_self, more, logged]
      · dsimp only
        rw [Function.update_self, Function.update_self]
        exact kept
    · dsimp only
      rw [Function.update_of_ne same, Function.update_of_ne same, Function.update_of_ne same]
      exact follows.writers other
  · intro reader registered
    obtain ⟨direct, tracks, handed⟩ := follows.readers reader registered
    refine ⟨direct, tracks.idle rfl ?_ rfl, handed.congr ?_ ?_⟩
    · intro other
      dsimp only
      by_cases same : other = index
      · subst same
        rw [Function.update_self]
        exact List.prefix_append _ _
      · exact ⟨[], (List.append_nil _).trans (Function.update_of_ne same _ _).symm⟩
    · intro other
      by_cases same : other = index
      · subst same
        rw [Function.update_self, only.outstanding]
      · rw [Function.update_of_ne same]
    · intro other
      by_cases same : other = index
      · subst same
        rw [Function.update_self, only.received]
      · rw [Function.update_of_ne same]

/-- A ban thread reads lines, or finds too few. -/
theorem Pipeline.Follows.getLines (follows : pipeline.Follows hdr config memory calls history)
    (fits : RingFits hdr binaryLong) (registered : reader < hdr.readerCount)
    {area : AssignmentArea} {thread : ReaderThread}
    (taken : pipeline.step hdr config (.getLines reader area thread) = some next) :
    ∃ later, next.Follows hdr config memory (calls ++ [.getLines reader area thread]) later := by
  have batch : BufferHistory.BatchSize hdr queueSize :=
    ⟨by decide, Nat.lt_trans (by decide) fits.lines, by decide⟩
  have segments : history.segments = pipeline.segments := funext follows.segments
  unfold Pipeline.step at taken
  dsimp only at taken
  split at taken
  · cases taken
  rename_i empty
  obtain ⟨outcome, read, rest⟩ := Option.bind_eq_some_iff.mp taken
  cases rest
  rcases fipsBufRead_cases read with ⟨noLines, unchanged⟩ | ⟨index, takes⟩
  · refine ⟨history, follows.inv, ?_, follows.writers, fun other otherRegistered => ?_⟩
    · rw [unchanged]
      exact follows.segments
    · obtain ⟨direct, tracks, handed⟩ := follows.readers other otherRegistered
      by_cases same : other = reader
      · subst same
        rw [empty] at handed
        refine ⟨direct, tracks.idle rfl (fun _ => List.prefix_refl _) ?_, ?_⟩
        · rw [Pipeline.consumers_setConsumer]
        · rw [Pipeline.consumers_setConsumer, noLines]
          exact handed
      · refine ⟨direct, tracks.setConsumer same rfl, ?_⟩
        rw [Pipeline.consumers_setConsumer_of_ne same]
        exact handed
  · dsimp only at takes
    rw [← segments] at takes
    have kept := (follows.inv index).take registered batch takes.ready
    refine ⟨Function.update history index _, follows.inv.update kept, ?_, ?_, ?_⟩
    · intro other
      have after := congrFun takes.segments other
      by_cases same : other = index
      · subst same
        rw [Function.update_self]
        exact (after.trans (Function.update_self _ _ _)).symm
      · rw [Function.update_of_ne same]
        exact (after.trans (Function.update_of_ne same _ _)).symm
    · intro other
      obtain ⟨window, done, current, logged, logging⟩ := follows.writers other
      refine ⟨window, done, current, logged, ?_⟩
      by_cases same : other = index
      · subst same
        rw [Function.update_self]
        exact logging.withReaders rfl rfl rfl
      · rw [Function.update_of_ne same]
        exact logging
    · intro other otherRegistered
      obtain ⟨direct, tracks, handed⟩ := follows.readers other otherRegistered
      by_cases same : other = reader
      · subst same
        rw [empty] at handed
        refine ⟨direct, tracks.idle rfl (fun _ => List.prefix_refl _) ?_, ?_⟩
        · rw [Pipeline.consumers_setConsumer]
        · rw [Pipeline.consumers_setConsumer, takes.lines]
          exact handed.take
      · refine ⟨direct, tracks.setConsumer same rfl, ?_⟩
        rw [Pipeline.consumers_setConsumer_of_ne same]
        apply handed.congr
        · intro segment
          by_cases own : segment = index
          · subst own
            rw [Function.update_self]
            exact Function.update_of_ne same _ _
          · rw [Function.update_of_ne own]
        · intro segment
          by_cases own : segment = index
          · subst own
            rw [Function.update_self]
            exact Function.update_of_ne same _ _
          · rw [Function.update_of_ne own]

/-- A ban thread comes to the next line and counts the next packet. -/
theorem Pipeline.Follows.banMessage (follows : pipeline.Follows hdr config memory calls history)
    (fits : RingFits hdr binaryLong) (blocking : hdr.overwrite = false)
    (registered : reader < hdr.readerCount) {ts : Int} {answers : BanAnswers}
    (taken : pipeline.step hdr config (.banMessage reader ts answers) = some next) :
    next.Follows hdr config memory (calls ++ [.banMessage reader ts answers]) history := by
  unfold Pipeline.step at taken
  dsimp only at taken
  split at taken
  case h_2 => cases taken
  rename_i iovec rest tag holds
  obtain ⟨server, served, isNext⟩ := Option.bind_eq_some_iff.mp taken
  cases isNext
  refine ⟨follows.inv, follows.segments, follows.writers, fun other otherRegistered => ?_⟩
  obtain ⟨direct, tracks, handed⟩ := follows.readers other otherRegistered
  by_cases same : other = reader
  · subst same
    rw [holds] at handed
    obtain ⟨packet, present, agrees⟩ := follows.message fits blocking registered handed
    rw [banMessage_congr agrees, ← tracks.1] at served
    have counted : direct.step config pipeline.logged (.count tag.segmentIndex ts answers) =
        some ⟨server, Function.update direct.position tag.segmentIndex
          (direct.position tag.segmentIndex + 1)⟩ :=
      Option.bind_eq_some_iff.mpr ⟨packet, present,
        Option.bind_eq_some_iff.mpr ⟨server, served, rfl⟩⟩
    refine ⟨_, tracks.works (if_pos rfl) rfl counted rfl ?_, ?_⟩
    · rw [Pipeline.consumers_setConsumer]
    · rw [Pipeline.consumers_setConsumer]
      exact handed.count
  · have nothing : (PipelineCall.banMessage reader ts answers).work other = none :=
      if_neg fun equal => same equal.symm
    refine ⟨direct, tracks.setConsumer same nothing, ?_⟩
    rw [Pipeline.consumers_setConsumer_of_ne same]
    exact handed

theorem fipsBufReturn_of_added {segments : Nat → Segment} {segment : Segment} {tag : Range}
    {code : Int} {pointer : ReaderPointer} (same : segments tag.segmentIndex = segment)
    (added : fipsBufListAddSqe hdr (segment.readers tag.readerIndex) tag = some (code, pointer)) :
    fipsBufReturn hdr segments tag = some (code, Function.update segments tag.segmentIndex
      { segment with readers := Function.update segment.readers tag.readerIndex pointer }) := by
  subst same
  exact congrArg (Option.map _) added

/-- A ban thread returns its range. -/
theorem Pipeline.Follows.returnLines (follows : pipeline.Follows hdr config memory calls history)
    (registered : reader < hdr.readerCount)
    (taken : pipeline.step hdr config (.returnLines reader) = some next) :
    ∃ later, next.Follows hdr config memory (calls ++ [.returnLines reader]) later := by
  unfold Pipeline.step at taken
  dsimp only at taken
  split at taken
  case h_2 => cases taken
  rename_i tag holds
  obtain ⟨⟨code, returned⟩, gave, rest⟩ := Option.bind_eq_some_iff.mp taken
  cases rest
  obtain ⟨_, -, own⟩ := follows.readers reader registered
  rw [holds] at own
  obtain ⟨process, held, -, -, -⟩ := own.busy _ _ rfl
  have oldest : ((history tag.segmentIndex).outstanding tag.readerIndex).head? = some tag := by
    rw [process, held]
    rfl
  rw [← process] at registered
  obtain ⟨-, after, added, kept⟩ := (follows.inv tag.segmentIndex).giveBack registered oldest
  rw [process] at registered
  cases gave.symm.trans (fipsBufReturn_of_added (follows.segments _).symm added)
  refine ⟨Function.update history tag.segmentIndex _, follows.inv.update kept, ?_, ?_, ?_⟩
  · intro other
    by_cases same : other = tag.segmentIndex
    · subst same
      show _ = Function.update pipeline.segments tag.segmentIndex _ tag.segmentIndex
      rw [Function.update_self, Function.update_self]
    · show _ = Function.update pipeline.segments tag.segmentIndex _ other
      rw [Function.update_of_ne same, Function.update_of_ne same]
      exact follows.segments other
  · intro other
    obtain ⟨window, done, current, logged, logging⟩ := follows.writers other
    refine ⟨window, done, current, logged, ?_⟩
    by_cases same : other = tag.segmentIndex
    · subst same
      rw [Function.update_self]
      exact logging.withReaders rfl rfl rfl
    · rw [Function.update_of_ne same]
      exact logging
  · intro other otherRegistered
    obtain ⟨direct, tracks, handed⟩ := follows.readers other otherRegistered
    by_cases same : other = reader
    · subst same
      rw [holds] at handed
      refine ⟨direct, tracks.idle rfl (fun _ => List.prefix_refl _) ?_, ?_⟩
      · rw [Pipeline.consumers_setConsumer]
      · rw [Pipeline.consumers_setConsumer]
        exact handed.giveBack
    · refine ⟨direct, tracks.setConsumer same rfl, ?_⟩
      rw [Pipeline.consumers_setConsumer_of_ne same]
      apply handed.congr
      · intro segment
        by_cases own : segment = tag.segmentIndex
        · subst own
          rw [Function.update_self]
          exact Function.update_of_ne (fun equal => same (equal.trans process)) _ _
        · rw [Function.update_of_ne own]
      · intro segment
        by_cases own : segment = tag.segmentIndex
        · subst own
          rw [Function.update_self]
        · rw [Function.update_of_ne own]

theorem Pipeline.Follows.sweep (follows : pipeline.Follows hdr config memory calls history)
    {ts : Int} {readings : Nat → Int × Answers}
    (taken : pipeline.step hdr config (.sweep reader ts readings) = some next) :
    next.Follows hdr config memory (calls ++ [.sweep reader ts readings]) history := by
  obtain ⟨server, swept, isNext⟩ := Option.bind_eq_some_iff.mp taken
  cases isNext
  refine ⟨follows.inv, follows.segments, follows.writers, fun other otherRegistered => ?_⟩
  obtain ⟨direct, tracks, handed⟩ := follows.readers other otherRegistered
  by_cases same : other = reader
  · subst same
    rw [← tracks.1] at swept
    have pass : direct.step config pipeline.logged (.sweep ts readings) =
        some { direct with server := server } :=
      Option.bind_eq_some_iff.mpr ⟨server, swept, rfl⟩
    refine ⟨_, tracks.works (if_pos rfl) rfl pass rfl ?_, ?_⟩
    · rw [Pipeline.consumers_setConsumer]
    · rw [Pipeline.consumers_setConsumer]
      exact handed
  · have nothing : (PipelineCall.sweep reader ts readings).work other = none :=
      if_neg fun equal => same equal.symm
    refine ⟨direct, tracks.setConsumer same nothing, ?_⟩
    rw [Pipeline.consumers_setConsumer_of_ne same]
    exact handed

theorem Pipeline.Follows.step (fits : RingFits hdr binaryLong) (blocking : hdr.overwrite = false)
    {call : PipelineCall} (follows : pipeline.Follows hdr config memory calls history)
    (permitted : pipeline.Permitted hdr call)
    (taken : pipeline.step hdr config call = some next) :
    ∃ later, next.Follows hdr config memory (calls ++ [call]) later := by
  cases call with
  | packet index packet => exact follows.packet fits blocking permitted taken
  | getLines reader area thread => exact follows.getLines fits permitted taken
  | banMessage reader ts answers =>
      exact ⟨history, follows.banMessage fits blocking permitted taken⟩
  | returnLines reader => exact follows.returnLines permitted taken
  | sweep reader ts readings => exact ⟨history, follows.sweep taken⟩

end Steps

theorem Pipeline.Follows.started (hdr : Header) (config : Config) (data : Nat → Data)
    (memory : Nat → Nat → Entry) :
    (Pipeline.started hdr config data memory).Follows hdr config memory []
      (fun index => .created hdr (data index)) where
  inv := fun index => SegmentHistory.Inv.created hdr index (data index)
  segments := fun _ => rfl
  writers := fun index => ⟨0, [], [], rfl, .attached hdr binaryLong (data index)⟩
  readers := fun reader _ =>
    ⟨.started config (memory reader), ⟨rfl, [], rfl, .nil _⟩,
      ⟨fun _ _ => ⟨rfl, rfl⟩, (fun _ _ holds => by cases holds)⟩⟩

/-! ### Every run -/

section Runs

variable {hdr : Header} {config : Config} {data : Nat → Data} {memory : Nat → Nat → Entry}
  {calls : List PipelineCall} {pipeline last next : Pipeline}

theorem Pipeline.exists_follows (fits : RingFits hdr binaryLong) (blocking : hdr.overwrite = false)
    (run : Run (Pipeline.step hdr config) (Pipeline.Permitted hdr)
      (.started hdr config data memory) calls last) :
    ∃ history, last.Follows hdr config memory calls history := by
  have preserved (made : List PipelineCall) (pipeline : Pipeline) (call : PipelineCall)
      (next : Pipeline) (kept : ∃ history, pipeline.Follows hdr config memory made history)
      (permitted : pipeline.Permitted hdr call)
      (taken : pipeline.step hdr config call = some next) :
      ∃ later, next.Follows hdr config memory (made ++ [call]) later := by
    obtain ⟨history, follows⟩ := kept
    exact follows.step fits blocking permitted taken
  exact run.invariant_calls preserved ⟨_, Pipeline.Follows.started hdr config data memory⟩

/-- Only a packet is logged, behind those of its thread. -/
theorem Pipeline.step_logged {call : PipelineCall}
    (taken : pipeline.step hdr config call = some next) :
    next.logged = pipeline.logged ∨ ∃ index packet, call = .packet index packet ∧
      next.logged = Function.update pipeline.logged index
        (pipeline.logged index ++ [packet.beside (pipeline.segments index)]) := by
  cases call with
  | packet index packet =>
      cases taken
      exact Or.inr ⟨index, packet, rfl, rfl⟩
  | getLines reader area thread =>
      simp only [Pipeline.step] at taken
      split at taken
      · cases taken
      · obtain ⟨outcome, _, rest⟩ := Option.bind_eq_some_iff.mp taken
        cases rest
        exact Or.inl rfl
  | banMessage reader ts answers =>
      simp only [Pipeline.step] at taken
      split at taken
      · obtain ⟨server, _, rest⟩ := Option.bind_eq_some_iff.mp taken
        cases rest
        exact Or.inl rfl
      · cases taken
  | returnLines reader =>
      simp only [Pipeline.step] at taken
      split at taken
      · obtain ⟨returned, _, rest⟩ := Option.bind_eq_some_iff.mp taken
        cases rest
        exact Or.inl rfl
      · cases taken
  | sweep reader ts readings =>
      obtain ⟨server, _, rest⟩ := Option.bind_eq_some_iff.mp taken
      cases rest
      exact Or.inl rfl

/-- What is logged was received: its message is that of a packet of the run. -/
theorem Pipeline.received_of_logged
    (run : Run (Pipeline.step hdr config) (Pipeline.Permitted hdr)
      (.started hdr config data memory) calls last) :
    ∀ index, ∀ packet ∈ last.logged index, ∃ received,
      PipelineCall.packet index received ∈ calls ∧
        packetMessage packet = packetMessage received := by
  have preserved (made : List PipelineCall) (pipeline : Pipeline) (call : PipelineCall)
      (next : Pipeline)
      (known : ∀ index, ∀ packet ∈ pipeline.logged index, ∃ received,
        PipelineCall.packet index received ∈ made ∧ packetMessage packet = packetMessage received)
      (_ : pipeline.Permitted hdr call) (taken : pipeline.step hdr config call = some next) :
      ∀ index, ∀ packet ∈ next.logged index, ∃ received,
        PipelineCall.packet index received ∈ made ++ [call] ∧
          packetMessage packet = packetMessage received := by
    intro index packet member
    by_cases earlier : packet ∈ pipeline.logged index
    · obtain ⟨received, came, same⟩ := known index packet earlier
      exact ⟨received, List.mem_append_left _ came, same⟩
    · rcases Pipeline.step_logged taken with unchanged | ⟨own, received, rfl, logged⟩
      · rw [unchanged] at member
        exact absurd member earlier
      · rw [logged] at member
        by_cases same : index = own
        · subst same
          rw [Function.update_self, List.mem_append, List.mem_singleton,
            or_iff_right earlier] at member
          rw [member]
          exact ⟨received, List.mem_append_right _ List.mem_cons_self, rfl⟩
        · rw [Function.update_of_ne same] at member
          exact absurd member earlier
  have initial : ∀ index,
      ∀ packet ∈ (Pipeline.started hdr config data memory).logged index, ∃ received,
        PipelineCall.packet index received ∈ ([] : List PipelineCall) ∧
          packetMessage packet = packetMessage received :=
    fun _ _ absent => absurd absent List.not_mem_nil
  exact run.invariant_calls preserved initial

/-- Where all packets say the same, the next line that a ban thread comes to says
so, too. -/
theorem Pipeline.Follows.step_banMessage {history : BufferHistory}
    (follows : last.Follows hdr config memory calls history) (fits : RingFits hdr binaryLong)
    (blocking : hdr.overwrite = false) {reader : Nat} (registered : reader < hdr.readerCount)
    {iovec : Iovec} {rest : List Iovec} {tag : Range}
    (holds : (last.consumers reader).hands = some ⟨iovec :: rest, tag⟩) {message : BinMessage}
    (same : ∀ index, ∀ packet ∈ last.logged index, packetMessage packet = message) {ts : Int}
    {answers : BanAnswers} {server : Server}
    (served : Binary.banMessage config ts answers message (last.consumers reader).server =
      some server) :
    last.step hdr config (.banMessage reader ts answers) =
      some (last.setConsumer reader ⟨server, some ⟨rest, tag⟩⟩) := by
  obtain ⟨direct, -, handed⟩ := follows.readers reader registered
  rw [holds] at handed
  obtain ⟨packet, present, agrees⟩ := follows.message fits blocking registered handed
  rw [same tag.segmentIndex packet (List.mem_of_getElem? present)] at agrees
  rw [← banMessage_congr agrees] at served
  simp only [Pipeline.step, holds]
  rw [served]
  rfl

/-- Then the ban thread counts as many lines as it holds. -/
theorem Pipeline.run_banMessages (fits : RingFits hdr binaryLong) (blocking : hdr.overwrite = false)
    {reader : Nat} (registered : reader < hdr.readerCount) {message : BinMessage}
    (work : List (Int × BanAnswers))
    (run : Run (Pipeline.step hdr config) (Pipeline.Permitted hdr)
      (.started hdr config data memory) calls last)
    {iovecs : List Iovec} {tag : Range} (holds : (last.consumers reader).hands = some ⟨iovecs, tag⟩)
    (enough : work.length ≤ iovecs.length)
    (same : ∀ index, ∀ packet ∈ last.logged index, packetMessage packet = message)
    {after : Server}
    (served : banClients config (work.map fun item => (item.1, item.2, message))
      (last.consumers reader).server = some after) :
    ∃ next, Run (Pipeline.step hdr config) (Pipeline.Permitted hdr) last
        (work.map fun item => .banMessage reader item.1 item.2) next ∧
      (next.consumers reader).server = after := by
  induction work generalizing calls last iovecs with
  | nil => exact ⟨last, .nil _, Option.some.inj served⟩
  | cons item work inductionHypothesis =>
      obtain ⟨server, first, others⟩ := Option.bind_eq_some_iff.mp served
      obtain ⟨history, follows⟩ := Pipeline.exists_follows fits blocking run
      cases iovecs with
      | nil => exact absurd enough (Nat.not_succ_le_zero _)
      | cons iovec rest =>
          have step := follows.step_banMessage fits blocking registered holds same first
          have allowed : last.Permitted hdr (.banMessage reader item.1 item.2) := registered
          have own := Pipeline.consumers_setConsumer last reader ⟨server, some ⟨rest, tag⟩⟩
          have served' : banClients config (work.map fun item => (item.1, item.2, message))
              ((last.setConsumer reader ⟨server, some ⟨rest, tag⟩⟩).consumers reader).server =
                some after := by
            rw [own]
            exact others
          obtain ⟨next, taken, result⟩ := inductionHypothesis
            (run.append (.single allowed step)) (congrArg Consumer.hands own)
            (Nat.le_of_succ_le_succ enough) same served'
          exact ⟨next, .cons allowed step taken, result⟩

/-- A ban server without work is as it was started. -/
theorem Pipeline.server_of_noWork (fits : RingFits hdr binaryLong)
    (blocking : hdr.overwrite = false)
    (run : Run (Pipeline.step hdr config) (Pipeline.Permitted hdr)
      (.started hdr config data memory) calls last)
    {reader : Nat} (registered : reader < hdr.readerCount)
    (noWork : calls.filterMap (PipelineCall.work reader) = []) :
    (last.consumers reader).server = .started config (memory reader) := by
  obtain ⟨history, follows⟩ := Pipeline.exists_follows fits blocking run
  obtain ⟨direct, ⟨server, counted, works, counting⟩, -⟩ := follows.readers reader registered
  rw [noWork, List.map_eq_nil_iff] at works
  rw [works] at counting
  rw [← server, counting.eq_of_nil]
  rfl

end Runs

/-- 2048 lines that take a long binary record. -/
def recordLines : Header := .ofFields 1 1 1 1 11 48 4 false (by decide)

def firstPacket : Packet where
  addr := #v[0, 0, 0, 0, 0, 0, 0, 0, 0, 0, 0xff, 0xff, 192, 0, 2, 23]
  date := .replicate _ 0
  time := 0
  readers := (Segment.created recordLines fun _ => 0).readers

/-- A whole batch from one client is committed, and a ban thread reads its first
lines. -/
def batchRead : List PipelineCall :=
  List.replicate maxMsg (.packet 0 firstPacket) ++ [.getLines 0 emptyArea cachedThread]

/-- Every answer is a success. -/
def allSucceed : BanAnswers := ⟨.succeed, .succeed, true, .succeed⟩

/-- What the ban thread does with the lines it has read. -/
def batchWork : List (Int × BanAnswers) := List.replicate queueSize (5, allSucceed)

end FipsIpc.Sf2b.Binary
