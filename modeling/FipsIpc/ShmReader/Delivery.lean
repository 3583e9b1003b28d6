import FipsIpc.ShmReader.Threads
import FipsIpc.ShmRingbuf.Ranges

/-!
Contract: from the copying ring into the files of `programs/shm_reader.c`.

Owns: `shmrbuf_read_rng` and `single_read_single_write` step by step, the system
of writers and of the threads of all reader processes, and what has come into the
files after every run.

A thread reads one segment at a time, so other threads and the writers take steps
between two segments of a call.  The threads of a process have one file, to which
every write appends.  A line without a NUL, or with one in front, makes `strlen` or
the newline leave the buffer; no run continues through that.  How much of a line a
write brings into the file is not checked (`cqe->res`); `Delivery.file` has the
bytes of writes that are done whole.

Does not own: the modes with batches, and shutting down.
-/

set_option autoImplicit false

namespace FipsIpc.ShmReader

open FipsIpc.Lib
open FipsIpc.ShmRingbuf

/-! ### The system -/

/-- The ring, and how many threads each reader process has. -/
structure Setup where
  hdr : GlobalHdr
  threadNumber : Nat → Nat

structure ThreadId where
  process : Nat
  thread : Nat
deriving DecidableEq, Repr

namespace Setup

variable (setup : Setup)

/-- `lower_seg` and `upper_seg`. -/
def range (id : ThreadId) : Nat × Nat :=
  segmentRange (UInt8.ofNat setup.hdr.segmentCount) (setup.threadNumber id.process) id.thread

def IsThread (id : ThreadId) : Prop :=
  id.process < setup.hdr.readerCount ∧ id.thread < setup.threadNumber id.process

instance (id : ThreadId) : Decidable (setup.IsThread id) :=
  inferInstanceAs (Decidable (_ ∧ _))

end Setup

/-- Where a thread is in its loop.  `started` records how many lines each segment
had taken when the call began. -/
inductive ThreadPlace where
  | outside
  | probing (tries : Nat) (started : Nat → Nat)
  | holding (segmentId : Nat) (line : List UInt8)

/-- Where the thread is after an answer other than 0. -/
def afterAnswer (segmentId : Nat) (result : ReadResult) : ThreadPlace :=
  match result.lines with
  | line :: _ => .holding segmentId line
  | [] => .outside

structure WrittenLine where
  id : ThreadId
  segmentId : Nat
  line : List UInt8

/-- `written` has the lines in the order in which their writes were waited for. -/
structure Delivery where
  segments : Nat → History
  segmentIndex : ThreadId → Nat
  place : ThreadId → ThreadPlace
  written : List WrittenLine

inductive DeliveryCall where
  | write (segmentId : Nat) (src : List UInt8)
  | call (id : ThreadId)
  | probe (id : ThreadId)
  | output (id : ThreadId)

/-- `strlen` and the newline stay in the buffer. -/
def Printable (line : List UInt8) : Prop :=
  line.head? ≠ some 0 ∧ 0 ∈ line

instance (line : List UInt8) : Decidable (Printable line) := inferInstanceAs (Decidable (_ ∧ _))

/-- The bytes that are written: the last one in front of the NUL becomes a newline. -/
def finishLine (line : List UInt8) : List UInt8 :=
  (line.takeWhile (· != 0)).dropLast ++ [10]

namespace Delivery

def started (data : Nat → Data) : Delivery where
  segments := fun segmentId => .created (data segmentId)
  segmentIndex := fun _ => 0
  place := fun _ => .outside
  written := []

/-- One round of the loop of `shmrbuf_read_rng`. -/
def probe (setup : Setup) (delivery : Delivery) (id : ThreadId) (tries : Nat)
    (begun : Nat → Nat) : Option Delivery := do
  let bounds := setup.range id
  let segmentId := ownCursor bounds.1 bounds.2 (delivery.segmentIndex id)
  let result := shmrbufRead setup.hdr segmentId (delivery.segments segmentId).segment id.process
    setup.hdr.lineSize
  let history ← (delivery.segments segmentId).step setup.hdr segmentId
    (.read id.process setup.hdr.lineSize)
  some { delivery with
    segments := Function.update delivery.segments segmentId history
    segmentIndex := Function.update delivery.segmentIndex id (indexNext segmentId)
    place := Function.update delivery.place id
      (if result.code = 0 then .probing tries begun else afterAnswer segmentId result) }

/-- A call of a writer, or the next step of a thread. -/
def step (setup : Setup) (delivery : Delivery) : DeliveryCall → Option Delivery
  | .write segmentId src => do
      let history ← (delivery.segments segmentId).step setup.hdr segmentId (.write src)
      some { delivery with segments := Function.update delivery.segments segmentId history }
  | .call id =>
      match delivery.place id with
      | .outside =>
          let bounds := setup.range id
          some { delivery with
            place := Function.update delivery.place id
              (.probing (bounds.2 - bounds.1) fun segmentId =>
                (delivery.segments segmentId).accepted.length) }
      | _ => none
  | .probe id =>
      match delivery.place id with
      | .probing 0 _ =>
          some { delivery with place := Function.update delivery.place id .outside }
      | .probing (tries + 1) begun => delivery.probe setup id tries begun
      | _ => none
  | .output id =>
      match delivery.place id with
      | .holding segmentId line =>
          if Printable line then
            some { delivery with
              place := Function.update delivery.place id .outside
              written := delivery.written ++ [⟨id, segmentId, line⟩] }
          else none
      | _ => none

/-- Writers give lines that fit, and the calls are made by threads there are. -/
def Permitted (setup : Setup) : DeliveryCall → Prop
  | .write segmentId src =>
      segmentId < setup.hdr.segmentCount ∧ 1 ≤ src.length ∧ src.length ≤ setup.hdr.lineSize
  | .call id | .probe id | .output id => setup.IsThread id

instance (setup : Setup) (call : DeliveryCall) : Decidable (Permitted setup call) :=
  match call with
  | .write _ _ => inferInstanceAs (Decidable (_ ∧ _ ∧ _))
  | .call id | .probe id | .output id => inferInstanceAs (Decidable (setup.IsThread id))

/-- What a process has written of a segment. -/
def linesOf (written : List WrittenLine) (process segmentId : Nat) : List (List UInt8) :=
  (written.filter fun line =>
    line.id.process = process ∧ line.segmentId = segmentId).map WrittenLine.line

def writtenLines (delivery : Delivery) (process segmentId : Nat) : List (List UInt8) :=
  linesOf delivery.written process segmentId

/-- The file of a process. -/
def file (delivery : Delivery) (process : Nat) : List UInt8 :=
  (delivery.written.filter fun line => line.id.process = process).flatMap fun line =>
    finishLine line.line

end Delivery

/-! ### Ranges -/

namespace Setup

variable {setup : Setup} {id : ThreadId}

theorem toNat_segmentCount (setup : Setup) :
    (UInt8.ofNat setup.hdr.segmentCount).toNat = setup.hdr.segmentCount := by
  rw [UInt8.toNat_ofNat']
  exact Nat.mod_eq_of_lt setup.hdr.segmentCount_lt

/-- The threads of a process share out the segments. -/
theorem partitions (setup : Setup) {process : Nat} (positive : 1 ≤ setup.threadNumber process) :
    Partitions setup.hdr.segmentCount (setup.threadNumber process)
      fun thread => some (setup.range ⟨process, thread⟩) := by
  apply partitions_of_cut positive
  · intro thread isThread _
    rw [range, segmentRange_eq isThread, toNat_segmentCount]
  · intro thread isThread bounds isBounds
    rw [range, segmentRange_eq isThread, toNat_segmentCount] at isBounds
    exact (Option.some.inj isBounds).symm

theorem IsThread.positive (isThread : setup.IsThread id) : 1 ≤ setup.threadNumber id.process :=
  Nat.lt_of_le_of_lt (Nat.zero_le _) isThread.2

theorem IsThread.bounds (isThread : setup.IsThread id) :
    (setup.range id).1 ≤ (setup.range id).2 ∧ (setup.range id).2 ≤ setup.hdr.segmentCount :=
  (setup.partitions isThread.positive).inside id.thread isThread.2 _ rfl

/-- The segment is one of the thread's. -/
def Owns (setup : Setup) (id : ThreadId) (segmentId : Nat) : Prop :=
  (setup.range id).1 ≤ segmentId ∧ segmentId < (setup.range id).2

theorem Owns.inside (isThread : setup.IsThread id) {segmentId : Nat}
    (owns : setup.Owns id segmentId) : segmentId < setup.hdr.segmentCount :=
  Nat.lt_of_lt_of_le owns.2 isThread.bounds.2

/-- Two threads of a process have no segment in common. -/
theorem Owns.unique {other : ThreadId} (isThread : setup.IsThread id)
    (otherThread : setup.IsThread other) {segmentId : Nat} (owns : setup.Owns id segmentId)
    (otherOwns : setup.Owns other segmentId) (process : other.process = id.process) :
    other = id := by
  obtain ⟨process', thread'⟩ := other
  obtain ⟨process'', thread''⟩ := id
  cases process
  by_contra different
  have threads : thread' ≠ thread'' := by
    rintro rfl
    exact different rfl
  rcases (setup.partitions isThread.positive).disjoint thread' otherThread.2 thread'' isThread.2
    threads _ rfl _ rfl with before | after
  · exact Nat.lt_irrefl _ (Nat.lt_of_lt_of_le (Nat.lt_of_lt_of_le otherOwns.2 before) owns.1)
  · exact Nat.lt_irrefl _ (Nat.lt_of_lt_of_le (Nat.lt_of_lt_of_le owns.2 after) otherOwns.1)

theorem exists_owner {process : Nat} (positive : 1 ≤ setup.threadNumber process) {segmentId : Nat}
    (inside : segmentId < setup.hdr.segmentCount) :
    ∃ thread < setup.threadNumber process, setup.Owns ⟨process, thread⟩ segmentId := by
  obtain ⟨thread, isThread, bounds, isBounds, low, high⟩ :=
    (setup.partitions positive).covers segmentId inside
  cases isBounds
  exact ⟨thread, isThread, low, high⟩

end Setup

/-! ### One read -/

/-- A read finds nothing and the reader has all lines, or it gives the next line. -/
theorem read_cases {hdr : GlobalHdr} {segmentId reader : Nat} {history next : History}
    (valid : segmentId < hdr.segmentCount) (registered : reader < hdr.readerCount)
    (inv : history.Inv hdr)
    (taken : history.step hdr segmentId (.read reader hdr.lineSize) = some next) :
    next.accepted = history.accepted ∧
    (∀ other, other ≠ reader → next.received other = history.received other) ∧
    (((shmrbufRead hdr segmentId history.segment reader hdr.lineSize).code = 0 ∧
        next.received reader = history.received reader ∧
        history.accepted.length = (history.received reader).length) ∨
      ∃ line,
        (shmrbufRead hdr segmentId history.segment reader hdr.lineSize).code ≠ 0 ∧
        (shmrbufRead hdr segmentId history.segment reader hdr.lineSize).lines = [line] ∧
        next.received reader = history.received reader ++ [line]) := by
  cases taken
  refine ⟨rfl, fun other different => Function.update_of_ne different _ _, ?_⟩
  have positive := hdr.lineSize_pos
  dsimp only
  rw [Function.update_self]
  by_cases unread : history.segment.writeIndex = history.segment.readIndex reader
  · rw [shmrbufRead_empty valid unread]
    refine Or.inl ⟨rfl, List.append_nil _, ?_⟩
    exact (inv.writeIndex_eq_readIndex_iff registered).mp unread
  · rw [shmrbufRead_line valid (Nat.le_refl _) unread]
    refine Or.inr ⟨_, ?_, rfl, rfl⟩
    show (hdr.lineSize : Int) ≠ 0
    omega

/-- A write leaves what the readers have got, and accepts more lines or none. -/
theorem write_received {hdr : GlobalHdr} {segmentId : Nat} {src : List UInt8}
    {history next : History} (taken : history.step hdr segmentId (.write src) = some next) :
    next.received = history.received ∧ history.accepted.length ≤ next.accepted.length := by
  cases taken
  refine ⟨rfl, ?_⟩
  dsimp only
  split
  · exact Nat.le_refl _
  · simp

/-! ### The invariant -/

/-- The line a thread has read of a segment and not written yet. -/
def ThreadPlace.held (segmentId : Nat) : ThreadPlace → List (List UInt8)
  | .holding own line => if own = segmentId then [line] else []
  | _ => []

/-- The segments that a call of the thread still looks at. -/
def Delivery.ahead (setup : Setup) (delivery : Delivery) (id : ThreadId) (tries : Nat) : List Nat :=
  visits (ownCursor (setup.range id).1 (setup.range id).2) indexNext tries
    (delivery.segmentIndex id)

/-- In a call a thread still looks at each of its segments, or it has seen there that
its process has all lines from before the call. -/
structure Delivery.Calling (setup : Setup) (delivery : Delivery) (id : ThreadId) (tries : Nat)
    (begun : Nat → Nat) : Prop where
  ahead : ∀ segmentId ∈ delivery.ahead setup id tries, setup.Owns id segmentId
  notLater : ∀ segmentId, begun segmentId ≤ (delivery.segments segmentId).accepted.length
  seen : ∀ segmentId, setup.Owns id segmentId → segmentId ∈ delivery.ahead setup id tries ∨
    begun segmentId ≤ ((delivery.segments segmentId).received id.process).length

def Delivery.AtPlace (setup : Setup) (delivery : Delivery) (id : ThreadId) : ThreadPlace → Prop
  | .outside => True
  | .probing tries begun => delivery.Calling setup id tries begun
  | .holding segmentId _ => setup.Owns id segmentId

/-- A thread in its own segments: what its process has received is in the file or in
its hands. -/
structure Delivery.Kept (setup : Setup) (delivery : Delivery) (id : ThreadId) : Prop where
  cursor : delivery.segmentIndex id ≤ (setup.range id).2
  place : delivery.AtPlace setup id (delivery.place id)
  lines : ∀ segmentId, setup.Owns id segmentId →
    (delivery.segments segmentId).received id.process =
      delivery.writtenLines id.process segmentId ++ (delivery.place id).held segmentId

structure Delivery.Inv (setup : Setup) (delivery : Delivery) : Prop where
  segments : ∀ segmentId < setup.hdr.segmentCount,
    (delivery.segments segmentId).Inv setup.hdr
  written : ∀ line ∈ delivery.written, setup.IsThread line.id ∧ setup.Owns line.id line.segmentId
  kept : ∀ id, setup.IsThread id → delivery.Kept setup id

/-- A step leaves alone what belongs to a thread; others may write more. -/
structure Delivery.SameFor (setup : Setup) (delivery next : Delivery) (id : ThreadId) : Prop where
  segmentIndex : next.segmentIndex id = delivery.segmentIndex id
  place : next.place id = delivery.place id
  accepted : ∀ segmentId,
    (delivery.segments segmentId).accepted.length ≤ (next.segments segmentId).accepted.length
  received : ∀ segmentId, setup.Owns id segmentId →
    (next.segments segmentId).received id.process =
      (delivery.segments segmentId).received id.process
  written : ∀ segmentId, setup.Owns id segmentId →
    next.writtenLines id.process segmentId = delivery.writtenLines id.process segmentId

namespace Delivery

variable {setup : Setup} {delivery next : Delivery} {id : ThreadId}

theorem Kept.frame (kept : delivery.Kept setup id) (same : delivery.SameFor setup next id) :
    next.Kept setup id := by
  have ahead (tries : Nat) : next.ahead setup id tries = delivery.ahead setup id tries := by
    unfold Delivery.ahead
    rw [same.segmentIndex]
  refine ⟨?_, ?_, fun segmentId owns => ?_⟩
  · rw [same.segmentIndex]
    exact kept.cursor
  · rw [same.place]
    have before := kept.place
    cases place : delivery.place id with
    | outside => trivial
    | probing tries begun =>
        rw [place] at before
        refine ⟨?_, fun segmentId => ?_, fun segmentId owns => ?_⟩
        · rw [ahead]
          exact before.ahead
        · exact Nat.le_trans (before.notLater segmentId) (same.accepted segmentId)
        · rw [ahead, same.received segmentId owns]
          exact before.seen segmentId owns
    | holding segmentId line =>
        rw [place] at before
        exact before
  · rw [same.received segmentId owns, same.written segmentId owns, same.place]
    exact kept.lines segmentId owns

theorem Inv.started (setup : Setup) (data : Nat → Data) : (Delivery.started data).Inv setup where
  segments := fun segmentId _ => .created setup.hdr (data segmentId)
  written := fun _ member => absurd member List.not_mem_nil
  kept := fun _ _ => ⟨Nat.zero_le _, trivial, fun _ _ => rfl⟩

/-! #### Writers -/

theorem Inv.write (inv : delivery.Inv setup) (blocking : setup.hdr.overwrite = false)
    (fits : setup.hdr.lineCount * setup.hdr.lineSize < 2 ^ 32) {segmentId : Nat}
    {src : List UInt8} (permitted : Permitted setup (.write segmentId src))
    (taken : delivery.step setup (.write segmentId src) = some next) : next.Inv setup := by
  unfold Delivery.step at taken
  obtain ⟨history, wrote, rest⟩ := Option.bind_eq_some_iff.mp taken
  cases rest
  obtain ⟨valid, lengths⟩ := permitted
  have grown (other : Nat) :
      (Function.update delivery.segments segmentId history other).received =
          (delivery.segments other).received ∧
        (delivery.segments other).accepted.length ≤
          (Function.update delivery.segments segmentId history other).accepted.length := by
    by_cases same : other = segmentId
    · subst same
      rw [Function.update_self]
      exact write_received wrote
    · rw [Function.update_of_ne same]
      exact ⟨rfl, Nat.le_refl _⟩
  refine ⟨fun other inside => ?_, inv.written, fun id isThread => ?_⟩
  · dsimp only
    by_cases same : other = segmentId
    · subst same
      rw [Function.update_self]
      exact History.Inv.step valid blocking fits _ (.write src) _ (inv.segments other valid)
        lengths wrote
    · rw [Function.update_of_ne same]
      exact inv.segments other inside
  · exact (inv.kept id isThread).frame
      ⟨rfl, rfl, fun other => (grown other).2, fun other _ => congrFun (grown other).1 id.process,
        fun _ _ => rfl⟩

/-! #### Threads -/

/-- A step of a thread that does not touch segments and files, and holds nothing. -/
theorem Inv.move (inv : delivery.Inv setup) (isThread : setup.IsThread id) {place : ThreadPlace}
    (held : ∀ segmentId, (delivery.place id).held segmentId = place.held segmentId)
    (atPlace : delivery.AtPlace setup id place) :
    Delivery.Inv setup { delivery with place := Function.update delivery.place id place } := by
  refine ⟨inv.segments, inv.written, fun other otherThread => ?_⟩
  by_cases same : other = id
  · subst same
    have kept := inv.kept other isThread
    refine ⟨kept.cursor, ?_, fun segmentId owns => ?_⟩
    · dsimp only
      rw [Function.update_self]
      cases place with
      | outside => trivial
      | probing tries begun => exact ⟨atPlace.ahead, atPlace.notLater, atPlace.seen⟩
      | holding segmentId line => exact atPlace
    · dsimp only
      rw [Function.update_self, ← held]
      exact kept.lines segmentId owns
  · exact (inv.kept other otherThread).frame
      ⟨rfl, Function.update_of_ne same _ _, fun _ => Nat.le_refl _, fun _ _ => rfl, fun _ _ => rfl⟩

theorem Inv.call (inv : delivery.Inv setup) (isThread : setup.IsThread id)
    (taken : delivery.step setup (.call id) = some next) : next.Inv setup := by
  unfold Delivery.step at taken
  dsimp only at taken
  split at taken
  case h_2 => cases taken
  case h_1 outside =>
    cases taken
    have small : (setup.range id).2 < 2 ^ 8 :=
      Nat.lt_of_le_of_lt isThread.bounds.2 setup.hdr.segmentCount_lt
    have whole : (visits (ownCursor (setup.range id).1 (setup.range id).2) indexNext
        ((setup.range id).2 - (setup.range id).1) (delivery.segmentIndex id)).Perm
          (ownOrder (setup.range id).1 (setup.range id).2) :=
      visits_ownCursor_perm small (inv.kept id isThread).cursor
    apply inv.move isThread
    · intro segmentId
      rw [outside]
      rfl
    · refine ⟨fun segmentId member => ?_, fun segmentId => Nat.le_refl _,
        fun segmentId owns => Or.inl ?_⟩
      · exact mem_ownOrder.mp (whole.mem_iff.mp member)
      · exact whole.mem_iff.mpr (mem_ownOrder.mpr owns)

/-- The thread looks at one of its segments, and takes a line if there is one. -/
theorem Inv.probe (inv : delivery.Inv setup) (blocking : setup.hdr.overwrite = false)
    (fits : setup.hdr.lineCount * setup.hdr.lineSize < 2 ^ 32) (isThread : setup.IsThread id)
    {tries : Nat} {begun : Nat → Nat} (place : delivery.place id = .probing (tries + 1) begun)
    (taken : delivery.probe setup id tries begun = some next) : next.Inv setup := by
  unfold Delivery.probe at taken
  dsimp only at taken
  have kept := inv.kept id isThread
  have probing := kept.place
  have lines := kept.lines
  rw [place] at probing lines
  obtain ⟨ahead, notLater, seen⟩ := probing
  unfold Delivery.ahead at ahead seen
  generalize probed : ownCursor (setup.range id).1 (setup.range id).2 (delivery.segmentIndex id) =
    segmentId at taken
  have first : visits (ownCursor (setup.range id).1 (setup.range id).2) indexNext (tries + 1)
      (delivery.segmentIndex id) = segmentId ::
        visits (ownCursor (setup.range id).1 (setup.range id).2) indexNext tries
          (indexNext segmentId) := by
    rw [← probed]
    rfl
  rw [first] at ahead
  simp only [first, List.mem_cons] at seen
  have owns : setup.Owns id segmentId := ahead segmentId List.mem_cons_self
  have inside : segmentId < setup.hdr.segmentCount := owns.inside isThread
  have small : (setup.range id).2 < 2 ^ 8 :=
    Nat.lt_of_le_of_lt isThread.bounds.2 setup.hdr.segmentCount_lt
  obtain ⟨history, read, rest⟩ := Option.bind_eq_some_iff.mp taken
  have segment : history.Inv setup.hdr :=
    History.Inv.step inside blocking fits _ (.read id.process setup.hdr.lineSize) _
      (inv.segments segmentId inside) ⟨isThread.1, Nat.le_refl _⟩ read
  obtain ⟨accepted, others, outcome⟩ :=
    read_cases inside isThread.1 (inv.segments segmentId inside) read
  have accepts (other : Nat) :
      (Function.update delivery.segments segmentId history other).accepted =
        (delivery.segments other).accepted := by
    by_cases same : other = segmentId
    · rw [same, Function.update_self, accepted]
    · rw [Function.update_of_ne same]
  cases rest
  refine ⟨fun other otherInside => ?_, inv.written, fun other otherThread => ?_⟩
  · dsimp only
    by_cases same : other = segmentId
    · rw [same, Function.update_self]
      exact segment
    · rw [Function.update_of_ne same]
      exact inv.segments other otherInside
  · by_cases same : other = id
    · subst same
      have cursor : Function.update delivery.segmentIndex other (indexNext segmentId) other ≤
          (setup.range other).2 := by
        rw [Function.update_self, indexNext_eq owns.2 small]
        exact owns.2
      rcases outcome with ⟨nothing, same, all⟩ | ⟨line, answered, oneLine, longer⟩
      · have received (own : Nat) :
            (Function.update delivery.segments segmentId history own).received other.process =
              (delivery.segments own).received other.process := by
          by_cases read : own = segmentId
          · rw [read, Function.update_self, same]
          · rw [Function.update_of_ne read]
        refine ⟨cursor, ?_, fun own ownOwns => ?_⟩
        · dsimp only
          rw [Function.update_self, if_pos nothing]
          refine ⟨?_, fun own => ?_, fun own ownOwns => ?_⟩
          · unfold Delivery.ahead
            dsimp only
            rw [Function.update_self]
            exact fun own member => ahead own (List.mem_cons_of_mem _ member)
          · dsimp only
            rw [accepts]
            exact notLater own
          · unfold Delivery.ahead
            dsimp only
            rw [Function.update_self, received]
            rcases seen own ownOwns with (rfl | later) | enough
            · exact Or.inr (all ▸ notLater own)
            · exact Or.inl later
            · exact Or.inr enough
        · dsimp only
          rw [received, Function.update_self, if_pos nothing]
          exact lines own ownOwns
      · refine ⟨cursor, ?_, fun own ownOwns => ?_⟩
        · dsimp only
          rw [Function.update_self, if_neg answered, afterAnswer, oneLine]
          exact owns
        · dsimp only
          rw [Function.update_self, if_neg answered, afterAnswer, oneLine]
          dsimp only [ThreadPlace.held]
          have before := lines own ownOwns
          by_cases read : own = segmentId
          · subst read
            rw [Function.update_self, longer, if_pos rfl, before]
            exact congrArg (· ++ [line]) (List.append_nil _)
          · rw [Function.update_of_ne read, if_neg (Ne.symm read), before]
            rfl
    · apply (inv.kept other otherThread).frame
      refine ⟨Function.update_of_ne same _ _, Function.update_of_ne same _ _, fun own => ?_,
        fun own ownOwns => ?_, fun _ _ => rfl⟩
      · exact Nat.le_of_eq (congrArg List.length (accepts own)).symm
      · dsimp only
        by_cases read : own = segmentId
        · subst read
          rw [Function.update_self]
          apply others
          intro process
          exact same (owns.unique isThread otherThread ownOwns process)
        · rw [Function.update_of_ne read]

theorem linesOf_append (written : List WrittenLine) (line : WrittenLine)
    (process segmentId : Nat) :
    linesOf (written ++ [line]) process segmentId =
      linesOf written process segmentId ++
        if line.id.process = process ∧ line.segmentId = segmentId then [line.line] else [] := by
  unfold linesOf
  rw [List.filter_append, List.map_append]
  by_cases own : line.id.process = process ∧ line.segmentId = segmentId
  · simp [own]
  · rw [if_neg own, List.filter_singleton, decide_eq_false own]
    rfl

/-- The line in the hands of the thread comes into the file. -/
theorem Inv.output (inv : delivery.Inv setup) (isThread : setup.IsThread id)
    (taken : delivery.step setup (.output id) = some next) : next.Inv setup := by
  unfold Delivery.step at taken
  dsimp only at taken
  split at taken
  case h_2 => cases taken
  case h_1 segmentId line place =>
    split at taken
    case isFalse => cases taken
    case isTrue =>
      cases taken
      have kept := inv.kept id isThread
      have owns := kept.place
      have lines := kept.lines
      rw [place] at owns lines
      refine ⟨inv.segments, fun written member => ?_, fun other otherThread => ?_⟩
      · rcases List.mem_append.mp member with earlier | last
        · exact inv.written written earlier
        · rw [List.mem_singleton.mp last]
          exact ⟨isThread, owns⟩
      · by_cases same : other = id
        · subst same
          refine ⟨kept.cursor, ?_, fun own ownOwns => ?_⟩
          · dsimp only
            rw [Function.update_self]
            trivial
          · dsimp only
            rw [Function.update_self, lines own ownOwns]
            unfold Delivery.writtenLines ThreadPlace.held
            dsimp only
            rw [linesOf_append, List.append_nil]
            simp only [true_and]
        · apply (inv.kept other otherThread).frame
          refine ⟨rfl, Function.update_of_ne same _ _, fun _ => Nat.le_refl _, fun _ _ => rfl,
            fun own ownOwns => ?_⟩
          unfold Delivery.writtenLines
          dsimp only
          rw [linesOf_append, if_neg, List.append_nil]
          rintro ⟨process, rfl⟩
          exact same (owns.unique isThread otherThread ownOwns process.symm)

theorem Inv.step (inv : delivery.Inv setup) (blocking : setup.hdr.overwrite = false)
    (fits : setup.hdr.lineCount * setup.hdr.lineSize < 2 ^ 32) {call : DeliveryCall}
    (permitted : Permitted setup call) (taken : delivery.step setup call = some next) :
    next.Inv setup := by
  cases call with
  | write segmentId src => exact inv.write blocking fits permitted taken
  | call id => exact inv.call permitted taken
  | probe id =>
      unfold Delivery.step at taken
      dsimp only at taken
      split at taken
      case h_1 begun place =>
        cases taken
        apply inv.move permitted
        · intro segmentId
          rw [place]
          rfl
        · trivial
      case h_2 tries begun place => exact inv.probe blocking fits permitted place taken
      case h_3 => cases taken
  | output id => exact inv.output permitted taken

end Delivery

/-! ### Calls without interruption -/

section Uninterrupted

variable {setup : Setup} {delivery : Delivery} {id : ThreadId}

/-- A read that returns 0 changes nothing. -/
theorem shmrbufRead_nothing {hdr : GlobalHdr} {segmentId reader : Nat} {segment : Segment}
    (nothing : (shmrbufRead hdr segmentId segment reader hdr.lineSize).code = 0) :
    (shmrbufRead hdr segmentId segment reader hdr.lineSize).segment = segment := by
  have positive := hdr.lineSize_pos
  unfold shmrbufRead at nothing ⊢
  split
  · rfl
  · split
    · rfl
    · dsimp only
      split
      · rfl
      case isFalse outside nonempty unread =>
        rw [if_neg outside, if_neg nonempty] at nothing
        dsimp only at nothing
        rw [if_neg unread, Nat.min_self] at nothing
        dsimp only at nothing
        omega

/-- The loop of `shmrbuf_read_rng` in the state the thread finds. -/
def Delivery.loop (setup : Setup) (delivery : Delivery) (id : ThreadId) (tries : Nat) : Probing :=
  probeSegments (ownCursor (setup.range id).1 (setup.range id).2)
    (fun segmentId => shmrbufRead setup.hdr segmentId (delivery.segments segmentId).segment
      id.process setup.hdr.lineSize) tries (delivery.segmentIndex id)

/-- What a whole loop with a certain end leaves. -/
def Delivery.Loops (delivery next : Delivery) (id : ThreadId) :
    Option (Nat × ReadResult) → Prop
  | none =>
      next.place id = .outside ∧
        ∀ other, (next.segments other).segment = (delivery.segments other).segment
  | some (segmentId, result) =>
      next.place id = afterAnswer segmentId result ∧
        (next.segments segmentId).segment = result.segment ∧
        ∀ other, other ≠ segmentId →
          (next.segments other).segment = (delivery.segments other).segment

theorem Delivery.Loops.congr {middle next : Delivery} {ended : Option (Nat × ReadResult)}
    (loops : middle.Loops next id ended)
    (same : ∀ other, (middle.segments other).segment = (delivery.segments other).segment) :
    delivery.Loops next id ended := by
  cases ended with
  | none => exact ⟨loops.1, fun other => (loops.2 other).trans (same other)⟩
  | some answer =>
      exact ⟨loops.1, loops.2.1, fun other different =>
        (loops.2.2 other different).trans (same other)⟩

theorem step_probe_zero {begun : Nat → Nat} (place : delivery.place id = .probing 0 begun) :
    delivery.step setup (.probe id) =
      some { delivery with place := Function.update delivery.place id .outside } := by
  simp only [Delivery.step, place]

theorem step_probe_succ {tries : Nat} {begun : Nat → Nat}
    (place : delivery.place id = .probing (tries + 1) begun) :
    delivery.step setup (.probe id) = delivery.probe setup id tries begun := by
  simp only [Delivery.step, place]

/-- What a round of the loop does to the thread and to the segments. -/
theorem probe_spec (setup : Setup) (delivery : Delivery) (id : ThreadId) (tries : Nat)
    (begun : Nat → Nat) :
    let segmentId := ownCursor (setup.range id).1 (setup.range id).2 (delivery.segmentIndex id)
    let result := shmrbufRead setup.hdr segmentId (delivery.segments segmentId).segment id.process
      setup.hdr.lineSize
    ∃ next, delivery.probe setup id tries begun = some next ∧
      next.segmentIndex id = indexNext segmentId ∧
      next.place id =
        (if result.code = 0 then .probing tries begun else afterAnswer segmentId result) ∧
      (next.segments segmentId).segment = result.segment ∧
      ∀ other, other ≠ segmentId → next.segments other = delivery.segments other := by
  refine ⟨_, rfl, Function.update_self _ _ _, Function.update_self _ _ _, ?_,
    fun other different => Function.update_of_ne different _ _⟩
  dsimp only
  rw [Function.update_self]

/-- The steps of a thread that nobody interrupts are the loop. -/
theorem probe_loop {tries : Nat} {begun : Nat → Nat}
    (place : delivery.place id = .probing tries begun) (isThread : setup.IsThread id) :
    ∃ probes next, Run (Delivery.step setup) (fun _ call => Delivery.Permitted setup call)
        delivery (List.replicate probes (.probe id)) next ∧
      next.segmentIndex id = (delivery.loop setup id tries).index ∧
      delivery.Loops next id (delivery.loop setup id tries).ended := by
  induction tries generalizing delivery with
  | zero =>
      refine ⟨1, _, .single isThread (step_probe_zero place), rfl, ?_⟩
      exact ⟨Function.update_self _ _ _, fun _ => rfl⟩
  | succ tries inductionHypothesis =>
      obtain ⟨middle, moved, index, place', read, others⟩ :=
        probe_spec setup delivery id tries begun
      rw [← step_probe_succ place] at moved
      generalize probed : ownCursor (setup.range id).1 (setup.range id).2
        (delivery.segmentIndex id) = segmentId at index place' read others
      have loop : delivery.loop setup id (tries + 1) =
          let result := shmrbufRead setup.hdr segmentId (delivery.segments segmentId).segment
            id.process setup.hdr.lineSize
          if result.code ≠ 0 then ⟨some (segmentId, result), [segmentId], indexNext segmentId⟩
          else
            let later := probeSegments (ownCursor (setup.range id).1 (setup.range id).2)
              (fun other => shmrbufRead setup.hdr other (delivery.segments other).segment
                id.process setup.hdr.lineSize) tries (indexNext segmentId)
            { later with probed := segmentId :: later.probed } := by
        rw [← probed]
        rfl
      dsimp only at loop
      rw [loop]
      by_cases answered : (shmrbufRead setup.hdr segmentId
          (delivery.segments segmentId).segment id.process setup.hdr.lineSize).code = 0
      · rw [if_pos answered] at place'
        rw [if_neg (not_not_intro answered)]
        have segments (other : Nat) :
            (middle.segments other).segment = (delivery.segments other).segment := by
          by_cases same : other = segmentId
          · rw [same, read, shmrbufRead_nothing answered]
          · rw [others other same]
        obtain ⟨probes, next, run, last, loops⟩ := inductionHypothesis place'
        have later : middle.loop setup id tries =
            probeSegments (ownCursor (setup.range id).1 (setup.range id).2)
              (fun other => shmrbufRead setup.hdr other (delivery.segments other).segment
                id.process setup.hdr.lineSize) tries (indexNext segmentId) := by
          unfold Delivery.loop
          simp only [segments, index]
        rw [later] at last loops
        exact ⟨probes + 1, next, .cons isThread moved run, last, loops.congr segments⟩
      · rw [if_neg answered] at place'
        rw [if_pos answered]
        exact ⟨1, middle, .single isThread moved, index, place', read, fun other different =>
          congrArg History.segment (others other different)⟩

/-- A call that nobody interrupts is `shmrbuf_read_rng`. -/
theorem call_readRng (outside : delivery.place id = .outside) (isThread : setup.IsThread id)
    (stealIndex : Nat) :
    let result := shmrbufReadRng setup.hdr (fun other => (delivery.segments other).segment)
      id.process setup.hdr.lineSize (setup.range id).1 (setup.range id).2 none
      ⟨delivery.segmentIndex id, stealIndex⟩
    ∃ probes next, Run (Delivery.step setup) (fun _ call => Delivery.Permitted setup call)
        delivery (.call id :: List.replicate probes (.probe id)) next ∧
      next.segmentIndex id = result.cursors.segmentIndex ∧
      (∀ other, (next.segments other).segment = result.segments other) ∧
      (result.code = 0 → next.place id = .outside) ∧
      ∀ line, result.lines = [line] → ∃ segmentId, next.place id = .holding segmentId line := by
  have bounds := isThread.bounds
  have valid : ¬((setup.range id).1 > (setup.range id).2 ∨
      (setup.range id).2 > setup.hdr.segmentCount) := by omega
  let begun : Nat → Nat := fun segmentId => (delivery.segments segmentId).accepted.length
  let called : Delivery :=
    { delivery with
      place := Function.update delivery.place id
        (.probing ((setup.range id).2 - (setup.range id).1) begun) }
  have first : delivery.step setup (.call id) = some called := by
    simp only [Delivery.step, outside]
    rfl
  have probing : called.place id = .probing ((setup.range id).2 - (setup.range id).1) begun :=
    Function.update_self _ _ _
  obtain ⟨probes, next, run, index, loops⟩ := probe_loop probing isThread
  refine ⟨probes, next, .cons isThread first run, ?_⟩
  unfold shmrbufReadRng
  rw [if_neg valid]
  dsimp only
  have same : probeSegments (ownCursor (setup.range id).1 (setup.range id).2)
      (fun segmentId => shmrbufRead setup.hdr segmentId (delivery.segments segmentId).segment
        id.process setup.hdr.lineSize) ((setup.range id).2 - (setup.range id).1)
      (delivery.segmentIndex id) =
        called.loop setup id ((setup.range id).2 - (setup.range id).1) := rfl
  rw [same]
  cases ended : (called.loop setup id ((setup.range id).2 - (setup.range id).1)).ended with
  | none =>
      rw [ended] at loops
      exact ⟨index, loops.2, fun _ => loops.1, fun _ empty => by cases empty⟩
  | some answer =>
      obtain ⟨segmentId, result⟩ := answer
      rw [ended] at loops
      refine ⟨index, fun other => ?_, fun nothing => ?_, fun line one => ⟨segmentId, ?_⟩⟩
      · by_cases own : other = segmentId
        · rw [own]
          dsimp only
          rw [Function.update_self]
          exact loops.2.1
        · dsimp only
          rw [Function.update_of_ne own]
          exact loops.2.2 other own
      · exact absurd nothing (probeSegments_code _ _ ended)
      · have line : result.lines = [line] := one
        rw [loops.1, afterAnswer, line]

end Uninterrupted

/-! ### Every run -/

/-- What a process has of a segment: one of its threads has written all of it, a prefix
of the accepted lines; at most one line is still in the hands of that thread; and when
a call of the thread finds no line, every line from before the call is in the file. -/
def Delivery.EveryLineOnce (setup : Setup) (delivery : Delivery) (process segmentId : Nat) :
    Prop :=
  ∃ thread < setup.threadNumber process,
    (∀ line ∈ delivery.written, line.id.process = process → line.segmentId = segmentId →
      line.id.thread = thread) ∧
    delivery.writtenLines process segmentId <+:
      (delivery.segments segmentId).accepted.map (padLine setup.hdr.lineSize) ∧
    ((delivery.segments segmentId).received process).length ≤
      (delivery.writtenLines process segmentId).length + 1 ∧
    ∀ begun, delivery.place ⟨process, thread⟩ = .probing 0 begun →
      begun segmentId ≤ (delivery.writtenLines process segmentId).length

theorem Delivery.Inv.everyLineOnce {setup : Setup} {delivery : Delivery}
    (inv : delivery.Inv setup) {process segmentId : Nat} (reads : process < setup.hdr.readerCount)
    (positive : 1 ≤ setup.threadNumber process) (inside : segmentId < setup.hdr.segmentCount) :
    delivery.EveryLineOnce setup process segmentId := by
  obtain ⟨thread, below, owns⟩ := Setup.exists_owner positive inside
  have isThread : setup.IsThread ⟨process, thread⟩ := ⟨reads, below⟩
  have kept := inv.kept _ isThread
  have lines := kept.lines segmentId owns
  refine ⟨thread, below, fun line member sameProcess sameSegment => ?_, ?_, ?_,
    fun begun place => ?_⟩
  · obtain ⟨lineThread, lineOwns⟩ := inv.written line member
    rw [sameSegment] at lineOwns
    exact congrArg ThreadId.thread (owns.unique isThread lineThread lineOwns sameProcess)
  · have received := (inv.segments segmentId inside).received process reads
    rw [lines] at received
    have whole : delivery.writtenLines process segmentId <+:
        delivery.writtenLines process segmentId ++
          (delivery.place ⟨process, thread⟩).held segmentId := List.prefix_append _ _
    rw [received] at whole
    exact whole.trans (List.take_prefix _ _)
  · rw [lines, List.length_append]
    have one : ((delivery.place ⟨process, thread⟩).held segmentId).length ≤ 1 := by
      cases delivery.place ⟨process, thread⟩ with
      | outside => exact Nat.zero_le _
      | probing tries begun => exact Nat.zero_le _
      | holding own line =>
          show (if own = segmentId then [line] else []).length ≤ 1
          split
          · exact Nat.le_refl _
          · exact Nat.zero_le _
    exact Nat.add_le_add_left one _
  · have seen := kept.place
    rw [place] at seen lines
    rcases seen.seen segmentId owns with ahead | enough
    · cases ahead
    · rw [lines, List.length_append] at enough
      exact enough

/-- In every interleaving of the writers and of the threads of all reader processes, on
a buffer whose segments are below 4 GiB, every process writes the lines of every
segment into its file in order, each once, by one of its threads. -/
theorem linesInFiles_run {setup : Setup} (blocking : setup.hdr.overwrite = false)
    (fits : setup.hdr.lineCount * setup.hdr.lineSize < 2 ^ 32) {data : Nat → Data}
    {calls : List DeliveryCall} {last : Delivery}
    (run : Run (Delivery.step setup) (fun _ call => Delivery.Permitted setup call)
      (.started data) calls last)
    {process segmentId : Nat} (reads : process < setup.hdr.readerCount)
    (positive : 1 ≤ setup.threadNumber process) (inside : segmentId < setup.hdr.segmentCount) :
    last.EveryLineOnce setup process segmentId := by
  have inv : last.Inv setup :=
    run.invariant (fun _ _ _ inv permitted taken => inv.step blocking fits permitted taken)
      (Delivery.Inv.started setup data)
  exact inv.everyLineOnce reads positive inside

theorem pairSegments_pos : 0 < 2 := by decide

theorem pairSegments_lt : 2 < 2 ^ 8 := by decide

theorem fourBytes_pos : 0 < 4 := by decide

theorem fourBytes_lt : 4 < 2 ^ 16 := by decide

/-- Two segments of two lines of four bytes. -/
def pairHdr : GlobalHdr where
  __ := smallHdr
  segmentCount := 2
  lineSize := 4
  segmentCount_pos := pairSegments_pos
  segmentCount_lt := pairSegments_lt
  lineSize_pos := fourBytes_pos
  lineSize_lt := fourBytes_lt

/-- One reader process with a thread for each of the segments. -/
def pairSetup : Setup := ⟨pairHdr, fun _ => 2⟩

/-- Both segments have a line when the threads begin, and the second thread is faster. -/
def pairCalls : List DeliveryCall :=
  [.write 0 [97, 10, 0], .write 1 [98, 10, 0], .call ⟨0, 0⟩, .call ⟨0, 1⟩,
    .probe ⟨0, 1⟩, .probe ⟨0, 0⟩, .output ⟨0, 1⟩, .output ⟨0, 0⟩]

theorem linesInFiles_run_pair : ∃ last,
    Run (Delivery.step pairSetup) (fun _ call => Delivery.Permitted pairSetup call)
      (.started fun _ _ => 0) pairCalls last ∧
    last.file 0 = [98, 10, 97, 10] ∧ last.EveryLineOnce pairSetup 0 1 := by
  have executed : (Run.exec (Delivery.step pairSetup)
      (fun _ call => Delivery.Permitted pairSetup call) (.started fun _ _ => 0)
        pairCalls).any (fun last => last.file 0 = [98, 10, 97, 10]) = true := by
    decide +kernel
  obtain ⟨last, run, file⟩ := Run.of_exec_any executed
  exact ⟨last, run, of_decide_eq_true file,
    linesInFiles_run rfl (by decide) run (by decide) (by decide) (by decide)⟩

end FipsIpc.ShmReader
