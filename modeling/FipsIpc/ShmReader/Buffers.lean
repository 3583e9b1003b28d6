import FipsIpc.FipsBuf.Header
import FipsIpc.Lib.Pool
import FipsIpc.Lib.Run

/-!
Contract: the buffers of a reader thread that writes in batches.

Owns: `single_read_batch_write` and both variants of `batch_read_batch_write` of
`programs/shm_reader.c` as one loop with three ways to read, the requests of the
thread in the submission queue, in the kernel and in the completion queue, and
that no buffer is read into while a request refers to it.

The routine is the only one that takes buffers and puts them back.  The kernel
takes requests in order, but completes them in any order and at any time; so
does the signal handler set `do_shutdown`.

Does not own: what is read from the shared memory, and what the kernel writes to
the file.
-/

set_option autoImplicit false

namespace FipsIpc.ShmReader

open FipsIpc.Lib

/-! ### The routines -/

/-- Where a thread is: at `while(!do_shutdown)`, in the loop that fills the
submission queue, in front of `io_uring_submit`, in the loop over the completion
queue, behind `io_uring_queue_exit`, or in `exit(EXIT_FAILURE)`. -/
inductive Phase where
  | outer
  | filling
  | submitting
  | reaping
  | left
  | failed
deriving DecidableEq

/-- What distinguishes the routines: what follows a result of the read, unless
lines were read; whether the inner loops test `do_shutdown`; and what is passed
to `fips_buf_return` for a completed write. -/
structure Routine (Slot : Type) where
  afterRead : Int → Option Phase
  innerTests : Bool
  tag : Slot → Option UInt64

/-- The result of `shmrbuf_read_rng` or `shmrbuf_readv_rng`. -/
def afterCopyingRead (rsize : Int) : Option Phase :=
  if rsize < 0 then some .failed
  else if rsize = 0 then some .submitting
  else none

/-- The buffers are lines. -/
def singleReadBatchWrite {Line : Type} : Routine Line := ⟨afterCopyingRead, false, fun _ => none⟩

/-- The buffers are vectors of lines. -/
def batchReadBatchWrite {Lines : Type} : Routine Lines := ⟨afterCopyingRead, false, fun _ => none⟩

/-- With `ZERO_COPY` the buffers are vectors that point into the ring, with the
entry of `tags`.  A failed read is repeated. -/
def batchReadBatchWriteZeroCopy {Lines : Type} : Routine (Lines × UInt64) :=
  ⟨fun ret => if ret ≠ FipsBuf.fipsBufSuccess then some .filling else none, true,
    fun slot => some slot.2⟩

/-- A request: its user data is the address of an entry of `array_idx`.  `slot`
is what its buffer held when the request was prepared. -/
structure Request (Slot : Type) where
  data : Nat
  slot : Slot

/-- The variables of a routine, what it has read, what the completed writes were
about and which tags it has returned. -/
structure Locals (Slot : Type) where
  arrayIdx : Nat → Nat
  bufferPosition : Nat → Nat
  idx : Nat
  buffers : Nat → Slot
  read : List Slot
  written : List Slot
  returned : List UInt64

/-- A thread with its ring. -/
structure Thread (Slot : Type) where
  phase : Phase
  doShutdown : Bool
  locals : Locals Slot
  queued : List (Request Slot)
  submitted : List (Request Slot)
  completed : List (Request Slot)

/-- The ring of a thread.  `io_uring_queue_init_params` rounds the number of
entries up. -/
structure SubmissionQueue (size : Nat) where
  entries : Nat
  size_le : size ≤ entries

/-- What happens next: SIGINT, the completion of some request, or the thread goes
on, at one of its loops or with `io_uring_submit`.  Results of the calls are
part of the event; a read may leave anything in its buffer. -/
inductive Event (Slot : Type) where
  | signal
  | complete (index : Nat)
  | loop
  | fill (result : Int) (slot : Slot)
  | submit (accepted : Nat)
  | reap

namespace Thread

variable {Slot : Type}

/-- The thread in front of its outer loop; the buffers are not initialised. -/
def initial (buffers : Nat → Slot) : Thread Slot where
  phase := .outer
  doShutdown := false
  locals := ⟨fun i => i, fun i => i, 0, buffers, [], [], []⟩
  queued := []
  submitted := []
  completed := []

/-- The requests whose completion the thread has not seen. -/
def inFlight (thread : Thread Slot) : List (Request Slot) :=
  thread.queued ++ thread.submitted ++ thread.completed

/-- The buffers of these requests. -/
def buffersInFlight (thread : Thread Slot) : List Nat :=
  thread.inFlight.map fun request => thread.locals.arrayIdx request.data

/-- The kernel completes one of the submitted requests. -/
def complete (thread : Thread Slot) (index : Nat) : Option (Thread Slot) :=
  thread.submitted[index]?.map fun request =>
    { thread with
      submitted := thread.submitted.eraseIdx index
      completed := thread.completed ++ [request] }

/-- `io_uring_submit`: the kernel takes requests in order, possibly not all. -/
def submit (thread : Thread Slot) (accepted : Nat) : Thread Slot :=
  { thread with
    phase := .reaping
    queued := thread.queued.drop accepted
    submitted := thread.submitted ++ thread.queued.take accepted }

end Thread

namespace Routine

variable {Slot : Type} (routine : Routine Slot) {size : Nat} (ring : SubmissionQueue size)

/-- `buffer_array[buffer_idx]` after the read. -/
def readInto (locals : Locals Slot) (slot : Slot) : Locals Slot :=
  { locals with
    buffers := Function.update locals.buffers (locals.bufferPosition locals.idx) slot }

/-- One pass of the loop that fills the submission queue. -/
def fill (thread : Thread Slot) (result : Int) (slot : Slot) : Thread Slot :=
  if routine.innerTests && thread.doShutdown then { thread with phase := .submitting }
  else if thread.locals.idx = size then { thread with phase := .submitting }
  else
    let locals := readInto thread.locals slot
    match routine.afterRead result with
    | some phase => { thread with locals := locals, phase := phase }
    | none =>
        let locals := { locals with read := locals.read ++ [slot] }
        -- `io_uring_get_sqe` is NULL when the submission queue is full
        if ring.entries ≤ thread.queued.length then
          { thread with locals := locals, phase := .submitting }
        else
          { thread with
            locals := { locals with idx := locals.idx + 1 }
            queued := thread.queued ++ [⟨locals.bufferPosition locals.idx, slot⟩] }

/-- What the loop over the completion queue does with a request. -/
def putBack (locals : Locals Slot) (request : Request Slot) : Locals Slot :=
  let buffer := locals.arrayIdx request.data
  { locals with
    bufferPosition := Function.update locals.bufferPosition (locals.idx - 1) buffer
    idx := locals.idx - 1
    written := locals.written ++ [request.slot]
    returned := locals.returned ++ (routine.tag (locals.buffers buffer)).toList }

/-- One pass of the loop over the completion queue.  Nothing if `buffer_position`
were written in front of its start. -/
def reap (thread : Thread Slot) : Option (Thread Slot) :=
  if routine.innerTests && thread.doShutdown then some { thread with phase := .outer }
  else
    match thread.completed with
    | [] => some { thread with phase := .outer }
    | request :: rest =>
        if thread.locals.idx = 0 then none
        else
          let locals := routine.putBack thread.locals request
          some { thread with
            locals := locals
            completed := rest
            phase := if locals.idx = 0 then .outer else .reaping }

def step (thread : Thread Slot) : Event Slot → Option (Thread Slot)
  | .signal => some { thread with doShutdown := true }
  | .complete index => thread.complete index
  | .loop =>
      if thread.phase = .outer then
        some { thread with phase := if thread.doShutdown then .left else .filling }
      else none
  | .fill result slot =>
      if thread.phase = .filling then some (routine.fill ring thread result slot) else none
  | .submit accepted =>
      if thread.phase = .submitting then some (thread.submit accepted) else none
  | .reap => if thread.phase = .reaping then routine.reap thread else none

end Routine

/-! ### Buffers in flight -/

/-- The free buffers are those not in flight, each listed once, `idx` is the
number of the others, the next buffer is not in flight, and every buffer in
flight still holds what was read for its request. -/
structure BuffersKept {Slot : Type} (size : Nat) (thread : Thread Slot) : Prop where
  count : thread.locals.idx = thread.inFlight.length
  listed : ∀ buffer, buffer ∈ Pool.free thread.locals.bufferPosition thread.locals.idx size ↔
    buffer < size ∧ buffer ∉ thread.buffersInFlight
  once : (Pool.free thread.locals.bufferPosition thread.locals.idx size).Nodup
  next : thread.locals.idx < size →
    thread.locals.bufferPosition thread.locals.idx ∉ thread.buffersInFlight
  distinct : thread.buffersInFlight.Nodup
  unchanged : ∀ request ∈ thread.inFlight,
    thread.locals.buffers (thread.locals.arrayIdx request.data) = request.slot

/-- Every tag that was read is in flight or was returned, once; and the returned
ones are those of the completed writes. -/
structure TagsReturned {Lines : Type} (thread : Thread (Lines × UInt64)) : Prop where
  once : (thread.locals.read.map Prod.snd).Perm
    (thread.locals.returned ++ thread.inFlight.map fun request => request.slot.2)
  completed : thread.locals.returned = thread.locals.written.map Prod.snd

/-- The invariant, of the variables and the requests in flight in any order. -/
structure Kept {Slot : Type} (routine : Routine Slot) (size : Nat) (locals : Locals Slot)
    (inFlight : List (Request Slot)) : Prop where
  splits : Pool.Splits locals.bufferPosition locals.idx size (inFlight.map Request.data)
  pointers : ∀ index, locals.arrayIdx index = index
  unchanged : ∀ request ∈ inFlight, locals.buffers request.data = request.slot
  balance : locals.read.Perm (locals.written ++ inFlight.map Request.slot)
  returned : locals.returned = locals.written.filterMap routine.tag

namespace Kept

variable {Slot : Type} {routine : Routine Slot} {size : Nat} {locals : Locals Slot}
  {inFlight : List (Request Slot)}

theorem initial (routine : Routine Slot) (size : Nat) (buffers : Nat → Slot) :
    Kept routine size (Thread.initial buffers).locals (Thread.initial buffers).inFlight where
  splits := Pool.Splits.start fun _ _ => rfl
  pointers _ := rfl
  unchanged := by simp [Thread.initial, Thread.inFlight]
  balance := List.Perm.refl _
  returned := rfl

theorem perm {other : List (Request Slot)} (kept : Kept routine size locals inFlight)
    (same : other.Perm inFlight) : Kept routine size locals other where
  splits := kept.splits.perm (same.map _)
  pointers := kept.pointers
  unchanged request member := kept.unchanged request (same.mem_iff.mp member)
  balance := kept.balance.trans ((same.symm.map _).append_left _)
  returned := kept.returned

/-- A read goes to a buffer that is not in flight. -/
theorem readInto (kept : Kept routine size locals inFlight) (room : locals.idx < size)
    (slot : Slot) : Kept routine size (Routine.readInto locals slot) inFlight where
  splits := kept.splits
  pointers := kept.pointers
  unchanged request member := by
    have other : request.data ≠ locals.bufferPosition locals.idx :=
      ne_of_mem_of_not_mem (List.mem_map_of_mem member) (kept.splits.next_not_mem room)
    unfold Routine.readInto
    dsimp only
    rw [Function.update_of_ne other]
    exact kept.unchanged request member
  balance := kept.balance
  returned := kept.returned

/-- The request for the lines just read. -/
theorem prepare (kept : Kept routine size locals inFlight) (room : locals.idx < size)
    {slot : Slot} (holds : locals.buffers (locals.bufferPosition locals.idx) = slot) :
    Kept routine size { locals with read := locals.read ++ [slot], idx := locals.idx + 1 }
      (⟨locals.bufferPosition locals.idx, slot⟩ :: inFlight) where
  splits := kept.splits.take room
  pointers := kept.pointers
  unchanged := by
    rw [List.forall_mem_cons]
    exact ⟨holds, kept.unchanged⟩
  balance := by
    show (locals.read ++ [slot]).Perm (locals.written ++ slot :: inFlight.map Request.slot)
    have front : (locals.read ++ [slot]).Perm (slot :: locals.read) :=
      List.perm_append_singleton _ _
    exact (front.trans (kept.balance.cons _)).trans List.perm_middle.symm
  returned := kept.returned

/-- The buffer of a completed request is put back. -/
theorem putBack {request : Request Slot} {rest : List (Request Slot)}
    (kept : Kept routine size locals (request :: rest)) :
    Kept routine size (routine.putBack locals request) rest where
  splits := by
    unfold Routine.putBack
    dsimp only
    rw [kept.pointers]
    exact kept.splits.put
  pointers := kept.pointers
  unchanged other member := kept.unchanged other (List.mem_cons_of_mem _ member)
  balance := by
    show locals.read.Perm (locals.written ++ [request.slot] ++ rest.map Request.slot)
    rw [List.append_assoc]
    exact kept.balance
  returned := by
    have holds := kept.unchanged request List.mem_cons_self
    unfold Routine.putBack
    dsimp only
    rw [kept.pointers, holds, kept.returned, List.filterMap_append]
    cases isTag : routine.tag request.slot <;> simp [isTag]

end Kept

section Steps

variable {Slot : Type} {routine : Routine Slot} {size : Nat} {ring : SubmissionQueue size}
  {thread next : Thread Slot}

theorem inFlight_submit (thread : Thread Slot) (accepted : Nat) :
    (thread.submit accepted).inFlight.Perm thread.inFlight := by
  have moved : (thread.queued.drop accepted ++ thread.submitted ++
      thread.queued.take accepted).Perm
      (thread.queued.take accepted ++ (thread.queued.drop accepted ++ thread.submitted)) :=
    List.perm_append_comm
  rw [← List.append_assoc, List.take_append_drop, List.append_assoc] at moved
  exact moved.append_right _

theorem inFlight_complete {index : Nat} (taken : thread.complete index = some next) :
    next.inFlight.Perm thread.inFlight ∧ next.locals = thread.locals := by
  unfold Thread.complete at taken
  rcases Option.map_eq_some_iff.mp taken with ⟨request, present, rfl⟩
  rcases List.getElem?_eq_some_iff.mp present with ⟨inside, isRequest⟩
  have whole : (request :: thread.submitted.eraseIdx index).Perm thread.submitted :=
    isRequest ▸ List.getElem_cons_eraseIdx_perm inside
  have moved : (thread.submitted.eraseIdx index ++ (thread.completed ++ [request])).Perm
      (thread.submitted ++ thread.completed) := by
    rw [← List.append_assoc]
    exact (List.perm_append_singleton _ _).trans (whole.append_right _)
  refine ⟨?_, rfl⟩
  unfold Thread.inFlight
  dsimp only
  rw [List.append_assoc, List.append_assoc]
  exact moved.append_left _

/-- The submission queue always has room for the request. -/
theorem Kept.queued_lt (kept : Kept routine size thread.locals thread.inFlight)
    (room : thread.locals.idx < size) : thread.queued.length < ring.entries := by
  have count := kept.splits.count
  have enough := ring.size_le
  simp only [Thread.inFlight, List.length_map, List.length_append] at count
  omega

theorem Kept.fill (kept : Kept routine size thread.locals thread.inFlight) (result : Int)
    (slot : Slot) :
    Kept routine size (routine.fill ring thread result slot).locals
      (routine.fill ring thread result slot).inFlight := by
  unfold Routine.fill
  split
  case isTrue => exact kept
  split
  case isTrue => exact kept
  case isFalse notFull =>
    have room : thread.locals.idx < size := Nat.lt_of_le_of_ne kept.splits.le_size notFull
    have readKept := kept.readInto room slot
    dsimp only
    split
    · exact readKept
    · rw [if_neg (Nat.not_le.mpr (kept.queued_lt room))]
      have holds : (Routine.readInto thread.locals slot).buffers
          ((Routine.readInto thread.locals slot).bufferPosition
            (Routine.readInto thread.locals slot).idx) = slot := Function.update_self _ _ _
      apply (readKept.prepare room holds).perm
      unfold Thread.inFlight
      dsimp only
      rw [List.append_assoc, List.append_assoc, List.append_assoc]
      exact List.perm_middle

theorem Kept.reap (kept : Kept routine size thread.locals thread.inFlight)
    (taken : routine.reap thread = some next) :
    Kept routine size next.locals next.inFlight := by
  unfold Routine.reap at taken
  split at taken
  case isTrue =>
    cases taken
    exact kept
  case isFalse =>
    split at taken
    case h_1 =>
      cases taken
      exact kept
    case h_2 request rest completed =>
      split at taken
      case isTrue => cases taken
      case isFalse =>
        cases taken
        have front : (request :: (thread.queued ++ thread.submitted ++ rest)).Perm
            thread.inFlight := by
          unfold Thread.inFlight
          rw [completed]
          exact List.perm_middle.symm
        exact (kept.perm front).putBack

theorem Kept.step (kept : Kept routine size thread.locals thread.inFlight) {event : Event Slot}
    (taken : routine.step ring thread event = some next) :
    Kept routine size next.locals next.inFlight := by
  cases event with
  | signal =>
      cases taken
      exact kept
  | complete index =>
      rcases inFlight_complete taken with ⟨same, locals⟩
      rw [locals]
      exact kept.perm same
  | loop =>
      simp only [Routine.step, Option.ite_none_right_eq_some, Option.some.injEq] at taken
      rw [← taken.2]
      exact kept
  | fill result slot =>
      simp only [Routine.step, Option.ite_none_right_eq_some, Option.some.injEq] at taken
      rw [← taken.2]
      exact kept.fill result slot
  | submit accepted =>
      simp only [Routine.step, Option.ite_none_right_eq_some, Option.some.injEq] at taken
      rw [← taken.2]
      exact kept.perm (inFlight_submit thread accepted)
  | reap =>
      simp only [Routine.step, Option.ite_none_right_eq_some] at taken
      exact kept.reap taken.2

theorem kept_run {buffers : Nat → Slot} {events : List (Event Slot)}
    (run : Lib.Run (routine.step ring) (fun _ _ => True) (.initial buffers) events next) :
    Kept routine size next.locals next.inFlight := by
  apply run.invariant
  · intro thread event next kept _ taken
    exact kept.step taken
  · exact .initial routine size buffers

theorem Kept.buffersKept (kept : Kept routine size thread.locals thread.inFlight) :
    BuffersKept size thread := by
  have same : thread.buffersInFlight = thread.inFlight.map Request.data := by
    apply List.map_congr_left
    intro request _
    exact kept.pointers _
  have apart := List.nodup_append.mp kept.splits.nodup
  refine ⟨?_, ?_, apart.1, ?_, ?_, ?_⟩
  · rw [kept.splits.count, List.length_map]
  · intro buffer
    rw [same]
    exact kept.splits.mem_free_iff
  · rw [same]
    exact kept.splits.next_not_mem
  · rw [same]
    exact apart.2.1
  · intro request member
    rw [kept.pointers]
    exact kept.unchanged request member

end Steps

theorem Kept.tagsReturned {Lines : Type} {size : Nat} {thread : Thread (Lines × UInt64)}
    (kept : Kept batchReadBatchWriteZeroCopy size thread.locals thread.inFlight) :
    TagsReturned thread := by
  have completed : thread.locals.returned = thread.locals.written.map Prod.snd := by
    rw [kept.returned]
    exact congrFun List.filterMap_eq_map _
  refine ⟨?_, completed⟩
  have balance := kept.balance.map Prod.snd
  rw [List.map_append, List.map_map] at balance
  rw [completed]
  exact balance

/-- In every run of the three routines, with completions in any order, no buffer
is in use twice; and with `ZERO_COPY` every tag is returned once, when its own
write is completed. -/
theorem buffers_in_flight_not_reused {Line Lines : Type} {size : Nat}
    (ring : SubmissionQueue size) :
    (∀ (buffers : Nat → Line) (events : List (Event Line)) (last : Thread Line),
      Lib.Run (singleReadBatchWrite.step ring) (fun _ _ => True) (.initial buffers) events last →
        BuffersKept size last) ∧
    (∀ (buffers : Nat → Lines) (events : List (Event Lines)) (last : Thread Lines),
      Lib.Run (batchReadBatchWrite.step ring) (fun _ _ => True) (.initial buffers) events last →
        BuffersKept size last) ∧
    ∀ (buffers : Nat → Lines × UInt64) (events : List (Event (Lines × UInt64)))
      (last : Thread (Lines × UInt64)),
      Lib.Run (batchReadBatchWriteZeroCopy.step ring) (fun _ _ => True) (.initial buffers) events
        last → BuffersKept size last ∧ TagsReturned last := by
  refine ⟨?_, ?_, ?_⟩
  · intro buffers events last run
    exact (kept_run run).buffersKept
  · intro buffers events last run
    exact (kept_run run).buffersKept
  · intro buffers events last run
    exact ⟨(kept_run run).buffersKept, (kept_run run).tagsReturned⟩

/-- Two buffers, a queue with four entries. -/
def twoBuffers : SubmissionQueue 2 := ⟨4, Nat.le_add_right 2 2⟩

/-- Two batches are submitted, the second one completes first, and a third one is
read into its buffer. -/
theorem buffers_in_flight_not_reused_second_first :
    ∃ last : Thread (Nat × UInt64), (last.locals.returned = [9] ∧
      last.buffersInFlight = [1, 0]) ∧ BuffersKept 2 last ∧ TagsReturned last := by
  have executed : (Lib.Run.exec (batchReadBatchWriteZeroCopy.step twoBuffers) (fun _ _ => True)
      (.initial fun _ => (0, 0))
      [.loop, .fill 0 (1, 7), .fill 0 (2, 9), .fill 0 (3, 11), .submit 2, .complete 1, .reap,
        .reap, .loop, .fill (-1) (0, 0), .fill 0 (3, 11)]).any
      (fun last => decide (last.locals.returned = [9] ∧ last.buffersInFlight = [1, 0])) =
        true := by
    decide +kernel
  rcases Lib.Run.of_exec_any executed with ⟨last, run, seen⟩
  rw [decide_eq_true_eq] at seen
  exact ⟨last, seen, (@buffers_in_flight_not_reused Nat Nat 2 twoBuffers).2.2 _ _ last run⟩

end FipsIpc.ShmReader
