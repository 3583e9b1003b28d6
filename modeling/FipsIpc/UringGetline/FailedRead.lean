import FipsIpc.Lib.Run
import FipsIpc.UringGetline.ExactlyOnce
import FipsIpc.UringGetline.Getline
import FipsIpc.UringGetline.Lines

/-!
Contract: what a failed read does to the reader of lines.

Owns: the ring as two queues, the reads that were submitted and the completions
that were not seen, `uring_getline` over it, and the runs in which any read may
fail.

Reads are numbered, so that a completion can be told from another one.  `_rdawait`
returns before `io_uring_cqe_seen` if the completion reports an error, so this one
stays at the front: every later wait finds it, and no other completion is ever
looked at.  The kernel answers a read when the next wait is made; which bytes it
brings is an argument, so an answer that came earlier is the one with fewer bytes.
A wait itself does not fail.

Does not own: which lines are returned as long as no read fails.
-/

set_option autoImplicit false

namespace FipsIpc.UringGetline

open FipsIpc.Lib (Run)

/-! ### The ring -/

/-- The reads that are not completed and the completions that are not seen, each
with the number of the read; `count` reads were submitted so far. -/
structure Ring where
  count : Nat
  reads : List (Nat × Request)
  completions : List (Nat × ReadAnswer)

/-- `struct file_io_t`; `sqe` is the number of the read it points to. -/
structure RingIo where
  offset : Nat
  scndBuf : Bool
  sqe : Option Nat
  buffers : Buf → Buffer
  ring : Ring

namespace RingIo

/-- After `calloc`. -/
def started : RingIo := ⟨0, false, none, fun _ => ⟨0, 0, fun _ => 0⟩, ⟨0, [], []⟩⟩

/-- The kernel answers the oldest read. -/
def complete (file : List UInt8) (answer : ReadAnswer) (io : RingIo) : Option RingIo :=
  match io.ring.reads with
  | [] => some io
  | (number, request) :: rest =>
      let ring : Ring :=
        ⟨io.ring.count, rest, io.ring.completions ++ [(number, answer)]⟩
      match answer with
      | .fails => some { io with ring := ring }
      | .bytes count =>
          if count ≤ request.size ∧ request.offset + count ≤ file.length then
            let bytes := (file.drop request.offset).take count
            some
              { io with
                ring := ring
                buffers := Function.update io.buffers request.buf
                  ((io.buffers request.buf).fill bytes) }
          else none

/-- `_rdstart`. -/
def rdstart (io : RingIo) (buf : Buf) : RingIo :=
  { io with
    sqe := some io.ring.count
    ring :=
      { io.ring with
        count := io.ring.count + 1
        reads := io.ring.reads ++ [(io.ring.count, ⟨buf, io.offset, bufsize⟩)] } }

end RingIo

/-- A wait: the read it was made for, and the completion it has found. -/
structure Wait where
  read : Option Nat
  completion : Nat
  answer : ReadAnswer
deriving DecidableEq, Repr

/-- The completion is the one of the read. -/
def Wait.Matched (wait : Wait) : Prop := wait.read = some wait.completion

instance (wait : Wait) : Decidable wait.Matched :=
  inferInstanceAs (Decidable (wait.read = some wait.completion))

/-- What a call returns, and the wait it has made. -/
structure RingOutcome where
  line : List UInt8
  wait : Option Wait
deriving DecidableEq, Repr

/-- During the call a completion has reported an error. -/
def RingOutcome.Failed (outcome : RingOutcome) : Prop :=
  ∃ wait, outcome.wait = some wait ∧ wait.answer = .fails

namespace RingIo

/-- `_rdawait` for a buffer. -/
def rdawait (file : List UInt8) (answer : ReadAnswer) (io : RingIo) (buf : Buf) :
    Option (Bool × Wait × RingIo) := do
  let read := io.sqe
  let io ← complete file answer { io with sqe := none }
  match io.ring.completions with
  | [] => none
  | (number, .fails) :: _ => some (false, ⟨read, number, .fails⟩, io)
  | (number, .bytes count) :: later =>
      -- `io_uring_cqe_seen`
      let size := lastLine (io.buffers buf).data count
      some (count = bufsize, ⟨read, number, .bytes count⟩,
        { io with
          offset := io.offset + size
          buffers := Function.update io.buffers buf { io.buffers buf with rsize := size }
          ring := { io.ring with completions := later } })

/-- Return the next line of a buffer. -/
def takeLine (io : RingIo) (buf : Buf) (wait : Option Wait) : RingOutcome × RingIo :=
  let (line, buffer) := rdline (io.buffers buf)
  (⟨line, wait⟩, { io with buffers := Function.update io.buffers buf buffer })

/-- One half of `uring_getline`; `buf` is the buffer in use. -/
def getlineFrom (buf : Buf) (file : List UInt8) (answer : ReadAnswer) (io : RingIo) :
    Option (RingOutcome × RingIo) :=
  if (io.buffers buf).rsize > 0 then some (takeLine io buf none)
  else if io.sqe.isSome then do
    let (full, wait, io) ← rdawait file answer io buf.other
    let io := if full then rdstart io buf else io
    if (io.buffers buf.other).rsize > 0 then
      some (takeLine { io with scndBuf := buf.other = .second } buf.other (some wait))
    else some (⟨[], some wait⟩, io)
  else do
    let (full, wait, io) ← rdawait file answer (rdstart io buf) buf
    let io := if full then rdstart io buf.other else io
    if (io.buffers buf).rsize > 0 then some (takeLine io buf (some wait))
    else some (⟨[], some wait⟩, io)

/-- The buffer in use. -/
def inUse (io : RingIo) : Buf := if io.scndBuf then .second else .first

def uringGetline (file : List UInt8) (answer : ReadAnswer) (io : RingIo) :
    Option (RingOutcome × RingIo) :=
  getlineFrom io.inUse file answer io

/-- The reader without the numbers of its reads. -/
def forget (io : RingIo) : FileIo :=
  ⟨io.offset, io.scndBuf, io.sqe.isSome, io.buffers, io.ring.reads.map Prod.snd,
    !io.ring.completions.isEmpty⟩

/-! ### The model without numbers

As long as no completion is unseen, the two models make the same call. -/

section Forget

variable {file : List UInt8} {answer : ReadAnswer} {io : RingIo}

theorem forget_rdstart (io : RingIo) (buf : Buf) :
    (io.rdstart buf).forget = UringGetline.rdstart io.forget buf := by
  simp [forget, rdstart, UringGetline.rdstart]

theorem forget_rdawait (seen : io.ring.completions = []) (buf : Buf) :
    (UringGetline.rdawait file answer io.forget buf).map (fun awaited =>
        (awaited.full, awaited.fio)) =
      (io.rdawait file answer buf).map fun awaited => (awaited.1, awaited.2.2.forget) := by
  cases reads : io.ring.reads with
  | nil => simp [UringGetline.rdawait, rdawait, complete, forget, seen, reads]
  | cons first rest =>
      cases answer with
      | fails => simp [UringGetline.rdawait, rdawait, complete, forget, seen, reads]
      | bytes count =>
          by_cases possible : count ≤ first.2.size ∧ first.2.offset + count ≤ file.length <;>
            simp [UringGetline.rdawait, rdawait, complete, forget, seen, reads, possible]

/-- What comes behind a wait. -/
theorem forget_awaited {awaited : Option Awaited} {waited : Option (Bool × Wait × RingIo)}
    (same : awaited.map (fun awaited => (awaited.full, awaited.fio)) =
      waited.map fun awaited => (awaited.1, awaited.2.2.forget))
    {after : Awaited → Option (Outcome × FileIo)}
    {ringAfter : Bool × Wait × RingIo → Option (RingOutcome × RingIo)}
    (equal : ∀ brought full wait io,
      (after ⟨full, brought, forget io⟩).map (fun result => (result.1.line, result.2)) =
        (ringAfter (full, wait, io)).map fun result => (result.1.line, result.2.forget)) :
    (awaited.bind after).map (fun result => (result.1.line, result.2)) =
      (waited.bind ringAfter).map fun result => (result.1.line, result.2.forget) := by
  cases awaited with
  | none =>
      cases waited with
      | none => rfl
      | some found => cases same
  | some awaited =>
      cases waited with
      | none => cases same
      | some found =>
          obtain ⟨full, brought, fio⟩ := awaited
          obtain ⟨_, wait, io⟩ := found
          cases same
          exact equal brought full wait io

theorem forget_getlineFrom (seen : io.ring.completions = []) (buf : Buf) :
    (UringGetline.getlineFrom buf file answer io.forget).map
        (fun result => (result.1.line, result.2)) =
      (io.getlineFrom buf file answer).map fun result => (result.1.line, result.2.forget) := by
  unfold UringGetline.getlineFrom getlineFrom
  by_cases buffered : (io.buffers buf).rsize > 0
  · simp [buffered, forget, takeLine, UringGetline.takeLine]
  · by_cases waiting : io.sqe.isSome
    · have same := @forget_rdawait file answer io seen buf.other
      simp only [forget, buffered, waiting, ↓reduceIte]
      apply forget_awaited same
      intro brought full wait io
      by_cases more : (io.buffers buf.other).rsize > 0 <;>
        cases full <;>
          simp [more, forget, rdstart, UringGetline.rdstart, takeLine, UringGetline.takeLine]
    · have same := @forget_rdawait file answer (io.rdstart buf) seen buf
      rw [forget_rdstart] at same
      simp only [forget, buffered, waiting, ↓reduceIte]
      apply forget_awaited same
      intro brought full wait io
      by_cases more : (io.buffers buf).rsize > 0 <;>
        cases full <;>
          simp [more, forget, rdstart, UringGetline.rdstart, takeLine, UringGetline.takeLine]

/-- The same line, and the same reader. -/
theorem forget_uringGetline (seen : io.ring.completions = []) :
    (UringGetline.uringGetline file answer io.forget).map
        (fun result => (result.1.line, result.2)) =
      (io.uringGetline file answer).map fun result => (result.1.line, result.2.forget) := by
  rw [uringGetline, ← forget_getlineFrom seen]
  cases second : io.scndBuf <;> simp [UringGetline.uringGetline, forget, inUse, second]

end Forget

/-! ### A reader whose reads did not fail -/

/-- Every completion was seen, and a read is open exactly if `sqe` points to it. -/
structure Tracked (io : RingIo) : Prop where
  seen : io.ring.completions = []
  reads : io.ring.reads.map Prod.fst = io.sqe.toList
  below : ∀ number, io.sqe = some number → number < io.ring.count

/-- The other buffer is empty as well. -/
structure Alive (io : RingIo) : Prop extends Tracked io where
  idle : (io.buffers io.inUse.other).rsize = 0

/-- The completion of an earlier read has reported an error and was not seen; there
is no line left and no read to wait for. -/
structure Stuck (io : RingIo) : Prop where
  failed : ∃ number later, io.ring.completions = (number, .fails) :: later ∧
    number < io.ring.count
  waiting : io.sqe = none
  empty : (io.buffers io.inUse).rsize = 0

section Calls

variable {file : List UInt8} {answer : ReadAnswer} {io next : RingIo}

theorem Buf.other_other (buf : Buf) : buf.other.other = buf := by
  cases buf <;> rfl

theorem other_ne (buf : Buf) : buf.other ≠ buf := by
  cases buf <;> decide

/-- An answer adds a completion and changes no size. -/
theorem complete_frame (completed : complete file answer io = some next) :
    next.offset = io.offset ∧ next.scndBuf = io.scndBuf ∧ next.sqe = io.sqe ∧
      next.ring.count = io.ring.count ∧ io.ring.completions <+: next.ring.completions ∧
      ∀ buf, (next.buffers buf).rsize = (io.buffers buf).rsize := by
  cases reads : io.ring.reads with
  | nil =>
      simp only [complete, reads, Option.some.injEq] at completed
      simp [← completed]
  | cons first rest =>
      cases answer with
      | fails =>
          simp only [complete, reads, Option.some.injEq] at completed
          simp [← completed]
      | bytes count =>
          simp only [complete, reads] at completed
          split at completed
          case isFalse => cases completed
          case isTrue =>
            cases completed
            refine ⟨rfl, rfl, rfl, rfl, List.prefix_append _ _, ?_⟩
            intro buf
            by_cases own : buf = first.2.buf <;> simp [own, Buffer.fill]

theorem Tracked.rdstart (tracked : io.Tracked) (waiting : io.sqe = none) (buf : Buf) :
    (io.rdstart buf).Tracked where
  seen := tracked.seen
  reads := by
    have none : io.ring.reads = [] := by simpa [waiting] using tracked.reads
    simp [RingIo.rdstart, none]
  below := by simp [RingIo.rdstart]

/-- A wait for the read `sqe` points to: it finds the completion of that read, and
only an error stays at the front. -/
theorem Tracked.rdawait (tracked : io.Tracked) {read : Nat} (waiting : io.sqe = some read)
    {buf : Buf} {full : Bool} {wait : Wait}
    (waited : io.rdawait file answer buf = some (full, wait, next)) :
    wait.Matched ∧ next.scndBuf = io.scndBuf ∧
      (∀ other, other ≠ buf → (next.buffers other).rsize = (io.buffers other).rsize) ∧
      (wait.answer = .fails ∧ full = false ∧ next.offset = io.offset ∧ next.sqe = none ∧
          (next.buffers buf).rsize = (io.buffers buf).rsize ∧
          next.ring.completions = [(read, .fails)] ∧ next.ring.count = io.ring.count ∨
        wait.answer ≠ .fails ∧ next.sqe = none ∧ next.Tracked) := by
  have numbers := tracked.reads
  rw [waiting] at numbers
  obtain ⟨⟨number, request⟩, single, rfl⟩ := List.map_eq_singleton_iff.mp numbers
  cases answer with
  | fails =>
      simp [RingIo.rdawait, complete, single, tracked.seen] at waited
      obtain ⟨rfl, rfl, rfl⟩ := waited
      simp [Wait.Matched, waiting]
  | bytes count =>
      by_cases possible : count ≤ request.size ∧ request.offset + count ≤ file.length
      · simp [RingIo.rdawait, complete, single, tracked.seen, possible] at waited
        obtain ⟨-, rfl, rfl⟩ := waited
        refine ⟨waiting, rfl, ?_, Or.inr ⟨by simp, rfl, rfl, rfl, by simp⟩⟩
        intro other different
        simp only [Function.update_of_ne different]
        by_cases own : other = request.buf <;> simp [own, Buffer.fill]
      · simp [RingIo.rdawait, complete, single, possible] at waited

/-- The reader behind a wait, with the next read if the last one was full. -/
theorem Tracked.refill (tracked : io.Tracked) (waiting : io.sqe = none) (full : Bool)
    (buf : Buf) : (if full then io.rdstart buf else io).Tracked := by
  cases full with
  | false => exact tracked
  | true => exact tracked.rdstart waiting buf

theorem refill_buffers (io : RingIo) (full : Bool) (buf : Buf) :
    (if full then io.rdstart buf else io).buffers = io.buffers := by
  cases full <;> rfl

theorem refill_scndBuf (io : RingIo) (full : Bool) (buf : Buf) :
    (if full then io.rdstart buf else io).scndBuf = io.scndBuf := by
  cases full <;> rfl

theorem inUse_switch (io : RingIo) (buf : Buf) :
    ({ io with scndBuf := buf = .second } : RingIo).inUse = buf := by
  cases buf <;> rfl

/-- Taking a line from the buffer in use. -/
theorem Tracked.takeLine (tracked : io.Tracked) (wait : Option Wait)
    (idle : (io.buffers io.inUse.other).rsize = 0) : (io.takeLine io.inUse wait).2.Alive where
  seen := tracked.seen
  reads := tracked.reads
  below := tracked.below
  idle := by
    have same : (io.takeLine io.inUse wait).2.inUse = io.inUse := rfl
    rw [same, ← idle]
    simp [RingIo.takeLine, other_ne]

/-- A wait that has found an error, behind which nothing is read. -/
theorem Stuck.of_wait {read : Nat} (below : read < io.ring.count) (waiting : next.sqe = none)
    (empty : (io.buffers io.inUse).rsize = 0) (scndBuf : next.scndBuf = io.scndBuf)
    (size : (next.buffers io.inUse).rsize = (io.buffers io.inUse).rsize)
    (front : next.ring.completions = [(read, .fails)])
    (count : next.ring.count = io.ring.count) : next.Stuck where
  failed := ⟨read, [], front, by omega⟩
  waiting := waiting
  empty := by
    have same : next.inUse = io.inUse := by simp [inUse, scndBuf]
    rw [same, size, empty]

/-- A call that waits for the read of the other buffer. -/
theorem Alive.getline_waiting (alive : io.Alive) {outcome : RingOutcome} {read : Nat}
    (waiting : io.sqe = some read) (empty : (io.buffers io.inUse).rsize = 0)
    (call : io.uringGetline file answer = some (outcome, next)) :
    next.Alive ∧ ¬ outcome.Failed ∨
      next.Stuck ∧ outcome.line = [] ∧ next.offset = io.offset := by
  simp only [uringGetline, getlineFrom, empty, Nat.lt_irrefl, gt_iff_lt, waiting,
    Option.isSome_some, ↓reduceIte] at call
  obtain ⟨⟨full, wait, io'⟩, waited, rest⟩ := Option.bind_eq_some_iff.mp call
  obtain ⟨-, scndBuf, others, failed | ⟨fine, drained, tracked⟩⟩ :=
    alive.toTracked.rdawait waiting waited
  · obtain ⟨-, rfl, offset, sqe, size, front, count⟩ := failed
    have nothing : ¬ 0 < (io'.buffers io.inUse.other).rsize := by
      rw [size, alive.idle]
      exact Nat.lt_irrefl 0
    simp only [Bool.false_eq_true, nothing, ↓reduceIte] at rest
    cases rest
    have stuck : next.Stuck := Stuck.of_wait (alive.below read waiting) sqe empty scndBuf
      (others _ (other_ne _).symm) front count
    exact Or.inr ⟨stuck, rfl, offset⟩
  · have still := tracked.refill drained full io.inUse
    have buffers := refill_buffers io' full io.inUse
    have second := refill_scndBuf io' full io.inUse
    generalize (if full then io'.rdstart io.inUse else io') = refilled at rest still buffers second
    left
    split at rest
    case isTrue =>
      cases rest
      have switched := inUse_switch refilled io.inUse.other
      have tracked : ({ refilled with scndBuf := io.inUse.other = .second } : RingIo).Tracked :=
        ⟨still.seen, still.reads, still.below⟩
      have idle : (refilled.buffers io.inUse.other.other).rsize = 0 := by
        rw [buffers, Buf.other_other, others _ (other_ne _).symm, empty]
      have taken := tracked.takeLine (some wait) (by rw [switched]; exact idle)
      rw [switched] at taken
      exact ⟨taken, by simpa [RingOutcome.Failed] using fine⟩
    case isFalse nothing =>
      cases rest
      refine ⟨⟨still, ?_⟩, by simpa [RingOutcome.Failed] using fine⟩
      have same : next.inUse = io.inUse := by simp [inUse, second, scndBuf]
      rw [same]
      omega

/-- A call that starts a read of its own. -/
theorem Alive.getline_starting (alive : io.Alive) {outcome : RingOutcome}
    (waiting : io.sqe = none) (empty : (io.buffers io.inUse).rsize = 0)
    (call : io.uringGetline file answer = some (outcome, next)) :
    next.Alive ∧ ¬ outcome.Failed ∨
      next.Stuck ∧ outcome.line = [] ∧ next.offset = io.offset := by
  simp only [uringGetline, getlineFrom, empty, Nat.lt_irrefl, gt_iff_lt, waiting,
    Option.isSome_none, Bool.false_eq_true, ↓reduceIte] at call
  obtain ⟨⟨full, wait, io'⟩, waited, rest⟩ := Option.bind_eq_some_iff.mp call
  have started := alive.toTracked.rdstart waiting io.inUse
  obtain ⟨-, scndBuf, others, failed | ⟨fine, drained, tracked⟩⟩ := started.rdawait rfl waited
  · obtain ⟨-, rfl, offset, sqe, size, front, count⟩ := failed
    have nothing : ¬ 0 < (io'.buffers io.inUse).rsize := by
      rw [size]
      exact Nat.not_lt_of_ge (Nat.le_of_eq empty)
    simp only [Bool.false_eq_true, nothing, ↓reduceIte] at rest
    cases rest
    have stuck : next.Stuck := Stuck.of_wait (started.below _ rfl) sqe empty scndBuf size
      front count
    exact Or.inr ⟨stuck, rfl, offset⟩
  · have still := tracked.refill drained full io.inUse.other
    have buffers := refill_buffers io' full io.inUse.other
    have second := refill_scndBuf io' full io.inUse.other
    generalize (if full then io'.rdstart io.inUse.other else io') = refilled
      at rest still buffers second
    have same : refilled.inUse = io.inUse := by simp [inUse, second, scndBuf, RingIo.rdstart]
    have idle : (refilled.buffers refilled.inUse.other).rsize = 0 := by
      rw [same, buffers, others _ (other_ne _)]
      exact alive.idle
    left
    split at rest
    case isTrue =>
      cases rest
      rw [← same]
      exact ⟨still.takeLine (some wait) idle, by simpa [RingOutcome.Failed] using fine⟩
    case isFalse =>
      cases rest
      exact ⟨⟨still, idle⟩, by simpa [RingOutcome.Failed] using fine⟩

/-- A call either leaves the reader alive, and no completion has reported an error,
or it has met an error: then nothing is returned and the reader is stuck. -/
theorem Alive.getline (alive : io.Alive) {outcome : RingOutcome}
    (call : io.uringGetline file answer = some (outcome, next)) :
    next.Alive ∧ ¬ outcome.Failed ∨
      next.Stuck ∧ outcome.line = [] ∧ next.offset = io.offset := by
  rcases Nat.eq_zero_or_pos (io.buffers io.inUse).rsize with empty | buffered
  · cases waiting : io.sqe with
    | some read => exact alive.getline_waiting waiting empty call
    | none => exact alive.getline_starting waiting empty call
  · simp only [uringGetline, getlineFrom, gt_iff_lt, buffered, ↓reduceIte] at call
    cases call
    exact Or.inl ⟨alive.toTracked.takeLine none alive.idle, by simp [RingOutcome.Failed]⟩

/-- Once stuck, a call submits a read, finds the old completion instead of its own
and returns nothing. -/
theorem Stuck.getline (stuck : io.Stuck) {outcome : RingOutcome}
    (call : io.uringGetline file answer = some (outcome, next)) :
    next.Stuck ∧ outcome.line = [] ∧ next.offset = io.offset ∧
      ∃ wait, outcome.wait = some wait ∧ ¬ wait.Matched := by
  obtain ⟨⟨number, later, front, below⟩, waiting, empty⟩ := stuck
  simp only [uringGetline, getlineFrom, empty, Nat.lt_irrefl, gt_iff_lt, waiting,
    Option.isSome_none, Bool.false_eq_true, ↓reduceIte] at call
  obtain ⟨⟨full, wait, io'⟩, waited, rest⟩ := Option.bind_eq_some_iff.mp call
  obtain ⟨completed, answered, found⟩ := Option.bind_eq_some_iff.mp waited
  obtain ⟨offset, scndBuf, sqe, count, ⟨more, queue⟩, sizes⟩ := complete_frame answered
  have queued : completed.ring.completions = (number, .fails) :: (later ++ more) := by
    rw [← queue]
    simp [RingIo.rdstart, front]
  simp only [queued] at found
  cases found
  have same : io'.inUse = io.inUse := by simp [inUse, scndBuf, RingIo.rdstart]
  have nothing : (io'.buffers io.inUse).rsize = 0 := by
    rw [sizes]
    exact empty
  simp only [Bool.false_eq_true, nothing, Nat.lt_irrefl, ↓reduceIte] at rest
  cases rest
  refine ⟨⟨⟨number, later ++ more, queued, ?_⟩, sqe, ?_⟩, rfl, offset, _, rfl, ?_⟩
  · rw [count]
    exact Nat.lt_succ_of_lt below
  · rw [same]
    exact nothing
  · simpa [Wait.Matched, RingIo.rdstart] using Nat.ne_of_gt below

/-- A call of a stuck reader returns, also if its read fails. -/
theorem Stuck.returns (stuck : io.Stuck) (file : List UInt8) :
    ∃ result, io.uringGetline file .fails = some result := by
  obtain ⟨⟨number, later, front, below⟩, waiting, empty⟩ := stuck
  have answered : ∃ completed, complete file .fails { io.rdstart io.inUse with sqe := none } =
      some completed := by
    cases reads : io.ring.reads <;> simp [complete, RingIo.rdstart, reads]
  obtain ⟨completed, answered⟩ := answered
  obtain ⟨-, -, -, -, ⟨more, queue⟩, sizes⟩ := complete_frame answered
  have queued : completed.ring.completions = (number, .fails) :: (later ++ more) := by
    rw [← queue]
    simp [RingIo.rdstart, front]
  have nothing : (completed.buffers io.inUse).rsize = 0 := by
    rw [sizes]
    exact empty
  simp [uringGetline, getlineFrom, empty, waiting, RingIo.rdawait, answered, queued, nothing]

end Calls

end RingIo

/-! ### Runs in which reads may fail -/

/-- The file, its reader, and what the calls returned. -/
structure RingSystem where
  file : List UInt8
  io : RingIo
  returned : List RingOutcome

namespace RingSystem

/-- An empty file and a fresh reader. -/
def started : RingSystem := ⟨[], RingIo.started, []⟩

/-- After a call. -/
def returns (system : RingSystem) (outcome : RingOutcome) (io : RingIo) : RingSystem :=
  { system with io := io, returned := system.returned ++ [outcome] }

def step (system : RingSystem) : Event → Option RingSystem
  | .append bytes => some { system with file := system.file ++ bytes }
  | .getline answer => do
      let (outcome, io) ← system.io.uringGetline system.file answer
      some (system.returns outcome io)

/-- Any bytes may be appended, and any read may fail. -/
def Reachable (system : RingSystem) : Prop :=
  ∃ events, Run step (fun _ _ => True) started events system

/-- The bytes of the file that were not returned yet. -/
def undelivered (system : RingSystem) : List UInt8 :=
  system.file.drop (system.returned.flatMap RingOutcome.line).length

/-- The next read brings `count` bytes, a complete line among them. -/
def BringsLine (system : RingSystem) (count : Nat) : Prop :=
  count ≤ bufsize ∧ system.io.offset + count ≤ system.file.length ∧
    newline ∈ (system.file.drop system.io.offset).take count

/-- A call that has met an error has done no harm: nothing is lost, reads and
completions stay matched from now on, and once a read brings a complete line the
next call returns the first line that is still to be delivered. -/
structure Recovers (before after : RingSystem) : Prop where
  offset : after.io.offset = before.io.offset
  undelivered : after.undelivered = before.undelivered
  matched : ∀ events last, Run step (fun _ _ => True) after events last →
    ∀ outcome ∈ last.returned, ∀ wait, outcome.wait = some wait → wait.Matched
  nextLine : ∀ bytes grown, after.step (.append bytes) = some grown →
    ∀ count, grown.BringsLine count → ∃ outcome io,
      grown.io.uringGetline grown.file (.bytes count) = some (outcome, io) ∧
      IsLine outcome.line ∧ outcome.line <+: grown.undelivered

section Runs

variable {before : RingSystem} {answer : ReadAnswer} {outcome : RingOutcome} {io : RingIo}

theorem started_alive : RingIo.started.Alive := by
  refine ⟨⟨rfl, rfl, ?_⟩, rfl⟩
  intro number points
  cases points

theorem alive_or_stuck_step (state : RingSystem) (event : Event) (next : RingSystem)
    (inv : state.io.Alive ∨ state.io.Stuck) (taken : state.step event = some next) :
    next.io.Alive ∨ next.io.Stuck := by
  cases event with
  | append bytes =>
      cases taken
      exact inv
  | getline answer =>
      obtain ⟨⟨outcome, io⟩, call, returned⟩ := Option.bind_eq_some_iff.mp taken
      cases returned
      rcases inv with alive | stuck
      · rcases alive.getline call with ⟨still, -⟩ | ⟨stuck, -⟩
        · exact Or.inl still
        · exact Or.inr stuck
      · exact Or.inr (stuck.getline call).1

theorem Reachable.alive_or_stuck (reachable : before.Reachable) :
    before.io.Alive ∨ before.io.Stuck := by
  obtain ⟨events, run⟩ := reachable
  apply run.invariant
  · exact fun state event next inv _ taken => alive_or_stuck_step state event next inv taken
  · exact Or.inl started_alive

/-- After an error the reader is stuck, but nothing was returned or skipped. -/
theorem Reachable.stuck (reachable : before.Reachable)
    (call : before.io.uringGetline before.file answer = some (outcome, io))
    (failed : outcome.Failed) :
    io.Stuck ∧ outcome.line = [] ∧ io.offset = before.io.offset := by
  rcases reachable.alive_or_stuck with alive | stuck
  · rcases alive.getline call with ⟨-, fine⟩ | stuck
    · exact absurd failed fine
    · exact stuck
  · obtain ⟨still, nothing, offset, -⟩ := stuck.getline call
    exact ⟨still, nothing, offset⟩

/-- The first two parts of `Recovers` hold after every error. -/
theorem failedRead_keeps (reachable : before.Reachable)
    (call : before.io.uringGetline before.file answer = some (outcome, io))
    (failed : outcome.Failed) :
    (before.returns outcome io).io.offset = before.io.offset ∧
      (before.returns outcome io).undelivered = before.undelivered := by
  obtain ⟨-, nothing, offset⟩ := reachable.stuck call failed
  exact ⟨offset, by simp [undelivered, returns, nothing]⟩

/-- A stuck reader returns no line in any run, whatever is appended to the file and
whatever its reads bring. -/
theorem stuck_run {first last : RingSystem} {events : List Event} (stuck : first.io.Stuck)
    (run : Run step (fun _ _ => True) first events last) :
    last.io.Stuck ∧
      last.returned.flatMap RingOutcome.line = first.returned.flatMap RingOutcome.line := by
  refine @Run.invariant _ _ _ _ (fun system => system.io.Stuck ∧
    system.returned.flatMap RingOutcome.line = first.returned.flatMap RingOutcome.line)
    ?_ _ _ _ run ⟨stuck, rfl⟩
  rintro state event next ⟨stuck, lines⟩ - taken
  cases event with
  | append bytes =>
      cases taken
      exact ⟨stuck, lines⟩
  | getline answer =>
      obtain ⟨⟨outcome, io⟩, call, returned⟩ := Option.bind_eq_some_iff.mp taken
      cases returned
      obtain ⟨still, nothing, -⟩ := stuck.getline call
      exact ⟨still, by simp [returns, nothing, lines]⟩

/-- The next call of a stuck reader finds the completion of another read. -/
theorem Recovers.not_stuck {after : RingSystem} (recovers : before.Recovers after) :
    ¬ after.io.Stuck := by
  intro stuck
  obtain ⟨⟨outcome, io⟩, call⟩ := stuck.returns after.file
  obtain ⟨-, -, -, wait, waited, unmatched⟩ := stuck.getline call
  have taken : after.step (.getline .fails) = some (after.returns outcome io) := by
    rw [step, call]
    rfl
  refine unmatched (recovers.matched _ _ (Run.single trivial taken) outcome ?_ wait waited)
  simp [returns]

/-- No call recovers from an error. -/
theorem failedRead_fatal (reachable : before.Reachable)
    (call : before.io.uringGetline before.file answer = some (outcome, io))
    (failed : outcome.Failed) : ¬ before.Recovers (before.returns outcome io) :=
  fun recovers => recovers.not_stuck (reachable.stuck call failed).1

end Runs

/-- A file of one line, not read yet. -/
def oneLine : RingSystem := ⟨[97, 10], RingIo.started, []⟩

theorem oneLine_reachable : oneLine.Reachable :=
  ⟨[.append [97, 10]], Run.single trivial rfl⟩

/-- The reader after its first read has failed. -/
def failedOnce : RingIo :=
  { RingIo.started with ring := ⟨1, [], [(0, .fails)]⟩ }

theorem oneLine_failed :
    oneLine.io.uringGetline oneLine.file .fails =
      some (⟨[], some ⟨some 0, 0, .fails⟩⟩, failedOnce) := rfl

theorem failedRead_fatal_oneLine :
    oneLine.io.uringGetline oneLine.file .fails =
        some (⟨[], some ⟨some 0, 0, .fails⟩⟩, failedOnce) ∧
      ¬ oneLine.Recovers (oneLine.returns ⟨[], some ⟨some 0, 0, .fails⟩⟩ failedOnce) :=
  ⟨oneLine_failed, failedRead_fatal oneLine_reachable oneLine_failed ⟨_, rfl, rfl⟩⟩

/-- The second read brings the line, but the second call returns nothing. -/
theorem failedRead_line_lost :
    oneLine.Reachable ∧
      oneLine.io.uringGetline oneLine.file .fails =
        some (⟨[], some ⟨some 0, 0, .fails⟩⟩, failedOnce) ∧
      ¬ oneLine.Recovers (oneLine.returns ⟨[], some ⟨some 0, 0, .fails⟩⟩ failedOnce) := by
  refine ⟨oneLine_reachable, oneLine_failed, ?_⟩
  intro recovers
  have brings : (oneLine.returns ⟨[], some ⟨some 0, 0, .fails⟩⟩ failedOnce).BringsLine 2 := by
    refine ⟨by decide, by decide, by decide⟩
  obtain ⟨outcome, io, call, ⟨body, -, isLine⟩, -⟩ := recovers.nextLine [] _ rfl 2 brings
  have nothing : (failedOnce.uringGetline [97, 10] (.bytes 2)).map (fun result => result.1.line) =
      some [] := by decide
  have second : failedOnce.uringGetline [97, 10] (.bytes 2) = some (outcome, io) := call
  rw [second] at nothing
  simp [isLine] at nothing

end RingSystem

end FipsIpc.UringGetline
