import FipsIpc.Lib.Run
import FipsIpc.FipsBuf.Lines
import FipsIpc.UdpServer.Logstr
import Mathlib.Data.List.Forall2
import Mathlib.Data.List.Infix

/-!
Contract: the replacement of `syslog` in `lib/syslog.c`, built with `ZERO_COPY`.

Owns: the formatter of one message, the calls of one thread with their
reservations and commits, what respecting the reserved slots means, and when a
thread does.

The formatter copies one string argument for every `%` of the format and bounds
the copies by `LINE_SIZE`; the slots have the `line_size` of the configuration
file.  A string is the list of the bytes in front of its terminator.  A call
that runs out of arguments, or whose reservation is refused, has no successor.

Does not own: `openlog`, attaching the thread, the copying build, and the build
with `FIPS_BUF_USE_VSNPRINTF`.
-/

set_option autoImplicit false

namespace FipsIpc.Syslog

open FipsIpc.FipsBuf FipsIpc.UdpServer FipsIpc.Lib.RingLog

/-- `LINE_SIZE`. -/
def lineSize : Nat := 254

/-- `BUFFER_SIZE`. -/
def bufferSize : Nat := 16

def percent : UInt8 := 37

def newline : UInt8 := 10

/-! ### The formatter -/

/-- The loop over the format with `bytes_written`: the copies it makes, relative
to the slot, and `bytes_written` behind it. -/
def copyArguments : (fmt : List UInt8) → (args : List (List UInt8)) → (bytesWritten : Nat) →
    Option (List Field × Nat)
  | [], _, bytesWritten => some ([], bytesWritten)
  | char :: rest, args, bytesWritten =>
      if char = percent then
        match args with
        | [] => none
        | arg :: args =>
            -- `strnlen(arg, LINE_SIZE - bytes_written)`
            let bytesToCopy := min arg.length (lineSize - bytesWritten)
            (copyArguments rest args (bytesWritten + bytesToCopy)).map fun (copies, total) =>
              (⟨bytesWritten, arg.take bytesToCopy⟩ :: copies, total)
      else copyArguments rest args bytesWritten

/-- The stores a call makes in its slot, in order, and the `iov_len` it sets. -/
def formatMessage (fmt : List UInt8) (args : List (List UInt8)) : Option (List Field × Nat) :=
  (copyArguments (fmt.take lineSize) args 0).map fun (copies, bytesWritten) =>
    let length := if bytesWritten > lineSize - 2 then lineSize - 2 else bytesWritten
    (⟨0, [0]⟩ :: copies ++ [⟨length, [newline]⟩, ⟨length + 1, [0]⟩], length + 1)

/-! ### The calls of a thread -/

/-- A call, and the positions of the readers at the time. -/
structure LogCall where
  fmt : List UInt8
  args : List (List UInt8)
  readers : Nat → ReaderPointer

/-- A handled call with its slot, as reserved, and the stores made for it. -/
structure Logged where
  call : LogCall
  slot : Iovec
  stores : List Field

/-- The variables of a thread, its segment, the handled calls, and the lines of
the written batches as a reader finds them. -/
structure Thread where
  segment : Segment
  iov : Nat → Iovec
  bufferPosition : Nat
  logged : List Logged
  committed : List (List UInt8)

def Thread.attached (segment : Segment) : Thread := ⟨segment, fun _ => ⟨0, 0⟩, 0, [], []⟩

/-- `fips_get_write_buffer` at the start of a batch; a refusal ends the process. -/
def reserve (hdr : Header) (call : LogCall) (thread : Thread) : Option Thread :=
  let segment := { thread.segment with readers := call.readers }
  if thread.bufferPosition = 0 then
    match fipsGetWriteBuffer hdr segment bufferSize with
    | .ok (iov, segment) =>
        some { thread with
          segment := segment
          iov := fun index => iov.getD index (thread.iov index) }
    | .error _ => none
  else some { thread with segment := segment }

/-- The message goes to the slot at `buffer_position`. -/
def writeMessage (call : LogCall) (thread : Thread) : Option Thread :=
  (formatMessage call.fmt call.args).map fun (stores, iovLen) =>
    let slot := thread.iov thread.bufferPosition
    { thread with
      segment := { thread.segment with data := storeFields thread.segment.data slot.base stores }
      iov := Function.update thread.iov thread.bufferPosition { slot with len := iovLen }
      bufferPosition := (thread.bufferPosition + 1) &&& (bufferSize - 1)
      logged := thread.logged ++ [⟨call, slot, stores⟩] }

/-- The line behind an address, as a reader finds it. -/
def lineAt (data : Data) (base : Nat) : List UInt8 :=
  Iovec.bytes data ⟨base, lineWidth data base⟩

/-- `fips_buf_write` of a full batch; its result is only printed. -/
def commitBatch (hdr : Header) (thread : Thread) : Thread :=
  if thread.bufferPosition = 0 then
    let segment := (fipsBufWrite hdr thread.segment ((List.range bufferSize).map thread.iov)).2
    { thread with
      segment := segment
      committed := thread.committed ++
        (List.range bufferSize).map fun index => lineAt segment.data (thread.iov index).base }
  else thread

def syslog (hdr : Header) (thread : Thread) (call : LogCall) : Option Thread :=
  ((reserve hdr call thread).bind (writeMessage call)).map (commitBatch hdr)

/-! ### The property -/

/-- The concatenation of the arguments that the format asks for. -/
def LogCall.concatenation (call : LogCall) : List UInt8 :=
  (call.args.take (call.fmt.count percent)).flatten

/-- The line is the concatenation and a newline.  It is truncated only if the
concatenation, the newline and the terminator exceed `LINE_SIZE`, or the format
does. -/
def LogCall.IsLine (call : LogCall) (line : List UInt8) : Prop :=
  ∃ text, line = text ++ [newline] ∧ text <+: call.concatenation ∧
    (call.concatenation.length + 2 ≤ lineSize → call.fmt.length ≤ lineSize →
      text = call.concatenation)

/-- Every byte of the message is stored in the slot reserved for it. -/
def Logged.Inside (hdr : Header) (message : Logged) : Prop :=
  (∃ index < hdr.lineCount, message.slot = ⟨slotBase hdr index, hdr.lineSize⟩) ∧
    Within message.stores hdr.lineSize

/-- The line is the one of the message and fits a slot. -/
def Logged.CommittedAs (hdr : Header) (message : Logged) (line : List UInt8) : Prop :=
  line.length ≤ hdr.lineSize ∧ message.call.IsLine line

/-- The messages stay in their slots, and the lines of the full batches are
theirs. -/
structure Respected (hdr : Header) (thread : Thread) : Prop where
  inside : ∀ message ∈ thread.logged, message.Inside hdr
  count : thread.committed.length = thread.logged.length / bufferSize * bufferSize
  lines : List.Forall₂ (Logged.CommittedAs hdr) (thread.logged.take thread.committed.length)
    thread.committed

/-- The arguments that the first `LINE_SIZE` characters of the format ask for. -/
def LogCall.reached (call : LogCall) : List UInt8 :=
  (call.args.take ((call.fmt.take lineSize).count percent)).flatten

/-- These arguments with newline and terminator fit a slot, as far as they fit
`LINE_SIZE`. -/
def LogCall.Room (hdr : Header) (call : LogCall) : Prop :=
  min (call.reached.length + 2) lineSize ≤ hdr.lineSize

instance (hdr : Header) (call : LogCall) : Decidable (call.Room hdr) :=
  inferInstanceAs (Decidable (_ ≤ _))

/-! ### What the formatter stores -/

section Formatter

variable {written total : Nat} {text arg : List UInt8} {copies : List Field} {data : Data}
  {base : Nat}

theorem bytes_append (data : Data) (base left right : Nat) :
    Iovec.bytes data ⟨base, left + right⟩ =
      Iovec.bytes data ⟨base, left⟩ ++ Iovec.bytes data ⟨base + left, right⟩ := by
  simp [Iovec.bytes, List.range_add, Nat.add_assoc]

theorem bytes_congr {other : Data} {iov : Iovec}
    (same : ∀ location, iov.base ≤ location → location < iov.base + iov.len →
      other location = data location) : Iovec.bytes other iov = Iovec.bytes data iov := by
  apply List.map_congr_left
  intro offset member
  have inside := List.mem_range.mp member
  exact same _ (by omega) (by omega)

/-- Bytes in front of all stores stay as they are. -/
theorem bytes_storeFields_before {iov : Iovec}
    (before : ∀ copy ∈ copies, iov.base + iov.len ≤ base + copy.offset) :
    Iovec.bytes (storeFields data base copies) iov = Iovec.bytes data iov := by
  apply bytes_congr
  intro location _ inside
  apply storeFields_of_ne
  intro copy member
  have behind := before copy member
  omega

/-- The copies put `text` behind `written` bytes, as far as `LINE_SIZE` allows. -/
structure Copied (written : Nat) (text : List UInt8) (copies : List Field) (total : Nat) :
    Prop where
  total_eq : total = min (written + text.length) lineSize
  within : ∀ copy ∈ copies, written ≤ copy.offset ∧ copy.offset + copy.bytes.length ≤ total
  bytes : ∀ data base, Iovec.bytes (storeFields data base copies)
    ⟨base + written, total - written⟩ = text.take (lineSize - written)

theorem Copied.nil (bounded : written ≤ lineSize) : Copied written [] [] written := by
  refine ⟨?_, ?_, ?_⟩
  · simpa using bounded
  · simp
  · simp [Iovec.bytes]

/-- One more argument in front. -/
theorem Copied.cons (bounded : written ≤ lineSize)
    (copied : Copied (written + min arg.length (lineSize - written)) text copies total) :
    Copied written (arg ++ text)
      (⟨written, arg.take (min arg.length (lineSize - written))⟩ :: copies) total := by
  have ends := copied.total_eq
  refine ⟨?_, ?_, ?_⟩
  · rw [List.length_append]
    omega
  · intro copy member
    rcases List.mem_cons.mp member with rfl | later
    · simp only [List.length_take]
      omega
    · have rest := copied.within copy later
      omega
  · intro data base
    have whole : total - written = min arg.length (lineSize - written) +
        (total - (written + min arg.length (lineSize - written))) := by
      omega
    have first : Iovec.bytes (storeFields data base
        (⟨written, arg.take (min arg.length (lineSize - written))⟩ :: copies))
        ⟨base + written, min arg.length (lineSize - written)⟩ =
          arg.take (min arg.length (lineSize - written)) := by
      rw [storeFields_cons, bytes_storeFields_before]
      · have copiedHere := bytes_memcpy data (base + written)
          (arg.take (min arg.length (lineSize - written)))
        rwa [List.length_take, Nat.min_eq_left (Nat.min_le_left _ _)] at copiedHere
      · intro copy member
        have rest := copied.within copy member
        dsimp only
        omega
    rw [whole, bytes_append, first, storeFields_cons, Nat.add_assoc, copied.bytes,
      List.take_append]
    congr 1
    · rcases Nat.le_total arg.length (lineSize - written) with fits | cut
      · rw [Nat.min_eq_left fits, List.take_length, List.take_of_length_le fits]
      · rw [Nat.min_eq_right cut]
    · congr 1
      omega

/-- The loop copies the arguments that the format asks for. -/
theorem copied_copyArguments {fmt : List UInt8} {args : List (List UInt8)}
    (bounded : written ≤ lineSize)
    (copies_eq : copyArguments fmt args written = some (copies, total)) :
    Copied written (args.take (fmt.count percent)).flatten copies total := by
  induction fmt generalizing args written copies with
  | nil =>
      simp only [copyArguments, Option.some.injEq, Prod.mk.injEq] at copies_eq
      rcases copies_eq with ⟨rfl, rfl⟩
      simpa using Copied.nil bounded
  | cons char rest inductionHypothesis =>
      unfold copyArguments at copies_eq
      by_cases conversion : char = percent
      · rw [if_pos conversion] at copies_eq
        cases args with
        | nil => cases copies_eq
        | cons arg args =>
            rcases Option.map_eq_some_iff.mp copies_eq with ⟨⟨later, ends⟩, loop, pair⟩
            rcases Prod.mk.inj pair with ⟨rfl, rfl⟩
            rw [conversion, List.count_cons_self, List.take_succ_cons, List.flatten_cons]
            apply Copied.cons bounded
            exact inductionHypothesis (by omega) loop
      · rw [if_neg conversion] at copies_eq
        rw [List.count_cons_of_ne conversion]
        exact inductionHypothesis bounded copies_eq

end Formatter

section Message

variable {call : LogCall} {stores : List Field} {iovLen extent : Nat} {data : Data} {base : Nat}

/-- A format that is handled: its copies, and the stores around them. -/
theorem formatMessage_eq_some
    (formatted : formatMessage call.fmt call.args = some (stores, iovLen)) :
    ∃ copies total, Copied 0 call.reached copies total ∧
      iovLen = min total (lineSize - 2) + 1 ∧
      stores = ⟨0, [0]⟩ :: copies ++
        [⟨min total (lineSize - 2), [newline]⟩, ⟨min total (lineSize - 2) + 1, [0]⟩] := by
  rcases Option.map_eq_some_iff.mp formatted with ⟨⟨copies, total⟩, loop, pair⟩
  have length_eq : (if total > lineSize - 2 then lineSize - 2 else total) =
      min total (lineSize - 2) := by
    split <;> omega
  dsimp only at pair
  rw [length_eq] at pair
  rcases Prod.mk.inj pair with ⟨rfl, rfl⟩
  exact ⟨copies, total, copied_copyArguments (Nat.zero_le _) loop, rfl, rfl⟩

/-- The stores of a message end where its terminator does. -/
theorem within_iff (formatted : formatMessage call.fmt call.args = some (stores, iovLen)) :
    Within stores extent ↔ min (call.reached.length + 2) lineSize ≤ extent := by
  rcases formatMessage_eq_some formatted with ⟨copies, total, copied, _, rfl⟩
  have ends := copied.total_eq
  have wide : 2 ≤ lineSize := by decide
  constructor
  · intro within
    have terminator := within ⟨min total (lineSize - 2) + 1, [0]⟩ (by simp)
    simp only [List.length_singleton] at terminator
    omega
  · intro room field member
    simp only [List.cons_append, List.mem_cons, List.mem_append, List.not_mem_nil,
      or_false] at member
    rcases member with rfl | copy | rfl | rfl
    · simp only [List.length_singleton]
      omega
    · have inside := copied.within field copy
      omega
    · simp only [List.length_singleton]
      omega
    · simp only [List.length_singleton]
      omega

theorem iovLen_eq (formatted : formatMessage call.fmt call.args = some (stores, iovLen)) :
    iovLen = min call.reached.length (lineSize - 2) + 1 := by
  rcases formatMessage_eq_some formatted with ⟨copies, total, copied, rfl, _⟩
  have ends := copied.total_eq
  omega

/-- What the slot holds behind the stores. -/
theorem bytes_formatMessage
    (formatted : formatMessage call.fmt call.args = some (stores, iovLen)) :
    Iovec.bytes (storeFields data base stores) ⟨base, iovLen⟩ =
      call.reached.take (lineSize - 2) ++ [newline] := by
  rcases formatMessage_eq_some formatted with ⟨copies, total, copied, rfl, rfl⟩
  generalize length_eq : min total (lineSize - 2) = length
  have text : Iovec.bytes (storeFields (memcpy data (base + 0) [0]) base copies)
      ⟨base, length⟩ = call.reached.take (lineSize - 2) := by
    have all := copied.bytes (memcpy data (base + 0) [0]) base
    have split : total - 0 = length + (total - length) := by omega
    rw [split, bytes_append] at all
    have start := congrArg (List.take length) all
    rw [List.take_left' (by simp [Iovec.bytes]), List.take_take] at start
    refine start.trans ?_
    have ends := copied.total_eq
    rcases Nat.le_total call.reached.length (lineSize - 2) with short | long
    · rw [List.take_of_length_le (by omega), List.take_of_length_le short]
    · congr 1
      omega
  have stored : storeFields data base (⟨0, [0]⟩ :: copies ++
      [⟨length, [newline]⟩, ⟨length + 1, [0]⟩]) =
        memcpy (memcpy (storeFields (memcpy data (base + 0) [0]) base copies)
          (base + length) [newline]) (base + (length + 1)) [0] := by
    simp [storeFields]
  rw [stored]
  generalize storeFields (memcpy data (base + 0) [0]) base copies = copiedData at text
  have before : Iovec.bytes (memcpy copiedData (base + length) [newline]) ⟨base, length⟩ =
      Iovec.bytes copiedData ⟨base, length⟩ := by
    apply bytes_memcpy_before
    exact Nat.le_refl _
  have behind : Iovec.bytes (memcpy copiedData (base + length) [newline]) ⟨base + length, 1⟩ =
      [newline] := bytes_memcpy _ _ [newline]
  calc Iovec.bytes (memcpy (memcpy copiedData (base + length) [newline]) (base + (length + 1)) [0])
        ⟨base, length + 1⟩
      = Iovec.bytes (memcpy copiedData (base + length) [newline]) ⟨base, length + 1⟩ := by
        apply bytes_memcpy_before
        exact Nat.le_refl _
    _ = Iovec.bytes (memcpy copiedData (base + length) [newline]) ⟨base, length⟩ ++
          Iovec.bytes (memcpy copiedData (base + length) [newline]) ⟨base + length, 1⟩ :=
        bytes_append _ _ _ _
    _ = call.reached.take (lineSize - 2) ++ [newline] := by rw [before, text, behind]

theorem reached_isPrefix (call : LogCall) : call.reached <+: call.concatenation := by
  have fewer : (call.fmt.take lineSize).count percent ≤ call.fmt.count percent :=
    (List.take_sublist _ _).count_le _
  exact (List.take_prefix_take_left fewer).flatten

theorem isLine_reached (call : LogCall) :
    call.IsLine (call.reached.take (lineSize - 2) ++ [newline]) := by
  refine ⟨_, rfl, (List.take_prefix _ _).trans (reached_isPrefix call), ?_⟩
  intro short shortFormat
  have whole : call.reached = call.concatenation := by
    rw [LogCall.reached, List.take_of_length_le shortFormat, LogCall.concatenation]
  rw [whole, List.take_of_length_le (by omega)]

end Message

/-! ### The batches of a thread -/

/-- The handled calls: `earlier` ones in whole batches, whose lines were
written, and those of an open batch. -/
structure Kept (hdr : Header) (earlier batch : List Logged) (thread : Thread) : Prop where
  logged : thread.logged = earlier ++ batch
  whole : bufferSize ∣ earlier.length
  inside : ∀ message ∈ thread.logged, message.Inside hdr
  lines : List.Forall₂ (Logged.CommittedAs hdr) earlier thread.committed

/-- The slots of a batch are reserved, and the used ones hold the lines of its
messages. -/
structure Filling (hdr : Header) (batch : List Logged) (thread : Thread) : Prop where
  slots : ∃ head, ∀ index < bufferSize,
    (thread.iov index).base = slotBase hdr ((head + index) % hdr.lineCount)
  unused : ∀ index, batch.length ≤ index → index < bufferSize →
    (thread.iov index).len = hdr.lineSize
  lines : ∀ index message, batch[index]? = some message →
    (thread.iov index).len ≤ min hdr.lineSize lineSize ∧
      message.call.IsLine (Iovec.bytes thread.segment.data (thread.iov index))

/-- Between two calls. -/
def Standing (hdr : Header) (thread : Thread) : Prop :=
  ∃ earlier batch, Kept hdr earlier batch thread ∧ thread.bufferPosition = batch.length ∧
    batch.length < bufferSize ∧ (batch ≠ [] → Filling hdr batch thread)

section Batches

variable {hdr : Header} {earlier batch : List Logged} {thread next : Thread} {call : LogCall}

/-- The slots of a reservation are apart. -/
theorem Filling.apart (lines : bufferSize ≤ hdr.lineCount) (narrow : hdr.lineSize + 2 < 2 ^ 32)
    (filling : Filling hdr batch thread) {left right : Nat} (leftIn : left < bufferSize)
    (rightIn : right < bufferSize) (different : left ≠ right) :
    (thread.iov left).base + hdr.lineSize + 2 ≤ (thread.iov right).base ∨
      (thread.iov right).base + hdr.lineSize + 2 ≤ (thread.iov left).base := by
  rcases filling.slots with ⟨head, slots⟩
  rw [slots left leftIn, slots right rightIn]
  apply slotBase_apart_of_lt narrow
  rcases Nat.lt_or_gt_of_ne different with before | after
  · exact mod_ne_of_lt_of_lt_add (by omega) (by omega)
  · exact (mod_ne_of_lt_of_lt_add (by omega) (by omega)).symm

/-- The first call of a batch reserves its slots, the others find them. -/
theorem Kept.reserve (kept : Kept hdr earlier batch thread)
    (position : thread.bufferPosition = batch.length)
    (filling : batch ≠ [] → Filling hdr batch thread)
    (reserved : reserve hdr call thread = some next) :
    Kept hdr earlier batch next ∧ next.bufferPosition = batch.length ∧
      Filling hdr batch next := by
  unfold Syslog.reserve at reserved
  dsimp only at reserved
  split at reserved
  case isFalse used =>
    have nonempty : batch ≠ [] := by
      rintro rfl
      exact used position
    rcases filling nonempty with ⟨slots, unused, lines⟩
    cases reserved
    exact ⟨⟨kept.logged, kept.whole, kept.inside, kept.lines⟩, position, slots, unused, lines⟩
  case isTrue empty =>
    have none : batch = [] := List.length_eq_zero_iff.mp (position.symm.trans empty)
    rw [fipsGetWriteBuffer_eq] at reserved
    dsimp only at reserved
    split at reserved
    case h_2 => cases reserved
    case h_1 granted =>
      split at granted
      · cases granted
      rcases Prod.mk.inj (Except.ok.inj granted) with ⟨rfl, rfl⟩
      cases reserved
      have handedOut : ∀ index < bufferSize,
          ((List.range bufferSize).map fun offset =>
            (⟨slotBase hdr (hdr.wrapLine (thread.segment.headOffset + offset)), hdr.lineSize⟩ :
              Iovec)).getD index (thread.iov index) =
            ⟨slotBase hdr ((thread.segment.headOffset + index) % hdr.lineCount),
              hdr.lineSize⟩ := by
        intro index inside
        simp only [List.getD_eq_getElem?_getD, List.getElem?_map, List.getElem?_range inside,
          Option.map_some, Option.getD_some, hdr.wrapLine_eq_mod]
      refine ⟨⟨kept.logged, kept.whole, kept.inside, kept.lines⟩, position,
        ⟨thread.segment.headOffset, ?_⟩, ?_, ?_⟩
      · intro index inside
        exact congrArg Iovec.base (handedOut index inside)
      · intro index _ inside
        exact congrArg Iovec.len (handedOut index inside)
      · rw [none]
        simp

/-- The slot that the next message is stored in. -/
theorem Filling.slot (filling : Filling hdr batch thread) (unfilled : batch.length < bufferSize) :
    ∃ index < hdr.lineCount, thread.iov batch.length = ⟨slotBase hdr index, hdr.lineSize⟩ := by
  rcases filling.slots with ⟨head, slots⟩
  refine ⟨(head + batch.length) % hdr.lineCount, Nat.mod_lt _ hdr.lineCount_pos, ?_⟩
  rw [← slots _ unfilled, ← filling.unused _ (Nat.le_refl _) unfilled]

/-- Stores inside the slot of the next message leave the lines in front of it
alone. -/
theorem Filling.bytes_storeFields (lines : bufferSize ≤ hdr.lineCount)
    (narrow : hdr.lineSize + 2 < 2 ^ 32) (filling : Filling hdr batch thread)
    (unfilled : batch.length < bufferSize) {stores : List Field}
    (within : Within stores hdr.lineSize) {index : Nat} (old : index < batch.length)
    (short : (thread.iov index).len ≤ min hdr.lineSize lineSize) :
    Iovec.bytes (storeFields thread.segment.data (thread.iov batch.length).base stores)
        (thread.iov index) = Iovec.bytes thread.segment.data (thread.iov index) := by
  have apart := filling.apart lines narrow (Nat.lt_trans old unfilled) unfilled old.ne
  apply bytes_congr
  intro location after before
  exact storeFields_outside within (by omega)

/-- A message that has room leaves the lines in front of it alone. -/
theorem Filling.writeMessage (lines : bufferSize ≤ hdr.lineCount)
    (narrow : hdr.lineSize + 2 < 2 ^ 32) (room : call.Room hdr)
    (kept : Kept hdr earlier batch thread) (position : thread.bufferPosition = batch.length)
    (unfilled : batch.length < bufferSize) (filling : Filling hdr batch thread)
    (wrote : writeMessage call thread = some next) :
    ∃ message, Kept hdr earlier (batch ++ [message]) next ∧
      next.bufferPosition = (batch.length + 1) &&& (bufferSize - 1) ∧
      Filling hdr (batch ++ [message]) next := by
  rcases Option.map_eq_some_iff.mp wrote with ⟨⟨stores, iovLen⟩, formatted, rfl⟩
  have within : Within stores hdr.lineSize := (within_iff formatted).mpr room
  have length_eq := iovLen_eq formatted
  dsimp only
  rw [position]
  refine ⟨⟨call, thread.iov batch.length, stores⟩, ⟨?_, kept.whole, ?_, kept.lines⟩, rfl, ?_, ?_,
    ?_⟩
  · simp [kept.logged]
  · intro message member
    rcases List.mem_append.mp member with old | new
    · exact kept.inside message old
    · rw [List.mem_singleton.mp new]
      exact ⟨filling.slot unfilled, within⟩
  · rcases filling.slots with ⟨head, slots⟩
    refine ⟨head, ?_⟩
    intro index inside
    rw [← slots index inside]
    by_cases same : index = batch.length
    · simp [same]
    · simp [Function.update_of_ne same]
  · intro index after inside
    rw [List.length_append, List.length_singleton] at after
    have other : index ≠ batch.length := by omega
    simp only [Function.update_of_ne other]
    exact filling.unused index (by omega) inside
  · intro index message member
    rcases Nat.lt_trichotomy index batch.length with old | rfl | beyond
    · rw [List.getElem?_append_left old] at member
      rcases filling.lines index message member with ⟨short, line⟩
      simp only [Function.update_of_ne old.ne]
      refine ⟨short, ?_⟩
      rw [filling.bytes_storeFields lines narrow unfilled within old short]
      exact line
    · rw [List.getElem?_concat_length] at member
      rw [← Option.some.inj member]
      simp only [Function.update_self]
      constructor
      · have wide : 2 ≤ lineSize := by decide
        unfold LogCall.Room at room
        omega
      · rw [bytes_formatMessage formatted]
        exact isLine_reached call
    · rw [List.getElem?_eq_none (by simp; omega)] at member
      cases member

/-- Storing the widths puts the lines of a full batch where readers find them. -/
theorem Filling.lineAt (lines : bufferSize ≤ hdr.lineCount) (narrow : hdr.lineSize + 2 < 2 ^ 32)
    (filling : Filling hdr batch thread) (full : batch.length = bufferSize) {index : Nat}
    (inside : index < bufferSize) :
    lineAt (((List.range bufferSize).map thread.iov).foldl putWidth thread.segment.data)
        (thread.iov index).base =
      Iovec.bytes thread.segment.data (thread.iov index) := by
  have short : ∀ other < bufferSize,
      2 ≤ (thread.iov other).base ∧ (thread.iov other).len ≤ min hdr.lineSize lineSize := by
    intro other otherInside
    rcases filling.slots with ⟨head, slots⟩
    refine ⟨?_, (filling.lines other _ (List.getElem?_eq_getElem (full ▸ otherInside))).1⟩
    rw [slots other otherInside]
    exact Nat.le_add_left _ _
  have byteWide : lineSize < 2 ^ 16 := by decide
  have width : lineWidth (((List.range bufferSize).map thread.iov).foldl putWidth
      thread.segment.data) (thread.iov index).base = (thread.iov index).len := by
    apply lineWidth_foldl_putWidth
    · exact List.mem_map_of_mem (List.mem_range.mpr inside)
    · rw [List.map_map]
      apply List.Pairwise.map _ _ (List.pairwise_lt_range.imp_of_mem _)
      · exact fun left right => left < bufferSize ∧ right < bufferSize ∧ left ≠ right
      · rintro left right ⟨leftIn, rightIn, different⟩
        have apart := filling.apart lines narrow leftIn rightIn different
        simp only [Function.comp_apply]
        omega
      · intro left right leftIn rightIn before
        exact ⟨List.mem_range.mp leftIn, List.mem_range.mp rightIn, Nat.ne_of_lt before⟩
    · intro iovec member
      rcases List.mem_map.mp member with ⟨other, otherIn, rfl⟩
      have bounds := short other (List.mem_range.mp otherIn)
      omega
  unfold Syslog.lineAt
  rw [width]
  apply bytes_congr
  intro location after before
  apply foldl_putWidth_of_ne
  intro iovec member
  rcases List.mem_map.mp member with ⟨other, otherIn, rfl⟩
  have otherInside := List.mem_range.mp otherIn
  have bounds := short other otherInside
  have here := short index inside
  dsimp only at after before
  by_cases same : other = index
  · rw [same] at bounds ⊢
    omega
  · have apart := filling.apart lines narrow otherInside inside same
    omega

theorem fipsBufWrite_data (hdr : Header) (segment : Segment) (iov : List Iovec) :
    (fipsBufWrite hdr segment iov).2.data = iov.foldl putWidth segment.data := by
  unfold fipsBufWrite
  dsimp only
  split <;> rfl

/-- A full batch is written with the lines of its messages. -/
theorem Kept.commitBatch_full (lines : bufferSize ≤ hdr.lineCount)
    (narrow : hdr.lineSize + 2 < 2 ^ 32) (kept : Kept hdr earlier batch thread)
    (full : batch.length = bufferSize) (empty : thread.bufferPosition = 0)
    (filling : Filling hdr batch thread) :
    Kept hdr (earlier ++ batch) [] (commitBatch hdr thread) := by
  unfold commitBatch
  rw [if_pos empty]
  refine ⟨?_, ?_, kept.inside, ?_⟩
  · simp [kept.logged]
  · rw [List.length_append, full]
    exact Nat.dvd_add kept.whole (Nat.dvd_refl _)
  · apply List.rel_append kept.lines
    apply List.forall₂_of_length_eq_of_get
    · simp [full]
    · intro index inBatch inLines
      have inside : index < bufferSize := full ▸ inBatch
      rcases filling.lines index _ (List.getElem?_eq_getElem inBatch) with ⟨short, line⟩
      simp only [List.get_eq_getElem, List.getElem_map, List.getElem_range, fipsBufWrite_data]
      rw [filling.lineAt lines narrow full inside]
      refine ⟨?_, line⟩
      simp only [Iovec.bytes, List.length_map, List.length_range]
      omega

/-- One call whose message has room. -/
theorem Standing.syslog (lines : bufferSize ≤ hdr.lineCount) (narrow : hdr.lineSize + 2 < 2 ^ 32)
    (standing : Standing hdr thread) (room : call.Room hdr)
    (logged : syslog hdr thread call = some next) : Standing hdr next := by
  rcases standing with ⟨earlier, batch, kept, position, unfilled, filling⟩
  rcases Option.map_eq_some_iff.mp logged with ⟨wrote, written, rfl⟩
  rcases Option.bind_eq_some_iff.mp written with ⟨held, reserved, writing⟩
  rcases kept.reserve position filling reserved with ⟨keptHeld, heldPosition, heldFilling⟩
  rcases heldFilling.writeMessage lines narrow room keptHeld heldPosition unfilled writing with
    ⟨message, keptWrote, wrotePosition, wroteFilling⟩
  have masked : (batch.length + 1) &&& (bufferSize - 1) = (batch.length + 1) % bufferSize :=
    Nat.and_two_pow_sub_one_eq_mod _ 4
  have length_eq : (batch ++ [message]).length = batch.length + 1 := by simp
  rw [masked] at wrotePosition
  rcases Nat.lt_or_ge (batch.length + 1) bufferSize with more | full
  · rw [Nat.mod_eq_of_lt more] at wrotePosition
    have stillOpen : commitBatch hdr wrote = wrote := if_neg (by omega)
    rw [stillOpen]
    exact ⟨earlier, batch ++ [message], keptWrote, by omega, by omega, fun _ => wroteFilling⟩
  · have whole : batch.length + 1 = bufferSize := by omega
    rw [whole, Nat.mod_self] at wrotePosition
    have committed := keptWrote.commitBatch_full lines narrow (length_eq.trans whole)
      wrotePosition wroteFilling
    refine ⟨earlier ++ (batch ++ [message]), [], committed, ?_, by decide, ?_⟩
    case refine_2 => exact fun some => absurd rfl some
    unfold commitBatch
    rw [if_pos wrotePosition]
    exact wrotePosition

theorem Standing.attached (hdr : Header) (segment : Segment) :
    Standing hdr (.attached segment) :=
  ⟨[], [], ⟨rfl, Nat.dvd_zero _, by simp [Thread.attached], .nil⟩, rfl, by decide,
    fun some => absurd rfl some⟩

theorem Standing.respected (standing : Standing hdr thread) : Respected hdr thread := by
  rcases standing with ⟨earlier, batch, kept, _, unfilled, _⟩
  have sameLength := kept.lines.length_eq
  refine ⟨kept.inside, ?_, ?_⟩
  · rw [kept.logged, List.length_append, ← sameLength]
    rcases kept.whole with ⟨batches, whole⟩
    rw [whole, Nat.mul_add_div (by decide), Nat.div_eq_of_lt unfilled, Nat.add_zero, Nat.mul_comm]
  · rw [kept.logged, ← sameLength, List.take_left]
    exact kept.lines

theorem logged_commitBatch (hdr : Header) (thread : Thread) :
    (commitBatch hdr thread).logged = thread.logged := by
  unfold commitBatch
  split <;> rfl

/-- Every handled call is recorded with the stores of its format. -/
theorem logged_syslog (logged : syslog hdr thread call = some next) :
    ∃ message, next.logged = thread.logged ++ [message] ∧ message.call = call ∧
      ∃ iovLen, formatMessage call.fmt call.args = some (message.stores, iovLen) := by
  rcases Option.map_eq_some_iff.mp logged with ⟨wrote, written, rfl⟩
  rcases Option.bind_eq_some_iff.mp written with ⟨held, reserved, writing⟩
  rcases Option.map_eq_some_iff.mp writing with ⟨⟨stores, iovLen⟩, formatted, rfl⟩
  have same : held.logged = thread.logged := by
    unfold reserve at reserved
    dsimp only at reserved
    split at reserved
    · split at reserved
      · cases reserved
        rfl
      · cases reserved
    · cases reserved
      rfl
  refine ⟨⟨call, held.iov held.bufferPosition, stores⟩, ?_, rfl, iovLen, formatted⟩
  rw [logged_commitBatch, ← same]

/-- The messages that stayed in their slots had room. -/
theorem room_of_inside {calls : List LogCall}
    (run : Lib.Run (syslog hdr) (fun _ _ => True) thread calls next) :
    (∃ later, next.logged = thread.logged ++ later) ∧
      ((∀ message ∈ next.logged, message.Inside hdr) → ∀ call ∈ calls, call.Room hdr) := by
  induction run with
  | nil => exact ⟨⟨[], by simp⟩, by simp⟩
  | cons _ taken _ inductionHypothesis =>
      rcases logged_syslog taken with ⟨message, recorded, rfl, iovLen, formatted⟩
      rcases inductionHypothesis with ⟨⟨later, extended⟩, rest⟩
      refine ⟨⟨message :: later, by simp [extended, recorded]⟩, ?_⟩
      intro inside call member
      rcases List.mem_cons.mp member with rfl | laterCall
      · apply (within_iff formatted).mp
        exact (inside message (by simp [extended, recorded])).2
      · exact rest inside call laterCall

end Batches

/-- A thread respects its slots if and only if every message has room, provided
that a batch fits the ring and a slot with its width has a 32-bit size. -/
theorem respected_iff_room {hdr : Header} {segment : Segment} {calls : List LogCall}
    {last : Thread} (lines : bufferSize ≤ hdr.lineCount) (narrow : hdr.lineSize + 2 < 2 ^ 32)
    (run : Lib.Run (syslog hdr) (fun _ _ => True) (.attached segment) calls last) :
    Respected hdr last ↔ ∀ call ∈ calls, call.Room hdr := by
  constructor
  · intro respected
    exact (room_of_inside run).2 respected.inside
  · intro room
    have guarded := run.guarded fun _ => room
    have standing : Standing hdr last := guarded.invariant
      (fun _ _ _ standing room logged => standing.syslog lines narrow room logged)
      (.attached hdr segment)
    exact standing.respected

/-- Sixteen lines of five bytes, with overwriting. -/
def fiveBytes : Header := .ofFields 1 0 0 0 4 5 0 true (by decide)

/-- Sixteen lines of a hundred bytes, with overwriting. -/
def hundredBytes : Header := .ofFields 1 0 0 0 4 100 0 true (by decide)

/-- A call with the format `%s` and this argument. -/
def logString (arg : List UInt8) : LogCall where
  fmt := ascii "%s"
  args := [arg]
  readers := (Segment.created fiveBytes fun _ => 0).readers

def blankThread (hdr : Header) : Thread := .attached (.created hdr fun _ => 0)

/-- A batch of messages that just fit their slots. -/
theorem respected_iff_room_batch :
    ∃ last, Lib.Run (syslog fiveBytes) (fun _ _ => True) (blankThread fiveBytes)
        (List.replicate 16 (logString (ascii "abc"))) last ∧
      last.committed = List.replicate 16 (ascii "abc\n") ∧ Respected fiveBytes last := by
  have executed : (Lib.Run.exec (syslog fiveBytes) (fun _ _ => True) (blankThread fiveBytes)
      (List.replicate 16 (logString (ascii "abc")))).any
        (fun last => decide (last.committed = List.replicate 16 (ascii "abc\n"))) = true := by
    decide +kernel
  rcases Lib.Run.of_exec_any executed with ⟨last, run, committed⟩
  exact ⟨last, run, of_decide_eq_true committed,
    (respected_iff_room (by decide) (by decide) run).mpr (by decide +kernel)⟩

/-- A configured `line_size` of 100 does not keep an argument of 120 bytes
inside its slot. -/
theorem respected_fails_short_slot :
    ¬ ∀ (hdr : Header) (segment : Segment) (calls : List LogCall) (last : Thread),
      2 ≤ hdr.lineSize →
      Lib.Run (syslog hdr) (fun _ _ => True) (.attached segment) calls last →
      Respected hdr last := by
  intro claim
  have executed : (Lib.Run.exec (syslog hundredBytes) (fun _ _ => True) (blankThread hundredBytes)
      [logString (List.replicate 120 97)]).any
        (fun last => last.logged.any fun message =>
          message.stores.any fun store => 100 < store.offset + store.bytes.length) = true := by
    decide +kernel
  rcases Lib.Run.of_exec_any executed with ⟨last, run, overrun⟩
  rcases List.any_eq_true.mp overrun with ⟨message, member, outside⟩
  rcases List.any_eq_true.mp outside with ⟨store, stored, beyond⟩
  have respected := claim hundredBytes _ _ last (by decide) run
  have inside := (respected.inside message member).2 store stored
  exact absurd inside (Nat.not_le_of_lt (of_decide_eq_true beyond))

end FipsIpc.Syslog
