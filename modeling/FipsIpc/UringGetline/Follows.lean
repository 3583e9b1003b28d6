import FipsIpc.UringGetline.Lines

/-!
Contract: how one call of `uring_getline` follows a growing file.

Owns: the invariant that links the two buffers, the open read and the offset with
what was returned, and its preservation by appends and by every call whose read
does not fail.

The file has lines of at most `BUFSIZE` bytes without NUL.  Bytes behind the last
newline are no line yet; once there are `BUFSIZE` of them no newline can follow,
and a read ahead may then go to the buffer in use.

Does not own: runs.
-/

set_option autoImplicit false

namespace FipsIpc.UringGetline

/-! ### The file -/

/-- Every line has at most `bufsize` bytes, its newline included, and no NUL. -/
def FineLines (file : List UInt8) : Prop :=
  ∀ body, newline ∉ body → body ++ [newline] <:+: file → body.length < bufsize ∧ 0 ∉ body

/-- `bufsize` bytes behind an offset without a newline. -/
structure Overlong (file : List UInt8) (offset : Nat) : Prop where
  long : offset + bufsize ≤ file.length
  plain : newline ∉ (file.drop offset).take bufsize

theorem FineLines.of_append {file bytes : List UInt8} (fine : FineLines (file ++ bytes)) :
    FineLines file := by
  intro body plain inside
  exact fine body plain (inside.trans (List.prefix_append file bytes).isInfix)

theorem Overlong.append {file : List UInt8} {offset : Nat} (overlong : Overlong file offset)
    (bytes : List UInt8) : Overlong (file ++ bytes) offset := by
  have long := overlong.long
  constructor
  · rw [List.length_append]
    omega
  · rw [List.drop_append_of_le_length (by omega),
      List.take_append_of_le_length (by rw [List.length_drop]; omega)]
    exact overlong.plain

/-- No newline follows: it would end a line that is too long. -/
theorem FineLines.no_newline {file : List UInt8} (fine : FineLines file) {offset : Nat}
    (overlong : Overlong file offset) : newline ∉ file.drop offset := by
  intro member
  obtain ⟨body, rest, split, plain⟩ := List.eq_append_cons_of_mem member
  have inside : body ++ [newline] <:+: file := by
    refine List.IsInfix.trans ⟨[], rest, ?_⟩ (List.drop_suffix offset file).isInfix
    rw [split, List.nil_append, List.append_assoc, List.singleton_append]
  have short := (fine body plain inside).1
  apply overlong.plain
  rw [split, List.take_append, List.mem_append]
  right
  obtain ⟨left, more⟩ : ∃ left, bufsize - body.length = left + 1 :=
    ⟨bufsize - body.length - 1, by omega⟩
  rw [more]
  exact List.mem_cons_self

/-! ### The invariant -/

/-- The open read.  It goes to the buffer that is not in use, unless no line can
come of it any more. -/
inductive Pending (file : List UInt8) (buf : Buf) (fio : FileIo) : Prop where
  | nothing (sqe : fio.sqe = false) (submitted : fio.submitted = [])
  | ahead (sqe : fio.sqe = true) (submitted : fio.submitted = [⟨buf.other, fio.offset, bufsize⟩])
  | overlong (sqe : fio.sqe = true) (submitted : fio.submitted = [⟨buf, fio.offset, bufsize⟩])
      (overlong : Overlong file fio.offset)
      (plain : ∀ index < bufsize, (fio.buffers buf.other).data index ≠ newline)

/-- `delivered` was returned, the buffer `buf` is in use, and its unread bytes end
where the next read starts. -/
structure Follows (file delivered : List UInt8) (buf : Buf) (fio : FileIo) : Prop where
  selected : fio.scndBuf = decide (buf = .second)
  unfailed : fio.failed = false
  position : fio.offset ≤ file.length
  consumed : delivered ++ (fio.buffers buf).unread = file.take fio.offset
  current : (fio.buffers buf).Idle ∨ (fio.buffers buf).Ready
  spare : (fio.buffers buf.other).Idle
  pending : Pending file buf fio

theorem follows_started (file : List UInt8) : Follows file [] .first FileIo.started where
  selected := rfl
  unfailed := rfl
  position := Nat.zero_le _
  consumed := rfl
  current := Or.inl ⟨rfl, rfl⟩
  spare := ⟨rfl, rfl⟩
  pending := .nothing rfl rfl

/-- Appending changes nothing that was read. -/
theorem Follows.append {file delivered : List UInt8} {buf : Buf} {fio : FileIo}
    (follows : Follows file delivered buf fio) (bytes : List UInt8) :
    Follows (file ++ bytes) delivered buf fio where
  selected := follows.selected
  unfailed := follows.unfailed
  position := by
    have position := follows.position
    rw [List.length_append]
    omega
  consumed := by
    rw [List.take_append_of_le_length follows.position]
    exact follows.consumed
  current := follows.current
  spare := follows.spare
  pending := by
    rcases follows.pending with ⟨sqe, submitted⟩ | ⟨sqe, submitted⟩ |
      ⟨sqe, submitted, overlong, plain⟩
    · exact .nothing sqe submitted
    · exact .ahead sqe submitted
    · exact .overlong sqe submitted (overlong.append bytes) plain

theorem Buf.other_ne (buf : Buf) : buf.other ≠ buf := by
  cases buf <;> decide

@[simp] theorem Buf.other_other (buf : Buf) : buf.other.other = buf := by
  cases buf <;> rfl

/-! ### A line from the buffer in use -/

theorem Follows.ready {file delivered : List UInt8} {buf : Buf} {fio : FileIo}
    (follows : Follows file delivered buf fio) (nonempty : 0 < (fio.buffers buf).rsize) :
    (fio.buffers buf).Ready := by
  rcases follows.current with idle | ready
  · rw [idle.2] at nonempty
    cases nonempty
  · exact ready

theorem takeLine_buf (fio : FileIo) (buf : Buf) (brought : Option (List UInt8)) :
    (takeLine fio buf brought).2.buffers buf = (rdline (fio.buffers buf)).2 :=
  Function.update_self ..

theorem takeLine_other (fio : FileIo) (buf : Buf) (brought : Option (List UInt8)) :
    (takeLine fio buf brought).2.buffers buf.other = fio.buffers buf.other :=
  Function.update_of_ne buf.other_ne ..

theorem Follows.takeLine {file delivered : List UInt8} {buf : Buf} {fio : FileIo}
    (fine : FineLines file) (follows : Follows file delivered buf fio)
    (nonempty : 0 < (fio.buffers buf).rsize) (brought : Option (List UInt8)) :
    IsLine (takeLine fio buf brought).1.line ∧
      Follows file (delivered ++ (takeLine fio buf brought).1.line) buf
        (takeLine fio buf brought).2 := by
  have noNul : ∀ body, newline ∉ body → body ++ [newline] <+: (fio.buffers buf).unread →
      0 ∉ body := by
    intro body plain start
    have inRead : (fio.buffers buf).unread <:+: file :=
      List.IsInfix.trans ⟨delivered, [], by rw [List.append_nil]; exact follows.consumed⟩
        (List.take_prefix _ _).isInfix
    exact (fine body plain (start.isInfix.trans inRead)).2
  obtain ⟨isLine, split, left⟩ := rdline_ready (follows.ready nonempty) noNul
  refine ⟨isLine, follows.selected, follows.unfailed, follows.position, ?_, ?_, ?_, ?_⟩
  · rw [takeLine_buf, List.append_assoc]
    exact (congrArg (delivered ++ ·) split.symm).trans follows.consumed
  · rw [takeLine_buf]
    exact left
  · rw [takeLine_other]
    exact follows.spare
  · rcases follows.pending with ⟨sqe, submitted⟩ | ⟨sqe, submitted⟩ |
      ⟨sqe, submitted, overlong, plain⟩
    · exact .nothing sqe submitted
    · exact .ahead sqe submitted
    · refine .overlong sqe submitted overlong ?_
      rw [takeLine_other]
      exact plain

/-! ### Reads -/

/-- A read of `bufsize` bytes at the offset can bring `count` bytes. -/
def Answerable (file : List UInt8) (fio : FileIo) (count : Nat) : Prop :=
  count ≤ bufsize ∧ fio.offset + count ≤ file.length

/-- The bytes such a read brings. -/
def FileIo.next (fio : FileIo) (file : List UInt8) (count : Nat) : List UInt8 :=
  (file.drop fio.offset).take count

/-- After `_rdawait` of a read into the buffer it looks at. -/
def FileIo.afterRead (fio : FileIo) (buf : Buf) (bytes : List UInt8) : FileIo :=
  { fio with
    sqe := false
    offset := fio.offset + (fio.buffers buf).keptSize bytes
    buffers := Function.update fio.buffers buf ((fio.buffers buf).received bytes)
    submitted := [] }

/-- After `_rdawait` of a read into `buf` that looks at the other buffer and finds
no newline there. -/
def FileIo.afterStray (fio : FileIo) (buf : Buf) (bytes : List UInt8) : FileIo :=
  { fio with
    sqe := false
    buffers := Function.update fio.buffers buf ((fio.buffers buf).fill bytes)
    submitted := [] }

/-- `_rdstart` after a full read. -/
def FileIo.readAhead (fio : FileIo) (full : Bool) (buf : Buf) : FileIo :=
  if full then rdstart fio buf else fio

theorem Answerable.length_next {file : List UInt8} {fio : FileIo} {count : Nat}
    (answerable : Answerable file fio count) : (fio.next file count).length = count := by
  have inside := answerable.2
  rw [FileIo.next, List.length_take, List.length_drop]
  omega

theorem FileIo.take_next (fio : FileIo) (file : List UInt8) {size count : Nat}
    (inside : size ≤ count) :
    (fio.next file count).take size = (file.drop fio.offset).take size := by
  rw [FileIo.next, List.take_take, Nat.min_eq_left inside]

section Await

variable {file : List UInt8} {fio : FileIo} {target buf : Buf} {count : Nat}

/-- `_rdawait` with the one read open: the bytes go to the buffer of the request,
and the size of the buffer that is looked at is cut to its last newline. -/
theorem rdawait_eq (unfailed : fio.failed = false)
    (submitted : fio.submitted = [⟨target, fio.offset, bufsize⟩])
    (answerable : Answerable file fio count) {buffers : Buf → Buffer}
    (filled : Function.update fio.buffers target
      ((fio.buffers target).fill (fio.next file count)) = buffers) :
    rdawait file (.bytes count) fio buf =
      some ⟨count = bufsize, some (fio.next file count),
        { fio with
          sqe := false
          offset := fio.offset + lastLine (buffers buf).data count
          buffers := Function.update buffers buf
            { buffers buf with rsize := lastLine (buffers buf).data count }
          submitted := [] }⟩ := by
  subst filled
  unfold rdawait
  simp only [unfailed, submitted, Bool.false_eq_true, ↓reduceIte]
  exact if_pos answerable

theorem rdawait_blocked (unfailed : fio.failed = false)
    (submitted : fio.submitted = [⟨target, fio.offset, bufsize⟩])
    (blocked : ¬Answerable file fio count) : rdawait file (.bytes count) fio buf = none := by
  unfold rdawait
  simp only [unfailed, submitted, Bool.false_eq_true, ↓reduceIte]
  exact if_neg blocked

/-- A read into the buffer that is looked at. -/
theorem rdawait_own (unfailed : fio.failed = false)
    (submitted : fio.submitted = [⟨buf, fio.offset, bufsize⟩])
    (answerable : Answerable file fio count) :
    rdawait file (.bytes count) fio buf =
      some ⟨count = bufsize, some (fio.next file count),
        fio.afterRead buf (fio.next file count)⟩ := by
  have length := answerable.length_next
  rw [rdawait_eq unfailed submitted answerable rfl, Function.update_self, Function.update_idem]
  unfold FileIo.afterRead Buffer.received Buffer.keptSize
  rw [length]

/-- A read into the other buffer, while the one that is looked at has no newline. -/
theorem rdawait_other (unfailed : fio.failed = false)
    (submitted : fio.submitted = [⟨buf.other, fio.offset, bufsize⟩])
    (answerable : Answerable file fio count) (idle : (fio.buffers buf).Idle)
    (plain : ∀ index < bufsize, (fio.buffers buf).data index ≠ newline) :
    rdawait file (.bytes count) fio buf =
      some ⟨count = bufsize, some (fio.next file count),
        fio.afterStray buf.other (fio.next file count)⟩ := by
  have unchanged : Function.update fio.buffers buf.other
      ((fio.buffers buf.other).fill (fio.next file count)) buf = fio.buffers buf :=
    Function.update_of_ne buf.other_ne.symm ..
  have nothing : lastLine (fio.buffers buf).data count = 0 := by
    apply lastLine_eq_zero.mpr
    intro index inside
    exact plain index (Nat.lt_of_lt_of_le inside answerable.1)
  have same : { fio.buffers buf with rsize := 0 } = fio.buffers buf := by
    rw [← idle.2]
  rw [rdawait_eq unfailed submitted answerable rfl, unchanged, nothing, same, ← unchanged,
    Function.update_eq_self, Nat.add_zero]
  rfl

end Await

/-! ### Both buffers returned -/

/-- Everything up to the offset was returned. -/
structure Drained (file delivered : List UInt8) (fio : FileIo) : Prop where
  unfailed : fio.failed = false
  position : fio.offset ≤ file.length
  consumed : delivered = file.take fio.offset
  idle : ∀ buf, (fio.buffers buf).Idle

theorem Buf.eq_or_other (buf target : Buf) : target = buf ∨ target = buf.other := by
  cases buf <;> cases target <;> decide

theorem readAhead_offset (fio : FileIo) (full : Bool) (buf : Buf) :
    (fio.readAhead full buf).offset = fio.offset := by
  cases full <;> rfl

theorem readAhead_buffers (fio : FileIo) (full : Bool) (buf : Buf) :
    (fio.readAhead full buf).buffers = fio.buffers := by
  cases full <;> rfl

theorem readAhead_failed (fio : FileIo) (full : Bool) (buf : Buf) :
    (fio.readAhead full buf).failed = fio.failed := by
  cases full <;> rfl

theorem readAhead_scndBuf (fio : FileIo) (full : Bool) (buf : Buf) :
    (fio.readAhead full buf).scndBuf = fio.scndBuf := by
  cases full <;> rfl

section Drained

variable {file delivered : List UInt8} {buf : Buf} {fio : FileIo} {count : Nat}

theorem Follows.drained (follows : Follows file delivered buf fio)
    (empty : (fio.buffers buf).rsize = 0) : Drained file delivered fio := by
  have idle : (fio.buffers buf).Idle := by
    rcases follows.current with idle | ready
    · exact idle
    · have inside := ready.1
      omega
  refine ⟨follows.unfailed, follows.position, ?_, ?_⟩
  · rw [← follows.consumed, idle.unread, List.append_nil]
  · intro target
    rcases buf.eq_or_other target with same | other
    · rw [same]
      exact idle
    · rw [other]
      exact follows.spare

theorem Drained.follows (drained : Drained file delivered fio)
    (selected : fio.scndBuf = decide (buf = .second)) (pending : Pending file buf fio) :
    Follows file delivered buf fio where
  selected := selected
  unfailed := drained.unfailed
  position := drained.position
  consumed := by
    rw [(drained.idle buf).unread, List.append_nil]
    exact drained.consumed
  current := Or.inl (drained.idle buf)
  spare := drained.idle buf.other
  pending := pending

/-- The bytes of the next read follow what was returned. -/
theorem Drained.next_prefix (drained : Drained file delivered fio) (count : Nat) :
    delivered ++ fio.next file count <+: file := by
  rw [drained.consumed, FileIo.next, ← List.take_add]
  exact List.take_prefix _ _

/-- A read into a buffer, which is the one in use afterwards, and the read ahead
into the other. -/
theorem Drained.received (drained : Drained file delivered fio)
    (answerable : Answerable file fio count) (target : Buf) :
    Follows file delivered target
      { (fio.afterRead target (fio.next file count)).readAhead (count = bufsize) target.other with
        scndBuf := target = .second } := by
  have kept := (fio.buffers target).keptSize_le (fio.next file count)
  rw [answerable.length_next] at kept
  have inside := answerable.2
  have read : (fio.afterRead target (fio.next file count)).buffers target =
      (fio.buffers target).received (fio.next file count) := Function.update_self ..
  have spare : (fio.afterRead target (fio.next file count)).buffers target.other =
      fio.buffers target.other := Function.update_of_ne target.other_ne ..
  refine ⟨rfl, ?_, ?_, ?_, ?_, ?_, ?_⟩
  · exact (readAhead_failed ..).trans drained.unfailed
  · rw [readAhead_offset]
    change fio.offset + _ ≤ _
    omega
  · rw [readAhead_buffers, readAhead_offset, read, (drained.idle target).received_unread]
    change _ = file.take (fio.offset + _)
    rw [List.take_add, ← drained.consumed, fio.take_next file kept]
  · rw [readAhead_buffers, read]
    rcases Nat.eq_zero_or_pos ((fio.buffers target).keptSize (fio.next file count)) with
      nothing | some
    · exact Or.inl ((drained.idle target).received_idle nothing)
    · exact Or.inr ((drained.idle target).received_ready some)
  · rw [readAhead_buffers, spare]
    exact drained.idle target.other
  · by_cases full : count = bufsize
    · rw [decide_eq_true full]
      exact .ahead rfl rfl
    · rw [decide_eq_false full]
      exact .nothing rfl rfl

/-- A read into the spare buffer without a newline, and the read ahead into the
buffer in use. -/
theorem Drained.plain (drained : Drained file delivered fio)
    (answerable : Answerable file fio count) (selected : fio.scndBuf = decide (buf = .second))
    (plain : newline ∉ fio.next file count) :
    Follows file delivered buf
      ((fio.afterRead buf.other (fio.next file count)).readAhead (count = bufsize) buf) := by
  have nothing := ((fio.buffers buf.other).keptSize_eq_zero _).mpr plain
  have offset : (fio.afterRead buf.other (fio.next file count)).offset = fio.offset := by
    change fio.offset + _ = fio.offset
    rw [nothing, Nat.add_zero]
  have read : (fio.afterRead buf.other (fio.next file count)).buffers buf.other =
      (fio.buffers buf.other).received (fio.next file count) := Function.update_self ..
  have still : Drained file delivered
      ((fio.afterRead buf.other (fio.next file count)).readAhead (count = bufsize) buf) := by
    refine ⟨(readAhead_failed ..).trans drained.unfailed, ?_, ?_, ?_⟩
    · rw [readAhead_offset, offset]
      exact drained.position
    · rw [readAhead_offset, offset]
      exact drained.consumed
    · intro target
      rw [readAhead_buffers]
      rcases buf.other.eq_or_other target with same | other
      · rw [same, read]
        exact (drained.idle buf.other).received_idle nothing
      · have unchanged : (fio.afterRead buf.other (fio.next file count)).buffers target =
            fio.buffers target := by
          rw [other]
          exact Function.update_of_ne buf.other.other_ne ..
        rw [unchanged]
        exact drained.idle target
  apply still.follows ((readAhead_scndBuf ..).trans selected)
  by_cases full : count = bufsize
  · rw [decide_eq_true full]
    refine .overlong rfl rfl ?_ ?_
    · rw [readAhead_offset, offset]
      rw [full] at answerable plain
      exact ⟨answerable.2, plain⟩
    · intro index inside isNewline
      rw [readAhead_buffers, read] at isNewline
      have bound : index < (fio.next file count).length := by
        rw [answerable.length_next, full]
        exact inside
      have found := ((fio.buffers buf.other).fill_data bound).symm.trans isNewline
      exact plain (List.mem_of_getElem found)
  · rw [decide_eq_false full]
    exact .nothing rfl rfl

/-- A read into the buffer in use, when no line can come of it. -/
theorem Drained.overlong (drained : Drained file delivered fio)
    (selected : fio.scndBuf = decide (buf = .second)) (overlong : Overlong file fio.offset)
    (plain : ∀ index < bufsize, (fio.buffers buf.other).data index ≠ newline)
    (bytes : List UInt8) (full : Bool) :
    Follows file delivered buf ((fio.afterStray buf bytes).readAhead full buf) := by
  have read : (fio.afterStray buf bytes).buffers buf = (fio.buffers buf).fill bytes :=
    Function.update_self ..
  have spare : (fio.afterStray buf bytes).buffers buf.other = fio.buffers buf.other :=
    Function.update_of_ne buf.other_ne ..
  have still : Drained file delivered ((fio.afterStray buf bytes).readAhead full buf) := by
    refine ⟨(readAhead_failed ..).trans drained.unfailed, ?_, ?_, ?_⟩
    · rw [readAhead_offset]
      exact drained.position
    · rw [readAhead_offset]
      exact drained.consumed
    · intro target
      rw [readAhead_buffers]
      rcases buf.eq_or_other target with same | other
      · rw [same, read]
        exact drained.idle buf
      · rw [other, spare]
        exact drained.idle buf.other
  apply still.follows ((readAhead_scndBuf ..).trans selected)
  cases full with
  | false => exact .nothing rfl rfl
  | true =>
      refine .overlong rfl rfl overlong ?_
      rw [readAhead_buffers, spare]
      exact plain

end Drained

/-! ### One call -/

/-- What a call may return: one line, or nothing when the read that was waited for
brought no newline.  `delivered` was returned before. -/
def Outcome.Honest (file delivered : List UInt8) (outcome : Outcome) : Prop :=
  IsLine outcome.line ∨
    outcome.line = [] ∧
      ∃ bytes, outcome.brought = some bytes ∧ newline ∉ bytes ∧ delivered ++ bytes <+: file

section Call

variable {file delivered : List UInt8} {buf : Buf} {fio : FileIo} {count : Nat}

theorem Follows.uringGetline_eq (follows : Follows file delivered buf fio) (answer : ReadAnswer) :
    uringGetline file answer fio = getlineFrom buf file answer fio := by
  unfold uringGetline
  rw [follows.selected]
  cases buf <;> rfl

/-- A call that finds a line in the buffer in use. -/
theorem Follows.getline_buffered (fine : FineLines file)
    (follows : Follows file delivered buf fio) (nonempty : 0 < (fio.buffers buf).rsize)
    (answer : ReadAnswer) :
    ∃ outcome next, uringGetline file answer fio = some (outcome, next) ∧
      outcome.Honest file delivered ∧ Follows file (delivered ++ outcome.line) buf next := by
  obtain ⟨isLine, still⟩ := follows.takeLine fine nonempty none
  refine ⟨_, _, ?_, Or.inl isLine, still⟩
  rw [follows.uringGetline_eq]
  exact if_pos nonempty

/-- Nothing is returned when the bytes of the read have no newline. -/
theorem Drained.honest (drained : Drained file delivered fio)
    (plain : newline ∉ fio.next file count) :
    Outcome.Honest file delivered ⟨[], some (fio.next file count)⟩ :=
  Or.inr ⟨rfl, _, rfl, plain, drained.next_prefix count⟩

theorem read_rsize (fio : FileIo) (target other : Buf) (bytes : List UInt8) (full : Bool) :
    (((fio.afterRead target bytes).readAhead full other).buffers target).rsize =
      (fio.buffers target).keptSize bytes := by
  have read : (fio.afterRead target bytes).buffers target = (fio.buffers target).received bytes :=
    Function.update_self ..
  rw [readAhead_buffers, read]
  rfl

theorem getlineFrom_fresh {answer : ReadAnswer} {awaited : Awaited}
    (empty : (fio.buffers buf).rsize = 0) (sqe : fio.sqe = false)
    (wait : rdawait file answer (rdstart fio buf) buf = some awaited) :
    getlineFrom buf file answer fio =
      if 0 < ((awaited.fio.readAhead awaited.full buf.other).buffers buf).rsize then
        some (takeLine (awaited.fio.readAhead awaited.full buf.other) buf awaited.brought)
      else some (⟨[], awaited.brought⟩, awaited.fio.readAhead awaited.full buf.other) := by
  have nonempty : ¬0 < (fio.buffers buf).rsize := by omega
  unfold getlineFrom
  rw [if_neg nonempty, sqe, if_neg Bool.false_ne_true, wait]
  rfl

theorem getlineFrom_open {answer : ReadAnswer} {awaited : Awaited}
    (empty : (fio.buffers buf).rsize = 0) (sqe : fio.sqe = true)
    (wait : rdawait file answer fio buf.other = some awaited) :
    getlineFrom buf file answer fio =
      if 0 < ((awaited.fio.readAhead awaited.full buf).buffers buf.other).rsize then
        some (takeLine
          { awaited.fio.readAhead awaited.full buf with scndBuf := buf.other = .second }
          buf.other awaited.brought)
      else some (⟨[], awaited.brought⟩, awaited.fio.readAhead awaited.full buf) := by
  have nonempty : ¬0 < (fio.buffers buf).rsize := by omega
  unfold getlineFrom
  rw [if_neg nonempty, if_pos sqe, wait]
  rfl

/-- A call without an open read reads into the buffer in use. -/
theorem Follows.getline_fresh (fine : FineLines file)
    (follows : Follows file delivered buf fio) (empty : (fio.buffers buf).rsize = 0)
    (answerable : Answerable file fio count) (sqe : fio.sqe = false)
    (submitted : fio.submitted = []) :
    ∃ outcome next, getlineFrom buf file (.bytes count) fio = some (outcome, next) ∧
      outcome.Honest file delivered ∧ Follows file (delivered ++ outcome.line) buf next := by
  have drained := follows.drained empty
  have request : (rdstart fio buf).submitted = [⟨buf, (rdstart fio buf).offset, bufsize⟩] := by
    rw [rdstart, submitted]
    rfl
  have started : Drained file delivered (rdstart fio buf) :=
    ⟨drained.unfailed, drained.position, drained.consumed, drained.idle⟩
  have wait := rdawait_own started.unfailed request answerable
  have read := started.received answerable buf
  rw [← follows.selected] at read
  have same : { ((rdstart fio buf).afterRead buf ((rdstart fio buf).next file count)).readAhead
      (count = bufsize) buf.other with scndBuf := fio.scndBuf } =
      ((rdstart fio buf).afterRead buf ((rdstart fio buf).next file count)).readAhead
        (count = bufsize) buf.other := by
    cases full : decide (count = bufsize) <;> rfl
  rw [same] at read
  rw [getlineFrom_fresh empty sqe wait]
  split
  case isTrue kept =>
    obtain ⟨isLine, still⟩ := read.takeLine fine kept (some (fio.next file count))
    exact ⟨_, _, rfl, Or.inl isLine, still⟩
  case isFalse nothing =>
    rw [read_rsize, Nat.pos_iff_ne_zero, not_not, Buffer.keptSize_eq_zero] at nothing
    refine ⟨_, _, rfl, drained.honest nothing, ?_⟩
    rw [List.append_nil]
    exact read

/-- A call with a read open for the other buffer waits for it. -/
theorem Follows.getline_ahead (fine : FineLines file)
    (follows : Follows file delivered buf fio) (empty : (fio.buffers buf).rsize = 0)
    (answerable : Answerable file fio count) (sqe : fio.sqe = true)
    (submitted : fio.submitted = [⟨buf.other, fio.offset, bufsize⟩]) :
    ∃ outcome next buf', getlineFrom buf file (.bytes count) fio = some (outcome, next) ∧
      outcome.Honest file delivered ∧ Follows file (delivered ++ outcome.line) buf' next := by
  have drained := follows.drained empty
  have wait := rdawait_own follows.unfailed submitted answerable
  rw [getlineFrom_open empty sqe wait]
  split
  case isTrue kept =>
    have read := drained.received answerable buf.other
    rw [Buf.other_other] at read
    obtain ⟨isLine, still⟩ := read.takeLine fine kept (some (fio.next file count))
    exact ⟨_, _, buf.other, rfl, Or.inl isLine, still⟩
  case isFalse nothing =>
    rw [read_rsize, Nat.pos_iff_ne_zero, not_not, Buffer.keptSize_eq_zero] at nothing
    refine ⟨_, _, buf, rfl, drained.honest nothing, ?_⟩
    rw [List.append_nil]
    exact drained.plain answerable follows.selected nothing

/-- A call with a read open for the buffer in use. -/
theorem Follows.getline_overlong (fine : FineLines file)
    (follows : Follows file delivered buf fio) (empty : (fio.buffers buf).rsize = 0)
    (answerable : Answerable file fio count) (sqe : fio.sqe = true)
    (submitted : fio.submitted = [⟨buf, fio.offset, bufsize⟩])
    (overlong : Overlong file fio.offset)
    (plain : ∀ index < bufsize, (fio.buffers buf.other).data index ≠ newline) :
    ∃ outcome next, getlineFrom buf file (.bytes count) fio = some (outcome, next) ∧
      outcome.Honest file delivered ∧ Follows file (delivered ++ outcome.line) buf next := by
  have drained := follows.drained empty
  have request : fio.submitted = [⟨buf.other.other, fio.offset, bufsize⟩] := by
    rw [Buf.other_other]
    exact submitted
  have wait := rdawait_other follows.unfailed request answerable follows.spare plain
  rw [Buf.other_other] at wait
  have spare : ((fio.afterStray buf (fio.next file count)).readAhead (count = bufsize)
      buf).buffers buf.other = fio.buffers buf.other := by
    rw [readAhead_buffers]
    exact Function.update_of_ne buf.other_ne ..
  have nothing : newline ∉ fio.next file count := fun member =>
    fine.no_newline overlong (List.mem_of_mem_take member)
  rw [getlineFrom_open empty sqe wait, spare, follows.spare.2, if_neg (Nat.lt_irrefl 0)]
  refine ⟨_, _, rfl, drained.honest nothing, ?_⟩
  rw [List.append_nil]
  exact drained.overlong follows.selected overlong plain _ _

/-- A call that reads. -/
theorem Follows.getline_read (fine : FineLines file)
    (follows : Follows file delivered buf fio) (empty : (fio.buffers buf).rsize = 0)
    (answerable : Answerable file fio count) :
    ∃ outcome next buf', uringGetline file (.bytes count) fio = some (outcome, next) ∧
      outcome.Honest file delivered ∧ Follows file (delivered ++ outcome.line) buf' next := by
  rw [follows.uringGetline_eq]
  rcases follows.pending with ⟨sqe, submitted⟩ | ⟨sqe, submitted⟩ |
    ⟨sqe, submitted, overlong, plain⟩
  · obtain ⟨outcome, next, call⟩ := follows.getline_fresh fine empty answerable sqe submitted
    exact ⟨outcome, next, buf, call⟩
  · exact follows.getline_ahead fine empty answerable sqe submitted
  · obtain ⟨outcome, next, call⟩ :=
      follows.getline_overlong fine empty answerable sqe submitted overlong plain
    exact ⟨outcome, next, buf, call⟩

/-- A call that reads waits for the read. -/
theorem Follows.getline_blocked (follows : Follows file delivered buf fio)
    (empty : (fio.buffers buf).rsize = 0) (blocked : ¬Answerable file fio count) :
    uringGetline file (.bytes count) fio = none := by
  have nonempty : ¬0 < (fio.buffers buf).rsize := by omega
  rw [follows.uringGetline_eq]
  unfold getlineFrom
  rw [if_neg nonempty]
  rcases follows.pending with ⟨sqe, submitted⟩ | ⟨sqe, submitted⟩ | ⟨sqe, submitted, -, -⟩
  · have request : (rdstart fio buf).submitted = [⟨buf, (rdstart fio buf).offset, bufsize⟩] := by
      rw [rdstart, submitted]
      rfl
    have started : (rdstart fio buf).failed = false := follows.unfailed
    rw [sqe, if_neg Bool.false_ne_true, rdawait_blocked started request blocked]
    rfl
  · rw [if_pos sqe, rdawait_blocked follows.unfailed submitted blocked]
    rfl
  · rw [if_pos sqe, rdawait_blocked follows.unfailed submitted blocked]
    rfl

end Call

end FipsIpc.UringGetline
