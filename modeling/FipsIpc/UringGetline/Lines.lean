import FipsIpc.UringGetline.Getline
import Mathlib.Data.Nat.Find

/-!
Contract: what one line taken from a buffer and one read into a buffer do.

Owns: the loops of `_rdline` and `_rdawait`, the unread bytes of a buffer, the
line that `_rdline` takes off them, and the complete lines that a read leaves.

Does not own: which of the two buffers is read or filled.
-/

set_option autoImplicit false

namespace FipsIpc.UringGetline

/-- The bytes of a buffer that were not returned. -/
def Buffer.unread (buffer : Buffer) : List UInt8 :=
  bytesAt buffer.data buffer.offset (buffer.rsize - buffer.offset)

/-- Nothing to return. -/
def Buffer.Idle (buffer : Buffer) : Prop := buffer.offset = 0 ∧ buffer.rsize = 0

/-- Complete lines to return. -/
def Buffer.Ready (buffer : Buffer) : Prop :=
  buffer.offset < buffer.rsize ∧ buffer.data (buffer.rsize - 1) = newline

/-- A line with its newline. -/
def IsLine (line : List UInt8) : Prop := ∃ body, newline ∉ body ∧ line = body ++ [newline]

theorem Buffer.Idle.unread {buffer : Buffer} (idle : buffer.Idle) : buffer.unread = [] := by
  unfold Buffer.unread
  rw [idle.1, idle.2]
  rfl

/-! ### Bytes of a buffer -/

theorem bytesAt_length (data : Nat → UInt8) (start count : Nat) :
    (bytesAt data start count).length = count := by
  simp [bytesAt]

theorem mem_bytesAt {data : Nat → UInt8} {start count : Nat} {byte : UInt8} :
    byte ∈ bytesAt data start count ↔ ∃ index < count, data (start + index) = byte := by
  simp [bytesAt]

theorem bytesAt_add (data : Nat → UInt8) (start left right : Nat) :
    bytesAt data start (left + right) =
      bytesAt data start left ++ bytesAt data (start + left) right := by
  unfold bytesAt
  rw [List.range_add, List.map_append, List.map_map]
  simp [Function.comp_def, Nat.add_assoc]

/-- The bytes up to a position, the byte there, and the bytes behind it. -/
theorem bytesAt_split (data : Nat → UInt8) {start stop finish : Nat} (lower : start ≤ stop)
    (upper : stop < finish) :
    bytesAt data start (finish - start) =
      bytesAt data start (stop - start) ++
        data stop :: bytesAt data (stop + 1) (finish - (stop + 1)) := by
  have total : finish - start = (stop - start) + (1 + (finish - (stop + 1))) := by omega
  have middle : start + (stop - start) = stop := by omega
  rw [total, bytesAt_add, bytesAt_add, middle]
  rfl

/-! ### The loops of `_rdline` -/

/-- The first loop stops right behind the first newline. -/
theorem lineEnd_eq {data : Nat → UInt8} {left offset stop : Nat} (lower : offset ≤ stop)
    (upper : stop < offset + left) (found : data stop = newline)
    (first : ∀ index, offset ≤ index → index < stop → data index ≠ newline) :
    lineEnd data left offset = stop + 1 := by
  induction left generalizing offset with
  | zero => omega
  | succ left inductionHypothesis =>
      unfold lineEnd
      rcases Nat.eq_or_lt_of_le lower with here | later
      · rw [here, if_pos found]
      · rw [if_neg (first offset (Nat.le_refl offset) later)]
        apply inductionHypothesis later (by omega)
        intro index behind before
        exact first index (by omega) before

/-- The second loop stays where there is no NUL. -/
theorem skipNul_eq {data : Nat → UInt8} {start : Nat} (left : Nat) (noNul : data start ≠ 0) :
    skipNul data left start = start := by
  cases left with
  | zero => rfl
  | succ left => rw [skipNul, if_neg noNul]

/-- The first newline of a buffer with complete lines. -/
theorem Buffer.Ready.first_newline {buffer : Buffer} (ready : buffer.Ready) :
    ∃ stop, buffer.offset ≤ stop ∧ stop < buffer.rsize ∧ buffer.data stop = newline ∧
      ∀ index, buffer.offset ≤ index → index < stop → buffer.data index ≠ newline := by
  obtain ⟨inside, last⟩ := ready
  have present : ∃ stop, buffer.offset ≤ stop ∧ buffer.data stop = newline :=
    ⟨buffer.rsize - 1, by omega, last⟩
  have found := Nat.find_spec present
  have lowest : Nat.find present ≤ buffer.rsize - 1 := Nat.find_min' present ⟨by omega, last⟩
  refine ⟨Nat.find present, found.1, by omega, found.2, ?_⟩
  intro index behind before isNewline
  exact Nat.find_min present before ⟨behind, isNewline⟩

/-- `_rdline` takes the first line off a buffer with complete lines, and leaves it
with complete lines or reset. -/
theorem rdline_ready {buffer : Buffer} (ready : buffer.Ready)
    (noNul : ∀ body, newline ∉ body → body ++ [newline] <+: buffer.unread → 0 ∉ body) :
    IsLine (rdline buffer).1 ∧
      buffer.unread = (rdline buffer).1 ++ (rdline buffer).2.unread ∧
      ((rdline buffer).2.Idle ∨ (rdline buffer).2.Ready) := by
  obtain ⟨stop, lower, upper, found, first⟩ := ready.first_newline
  have split := bytesAt_split buffer.data lower upper
  rw [found] at split
  have plain : newline ∉ bytesAt buffer.data buffer.offset (stop - buffer.offset) := by
    intro member
    obtain ⟨index, before, isNewline⟩ := mem_bytesAt.mp member
    exact first (buffer.offset + index) (by omega) (by omega) isNewline
  have clean := noNul _ plain ⟨_, by rw [List.append_assoc]; exact split.symm⟩
  have started : buffer.data buffer.offset ≠ 0 := by
    rcases Nat.eq_or_lt_of_le lower with here | later
    · rw [here, found]
      decide
    · intro isNul
      exact clean (mem_bytesAt.mpr ⟨0, by omega, isNul⟩)
  have ended : lineEnd buffer.data (buffer.rsize - buffer.offset) buffer.offset = stop + 1 :=
    lineEnd_eq lower (by omega) found first
  have taken : (rdline buffer).1 =
      bytesAt buffer.data buffer.offset (stop - buffer.offset) ++ [newline] := by
    have split := bytesAt_split buffer.data lower (Nat.lt_succ_self stop)
    rw [found, Nat.sub_self] at split
    simp only [rdline, ended, skipNul_eq _ started]
    exact split
  refine ⟨⟨_, plain, taken⟩, ?_⟩
  rw [taken, List.append_assoc]
  by_cases last : stop + 1 = buffer.rsize
  · have reset : (rdline buffer).2 = { buffer with offset := 0, rsize := 0 } := by
      simp only [rdline, ended, if_pos last]
    rw [reset]
    refine ⟨?_, Or.inl ⟨rfl, rfl⟩⟩
    rw [Buffer.unread, split, ← last, Nat.sub_self]
    rfl
  · have moved : (rdline buffer).2 = { buffer with offset := stop + 1 } := by
      simp only [rdline, ended, if_neg last]
    rw [moved]
    exact ⟨split, Or.inr ⟨Nat.lt_of_le_of_ne upper last, ready.2⟩⟩

/-! ### The loop of `_rdawait` -/

theorem lastLine_le (data : Nat → UInt8) (size : Nat) : lastLine data size ≤ size := by
  induction size with
  | zero => exact Nat.le_refl 0
  | succ size inductionHypothesis =>
      unfold lastLine
      split
      · exact Nat.le_refl _
      · exact Nat.le_succ_of_le inductionHypothesis

/-- What is kept of a read ends in a newline. -/
theorem lastLine_ends {data : Nat → UInt8} {size : Nat} (kept : 0 < lastLine data size) :
    data (lastLine data size - 1) = newline := by
  induction size with
  | zero => cases kept
  | succ size inductionHypothesis =>
      unfold lastLine at kept ⊢
      split
      case isTrue isNewline => exact isNewline
      case isFalse other =>
        rw [if_neg other] at kept
        exact inductionHypothesis kept

/-- Nothing is kept of a read without a newline, and of no other. -/
theorem lastLine_eq_zero {data : Nat → UInt8} {size : Nat} :
    lastLine data size = 0 ↔ ∀ index < size, data index ≠ newline := by
  induction size with
  | zero => simp [lastLine]
  | succ size inductionHypothesis =>
      unfold lastLine
      by_cases isNewline : data size = newline
      · simp only [isNewline, ↓reduceIte, Nat.add_eq_zero_iff, Nat.one_ne_zero, and_false,
          false_iff]
        intro none
        exact none size (Nat.lt_succ_self size) isNewline
      · rw [if_neg isNewline, inductionHypothesis]
        constructor
        · intro none index before
          rcases Nat.lt_succ_iff_lt_or_eq.mp before with earlier | here
          · exact none index earlier
          · rw [here]
            exact isNewline
        · intro none index before
          exact none index (Nat.lt_succ_of_lt before)

/-! ### A read into a buffer -/

/-- The size `_rdawait` leaves of a read. -/
def Buffer.keptSize (buffer : Buffer) (bytes : List UInt8) : Nat :=
  lastLine (buffer.fill bytes).data bytes.length

/-- The buffer after `_rdawait` for a read into it. -/
def Buffer.received (buffer : Buffer) (bytes : List UInt8) : Buffer :=
  { buffer.fill bytes with rsize := buffer.keptSize bytes }

theorem Buffer.fill_data (buffer : Buffer) {bytes : List UInt8} {index : Nat}
    (inside : index < bytes.length) : (buffer.fill bytes).data index = bytes[index] := by
  simp [Buffer.fill, inside]

theorem Buffer.bytesAt_fill (buffer : Buffer) {bytes : List UInt8} {count : Nat}
    (inside : count ≤ bytes.length) :
    bytesAt (buffer.fill bytes).data 0 count = bytes.take count := by
  apply List.ext_getElem
  · rw [bytesAt_length, List.length_take, Nat.min_eq_left inside]
  · intro index left right
    rw [bytesAt_length] at left
    simp [bytesAt, buffer.fill_data (Nat.lt_of_lt_of_le left inside)]

theorem Buffer.keptSize_le (buffer : Buffer) (bytes : List UInt8) :
    buffer.keptSize bytes ≤ bytes.length :=
  lastLine_le _ _

theorem Buffer.keptSize_eq_zero (buffer : Buffer) (bytes : List UInt8) :
    buffer.keptSize bytes = 0 ↔ newline ∉ bytes := by
  rw [Buffer.keptSize, lastLine_eq_zero, List.mem_iff_getElem]
  constructor
  · rintro none ⟨index, inside, isNewline⟩
    rw [← buffer.fill_data inside] at isNewline
    exact none index inside isNewline
  · intro none index inside isNewline
    rw [buffer.fill_data inside] at isNewline
    exact none ⟨index, inside, isNewline⟩

/-- A read into an idle buffer leaves it with the complete lines of the read. -/
theorem Buffer.Idle.received_unread {buffer : Buffer} (idle : buffer.Idle) (bytes : List UInt8) :
    (buffer.received bytes).unread = bytes.take (buffer.keptSize bytes) := by
  have start : (buffer.received bytes).offset = 0 := idle.1
  rw [Buffer.unread, start, Nat.sub_zero]
  exact buffer.bytesAt_fill (buffer.keptSize_le bytes)

theorem Buffer.Idle.received_idle {buffer : Buffer} (idle : buffer.Idle) {bytes : List UInt8}
    (none : buffer.keptSize bytes = 0) : (buffer.received bytes).Idle :=
  ⟨idle.1, none⟩

theorem Buffer.Idle.received_ready {buffer : Buffer} (idle : buffer.Idle) {bytes : List UInt8}
    (kept : 0 < buffer.keptSize bytes) : (buffer.received bytes).Ready := by
  constructor
  · change buffer.offset < buffer.keptSize bytes
    rw [idle.1]
    exact kept
  · exact lastLine_ends kept

end FipsIpc.UringGetline
