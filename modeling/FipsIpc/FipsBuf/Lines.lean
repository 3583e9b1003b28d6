import FipsIpc.Lib.RingLog
import FipsIpc.FipsBuf.Buffer

/-!
Contract: lines of a zero-copy segment, and the index tests of its data path.

Owns: what storing a byte or a width does to the lines of a segment whose data
area is below 4 GiB, and the meaning of the writer's and the readers' index
comparisons for unwrapped line counters.

A slot is a two-byte width followed by `line_size` bytes; distinct slots lie in
distinct cells of `line_size + 2` bytes as long as neither that sum nor the size
of the data area wraps at 32 bits.

Does not own: runs.
-/

set_option autoImplicit false

namespace FipsIpc.FipsBuf

open FipsIpc.Lib.RingLog

/-! ### Index tests -/

section IndexTests

variable {size low high count : Nat}

/-- Advancing a ring position by less than a lap wraps at most once. -/
theorem mod_add_cases (low : Nat) (positive : 0 < size) (inside : count < size) :
    (low % size + count < size ∧ (low + count) % size = low % size + count) ∨
      (size ≤ low % size + count ∧ (low + count) % size = low % size + count - size) := by
  have below := Nat.mod_lt low positive
  rw [← Nat.mod_add_mod]
  rcases Nat.lt_or_ge (low % size + count) size with straight | wraps
  · exact Or.inl ⟨straight, Nat.mod_eq_of_lt straight⟩
  · refine Or.inr ⟨wraps, ?_⟩
    rw [Nat.mod_eq_sub_mod wraps, Nat.mod_eq_of_lt (by omega)]

/-- The writer's comparison refuses exactly the reservations that would reach
the reader's committed position from behind. -/
theorem overtakes_iff (ordered : low ≤ high) (withinLap : high < low + size)
    (nonempty : 1 ≤ count) (inside : count < size) :
    Overtakes (high % size) ((high + count) % size) (low % size) ↔ low + size ≤ high + count := by
  have positive : 0 < size := by omega
  have lowBelow := Nat.mod_lt low positive
  have highCases := mod_add_cases low positive (by omega : high - low < size)
  have nextCases := mod_add_cases high positive inside
  rw [Nat.add_sub_cancel' ordered] at highCases
  unfold Overtakes
  omega

/-- The reader's comparison reports exactly the segments with too few committed
lines. -/
theorem notReady_iff (ordered : low ≤ high) (withinLap : high < low + size)
    (nonempty : 1 ≤ count) (inside : count < size) :
    NotReady (low % size) ((low + count) % size) (high % size) ↔ high < low + count := by
  have positive : 0 < size := by omega
  have lowBelow := Nat.mod_lt low positive
  have highCases := mod_add_cases low positive (by omega : high - low < size)
  have nextCases := mod_add_cases low positive inside
  rw [Nat.add_sub_cancel' ordered] at highCases
  unfold NotReady
  omega

end IndexTests

/-! ### Slots -/

/-- The data area is below 4 GiB, so that `setup_shm` and
`calculate_shared_memory_size` compute its size without wrapping. -/
def Header.Fits (hdr : Header) : Prop := hdr.lineCount * (hdr.lineSize + 2) < 2 ^ 32

instance (hdr : Header) : Decidable hdr.Fits := inferInstanceAs (Decidable (_ < _))

/-- The line a reader finds in a slot. -/
def slotLine (hdr : Header) (data : Data) (slot : Nat) : List UInt8 :=
  Iovec.bytes data ⟨slotBase hdr slot, lineWidth data (slotBase hdr slot)⟩

section Slots

variable {hdr : Header} {data : Data}

theorem slotBase_of_lt (narrow : hdr.lineSize + 2 < 2 ^ 32) (slot : Nat) :
    slotBase hdr slot = slot * (hdr.lineSize + 2) + 2 := by
  rw [slotBase, Nat.mod_eq_of_lt narrow, Nat.mul_comm]

theorem Header.Fits.narrow (fits : hdr.Fits) : hdr.lineSize + 2 < 2 ^ 32 :=
  Nat.lt_of_le_of_lt (Nat.le_mul_of_pos_left _ hdr.lineCount_pos) fits

theorem slotBase_eq (fits : hdr.Fits) (slot : Nat) :
    slotBase hdr slot = slot * (hdr.lineSize + 2) + 2 :=
  slotBase_of_lt fits.narrow slot

theorem slotBase_inj (fits : hdr.Fits) {left right : Nat}
    (same : slotBase hdr left = slotBase hdr right) : left = right := by
  rw [slotBase_eq fits, slotBase_eq fits] at same
  exact Nat.eq_of_mul_eq_mul_right (by omega) (Nat.add_right_cancel same)

/-- Distinct lines are apart, with the width of the later one in between. -/
theorem slotBase_apart_of_lt (narrow : hdr.lineSize + 2 < 2 ^ 32) {left right : Nat}
    (different : left ≠ right) :
    slotBase hdr left + hdr.lineSize + 2 ≤ slotBase hdr right ∨
      slotBase hdr right + hdr.lineSize + 2 ≤ slotBase hdr left := by
  have disjoint : left * (hdr.lineSize + 2) + (hdr.lineSize + 2) ≤ right * (hdr.lineSize + 2) ∨
      right * (hdr.lineSize + 2) + (hdr.lineSize + 2) ≤ left * (hdr.lineSize + 2) :=
    cells_disjoint different
  rw [slotBase_of_lt narrow, slotBase_of_lt narrow]
  omega

theorem slotBase_apart (fits : hdr.Fits) {left right : Nat} (different : left ≠ right) :
    slotBase hdr left + hdr.lineSize + 2 ≤ slotBase hdr right ∨
      slotBase hdr right + hdr.lineSize + 2 ≤ slotBase hdr left :=
  slotBase_apart_of_lt fits.narrow different

theorem length_slotLine (slot : Nat) :
    (slotLine hdr data slot).length = lineWidth data (slotBase hdr slot) := by
  simp [slotLine, Iovec.bytes]

/-- A line no longer than its slot depends only on the bytes of the slot. -/
theorem slotLine_congr {other : Data} {slot : Nat} (fits : hdr.Fits)
    (short : (slotLine hdr data slot).length ≤ hdr.lineSize)
    (unchanged : ∀ address, slot * (hdr.lineSize + 2) ≤ address →
      address < slot * (hdr.lineSize + 2) + (hdr.lineSize + 2) → other address = data address) :
    slotLine hdr other slot = slotLine hdr data slot := by
  rw [length_slotLine] at short
  have base := slotBase_eq fits slot
  have width : lineWidth other (slotBase hdr slot) = lineWidth data (slotBase hdr slot) := by
    unfold lineWidth
    rw [unchanged _ (by omega) (by omega), unchanged _ (by omega) (by omega)]
  unfold slotLine Iovec.bytes
  dsimp only
  rw [width]
  apply List.map_congr_left
  intro offset member
  have inside := List.mem_range.mp member
  exact unchanged _ (by omega) (by omega)

/-- An address belongs to one slot only. -/
theorem slot_of_address {left right address : Nat}
    (inLeft : left * (hdr.lineSize + 2) ≤ address ∧
      address < left * (hdr.lineSize + 2) + (hdr.lineSize + 2))
    (inRight : right * (hdr.lineSize + 2) ≤ address ∧
      address < right * (hdr.lineSize + 2) + (hdr.lineSize + 2)) : left = right := by
  by_contra different
  have disjoint : left * (hdr.lineSize + 2) + (hdr.lineSize + 2) ≤ right * (hdr.lineSize + 2) ∨
      right * (hdr.lineSize + 2) + (hdr.lineSize + 2) ≤ left * (hdr.lineSize + 2) :=
    cells_disjoint different
  omega

/-! ### Widths -/

theorem lineWidth_putWidth {iovec : Iovec} (width : 2 ≤ iovec.base) (narrow : iovec.len < 2 ^ 16) :
    lineWidth (putWidth data iovec) iovec.base = iovec.len := by
  have different : iovec.base - 2 ≠ iovec.base - 1 := by omega
  unfold lineWidth putWidth
  rw [Function.update_of_ne different, Function.update_self, Function.update_self,
    UInt8.toNat_ofNat', UInt8.toNat_ofNat']
  omega

theorem putWidth_of_ne {iovec : Iovec} {address : Nat} (notLow : address ≠ iovec.base - 2)
    (notHigh : address ≠ iovec.base - 1) : putWidth data iovec address = data address := by
  unfold putWidth
  rw [Function.update_of_ne notHigh, Function.update_of_ne notLow]

/-- Storing widths changes only the widths of the given slots. -/
theorem foldl_putWidth_of_ne {iov : List Iovec} {address : Nat}
    (outside : ∀ iovec ∈ iov, address ≠ iovec.base - 2 ∧ address ≠ iovec.base - 1) :
    iov.foldl putWidth data address = data address := by
  induction iov generalizing data with
  | nil => rfl
  | cons iovec rest inductionHypothesis =>
      obtain ⟨notLow, notHigh⟩ := outside iovec (by simp)
      rw [List.foldl_cons, inductionHypothesis fun other member => outside other (by simp [member]),
        putWidth_of_ne notLow notHigh]

/-- After the widths of distinct slots were stored every one is in place. -/
theorem lineWidth_foldl_putWidth {iov : List Iovec} {iovec : Iovec} (member : iovec ∈ iov)
    (bases : (iov.map Iovec.base).Pairwise fun left right => left + 2 ≤ right ∨ right + 2 ≤ left)
    (widths : ∀ iovec ∈ iov, 2 ≤ iovec.base ∧ iovec.len < 2 ^ 16) :
    lineWidth (iov.foldl putWidth data) iovec.base = iovec.len := by
  induction iov generalizing data with
  | nil => simp at member
  | cons head rest inductionHypothesis =>
      rw [List.map_cons, List.pairwise_cons] at bases
      obtain ⟨apart, restApart⟩ := bases
      have restWidths : ∀ iovec ∈ rest, 2 ≤ iovec.base ∧ iovec.len < 2 ^ 16 :=
        fun other later => widths other (by simp [later])
      rw [List.foldl_cons]
      rcases List.mem_cons.mp member with rfl | later
      · obtain ⟨width, narrow⟩ := widths iovec (by simp)
        have untouched : ∀ address, address = iovec.base - 2 ∨ address = iovec.base - 1 →
            ∀ other ∈ rest, address ≠ other.base - 2 ∧ address ≠ other.base - 1 := by
          intro address isWidth other otherMember
          have separate := apart other.base (List.mem_map_of_mem otherMember)
          have otherWidth := (restWidths other otherMember).1
          omega
        have kept : lineWidth (rest.foldl putWidth (putWidth data iovec)) iovec.base =
            lineWidth (putWidth data iovec) iovec.base := by
          unfold lineWidth
          rw [foldl_putWidth_of_ne (untouched _ (Or.inl rfl)),
            foldl_putWidth_of_ne (untouched _ (Or.inr rfl))]
        rw [kept, lineWidth_putWidth width narrow]
      · exact inductionHypothesis later restApart restWidths

end Slots

end FipsIpc.FipsBuf
