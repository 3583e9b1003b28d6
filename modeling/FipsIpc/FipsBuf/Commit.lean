import FipsIpc.FipsBuf.ZeroCopy

/-!
Contract: commits against the reservations of one writer.

Owns: runs of `fips_get_write_buffer` and `fips_buf_write` on one segment, with
any number of open reservations and readers that move in between; what a commit
should do, and exactly which commits do it.

`fips_buf_write` compares the new commit offset with the head by a plain `>`.
Both are positions in the ring, so the comparison is right only when both stand
in the same lap, or when more than a whole ring is reserved.

Does not own: the bytes of the lines, and what readers see.
-/

set_option autoImplicit false

namespace FipsIpc.FipsBuf

open FipsIpc.Lib

/-! ### Runs -/

/-- A segment with the number of lines that were reserved and committed since
it was created. -/
structure CommitHistory where
  segment : Segment
  reserved : Nat
  committed : Nat

/-- A call of the writer, or any change of the readers' pointers and of the
data by others. -/
inductive CommitCall where
  | getWriteBuffer (iovcnt : Nat)
  | write (iov : List Iovec)
  | others (readers : Nat → ReaderPointer) (data : Data)

/-- Batches have between one line and all lines but one. -/
def CommitCall.BatchSize (hdr : Header) : CommitCall → Prop
  | .getWriteBuffer iovcnt => 0 < iovcnt ∧ iovcnt < hdr.lineCount
  | .write iov => 0 < iov.length ∧ iov.length < hdr.lineCount
  | .others .. => True

instance (hdr : Header) (call : CommitCall) : Decidable (call.BatchSize hdr) :=
  match call with
  | .getWriteBuffer _ => inferInstanceAs (Decidable (_ ∧ _))
  | .write _ => inferInstanceAs (Decidable (_ ∧ _))
  | .others .. => inferInstanceAs (Decidable True)

namespace CommitHistory

variable (hdr : Header) (state : CommitHistory)

def created (data : Data) : CommitHistory := ⟨.created hdr data, 0, 0⟩

/-- One complete call; a refused reservation leaves everything as it is. -/
def step : CommitCall → Option CommitHistory
  | .getWriteBuffer iovcnt =>
      match fipsGetWriteBuffer hdr state.segment iovcnt with
      | .error _ => some state
      | .ok (_, segment) =>
          some { state with segment := segment, reserved := state.reserved + iovcnt }
  | .write iov =>
      let result := fipsBufWrite hdr state.segment iov
      some { state with
        segment := result.2
        committed :=
          if result.1 = fipsBufSuccess then state.committed + iov.length else state.committed }
  | .others readers data =>
      some { state with segment := { state.segment with readers := readers, data := data } }

/-- Lines reserved and not yet committed. -/
def openLines : Nat := state.reserved - state.committed

/-- The commit of `iov` does what it should: it succeeds when so many lines are
open, and then the open lines that are left lie between the new commit offset
and the head; otherwise it is refused and the commit offset stays. -/
def CommitsRight (iov : List Iovec) : Prop :=
  let result := fipsBufWrite hdr state.segment iov
  if iov.length ≤ state.openLines then
    result.1 = fipsBufSuccess ∧
      result.2.commitOffset = (state.segment.commitOffset + iov.length) % hdr.lineCount ∧
      result.2.headOffset =
        (result.2.commitOffset + (state.openLines - iov.length)) % hdr.lineCount
  else result.1 = fipsBufErrorCorrupted ∧ result.2.commitOffset = state.segment.commitOffset

/-- The end of the commit and the end of the open lines lie in the same lap, or
so many rings more are open as they are laps apart. -/
def WithinLap (count : Nat) : Prop :=
  let commitLap := (state.segment.commitOffset + count) / hdr.lineCount
  let openLap := (state.segment.commitOffset + state.openLines) / hdr.lineCount
  commitLap = openLap ∨ count + (openLap - commitLap) * hdr.lineCount ≤ state.openLines

/-- The condition on a call. -/
def MeetsLap : CommitCall → Prop
  | .write iov => state.WithinLap hdr iov.length
  | _ => True

end CommitHistory

/-! ### Positions in the ring -/

/-- Comparing positions is comparing counts exactly when the laps agree or the
distance is as many rings as there are laps between them. -/
theorem ring_comparison_iff {size offset count room : Nat} (positive : 0 < size)
    (inside : offset < size) (batch : count < size) :
    ((offset + count) % size ≤ (offset + room) % size ↔ count ≤ room) ↔
      (offset + count) / size = (offset + room) / size ∨
        count + ((offset + room) / size - (offset + count) / size) * size ≤ room := by
  have countEnd := Nat.div_add_mod (offset + count) size
  have roomEnd := Nat.div_add_mod (offset + room) size
  have countBelow := Nat.mod_lt (offset + count) positive
  have roomBelow := Nat.mod_lt (offset + room) positive
  rcases Nat.lt_trichotomy ((offset + count) / size) ((offset + room) / size) with
    behind | same | ahead
  · -- the open lines end some laps behind the commit, so they are enough
    have apart : size * ((offset + room) / size) = size * ((offset + count) / size) +
        ((offset + room) / size - (offset + count) / size) * size := by
      rw [Nat.mul_comm _ size, ← Nat.mul_add, Nat.add_sub_of_le (Nat.le_of_lt behind)]
    have lap : size ≤ ((offset + room) / size - (offset + count) / size) * size :=
      Nat.le_mul_of_pos_left size (Nat.sub_pos_of_lt behind)
    constructor
    · intro compares
      have enough : count ≤ room := by omega
      have below := compares.mpr enough
      omega
    · intro condition
      rcases condition with same | rings
      · omega
      · constructor
        · omega
        · omega
  · rw [same] at countEnd
    constructor
    · exact fun _ => Or.inl same
    · intro _
      omega
  · -- only the commit passes the end of the ring
    have twice : (offset + count) / size < 2 := Nat.div_lt_of_lt_mul (by omega)
    have commitLap : (offset + count) / size = 1 :=
      Nat.le_antisymm (Nat.lt_succ_iff.mp twice) (Nat.lt_of_le_of_lt (Nat.zero_le _) ahead)
    have openLap : (offset + room) / size = 0 := by
      rw [commitLap] at ahead
      exact Nat.lt_one_iff.mp ahead
    rw [commitLap] at countEnd
    rw [openLap] at roomEnd
    rw [commitLap, openLap]
    constructor
    · intro compares
      have accepted : (offset + count) % size ≤ (offset + room) % size := by omega
      have enough := compares.mp accepted
      omega
    · intro condition
      omega

/-! ### The invariant -/

/-- The writer's offsets against the counters. -/
structure CommitHistory.Inv (hdr : Header) (state : CommitHistory) : Prop where
  commit : state.segment.commitOffset = state.committed % hdr.lineCount
  head : state.segment.headOffset = state.reserved % hdr.lineCount
  ordered : state.committed ≤ state.reserved

namespace CommitHistory.Inv

variable {hdr : Header} {state : CommitHistory}

theorem created (hdr : Header) (data : Data) : (CommitHistory.created hdr data).Inv hdr :=
  ⟨(Nat.zero_mod _).symm, (Nat.zero_mod _).symm, Nat.le_refl _⟩

/-- The head stands behind the open lines. -/
theorem head_eq (inv : state.Inv hdr) :
    state.segment.headOffset =
      (state.segment.commitOffset + state.openLines) % hdr.lineCount := by
  rw [inv.head, inv.commit, Nat.mod_add_mod, CommitHistory.openLines,
    Nat.add_sub_of_le inv.ordered]

/-- What `fips_buf_write` decides. -/
theorem write_cases (hdr : Header) (segment : Segment) (iov : List Iovec) :
    (segment.headOffset < (segment.commitOffset + iov.length) % hdr.lineCount ∧
      fipsBufWrite hdr segment iov =
        (fipsBufErrorCorrupted, { segment with data := iov.foldl putWidth segment.data })) ∨
    ((segment.commitOffset + iov.length) % hdr.lineCount ≤ segment.headOffset ∧
      fipsBufWrite hdr segment iov =
        (fipsBufSuccess,
          { segment with
            data := iov.foldl putWidth segment.data
            commitOffset := (segment.commitOffset + iov.length) % hdr.lineCount })) := by
  unfold fipsBufWrite
  dsimp only
  rw [hdr.wrapLine_eq_mod]
  split
  case isTrue refused => exact Or.inl ⟨refused, rfl⟩
  case isFalse accepted => exact Or.inr ⟨Nat.le_of_not_lt accepted, rfl⟩

/-- A commit does what it should exactly when the comparison of positions
agrees with the comparison of counts. -/
theorem commitsRight_iff_comparison (inv : state.Inv hdr) (iov : List Iovec) :
    state.CommitsRight hdr iov ↔
      ((state.segment.commitOffset + iov.length) % hdr.lineCount ≤
          (state.segment.commitOffset + state.openLines) % hdr.lineCount ↔
        iov.length ≤ state.openLines) := by
  have codes : fipsBufErrorCorrupted ≠ fipsBufSuccess := by decide
  rw [← inv.head_eq]
  unfold CommitHistory.CommitsRight
  dsimp only
  rcases write_cases hdr state.segment iov with ⟨above, result⟩ | ⟨below, result⟩
  · rw [result]
    split
    case isTrue enough =>
      constructor
      · intro right
        exact absurd right.1 codes
      · intro compares
        exact absurd (compares.mpr enough) (Nat.not_le_of_lt above)
    case isFalse tooMany =>
      constructor
      · intro _
        exact ⟨fun below => absurd below (Nat.not_le_of_lt above),
          fun enough => absurd enough tooMany⟩
      · intro _
        exact ⟨rfl, rfl⟩
  · rw [result]
    split
    case isTrue enough =>
      constructor
      · intro _
        exact ⟨fun _ => enough, fun _ => below⟩
      · intro _
        have left : (state.segment.commitOffset + iov.length) % hdr.lineCount +
            (state.openLines - iov.length) ≡
              state.segment.commitOffset + state.openLines [MOD hdr.lineCount] := by
          have split : state.segment.commitOffset + state.openLines =
              state.segment.commitOffset + iov.length + (state.openLines - iov.length) := by
            omega
          rw [split]
          exact (Nat.mod_modEq _ _).add_right _
        refine ⟨rfl, rfl, ?_⟩
        exact inv.head_eq.trans left.symm
    case isFalse tooMany =>
      constructor
      · intro right
        exact absurd right.1.symm codes
      · intro compares
        exact absurd (compares.mp below) tooMany

/-- Which commits do what they should. -/
theorem commitsRight_iff (inv : state.Inv hdr) {iov : List Iovec}
    (batch : iov.length < hdr.lineCount) :
    state.CommitsRight hdr iov ↔ state.WithinLap hdr iov.length := by
  have inside : state.segment.commitOffset < hdr.lineCount := by
    rw [inv.commit]
    exact Nat.mod_lt _ hdr.lineCount_pos
  rw [inv.commitsRight_iff_comparison]
  exact ring_comparison_iff hdr.lineCount_pos inside batch

theorem getWriteBuffer (inv : state.Inv hdr) {iovcnt : Nat} {next : CommitHistory}
    (taken : state.step hdr (.getWriteBuffer iovcnt) = some next) : next.Inv hdr := by
  simp only [CommitHistory.step, fipsGetWriteBuffer_eq] at taken
  split at taken
  case h_1 =>
    cases taken
    exact inv
  case h_2 granted =>
    split at granted
    case isTrue => cases granted
    case isFalse =>
      cases granted
      cases taken
      refine ⟨inv.commit, ?_, inv.ordered.trans (Nat.le_add_right _ _)⟩
      rw [inv.head]
      exact hdr.wrapLine_mod_add _ _

/-- A commit that meets the condition commits open lines only. -/
theorem write (inv : state.Inv hdr) {iov : List Iovec} (batch : iov.length < hdr.lineCount)
    (withinLap : state.WithinLap hdr iov.length) {next : CommitHistory}
    (taken : state.step hdr (.write iov) = some next) : next.Inv hdr := by
  have codes : fipsBufErrorCorrupted ≠ fipsBufSuccess := by decide
  have compares :=
    (inv.commitsRight_iff_comparison iov).mp ((inv.commitsRight_iff batch).mpr withinLap)
  rw [← inv.head_eq] at compares
  simp only [CommitHistory.step] at taken
  cases taken
  rcases write_cases hdr state.segment iov with ⟨above, result⟩ | ⟨below, result⟩
  · rw [result, if_neg codes]
    exact ⟨inv.commit, inv.head, inv.ordered⟩
  · have enough := compares.mp below
    have ordered := inv.ordered
    unfold CommitHistory.openLines at enough
    rw [result, if_pos rfl]
    refine ⟨?_, inv.head, ?_⟩
    · change (state.segment.commitOffset + iov.length) % hdr.lineCount =
        (state.committed + iov.length) % hdr.lineCount
      rw [inv.commit, Nat.mod_add_mod]
    · change state.committed + iov.length ≤ state.reserved
      omega

theorem step (inv : state.Inv hdr) {call : CommitCall} {next : CommitHistory}
    (batch : call.BatchSize hdr) (meetsLap : state.MeetsLap hdr call)
    (taken : state.step hdr call = some next) : next.Inv hdr := by
  cases call with
  | getWriteBuffer iovcnt => exact inv.getWriteBuffer taken
  | write iov => exact inv.write batch.2 meetsLap taken
  | others readers data =>
      cases taken
      exact ⟨inv.commit, inv.head, inv.ordered⟩

end CommitHistory.Inv

/-- In every state of every run whose commits meet the condition, a commit does
what it should exactly when it meets the condition too. -/
theorem commits_run {hdr : Header} {data : Data} {calls : List CommitCall} {last : CommitHistory}
    (run : Run (CommitHistory.step hdr)
      (fun state call => call.BatchSize hdr ∧ state.MeetsLap hdr call)
      (.created hdr data) calls last)
    {iov : List Iovec} (batch : CommitCall.BatchSize hdr (.write iov)) :
    last.CommitsRight hdr iov ↔ last.WithinLap hdr iov.length := by
  have preserved : ∀ state call next, CommitHistory.Inv hdr state →
      call.BatchSize hdr ∧ state.MeetsLap hdr call → state.step hdr call = some next →
        CommitHistory.Inv hdr next := by
    intro state call next inv allowed taken
    exact inv.step allowed.1 allowed.2 taken
  have inv := run.invariant preserved (.created hdr data)
  exact inv.commitsRight_iff batch.2

/-- The reader has taken and returned the first two lines. -/
def twoReturned : CommitCall :=
  .others (fun _ => ⟨2, 2, ⟨4, 0, 0, none, fun _ => ⟨.zero, none⟩⟩⟩) fun _ => 0

/-- Two lines of a ring of four are committed and returned, then three more
reserved. -/
def reserveAcrossEnd : List CommitCall :=
  [.getWriteBuffer 2, .write [⟨2, 1⟩, ⟨5, 1⟩], twoReturned, .getWriteBuffer 3]

/-- Committing all three of them is right. -/
theorem commits_run_across_end : ∃ last,
    Run (CommitHistory.step oneByteLines)
      (fun state call => call.BatchSize oneByteLines ∧ state.MeetsLap oneByteLines call)
      (.created oneByteLines fun _ => 0) reserveAcrossEnd last ∧
      last.CommitsRight oneByteLines [⟨8, 1⟩, ⟨11, 1⟩, ⟨2, 1⟩] := by
  have run : ∃ last, Run (CommitHistory.step oneByteLines)
      (fun state call => call.BatchSize oneByteLines ∧ state.MeetsLap oneByteLines call)
      (.created oneByteLines fun _ => 0) reserveAcrossEnd last ∧
        last.WithinLap oneByteLines 3 := by
    refine ⟨_, .cons ⟨by decide, trivial⟩ rfl (.cons ⟨by decide, Or.inl (by decide)⟩ rfl
      (.cons ⟨trivial, trivial⟩ rfl (.cons ⟨by decide, trivial⟩ rfl (.nil _)))), ?_⟩
    exact Or.inl (by decide)
  rcases run with ⟨last, run, withinLap⟩
  exact ⟨last, run, (commits_run run (by decide)).mpr withinLap⟩

/-- Committing only the first of them is refused, although it is reserved; and
with nothing reserved a commit of three lines passes. -/
theorem commits_fail_across_end :
    (∃ last, Run (CommitHistory.step oneByteLines) (fun _ call => call.BatchSize oneByteLines)
        (.created oneByteLines fun _ => 0) reserveAcrossEnd last ∧
      last.openLines = 3 ∧
      (fipsBufWrite oneByteLines last.segment [⟨8, 1⟩]).1 = fipsBufErrorCorrupted ∧
      ¬last.CommitsRight oneByteLines [⟨8, 1⟩]) ∧
    ∃ last, Run (CommitHistory.step oneByteLines) (fun _ call => call.BatchSize oneByteLines)
        (.created oneByteLines fun _ => 0) [.getWriteBuffer 1, .write [⟨2, 1⟩]] last ∧
      last.openLines = 0 ∧
      (fipsBufWrite oneByteLines last.segment [⟨5, 1⟩, ⟨8, 1⟩, ⟨11, 1⟩]).1 = fipsBufSuccess ∧
      ¬last.CommitsRight oneByteLines [⟨5, 1⟩, ⟨8, 1⟩, ⟨11, 1⟩] := by
  constructor
  · refine ⟨_, .cons (by decide) rfl (.cons (by decide) rfl (.cons trivial rfl
      (.cons (by decide) rfl (.nil _)))), by decide, by decide, ?_⟩
    intro right
    exact absurd right.1 (by decide)
  · refine ⟨_, .cons (by decide) rfl (.cons (by decide) rfl (.nil _)), by decide, by decide, ?_⟩
    intro right
    exact absurd right.1 (by decide)

end FipsIpc.FipsBuf
