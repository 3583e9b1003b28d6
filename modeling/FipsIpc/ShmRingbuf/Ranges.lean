import FipsIpc.Lib.Circle
import FipsIpc.ShmRingbuf.Fifo
import Mathlib.Data.List.Infix

/-!
Contract: reading one line from a range of segments.

Owns: the two cursors a thread keeps between its calls, `shmrbuf_read_rng`, which
segments a call tries to read, and the calls that stay in their range.

The cursors are `uint8_t` values.  A call is complete, and between two calls of
a thread the segments may change in any way.  `probed` records the segment ids
passed to `shmrbuf_read`.

Does not own: `shmrbuf_readv_rng`, which has cursors of its own.
-/

set_option autoImplicit false

namespace FipsIpc.ShmRingbuf

open FipsIpc.Lib

/-! ### Cursors -/

/-- `segment_index++`. -/
def indexNext (segmentId : Nat) : Nat := (segmentId + 1) % 2 ^ 8

/-- The correction of `segment_index` before it is used. -/
def ownCursor (lower upper segmentIndex : Nat) : Nat :=
  if segmentIndex = upper then lower
  else if segmentIndex < lower then lower
  else segmentIndex

/-- The correction of `steal_index`, which jumps over the own range. -/
def stealCursor (segmentCount lower upper stealIndex : Nat) : Nat :=
  if stealIndex = lower then if upper = segmentCount then 0 else upper
  else if stealIndex = segmentCount then if lower = 0 then upper else 0
  else stealIndex

/-- The statics of a thread. -/
structure Cursors where
  segmentIndex : Nat
  stealIndex : Nat
deriving DecidableEq, Repr

def Cursors.start : Cursors := ⟨0, 0⟩

/-! ### `shmrbuf_read_rng` -/

/-- What a loop leaves: the answer that ended it, if one did. -/
structure Probing where
  ended : Option (Nat × ReadResult)
  probed : List Nat
  index : Nat

/-- A loop over segments up to the first answer that is not 0. -/
def probeSegments (cursor : Nat → Nat) (read : Nat → ReadResult) : (tries index : Nat) → Probing
  | 0, index => ⟨none, [], index⟩
  | tries + 1, index =>
      let segmentId := cursor index
      let result := read segmentId
      if result.code ≠ 0 then ⟨some (segmentId, result), [segmentId], indexNext segmentId⟩
      else
        let later := probeSegments cursor read tries (indexNext segmentId)
        { later with probed := segmentId :: later.probed }

structure RngResult where
  code : Int
  lines : List (List UInt8)
  segments : Nat → Segment
  wsteal : Option Bool
  probed : List Nat
  cursors : Cursors

/-- `shmrbuf_read_rng`; `wsteal` is what the pointer points to, if it is not NULL. -/
def shmrbufReadRng (hdr : GlobalHdr) (segments : Nat → Segment) (reader bufsize lower upper : Nat)
    (wsteal : Option Bool) (cursors : Cursors) : RngResult :=
  if lower > upper ∨ upper > hdr.segmentCount then
    ⟨ioIpcArgErr, [], segments, wsteal, [], cursors⟩
  else
    let read := fun segmentId => shmrbufRead hdr segmentId (segments segmentId) reader bufsize
    let rng := upper - lower
    let own := probeSegments (ownCursor lower upper) read rng cursors.segmentIndex
    let cursors := { cursors with segmentIndex := own.index }
    match own.ended, wsteal with
    | some (segmentId, result), _ =>
        ⟨result.code, result.lines, Function.update segments segmentId result.segment, wsteal,
          own.probed, cursors⟩
    | none, none => ⟨0, [], segments, none, own.probed, cursors⟩
    | none, some held =>
        let stolen := probeSegments (stealCursor hdr.segmentCount lower upper) read
          (hdr.segmentCount - rng) cursors.stealIndex
        let cursors := { cursors with stealIndex := stolen.index }
        match stolen.ended with
        | none => ⟨0, [], segments, some held, own.probed ++ stolen.probed, cursors⟩
        | some (segmentId, result) =>
            ⟨result.code, result.lines, Function.update segments segmentId result.segment,
              some (held || decide (result.code > 0)), own.probed ++ stolen.probed, cursors⟩

/-! ### The segments a loop visits -/

section Loops

variable (cursor : Nat → Nat) (read : Nat → ReadResult)

theorem probed_isPrefix (tries index : Nat) :
    (probeSegments cursor read tries index).probed <+: visits cursor indexNext tries index := by
  induction tries generalizing index with
  | zero => exact List.prefix_rfl
  | succ tries inductionHypothesis =>
      rw [probeSegments, visits]
      dsimp only
      split
      · exact List.prefix_cons_iff.mpr (Or.inr ⟨[], rfl, List.nil_prefix⟩)
      · exact List.prefix_cons_iff.mpr (Or.inr ⟨_, rfl, inductionHypothesis _⟩)

/-- A loop that came to its end had 0 for an answer everywhere. -/
theorem probeSegments_ended {tries index : Nat} :
    (probeSegments cursor read tries index).ended = none ↔
      ∀ segmentId ∈ visits cursor indexNext tries index, (read segmentId).code = 0 := by
  induction tries generalizing index with
  | zero => simp [probeSegments, visits]
  | succ tries inductionHypothesis =>
      rw [probeSegments, visits, List.forall_mem_cons]
      dsimp only
      split
      case isTrue answered => simp [answered]
      case isFalse silent =>
        rw [inductionHypothesis]
        simp only [ne_eq, Decidable.not_not] at silent
        simp [silent]

theorem probeSegments_code {tries index segmentId : Nat} {result : ReadResult}
    (ended : (probeSegments cursor read tries index).ended = some (segmentId, result)) :
    result.code ≠ 0 := by
  induction tries generalizing index with
  | zero => cases ended
  | succ tries inductionHypothesis =>
      rw [probeSegments] at ended
      dsimp only at ended
      split at ended
      case isTrue answered =>
        cases ended
        exact answered
      case isFalse => exact inductionHypothesis ended

/-- A loop leaves its cursor where it was or behind a segment it has visited. -/
theorem probeSegments_index {tries index : Nat} :
    (probeSegments cursor read tries index).index = index ∨
      ∃ segmentId ∈ visits cursor indexNext tries index,
        (probeSegments cursor read tries index).index = indexNext segmentId := by
  induction tries generalizing index with
  | zero => exact Or.inl rfl
  | succ tries inductionHypothesis =>
      refine Or.inr ?_
      rw [probeSegments, visits]
      dsimp only
      split
      · exact ⟨_, List.mem_cons_self, rfl⟩
      · rcases @inductionHypothesis (indexNext (cursor index)) with same | ⟨last, visited, behind⟩
        · exact ⟨_, List.mem_cons_self, same⟩
        · exact ⟨last, List.mem_cons_of_mem _ visited, behind⟩

end Loops

theorem shmrbufRead_code_eq_zero_iff {hdr : GlobalHdr} {segmentId : Nat}
    (inside : segmentId < hdr.segmentCount) (segment : Segment) (reader bufsize : Nat) :
    (shmrbufRead hdr segmentId segment reader bufsize).code = 0 ↔
      bufsize = 0 ∨ segment.writeIndex = segment.readIndex reader := by
  have lineSize := hdr.lineSize_pos
  unfold shmrbufRead
  rw [if_neg (Nat.not_le_of_lt inside)]
  by_cases nothing : bufsize = 0
  · simp [nothing]
  · by_cases empty : segment.writeIndex = segment.readIndex reader
    · simp [nothing, empty]
    · simp [nothing, empty]
      omega

/-! ### The own range -/

/-- The segments of a range. -/
def ownOrder (lower upper : Nat) : List Nat := List.range' lower (upper - lower)

theorem ownOrder_length {lower upper : Nat} : (ownOrder lower upper).length = upper - lower :=
  List.length_range'

theorem mem_ownOrder {lower upper segmentId : Nat} :
    segmentId ∈ ownOrder lower upper ↔ lower ≤ segmentId ∧ segmentId < upper := by
  unfold ownOrder
  rw [List.mem_range'_1]
  omega

theorem indexNext_eq {segmentId bound : Nat} (inside : segmentId < bound) (small : bound < 2 ^ 8) :
    indexNext segmentId = segmentId + 1 :=
  Nat.mod_eq_of_lt (by omega)

theorem ownCursor_circles {lower upper : Nat} (small : upper < 2 ^ 8) :
    Circles (fun segmentId => ownCursor lower upper (indexNext segmentId))
      (ownOrder lower upper) := by
  intro position entry found
  unfold ownOrder at found ⊢
  rw [List.length_range']
  obtain ⟨inside, value⟩ := List.getElem?_eq_some_iff.mp found
  rw [List.length_range'] at inside
  rw [List.getElem_range'] at value
  have next : indexNext entry = entry + 1 :=
    indexNext_eq (show entry < upper by omega) small
  dsimp only
  rw [next, ownCursor]
  by_cases last : position + 1 = upper - lower
  · rw [last, Nat.mod_self, List.getElem?_range' (by omega), if_pos (by omega)]
    simp
  · rw [Nat.mod_eq_of_lt (by omega), List.getElem?_range' (by omega), if_neg (by omega),
      if_neg (by omega)]
    congr 1
    omega

/-- A cursor up to the end of the range is corrected into it. -/
theorem ownCursor_mem {lower upper segmentIndex : Nat} (nonempty : lower < upper)
    (early : segmentIndex ≤ upper) :
    ownCursor lower upper segmentIndex ∈ ownOrder lower upper := by
  rw [mem_ownOrder, ownCursor]
  split
  · omega
  · split
    · omega
    · omega

/-- The own loop visits every segment of the range once. -/
theorem visits_ownCursor_perm {lower upper segmentIndex : Nat} (small : upper < 2 ^ 8)
    (early : segmentIndex ≤ upper) :
    (visits (ownCursor lower upper) indexNext (upper - lower) segmentIndex).Perm
      (ownOrder lower upper) := by
  have rests : Rests (ownCursor lower upper) (ownOrder lower upper) segmentIndex := by
    intro some
    have nonempty := List.length_pos_iff.mpr some
    rw [ownOrder_length] at nonempty
    exact ownCursor_mem (by omega) early
  have whole := visits_perm (ownCursor_circles small) rests
  rw [ownOrder_length] at whole
  exact whole

/-! ### Staying in the range -/

/-- A call without stealing, for a valid range; `segments` is what it finds. -/
structure RngCall (hdr : GlobalHdr) where
  segments : Nat → Segment
  reader : Nat
  bufsize : Nat
  lower : Nat
  upper : Nat
  lower_le : lower ≤ upper
  upper_le : upper ≤ hdr.segmentCount

namespace RngCall

variable {hdr : GlobalHdr} (call : RngCall hdr) (cursors : Cursors)

def result : RngResult :=
  shmrbufReadRng hdr call.segments call.reader call.bufsize call.lower call.upper none cursors

/-- Nothing to read in the range. -/
def Empty : Prop :=
  ∀ segmentId, call.lower ≤ segmentId → segmentId < call.upper →
    (call.segments segmentId).writeIndex = (call.segments segmentId).readIndex call.reader

/-- The call reads only from its range, and returns 0 only if it is empty. -/
structure StaysInRange : Prop where
  inside : ∀ segmentId ∈ (call.result cursors).probed,
    call.lower ≤ segmentId ∧ segmentId < call.upper
  empty : (call.result cursors).code = 0 → call.Empty

/-- The range has no segments, or the cursor is not past its end; and there is a
buffer, or nothing to read. -/
def CursorInRange : Prop :=
  call.lower = call.upper ∨
    (cursors.segmentIndex ≤ call.upper ∧ (call.bufsize ≠ 0 ∨ call.Empty))

/-- The loop of the call. -/
def probing : Probing :=
  probeSegments (ownCursor call.lower call.upper)
    (fun segmentId =>
      shmrbufRead hdr segmentId (call.segments segmentId) call.reader call.bufsize)
    (call.upper - call.lower) cursors.segmentIndex

theorem upper_lt : call.upper < 2 ^ 8 := Nat.lt_of_le_of_lt call.upper_le hdr.segmentCount_lt

theorem result_spec :
    (call.result cursors).probed = (call.probing cursors).probed ∧
      ((call.result cursors).code = 0 ↔ (call.probing cursors).ended = none) ∧
      (call.result cursors).cursors = ⟨(call.probing cursors).index, cursors.stealIndex⟩ := by
  have valid : ¬(call.lower > call.upper ∨ call.upper > hdr.segmentCount) := by
    have lower := call.lower_le
    have upper := call.upper_le
    omega
  unfold result shmrbufReadRng
  rw [if_neg valid]
  dsimp only
  have same : probeSegments (ownCursor call.lower call.upper)
      (fun segmentId =>
        shmrbufRead hdr segmentId (call.segments segmentId) call.reader call.bufsize)
      (call.upper - call.lower) cursors.segmentIndex = call.probing cursors := rfl
  rw [same]
  cases ended : (call.probing cursors).ended with
  | none => simp
  | some answer =>
      have code := probeSegments_code _ _ ended
      simp [code]

variable {call cursors}

/-- The answers of the range are all 0 exactly if there is no buffer or nothing to read. -/
theorem ended_iff (early : cursors.segmentIndex ≤ call.upper) :
    (call.probing cursors).ended = none ↔
      call.lower = call.upper ∨ call.bufsize = 0 ∨ call.Empty := by
  have whole := @visits_ownCursor_perm call.lower call.upper cursors.segmentIndex
    call.upper_lt early
  have segment {segmentId : Nat} (below : segmentId < call.upper) :=
    shmrbufRead_code_eq_zero_iff (Nat.lt_of_lt_of_le below call.upper_le)
      (call.segments segmentId) call.reader call.bufsize
  unfold probing
  rw [probeSegments_ended]
  constructor
  · intro silent
    by_cases nothing : call.bufsize = 0
    · exact Or.inr (Or.inl nothing)
    · refine Or.inr (Or.inr fun segmentId above below => ?_)
      have visited := whole.mem_iff.mpr (mem_ownOrder.mpr ⟨above, below⟩)
      exact ((segment below).mp (silent segmentId visited)).resolve_left nothing
  · intro cause segmentId visited
    obtain ⟨above, below⟩ := mem_ownOrder.mp (whole.mem_iff.mp visited)
    rw [segment below]
    rcases cause with noSegments | nothing | empty
    · omega
    · exact Or.inl nothing
    · exact Or.inr (empty segmentId above below)

/-- One call stays in its range exactly if the cursor it finds is not past the end. -/
theorem staysInRange_iff : call.StaysInRange cursors ↔ call.CursorInRange cursors := by
  obtain ⟨probed, code, _⟩ := call.result_spec cursors
  constructor
  · intro stays
    by_cases noSegments : call.lower = call.upper
    · exact Or.inl noSegments
    · have lower := call.lower_le
      have early : cursors.segmentIndex ≤ call.upper := by
        by_contra late
        -- past the end the cursor is used as it is, whatever the answer
        have used : ownCursor call.lower call.upper cursors.segmentIndex =
            cursors.segmentIndex := by
          unfold ownCursor
          rw [if_neg (by omega), if_neg (by omega)]
        have first : cursors.segmentIndex ∈ (call.probing cursors).probed := by
          obtain ⟨more, tries⟩ : ∃ more, call.upper - call.lower = more + 1 :=
            ⟨call.upper - call.lower - 1, by omega⟩
          unfold probing
          rw [tries, probeSegments, used]
          dsimp only
          split
          · exact List.mem_singleton_self _
          · exact List.mem_cons_self
        have inside := stays.inside cursors.segmentIndex (probed ▸ first)
        omega
      refine Or.inr ⟨early, ?_⟩
      by_cases nothing : call.bufsize = 0
      · exact Or.inr (stays.empty (code.mpr ((ended_iff early).mpr (Or.inr (Or.inl nothing)))))
      · exact Or.inl nothing
  · intro inRange
    rcases inRange with noSegments | ⟨early, readable⟩
    · refine ⟨fun segmentId member => ?_, fun _ segmentId above below => ?_⟩
      · have none : call.upper - call.lower = 0 := by omega
        rw [probed, probing, none] at member
        cases member
      · omega
    · refine ⟨fun segmentId member => ?_, fun silent => ?_⟩
      · rw [probed] at member
        have visited := (probed_isPrefix _ _ _ _).subset member
        exact mem_ownOrder.mp ((visits_ownCursor_perm call.upper_lt early).mem_iff.mp visited)
      · rcases (ended_iff early).mp (code.mp silent) with noSegments | nothing | empty
        · intro segmentId above below
          omega
        · exact readable.resolve_left (not_not_intro nothing)
        · exact empty

/-- A call that finds the cursor in its range leaves it there. -/
theorem result_index_le (early : cursors.segmentIndex ≤ call.upper) :
    (call.result cursors).cursors.segmentIndex ≤ call.upper := by
  rw [(call.result_spec cursors).2.2]
  rcases probeSegments_index (ownCursor call.lower call.upper) _ with same | ⟨last, visited, behind⟩
  · exact Nat.le_trans (Nat.le_of_eq same) early
  · have below := (mem_ownOrder.mp
      ((visits_ownCursor_perm call.upper_lt early).mem_iff.mp visited)).2
    have next := indexNext_eq below call.upper_lt
    exact Nat.le_trans (Nat.le_of_eq (behind.trans next)) below

end RngCall

/-! ### Sequences of calls -/

/-- The calls of a thread, each with the cursors it finds. -/
def rngCalls {hdr : GlobalHdr} :
    (cursors : Cursors) → List (RngCall hdr) → List (RngCall hdr × Cursors)
  | _, [] => []
  | cursors, call :: later => (call, cursors) :: rngCalls (call.result cursors).cursors later

/-- In every sequence of calls of a thread, all of them stay in their ranges exactly if
none finds the cursor past the end of its range. -/
theorem readRng_stays_iff {hdr : GlobalHdr} (calls : List (RngCall hdr)) :
    (∀ made ∈ rngCalls .start calls, made.1.StaysInRange made.2) ↔
      ∀ made ∈ rngCalls .start calls, made.1.CursorInRange made.2 := by
  constructor
  · intro stays made member
    exact RngCall.staysInRange_iff.mp (stays made member)
  · intro inRange made member
    exact RngCall.staysInRange_iff.mpr (inRange made member)

/-- Ranges whose ends never fall, the same range each time in particular, keep the cursor
in range. -/
theorem rngCalls_cursorInRange {hdr : GlobalHdr} {calls : List (RngCall hdr)} {cursors : Cursors}
    (rising : calls.Pairwise fun call later => call.upper ≤ later.upper)
    (buffers : ∀ call ∈ calls, call.bufsize ≠ 0)
    (early : ∀ call ∈ calls, cursors.segmentIndex ≤ call.upper) :
    ∀ made ∈ rngCalls cursors calls, made.1.CursorInRange made.2 := by
  induction calls generalizing cursors with
  | nil =>
      intro made member
      cases member
  | cons call calls inductionHypothesis =>
      have first := early call List.mem_cons_self
      obtain ⟨above, rest⟩ := List.pairwise_cons.mp rising
      intro made member
      rcases List.mem_cons.mp member with this | later
      · rw [this]
        exact Or.inr ⟨first, Or.inl (buffers call List.mem_cons_self)⟩
      · refine inductionHypothesis rest ?_ ?_ made later
        · intro other isLater
          exact buffers other (List.mem_cons_of_mem _ isLater)
        · intro other isLater
          exact Nat.le_trans (RngCall.result_index_le first) (above other isLater)

theorem threeSegments_pos : 0 < 3 := by decide

theorem threeSegments_lt : 3 < 2 ^ 8 := by decide

/-- Three segments of two lines of one byte, and one reader. -/
def threeSegments : GlobalHdr where
  __ := smallHdr
  segmentCount := 3
  segmentCount_pos := threeSegments_pos
  segmentCount_lt := threeSegments_lt

/-- One line in each of the given segments. -/
def oneLineIn (filled : List Nat) (segmentId : Nat) : Segment :=
  ⟨if segmentId ∈ filled then 1 else 0, fun _ => 0, fun _ => 0⟩

/-- A line of segment 1 is read with the range of this segment, then a line of segment 0 is
to be read with the range of that one. -/
def middleThenFirst : List (RngCall threeSegments) :=
  [⟨oneLineIn [1], 0, 1, 1, 2, by decide, by decide⟩,
    ⟨oneLineIn [0], 0, 1, 0, 1, by decide, by decide⟩]

/-- The second call tries segment 2 and returns 0, with a line in its range. -/
theorem readRng_leaves_range :
    ¬∀ made ∈ rngCalls .start middleThenFirst, made.1.StaysInRange made.2 := by
  intro stays
  have second := stays (⟨oneLineIn [0], 0, 1, 0, 1, by decide, by decide⟩, ⟨2, 0⟩)
    (List.mem_cons_of_mem _ List.mem_cons_self)
  exact absurd (second.inside 2 (by decide)) (by decide)

end FipsIpc.ShmRingbuf
