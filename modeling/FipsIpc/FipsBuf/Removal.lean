import FipsIpc.FipsBuf.Rotation

/-!
Contract: trailing entries that `fips_buf_read` takes out of the cache.

Owns: the indices and element counts a call uses while it removes entries, and
when they stay inside the cache.

The loop bound and the wrap of `rotation` use the number of entries at the start
of the call.  Once an entry has been closed up the pass skips the one behind it
and, where another trailing entry follows, runs past the last.

Does not own: whether the lines of a removed segment had been read.
-/

set_option autoImplicit false

namespace FipsIpc.FipsBuf

open FipsIpc.Lib

/-! ### What a call should keep to -/

/-- During a call every index is that of a cached entry, `memmove` never moves a
negative number of entries, and a call that returns `FIPS_BUF_ERROR_EMPTY` has
visited every segment it leaves in the cache. -/
structure IndicesValid (hdr : Header) (area : AssignmentArea) (segments : Nat → Segment)
    (thread : ReaderThread) (iovcnt : Nat) : Prop where
  position : ∀ visit ∈ readVisits hdr area segments thread iovcnt,
    visit.position < visit.cachedCount
  moved : ∀ visit ∈ readVisits hdr area segments thread iovcnt,
    ∀ count ∈ visit.moved, 0 ≤ count
  complete : ∀ outcome, fipsBufRead hdr area segments thread iovcnt 0 = some outcome →
    outcome.code = fipsBufErrorEmpty → ∀ entry ∈ outcome.thread.cache.entries,
      entry ∈ (readVisits hdr area segments thread iovcnt).map Visit.entry

/-- The segments a call goes through inside the cache when it takes no lines. -/
def visitOrder (assigned trailing : List Nat) (rotation : Nat) : List Nat :=
  passOrder (nextRotation (assigned ++ trailing).length rotation) assigned trailing

/-- At most one trailing entry is left from the start of the pass on, and at
most one stands before it. -/
def StaysInside (assigned trailing : List Nat) (rotation : Nat) : Prop :=
  let skipped := nextRotation (assigned ++ trailing).length rotation - assigned.length
  trailing.length ≤ skipped + 1 ∧ skipped ≤ 1

instance (assigned trailing : List Nat) (rotation : Nat) :
    Decidable (StaysInside assigned trailing rotation) :=
  inferInstanceAs (Decidable (_ ∧ _))

/-! ### The pass of a call -/

section Passes

variable {assigned trailing : List Nat} {rotation : Nat}

/-- The visits of a whole pass over the cached entries. -/
theorem pass_visitOrder (assigned trailing : List Nat) (rotation : Nat) :
    (pass assigned.length (assigned ++ trailing).length (assigned ++ trailing).length
        (nextRotation (assigned ++ trailing).length rotation)
        (assigned ++ trailing)).1.map Prod.fst = visitOrder assigned trailing rotation ∧
      (pass assigned.length (assigned ++ trailing).length (assigned ++ trailing).length
        (nextRotation (assigned ++ trailing).length rotation) (assigned ++ trailing)).2 =
        if StaysInside assigned trailing rotation then some assigned else none := by
  rcases Nat.eq_zero_or_pos (assigned ++ trailing).length with none | some
  · rcases List.append_eq_nil_iff.mp (List.length_eq_zero_iff.mp none) with ⟨rfl, rfl⟩
    exact ⟨rfl, rfl⟩
  · exact pass_order (nextRotation_lt some rotation)

theorem mem_visitOrder_assigned (inside : StaysInside assigned trailing rotation) {index : Nat}
    (member : index ∈ assigned) : index ∈ visitOrder assigned trailing rotation := by
  unfold visitOrder passOrder
  rw [if_pos inside.1]
  rw [← List.take_append_drop (nextRotation (assigned ++ trailing).length rotation) assigned,
    List.mem_append] at member
  rcases member with before | behind
  · exact List.mem_append_right _ (List.mem_append_left _ before)
  · exact List.mem_append_left _ (List.mem_append_left _ behind)

theorem visitOrder_nil (assigned : List Nat) (rotation : Nat) :
    visitOrder assigned [] rotation =
      assigned.drop (nextRotation assigned.length rotation) ++
        assigned.take (nextRotation assigned.length rotation) := by
  simp [visitOrder, passOrder, everySecond]

theorem staysInside_nil (assigned : List Nat) (rotation : Nat) :
    StaysInside assigned [] rotation := by
  unfold StaysInside
  dsimp only
  rw [List.append_nil, List.length_nil]
  rcases Nat.eq_zero_or_pos assigned.length with none | some
  · rw [none]
    exact ⟨Nat.zero_le _, by unfold nextRotation; simp⟩
  · have start := nextRotation_lt some rotation
    omega

theorem passes_of_mem {fixed : Nat} {made : List Visit} {places : List (Nat × Nat)}
    (passes : List.Forall₂ (Visit.Passes fixed) made places) {visit : Visit}
    (member : visit ∈ made) : ∃ place ∈ places, visit.Passes fixed place := by
  induction passes with
  | nil => exact absurd member List.not_mem_nil
  | cons passesHere _ inductionHypothesis =>
      rcases List.mem_cons.mp member with rfl | later
      · exact ⟨_, List.mem_cons_self, passesHere⟩
      · rcases inductionHypothesis later with ⟨place, found, passesThere⟩
        exact ⟨place, List.mem_cons_of_mem _ found, passesThere⟩

theorem inRange_of_passes {fixed : Nat} {made : List Visit} {places : List (Nat × Nat)}
    (passes : List.Forall₂ (Visit.Passes fixed) made places) {visit : Visit}
    (member : visit ∈ made) : visit.InRange := by
  rcases passes_of_mem passes member with ⟨place, -, parts⟩
  exact parts.inRange

theorem passes_at {fixed : Nat} {made : List Visit} {places : List (Nat × Nat)}
    (passes : List.Forall₂ (Visit.Passes fixed) made places) {place : Nat × Nat}
    (member : place ∈ places) : ∃ visit ∈ made, visit.Passes fixed place := by
  induction passes with
  | nil => exact absurd member List.not_mem_nil
  | cons passesHere _ inductionHypothesis =>
      rcases List.mem_cons.mp member with rfl | later
      · exact ⟨_, List.mem_cons_self, passesHere⟩
      · rcases inductionHypothesis later with ⟨visit, found, passesThere⟩
        exact ⟨visit, List.mem_cons_of_mem _ found, passesThere⟩

end Passes

section Calls

variable {hdr : Header} {area : AssignmentArea} {segments : Nat → Segment}
  {thread : ReaderThread} {assigned trailing : List Nat} {iovcnt : Nat} {cache : ReaderCache}

theorem ReaderCache.Holds.entries_eq (holds : cache.Holds hdr assigned trailing) :
    cache.entries = (assigned ++ trailing).map some := by
  rcases holds.entries with ⟨tail, array⟩
  rw [ReaderCache.entries, holds.cachedCount, ← array]
  exact List.take_left' (List.length_map _)

/-- The position of a place tells whether its entry is assigned or trailing. -/
def PlacedIn (assigned trailing : List Nat) (places : List (Nat × Nat)) : Prop :=
  ∀ place ∈ places, (place.2 < assigned.length → place.1 ∈ assigned) ∧
    (assigned.length ≤ place.2 → place.1 ∈ trailing)

/-- The three ways a call after its refresh can go. -/
inductive ReadPass (hdr : Header) (area : AssignmentArea) (segments : Nat → Segment)
    (thread : ReaderThread) (iovcnt : Nat) (assigned trailing : List Nat) : Prop
  /-- It finds nothing and stays inside the cache. -/
  | empty {places : List (Nat × Nat)} {next : ReaderThread}
      (inside : StaysInside assigned trailing thread.rotation)
      (order : places.map Prod.fst = visitOrder assigned trailing thread.rotation)
      (placed : PlacedIn assigned trailing places)
      (short : ∀ place ∈ places, (segments place.1).Short hdr thread.readerIndex iovcnt)
      (passes : List.Forall₂ (Visit.Passes assigned.length)
        (readVisits hdr area segments thread iovcnt) places)
      (result : fipsBufRead hdr area segments thread iovcnt 0 =
        some ⟨fipsBufErrorEmpty, none, segments, next⟩)
      (holds : next.cache.Holds hdr assigned [])
  /-- It finds nothing before it leaves the cache. -/
  | leaves {places : List (Nat × Nat)} {made : List Visit} {visit : Visit}
      (outside : ¬StaysInside assigned trailing thread.rotation)
      (order : places.map Prod.fst = visitOrder assigned trailing thread.rotation)
      (placed : PlacedIn assigned trailing places)
      (short : ∀ place ∈ places, (segments place.1).Short hdr thread.readerIndex iovcnt)
      (passes : List.Forall₂ (Visit.Passes assigned.length) made places)
      (visits : readVisits hdr area segments thread iovcnt = made ++ [visit])
      (position : visit.cachedCount ≤ visit.position)
      (moved : ∀ count ∈ visit.moved, count < 0)
      (returns : ∀ outcome, fipsBufRead hdr area segments thread iovcnt 0 = some outcome →
        outcome.code = fipsBufSuccess ∧ ∃ later, later.Sublist trailing ∧
          outcome.thread.cache.Holds hdr assigned later)
  /-- It takes lines from the first segment that has enough. -/
  | ready {places : List (Nat × Nat)} {index : Nat} {after later : List Nat} {made : List Visit}
      {visit : Visit} {outcome : ReadOutcome}
      (order : places.map Prod.fst ++ index :: after =
        visitOrder assigned trailing thread.rotation)
      (placed : PlacedIn assigned trailing places)
      (short : ∀ place ∈ places, (segments place.1).Short hdr thread.readerIndex iovcnt)
      (enough : ¬(segments index).Short hdr thread.readerIndex iovcnt)
      (passes : List.Forall₂ (Visit.Passes assigned.length) made places)
      (visits : readVisits hdr area segments thread iovcnt = made ++ [visit])
      (inRange : visit.InRange) (moved : visit.moved = none)
      (result : fipsBufRead hdr area segments thread iovcnt 0 = some outcome)
      (success : outcome.code = fipsBufSuccess)
      (fewer : later.Sublist trailing) (holds : outcome.thread.cache.Holds hdr assigned later)

theorem ReaderCache.Holds.readPass (holds : cache.Holds hdr assigned trailing)
    (refreshed : refreshCache hdr area thread = some (fipsBufSuccess, cache))
    (within : ∀ index, (segments index).WithinRing hdr) (iovcnt : Nat) :
    ReadPass hdr area segments thread iovcnt assigned trailing := by
  have order := pass_visitOrder assigned trailing thread.rotation
  have stands := @ReaderCache.Holds.stands hdr { thread with cache := cache } _ _ holds
  have call := @fipsBufRead_refreshed hdr area segments thread assigned trailing iovcnt _
    refreshed holds
  have placed : PlacedIn assigned trailing (pass assigned.length (assigned ++ trailing).length
      (assigned ++ trailing).length (nextRotation (assigned ++ trailing).length thread.rotation)
      (assigned ++ trailing)).1 := fun place member => mem_pass member
  rcases all_or_first (fun place => (segments place.1).Short hdr thread.readerIndex iovcnt)
      (pass assigned.length (assigned ++ trailing).length (assigned ++ trailing).length
        (nextRotation (assigned ++ trailing).length thread.rotation) (assigned ++ trailing)).1 with
    all | ⟨before, ⟨index, there⟩, after, split, short, enough⟩
  · by_cases inside : StaysInside assigned trailing thread.rotation
    · rw [if_pos inside] at order
      rcases stands.trace_empty within all order.2 with
        ⟨made, next, later, trace, passes, same, -, nextHolds⟩
      have nothing : later = [] := List.self_eq_append_right.mp same
      rw [nothing] at nextHolds
      rw [trace] at call
      have visits : readVisits hdr area segments thread iovcnt = made := call.2
      exact .empty inside order.1 placed all (visits ▸ passes) call.1 nextHolds
    · rw [if_neg inside] at order
      rcases stands.trace_leaves within all order.2 with
        ⟨made, visit, trace, passes, outside, negative, nextHolds⟩
      rw [trace] at call
      refine .leaves inside order.1 placed all passes call.2 outside negative ?_
      intro outcome result
      exact nextHolds outcome (call.1.symm.trans result)
  · rcases stands.trace_ready within split short enough with
      ⟨made, visit, next, later, trace, passes, place, inRange, moved, fewer, nextHolds⟩
    rw [trace] at call
    rw [split, List.map_append, List.map_cons] at order
    rw [split] at placed
    have placedBefore : PlacedIn assigned trailing before :=
      fun place member => placed place (List.mem_append_left _ member)
    exact .ready order.1 placedBefore short enough passes call.2 inRange moved call.1 rfl fewer
      nextHolds

end Calls

/-- A call keeps to the cache exactly when the pass meets a segment with enough
lines before it leaves, or has at most one trailing entry to remove in either
half. -/
theorem indicesValid_iff {hdr : Header} {area : AssignmentArea} {segments : Nat → Segment}
    {thread : ReaderThread} {cache : ReaderCache} {assigned trailing : List Nat}
    (refreshed : refreshCache hdr area thread = some (fipsBufSuccess, cache))
    (holds : cache.Holds hdr assigned trailing)
    (within : ∀ index, (segments index).WithinRing hdr) (iovcnt : Nat) :
    IndicesValid hdr area segments thread iovcnt ↔
      (∃ index ∈ visitOrder assigned trailing thread.rotation,
        iovcnt % hdr.lineCount ≤ (segments index).unreadLines hdr thread.readerIndex) ∨
      StaysInside assigned trailing thread.rotation := by
  cases holds.readPass refreshed within iovcnt with
  | empty inside order _ short passes result nextHolds =>
      refine iff_of_true ⟨?_, ?_, ?_⟩ (Or.inr inside)
      · intro visit member
        exact (inRange_of_passes passes member).position
      · intro visit member
        exact (inRange_of_passes passes member).moved
      · intro outcome returns _ entry member
        rw [result] at returns
        cases returns
        rw [nextHolds.entries_eq, List.append_nil] at member
        rcases List.mem_map.mp member with ⟨index, cached, rfl⟩
        have entries := ReaderCache.Holds.entries_of_places
          (ReaderCache.Holds.places_of_passes passes)
        rw [entries, order]
        exact List.mem_map_of_mem (mem_visitOrder_assigned inside cached)
  | @leaves places made visit outside order _ short passes visits position moved _ =>
      apply iff_of_false
      · intro valid
        have inside : visit.position < visit.cachedCount := valid.position visit (by
          rw [visits]
          exact List.mem_append_right _ (.head _))
        exact absurd inside (Nat.not_lt.mpr position)
      · rintro (⟨index, member, enough⟩ | inside)
        · rw [← order] at member
          rcases List.mem_map.mp member with ⟨place, found, rfl⟩
          exact absurd (short place found) (Nat.not_lt.mpr enough)
        · exact outside inside
  | @ready places index after later made visit outcome order _ short enough passes visits
      inRange moved result success fewer nextHolds =>
      have all : ∀ other ∈ readVisits hdr area segments thread iovcnt, other.InRange := by
        rw [visits]
        intro other member
        rcases List.mem_append.mp member with earlier | last
        · exact inRange_of_passes passes earlier
        · rw [List.mem_singleton.mp last]
          exact inRange
      have found : index ∈ visitOrder assigned trailing thread.rotation := by
        rw [← order]
        exact List.mem_append_right _ List.mem_cons_self
      refine iff_of_true ⟨fun other member => (all other member).position,
        fun other member => (all other member).moved, ?_⟩
        (Or.inl ⟨index, found, Nat.not_lt.mp enough⟩)
      intro other returns empty
      rw [result] at returns
      cases returns
      rw [success] at empty
      exact absurd empty ReaderCache.Holds.success_ne_empty

/-- Nothing has been written. -/
def drainedSegment : Segment where
  headOffset := 0
  commitOffset := 0
  readers := fun _ => ⟨0, 0, ⟨0, 0, 0, none, fun _ => ⟨.zero, none⟩⟩⟩
  data := fun _ => 0

/-- A thread with one assigned and one trailing segment. -/
def oneTrailingThread : ReaderThread := ⟨0, some 0, ⟨[some 0, some 1], 1, 1, 0⟩, 0⟩

theorem indicesValid_one_trailing :
    IndicesValid twoWriterHeader zeroArea (fun _ => drainedSegment) oneTrailingThread 1 := by
  have drained : drainedSegment.WithinRing twoWriterHeader :=
    ⟨by decide, by decide, fun _ => (by decide : 0 < twoWriterHeader.lineCount),
      fun _ => (by decide : 0 < twoWriterHeader.lineCount)⟩
  have holds : oneTrailingThread.cache.Holds twoWriterHeader [0] [1] :=
    ⟨rfl, List.prefix_refl _, rfl, rfl⟩
  apply (indicesValid_iff (refreshCache_fresh rfl) holds (fun _ => drained) 1).mpr
  exact Or.inr (by decide)

/-- A thread whose two segments are both trailing. -/
def twoTrailingThread : ReaderThread := ⟨0, some 0, ⟨[some 0, some 1], 0, 2, 0⟩, 1⟩

/-- The second visit uses index 1 on a cache with one entry, and `memmove` is
asked for -1 entries. -/
theorem indices_fail_two_trailing :
    readVisits twoWriterHeader zeroArea (fun _ => drainedSegment) twoTrailingThread 1 =
        [⟨0, 2, some 0, some 1⟩, ⟨1, 1, some 1, some (-1)⟩] ∧
      ¬IndicesValid twoWriterHeader zeroArea (fun _ => drainedSegment) twoTrailingThread 1 := by
  have visits : readVisits twoWriterHeader zeroArea (fun _ => drainedSegment) twoTrailingThread 1 =
      [⟨0, 2, some 0, some 1⟩, ⟨1, 1, some 1, some (-1)⟩] := by rfl
  refine ⟨visits, ?_⟩
  intro valid
  have index := valid.position ⟨1, 1, some 1, some (-1)⟩
    (by rw [visits]; exact List.mem_cons_of_mem _ List.mem_cons_self)
  exact absurd index (Nat.lt_irrefl 1)

end FipsIpc.FipsBuf
