import FipsIpc.FipsBuf.Space
import FipsIpc.FipsBuf.Unread
import FipsIpc.Lib.Pass

/-!
Contract: which cached segments one call of `fips_buf_read` looks at.

Owns: the visits of the loop with the indices and element counts it uses; that
they are the visits of a pass round the cached entries, up to the first segment
with enough lines; and reading from a cache without trailing entries, one call
and many.

The thread-local `rotation` is any byte: it is advanced before it is used, and
a value past the cached entries becomes 0.

Does not own: the entries a pass with trailing segments leaves out.
-/

set_option autoImplicit false

namespace FipsIpc.FipsBuf

open FipsIpc.Lib

/-! ### The visits of a call -/

/-- One visit of the loop of `fips_buf_read`: the index used on the cache
arrays, the number of cached entries at that time, the entry, and the element
count that `remove_cached_entries` passes to `memmove`. -/
structure Visit where
  position : Nat
  cachedCount : Nat
  entry : Option Nat
  moved : Option Int

namespace Visit

/-- The entry visited and where it was found. -/
def place (visit : Visit) : Option Nat × Nat := (visit.entry, visit.position)

/-- The index is that of a cached entry, and `memmove` moves no negative number
of them. -/
structure InRange (visit : Visit) : Prop where
  position : visit.position < visit.cachedCount
  moved : ∀ count ∈ visit.moved, 0 ≤ count

end Visit

/-- The element count `remove_cached_entries` computes, when it moves entries. -/
def movedCount (cache : ReaderCache) (rotation : Nat) : Option Int :=
  if rotation < cache.assignedReaderCount then none
  else some ((cache.assignedReaderCount + cache.trailingBuffersCount : Nat) - rotation - 1)

/-- `readLoop` together with the visits it makes. -/
def readTrace (hdr : Header) (segments : Nat → Segment) (iovcnt cachedCount : Nat) :
    (tries : Nat) → ReaderThread → List Visit × Option ReadOutcome
  | 0, thread => ([], some ⟨fipsBufErrorEmpty, none, segments, thread⟩)
  | tries + 1, thread =>
      let rotation := nextRotation cachedCount thread.rotation
      let current := thread.cache.assignedReaderCount + thread.cache.trailingBuffersCount
      match (thread.cache.currentSegment[rotation]?).join with
      | none => ([⟨rotation, current, none, none⟩], none)
      | some index =>
          let segment := segments index
          let currentHeadOffset := (segment.readers thread.readerIndex).headOffset
          let newHeadOffset := hdr.wrapLine (currentHeadOffset + iovcnt)
          if NotReady currentHeadOffset newHeadOffset segment.commitOffset then
            let visit : Visit := ⟨rotation, current, some index, movedCount thread.cache rotation⟩
            match removeCachedEntries thread.cache rotation with
            | none => ([visit], none)
            | some cache =>
                let later := readTrace hdr segments iovcnt cachedCount tries
                  { thread with cache := cache, rotation := rotation }
                (visit :: later.1, later.2)
          else
            let (iov, tag, taken) := takeLines hdr segment index thread.readerIndex iovcnt
            ([⟨rotation, current, some index, none⟩],
              some ⟨fipsBufSuccess, some (iov, tag), Function.update segments index taken,
                { thread with rotation := rotation }⟩)

/-- The visits are those of the loop of `fips_buf_read`. -/
theorem readTrace_result (hdr : Header) (segments : Nat → Segment) (iovcnt cachedCount tries : Nat)
    (thread : ReaderThread) :
    (readTrace hdr segments iovcnt cachedCount tries thread).2 =
      readLoop hdr segments iovcnt cachedCount tries thread := by
  induction tries generalizing thread with
  | zero => rfl
  | succ tries inductionHypothesis =>
      rw [readTrace, readLoop]
      dsimp only
      unfold nextRotation
      cases (thread.cache.currentSegment[if cachedCount ≤ (thread.rotation + 1) % 2 ^ 8 then 0
        else (thread.rotation + 1) % 2 ^ 8]?).join with
      | none => rfl
      | some index =>
          dsimp only [Option.bind_eq_bind, Option.bind_some]
          split
          · cases removeCachedEntries thread.cache _ with
            | none => rfl
            | some cache => exact inductionHypothesis _
          · rfl

/-! ### Caches -/

/-- The cache begins with the segments `assigned` and then `trailing`. -/
structure ReaderCache.Holds (hdr : Header) (assigned trailing : List Nat) (cache : ReaderCache) :
    Prop where
  length : cache.currentSegment.length = hdr.segmentCount
  entries : (assigned ++ trailing).map some <+: cache.currentSegment
  assignedReaderCount : cache.assignedReaderCount = assigned.length
  trailingBuffersCount : cache.trailingBuffersCount = trailing.length

/-- The cache after the entry at `position` has been closed up. -/
def ReaderCache.closedUp (cache : ReaderCache) (position : Nat) : ReaderCache :=
  let cachedCount := cache.assignedReaderCount + cache.trailingBuffersCount
  { cache with
    currentSegment := cache.currentSegment.take position ++
      (cache.currentSegment.drop (position + 1)).take (cachedCount - position - 1) ++
      cache.currentSegment.drop (cachedCount - 1)
    trailingBuffersCount := cache.trailingBuffersCount - 1 }

namespace ReaderCache.Holds

variable {hdr : Header} {assigned trailing : List Nat} {cache : ReaderCache}

theorem cachedCount (holds : cache.Holds hdr assigned trailing) :
    cache.assignedReaderCount + cache.trailingBuffersCount = (assigned ++ trailing).length := by
  rw [holds.assignedReaderCount, holds.trailingBuffersCount, List.length_append]

theorem length_le (holds : cache.Holds hdr assigned trailing) :
    (assigned ++ trailing).length ≤ hdr.segmentCount := by
  have bound := holds.entries.length_le
  rw [List.length_map, holds.length] at bound
  exact bound

theorem getElem? (holds : cache.Holds hdr assigned trailing) {position segment : Nat}
    (found : (assigned ++ trailing)[position]? = some segment) :
    cache.currentSegment[position]? = some (some segment) := by
  rcases holds.entries with ⟨tail, array⟩
  have inside : position < ((assigned ++ trailing).map some).length := by
    rw [List.length_map]
    exact (List.getElem?_eq_some_iff.mp found).1
  rw [← array, List.getElem?_append_left inside, List.getElem?_map, found]
  rfl

/-- An assigned entry stays. -/
theorem keep (holds : cache.Holds hdr assigned trailing) {position : Nat}
    (early : position < assigned.length) : removeCachedEntries cache position = some cache := by
  rw [← holds.assignedReaderCount] at early
  exact if_pos early

/-- A trailing entry is closed up. -/
theorem remove (holds : cache.Holds hdr assigned trailing) {position : Nat}
    (late : assigned.length ≤ position) (inside : position < (assigned ++ trailing).length) :
    removeCachedEntries cache position = some (cache.closedUp position) := by
  have whole := holds.length_le
  have notEarly : ¬position < cache.assignedReaderCount := by
    rw [holds.assignedReaderCount]
    omega
  have noOverrun : ¬((assigned ++ trailing).length ≤ position ∨
      (assigned ++ trailing).length > cache.currentSegment.length) := by
    rw [holds.length]
    omega
  unfold removeCachedEntries
  dsimp only
  rw [if_neg notEarly, holds.cachedCount, if_neg noOverrun, ReaderCache.closedUp,
    holds.cachedCount]

/-- Behind the gap the entries move up by one. -/
theorem closedUp (holds : cache.Holds hdr assigned trailing) {position : Nat}
    (late : assigned.length ≤ position) (inside : position < (assigned ++ trailing).length) :
    (cache.closedUp position).Holds hdr assigned
      (trailing.eraseIdx (position - assigned.length)) := by
  have whole := holds.length_le
  have count := holds.cachedCount
  rcases holds.entries with ⟨tail, array⟩
  have total : ((assigned ++ trailing).map some).length = (assigned ++ trailing).length :=
    List.length_map _
  have before : cache.currentSegment.take position =
      ((assigned ++ trailing).take position).map some := by
    rw [← array, List.take_append_of_le_length (by omega), List.map_take]
  have behind : (cache.currentSegment.drop (position + 1)).take
      ((assigned ++ trailing).length - position - 1) =
        ((assigned ++ trailing).drop (position + 1)).map some := by
    rw [← array, List.drop_append_of_le_length (by omega), List.map_drop]
    apply List.take_left'
    rw [List.length_drop, total]
    omega
  have erased : assigned ++ trailing.eraseIdx (position - assigned.length) =
      (assigned ++ trailing).take position ++ (assigned ++ trailing).drop (position + 1) := by
    rw [← List.eraseIdx_eq_take_drop_succ, List.eraseIdx_append_of_length_le late]
  constructor
  case length =>
    unfold ReaderCache.closedUp
    dsimp only
    rw [List.length_append, List.length_append, List.length_take, List.length_take,
      List.length_drop, List.length_drop, holds.length]
    omega
  case entries =>
    unfold ReaderCache.closedUp
    dsimp only
    rw [count, before, behind, erased, List.map_append]
    exact List.prefix_append _ _
  case assignedReaderCount => exact holds.assignedReaderCount
  case trailingBuffersCount =>
    have place : position - assigned.length < trailing.length := by
      rw [List.length_append] at inside
      omega
    rw [List.length_eraseIdx_of_lt place]
    exact congrArg (· - 1) holds.trailingBuffersCount

end ReaderCache.Holds

/-! ### The loop as a pass -/

/-- The process has fewer unread lines in the segment than a batch counts for. -/
def Segment.Short (hdr : Header) (segment : Segment) (reader iovcnt : Nat) : Prop :=
  segment.unreadLines hdr reader < iovcnt % hdr.lineCount

instance (hdr : Header) (segment : Segment) (reader iovcnt : Nat) :
    Decidable (segment.Short hdr reader iovcnt) :=
  inferInstanceAs (Decidable (_ < _))

/-- A visit that finds too few lines at this place of a pass over a cache with
`assigned` assigned entries. -/
structure Visit.Passes (assigned : Nat) (visit : Visit) (place : Nat × Nat) : Prop where
  entry_eq : visit.entry = some place.1
  position_eq : visit.position = place.2
  inRange : visit.InRange
  moved : visit.moved.isSome = true ↔ assigned ≤ place.2

/-- The thread is about to visit `position` in a pass that began with
`cachedCount` entries. -/
structure ReaderThread.Stands (hdr : Header) (cachedCount : Nat) (assigned trailing : List Nat)
    (position : Nat) (thread : ReaderThread) : Prop where
  holds : thread.cache.Holds hdr assigned trailing
  position_eq : nextRotation cachedCount thread.rotation = position
  fewer : (assigned ++ trailing).length ≤ cachedCount
  byte : cachedCount < 2 ^ 8

/-- The thread after it has found too few lines at `position`. -/
def ReaderThread.passed (thread : ReaderThread) (position : Nat) : ReaderThread :=
  { thread with
    cache :=
      if position < thread.cache.assignedReaderCount then thread.cache
      else thread.cache.closedUp position
    rotation := position }

namespace ReaderThread.Stands

variable {hdr : Header} {segments : Nat → Segment} {iovcnt cachedCount tries position : Nat}
  {assigned trailing : List Nat} {thread : ReaderThread}

theorem nextRotation_eq {position : Nat} (inside : position < cachedCount)
    (byte : cachedCount < 2 ^ 8) :
    nextRotation cachedCount position = nextPosition cachedCount position := by
  unfold nextRotation nextPosition
  rw [Nat.mod_eq_of_lt (by omega : position + 1 < 2 ^ 8)]

/-- Where the thread stands after the visit. -/
theorem next (stands : thread.Stands hdr cachedCount assigned trailing position)
    (inside : position < (assigned ++ trailing).length) :
    ∃ later, (thread.passed position).Stands hdr cachedCount assigned later
        (nextPosition cachedCount position) ∧
      later.Sublist trailing ∧
      assigned ++ later =
        if position < assigned.length then assigned ++ trailing
        else (assigned ++ trailing).eraseIdx position := by
  have place := nextRotation_eq (Nat.lt_of_lt_of_le inside stands.fewer) stands.byte
  unfold ReaderThread.passed
  rw [stands.holds.assignedReaderCount]
  by_cases early : position < assigned.length
  · rw [if_pos early, if_pos early]
    exact ⟨trailing, ⟨stands.holds, place, stands.fewer, stands.byte⟩, .refl _, rfl⟩
  · have late := Nat.not_lt.mp early
    have fewer : (assigned ++ trailing.eraseIdx (position - assigned.length)).length ≤
        cachedCount := by
      rw [← List.eraseIdx_append_of_length_le late]
      exact (List.eraseIdx_sublist _ _).length_le.trans stands.fewer
    rw [if_neg early, if_neg early, List.eraseIdx_append_of_length_le late]
    exact ⟨_, ⟨stands.holds.closedUp late inside, place, fewer, stands.byte⟩,
      List.eraseIdx_sublist _ _, rfl⟩

theorem movedCount_passes (stands : thread.Stands hdr cachedCount assigned trailing position)
    {index : Nat} (inside : position < (assigned ++ trailing).length) :
    Visit.Passes assigned.length
      ⟨position, (assigned ++ trailing).length, some index, movedCount thread.cache position⟩
      (index, position) := by
  refine ⟨rfl, rfl, ⟨inside, ?_⟩, ?_⟩
  all_goals
    dsimp only
    unfold movedCount
    rw [stands.holds.assignedReaderCount]
    split
  · intro count absent
    cases absent
  · intro count given
    cases given
    rw [← stands.holds.assignedReaderCount, stands.holds.cachedCount]
    omega
  case isTrue early => simpa using early
  case isFalse late => simpa using late

/-- A visit that finds too few lines. -/
theorem trace_short (stands : thread.Stands hdr cachedCount assigned trailing position)
    {index : Nat} (within : (segments index).WithinRing hdr)
    (found : (assigned ++ trailing)[position]? = some index)
    (short : (segments index).Short hdr thread.readerIndex iovcnt) :
    readTrace hdr segments iovcnt cachedCount (tries + 1) thread =
      (⟨position, (assigned ++ trailing).length, some index, movedCount thread.cache position⟩ ::
          (readTrace hdr segments iovcnt cachedCount tries (thread.passed position)).1,
        (readTrace hdr segments iovcnt cachedCount tries (thread.passed position)).2) := by
  have inside := (List.getElem?_eq_some_iff.mp found).1
  have entry : (thread.cache.currentSegment[position]?).join = some index := by
    rw [stands.holds.getElem? found]
    rfl
  have removed : removeCachedEntries thread.cache position =
      some (thread.passed position).cache := by
    unfold ReaderThread.passed
    dsimp only
    rw [stands.holds.assignedReaderCount]
    split
    case isTrue early => exact stands.holds.keep early
    case isFalse late => exact stands.holds.remove (Nat.not_lt.mp late) inside
  have test := (within.notReady_iff thread.readerIndex iovcnt).mpr short
  rw [readTrace]
  dsimp only
  rw [stands.position_eq, entry, stands.holds.cachedCount]
  dsimp only
  rw [if_pos test, removed]
  rfl

/-- A visit that finds enough lines. -/
theorem trace_enough (stands : thread.Stands hdr cachedCount assigned trailing position)
    {index : Nat} (within : (segments index).WithinRing hdr)
    (found : (assigned ++ trailing)[position]? = some index)
    (enough : ¬(segments index).Short hdr thread.readerIndex iovcnt) :
    readTrace hdr segments iovcnt cachedCount (tries + 1) thread =
      ([⟨position, (assigned ++ trailing).length, some index, none⟩],
        some ⟨fipsBufSuccess,
          some ((takeLines hdr (segments index) index thread.readerIndex iovcnt).1,
            (takeLines hdr (segments index) index thread.readerIndex iovcnt).2.1),
          Function.update segments index
            (takeLines hdr (segments index) index thread.readerIndex iovcnt).2.2,
          { thread with rotation := position }⟩) := by
  have entry : (thread.cache.currentSegment[position]?).join = some index := by
    rw [stands.holds.getElem? found]
    rfl
  have test : ¬NotReady _ _ _ := fun notReady =>
    enough ((within.notReady_iff thread.readerIndex iovcnt).mp notReady)
  rw [readTrace]
  dsimp only
  rw [stands.position_eq, entry, stands.holds.cachedCount]
  dsimp only
  rw [if_neg test]

/-- A visit past the cached entries is the last. -/
theorem trace_outside (stands : thread.Stands hdr cachedCount assigned trailing position)
    (outside : (assigned ++ trailing).length ≤ position) :
    (∃ visit : Visit, (readTrace hdr segments iovcnt cachedCount (tries + 1) thread).1 = [visit] ∧
      visit.cachedCount ≤ visit.position ∧ ∀ count ∈ visit.moved, count < 0) ∧
    ∀ outcome, (readTrace hdr segments iovcnt cachedCount (tries + 1) thread).2 = some outcome →
      outcome.code = fipsBufSuccess ∧ outcome.thread.cache = thread.cache := by
  have late : ¬position < thread.cache.assignedReaderCount := by
    rw [stands.holds.assignedReaderCount]
    rw [List.length_append] at outside
    omega
  have refused : removeCachedEntries thread.cache position = none := by
    unfold removeCachedEntries
    dsimp only
    rw [if_neg late, stands.holds.cachedCount, if_pos (Or.inl outside)]
  have negative : ∀ count ∈ movedCount thread.cache position, count < 0 := by
    unfold movedCount
    rw [if_neg late, stands.holds.cachedCount]
    intro count given
    cases given
    omega
  have unmoved : ∀ count ∈ (none : Option Int), count < 0 := by
    intro count absent
    cases absent
  rw [readTrace]
  dsimp only
  rw [stands.position_eq, stands.holds.cachedCount]
  cases (thread.cache.currentSegment[position]?).join with
  | none =>
      refine ⟨⟨_, rfl, outside, unmoved⟩, ?_⟩
      intro outcome absent
      cases absent
  | some index =>
      dsimp only
      split
      · rw [refused]
        refine ⟨⟨_, rfl, outside, negative⟩, ?_⟩
        intro outcome absent
        cases absent
      · refine ⟨⟨_, rfl, outside, unmoved⟩, ?_⟩
        intro outcome result
        cases result
        exact ⟨rfl, rfl⟩

/-- The loop follows the pass as long as it finds too few lines. -/
theorem trace_passed (stands : thread.Stands hdr cachedCount assigned trailing position)
    (within : ∀ index, (segments index).WithinRing hdr) {before after : List (Nat × Nat)}
    (visits : (pass assigned.length cachedCount tries position (assigned ++ trailing)).1 =
      before ++ after)
    (short : ∀ place ∈ before, (segments place.1).Short hdr thread.readerIndex iovcnt) :
    ∃ made left next later there,
      readTrace hdr segments iovcnt cachedCount tries thread =
        (made ++ (readTrace hdr segments iovcnt cachedCount left next).1,
          (readTrace hdr segments iovcnt cachedCount left next).2) ∧
      List.Forall₂ (Visit.Passes assigned.length) made before ∧
      next.Stands hdr cachedCount assigned later there ∧ later.Sublist trailing ∧
      next.readerIndex = thread.readerIndex ∧
      pass assigned.length cachedCount left there (assigned ++ later) =
        (after, (pass assigned.length cachedCount tries position (assigned ++ trailing)).2) := by
  induction before generalizing tries thread trailing position with
  | nil =>
      refine ⟨[], tries, thread, trailing, position, rfl, .nil, stands, .refl _, rfl, ?_⟩
      rw [List.nil_append] at visits
      rw [← visits]
  | cons place before inductionHypothesis =>
      cases tries with
      | zero => cases visits
      | succ tries =>
          cases found : (assigned ++ trailing)[position]? with
          | none =>
              rw [pass_outside (List.getElem?_eq_none_iff.mp found)] at visits
              cases visits
          | some index =>
              have inside := (List.getElem?_eq_some_iff.mp found).1
              rcases stands.next inside with ⟨later, nextStands, fewer, rest⟩
              rw [pass_visit found, ← rest] at visits ⊢
              have same := List.cons.inj visits
              have here : place = (index, position) := same.1.symm
              subst here
              have shortHere := short _ List.mem_cons_self
              have shortLater : ∀ place ∈ before, (segments place.1).Short hdr
                  (thread.passed position).readerIndex iovcnt :=
                fun place member => short place (List.mem_cons_of_mem _ member)
              rcases inductionHypothesis nextStands same.2 shortLater with
                ⟨made, left, next, later', there, trace, passes, standsThere, fewer', reader,
                  remaining⟩
              refine ⟨_ :: made, left, next, later', there, ?_,
                .cons (stands.movedCount_passes inside) passes, standsThere, fewer'.trans fewer,
                reader, remaining⟩
              rw [stands.trace_short (within index) found shortHere, trace, List.cons_append]

/-- Nothing is found, and the pass stays inside the cache. -/
theorem trace_empty (stands : thread.Stands hdr cachedCount assigned trailing position)
    (within : ∀ index, (segments index).WithinRing hdr)
    (short : ∀ place ∈ (pass assigned.length cachedCount tries position
      (assigned ++ trailing)).1, (segments place.1).Short hdr thread.readerIndex iovcnt)
    {left : List Nat} (stays : (pass assigned.length cachedCount tries position
      (assigned ++ trailing)).2 = some left) :
    ∃ (made : List Visit) (next : ReaderThread) (later : List Nat),
      readTrace hdr segments iovcnt cachedCount tries thread =
        (made, some ⟨fipsBufErrorEmpty, none, segments, next⟩) ∧
      List.Forall₂ (Visit.Passes assigned.length) made
        (pass assigned.length cachedCount tries position (assigned ++ trailing)).1 ∧
      left = assigned ++ later ∧ later.Sublist trailing ∧
      next.cache.Holds hdr assigned later := by
  rcases stands.trace_passed within (List.append_nil _).symm short with
    ⟨made, remaining, next, later, there, trace, passes, standsThere, fewer, -, rest⟩
  rw [stays] at rest
  cases remaining with
  | zero =>
      cases rest
      exact ⟨made, next, later, by rw [trace]; exact congrArg (·, _) (List.append_nil made),
        passes, rfl, fewer, standsThere.holds⟩
  | succ remaining =>
      cases found : (assigned ++ later)[there]? with
      | none =>
          rw [pass_outside (List.getElem?_eq_none_iff.mp found)] at rest
          cases rest
      | some index =>
          rw [pass_visit found] at rest
          cases rest

/-- Nothing is found before the pass leaves the cache. -/
theorem trace_leaves (stands : thread.Stands hdr cachedCount assigned trailing position)
    (within : ∀ index, (segments index).WithinRing hdr)
    (short : ∀ place ∈ (pass assigned.length cachedCount tries position
      (assigned ++ trailing)).1, (segments place.1).Short hdr thread.readerIndex iovcnt)
    (leaves : (pass assigned.length cachedCount tries position (assigned ++ trailing)).2 = none) :
    ∃ made visit, (readTrace hdr segments iovcnt cachedCount tries thread).1 = made ++ [visit] ∧
      List.Forall₂ (Visit.Passes assigned.length) made
        (pass assigned.length cachedCount tries position (assigned ++ trailing)).1 ∧
      visit.cachedCount ≤ visit.position ∧ (∀ count ∈ visit.moved, count < 0) ∧
      ∀ outcome, (readTrace hdr segments iovcnt cachedCount tries thread).2 = some outcome →
        outcome.code = fipsBufSuccess ∧ ∃ later, later.Sublist trailing ∧
          outcome.thread.cache.Holds hdr assigned later := by
  rcases stands.trace_passed within (List.append_nil _).symm short with
    ⟨made, remaining, next, later, there, trace, passes, standsThere, fewer, -, rest⟩
  rw [leaves] at rest
  cases remaining with
  | zero => cases rest
  | succ remaining =>
      cases found : (assigned ++ later)[there]? with
      | none =>
          rcases standsThere.trace_outside (List.getElem?_eq_none_iff.mp found) with
            ⟨⟨visit, last, outside, negative⟩, taken⟩
          refine ⟨made, visit, ?_, passes, outside, negative, ?_⟩
          · rw [trace, last]
          · intro outcome result
            rw [trace] at result
            rcases taken outcome result with ⟨success, cache⟩
            rw [cache]
            exact ⟨success, later, fewer, standsThere.holds⟩
      | some index =>
          rw [pass_visit found] at rest
          cases rest

/-- The first segment with enough lines ends the pass. -/
theorem trace_ready (stands : thread.Stands hdr cachedCount assigned trailing position)
    (within : ∀ index, (segments index).WithinRing hdr) {before after : List (Nat × Nat)}
    {index there : Nat}
    (visits : (pass assigned.length cachedCount tries position (assigned ++ trailing)).1 =
      before ++ (index, there) :: after)
    (short : ∀ place ∈ before, (segments place.1).Short hdr thread.readerIndex iovcnt)
    (enough : ¬(segments index).Short hdr thread.readerIndex iovcnt) :
    ∃ (made : List Visit) (visit : Visit) (next : ReaderThread) (later : List Nat),
      readTrace hdr segments iovcnt cachedCount tries thread =
        (made ++ [visit], some ⟨fipsBufSuccess,
          some ((takeLines hdr (segments index) index thread.readerIndex iovcnt).1,
            (takeLines hdr (segments index) index thread.readerIndex iovcnt).2.1),
          Function.update segments index
            (takeLines hdr (segments index) index thread.readerIndex iovcnt).2.2,
          { next with rotation := there }⟩) ∧
      List.Forall₂ (Visit.Passes assigned.length) made before ∧
      visit.place = (some index, there) ∧ visit.InRange ∧ visit.moved = none ∧
      later.Sublist trailing ∧ next.cache.Holds hdr assigned later := by
  rcases stands.trace_passed within visits short with
    ⟨made, remaining, next, later, place, trace, passes, standsThere, fewer, reader, rest⟩
  cases remaining with
  | zero => cases rest
  | succ remaining =>
      cases found : (assigned ++ later)[place]? with
      | none =>
          rw [pass_outside (List.getElem?_eq_none_iff.mp found)] at rest
          cases rest
      | some visited =>
          rw [pass_visit found] at rest
          have same := Prod.mk.inj (List.cons.inj (Prod.mk.inj rest).1).1
          rcases same with ⟨rfl, rfl⟩
          rw [← reader] at enough ⊢
          rw [standsThere.trace_enough (within visited) found enough] at trace
          refine ⟨made, _, next, later, trace, passes, rfl,
            ⟨(List.getElem?_eq_some_iff.mp found).1, ?_⟩, rfl, fewer, standsThere.holds⟩
          intro count absent
          cases absent

end ReaderThread.Stands

/-! ### One call -/

/-- The visits of a call of `fips_buf_read` without flags. -/
def readVisits (hdr : Header) (area : AssignmentArea) (segments : Nat → Segment)
    (thread : ReaderThread) (iovcnt : Nat) : List Visit :=
  match refreshCache hdr area thread with
  | none => []
  | some (code, cache) =>
      if code ≠ fipsBufSuccess then []
      else
        let cachedCount := cache.assignedReaderCount + cache.trailingBuffersCount
        (readTrace hdr segments iovcnt cachedCount cachedCount { thread with cache := cache }).1

section Calls

variable {hdr : Header} {area : AssignmentArea} {segments : Nat → Segment}
  {thread : ReaderThread} {assigned trailing : List Nat} {iovcnt : Nat}

theorem nextRotation_lt {cachedCount : Nat} (positive : 0 < cachedCount) (rotation : Nat) :
    nextRotation cachedCount rotation < cachedCount := by
  unfold nextRotation
  split <;> omega

/-- The thread at the start of its pass. -/
theorem ReaderCache.Holds.stands (holds : thread.cache.Holds hdr assigned trailing) :
    thread.Stands hdr (assigned ++ trailing).length assigned trailing
      (nextRotation (assigned ++ trailing).length thread.rotation) :=
  ⟨holds, rfl, Nat.le_refl _, Nat.lt_of_le_of_lt holds.length_le hdr.segmentCount_lt⟩

/-- A call after its refresh is the loop. -/
theorem fipsBufRead_refreshed {cache : ReaderCache}
    (refreshed : refreshCache hdr area thread = some (fipsBufSuccess, cache))
    (holds : cache.Holds hdr assigned trailing) :
    fipsBufRead hdr area segments thread iovcnt 0 =
        (readTrace hdr segments iovcnt (assigned ++ trailing).length
          (assigned ++ trailing).length { thread with cache := cache }).2 ∧
      readVisits hdr area segments thread iovcnt =
        (readTrace hdr segments iovcnt (assigned ++ trailing).length
          (assigned ++ trailing).length { thread with cache := cache }).1 := by
  constructor
  · unfold fipsBufRead
    rw [if_neg (by decide), refreshed, Option.bind_some, readTrace_result, ← holds.cachedCount]
    exact if_neg (not_not_intro rfl)
  · unfold readVisits
    rw [refreshed, ← holds.cachedCount]
    exact if_neg (not_not_intro rfl)

/-- A call that needs no refresh. -/
theorem refreshCache_fresh (fresh : thread.cache.generation = area.generation) :
    refreshCache hdr area thread = some (fipsBufSuccess, thread.cache) :=
  if_neg (not_not_intro fresh)

theorem removeCachedEntries_assigned {cache next : ReaderCache} {position : Nat}
    (noTrailing : cache.trailingBuffersCount = 0)
    (removed : removeCachedEntries cache position = some next) : next = cache := by
  unfold removeCachedEntries at removed
  dsimp only at removed
  split at removed
  case isTrue => exact (Option.some.inj removed).symm
  case isFalse late =>
    rw [noTrailing, Nat.add_zero, if_pos (Or.inl (Nat.not_lt.mp late))] at removed
    cases removed

/-- Without trailing entries the loop leaves the cache alone. -/
theorem readLoop_cache {cachedCount tries : Nat} {outcome : ReadOutcome}
    (noTrailing : thread.cache.trailingBuffersCount = 0)
    (result : readLoop hdr segments iovcnt cachedCount tries thread = some outcome) :
    outcome.thread.cache = thread.cache := by
  induction tries generalizing thread with
  | zero =>
      cases result
      rfl
  | succ tries inductionHypothesis =>
      rcases Option.bind_eq_some_iff.mp result with ⟨index, _, visited⟩
      dsimp only at visited
      split at visited
      · rcases Option.bind_eq_some_iff.mp visited with ⟨cache, removed, later⟩
        have same := removeCachedEntries_assigned noTrailing removed
        have rest := fun count => inductionHypothesis count later
        rw [rest (same ▸ noTrailing), same]
      · cases visited
        rfl

/-- A call that needs no refresh leaves a cache without trailing entries alone. -/
theorem fipsBufRead_cache {outcome : ReadOutcome}
    (noTrailing : thread.cache.trailingBuffersCount = 0)
    (fresh : thread.cache.generation = area.generation)
    (result : fipsBufRead hdr area segments thread iovcnt 0 = some outcome) :
    outcome.thread.cache = thread.cache := by
  unfold fipsBufRead at result
  rw [if_neg (by decide), refreshCache_fresh fresh, Option.bind_some] at result
  exact readLoop_cache noTrailing result

end Calls

/-- What a call of `fips_buf_read` that needs no refresh does with a cache of
assigned segments: the thread goes once round them from `start` on, and takes
the lines from the first that has enough. -/
structure RoundRobin (hdr : Header) (area : AssignmentArea) (segments : Nat → Segment)
    (thread : ReaderThread) (iovcnt : Nat) (assigned : List Nat) (outcome : ReadOutcome) :
    Prop where
  once : ((readVisits hdr area segments thread iovcnt).map Visit.position).Nodup
  visited : (readVisits hdr area segments thread iovcnt).map Visit.entry <+:
    (assigned.rotate (nextRotation assigned.length thread.rotation)).map some
  empty : outcome.code = fipsBufErrorEmpty ↔
    ∀ index ∈ assigned, (segments index).unreadLines hdr thread.readerIndex < iovcnt
  advanced : outcome.code ≠ fipsBufErrorEmpty →
    ∃ index ∈ assigned, ∃ iov tag, outcome.code = fipsBufSuccess ∧
      iovcnt ≤ (segments index).unreadLines hdr thread.readerIndex ∧
      outcome.lines = some (iov, tag) ∧ tag.segmentIndex = index ∧
      tag.startIndex = ((segments index).readers thread.readerIndex).headOffset ∧
      tag.readerIndex = thread.readerIndex ∧
      outcome.segments = Function.update segments index
        { segments index with
          readers := Function.update (segments index).readers thread.readerIndex
            { (segments index).readers thread.readerIndex with
              headOffset := hdr.wrapLine (tag.startIndex + iovcnt) } }
  cache : outcome.thread.cache = thread.cache

/-- Consecutive calls of one thread, each with the area and the segments it
finds. -/
def readRun (hdr : Header) (iovcnt : Nat) :
    List (AssignmentArea × (Nat → Segment)) → ReaderThread → Option (List ReadOutcome)
  | [], _ => some []
  | call :: rest, thread => do
      let outcome ← fipsBufRead hdr call.1 call.2 thread iovcnt 0
      let later ← readRun hdr iovcnt rest outcome.thread
      some (outcome :: later)

namespace ReaderCache.Holds

variable {hdr : Header} {area : AssignmentArea} {segments : Nat → Segment}
  {thread : ReaderThread} {assigned : List Nat} {iovcnt : Nat}

theorem places_of_passes {fixed : Nat} {made : List Visit} {places : List (Nat × Nat)}
    (passes : List.Forall₂ (Visit.Passes fixed) made places) :
    made.map Visit.place = places.map fun place => (some place.1, place.2) := by
  induction passes with
  | nil => rfl
  | cons visit _ inductionHypothesis =>
      rw [List.map_cons, List.map_cons, inductionHypothesis, Visit.place, visit.entry_eq,
        visit.position_eq]

theorem entries_of_places {made : List Visit} {places : List (Nat × Nat)}
    (same : made.map Visit.place = places.map fun place => (some place.1, place.2)) :
    made.map Visit.entry = (places.map Prod.fst).map some := by
  have images := congrArg (List.map Prod.fst) same
  rw [List.map_map, List.map_map] at images
  rw [List.map_map]
  exact images

/-- Visits along a part of the round are to different positions. -/
theorem visits_once {start : Nat} {made : List Visit} {places : List (Nat × Nat)}
    (same : made.map Visit.place = places.map fun place => (some place.1, place.2))
    (part : places <+: assigned.zipIdx.rotate start) :
    (made.map Visit.position).Nodup ∧
      made.map Visit.entry <+: (assigned.rotate start).map some := by
  have positions : made.map Visit.position = places.map Prod.snd := by
    have images := congrArg (List.map Prod.snd) same
    rw [List.map_map, List.map_map] at images
    exact images
  rw [positions, entries_of_places same]
  constructor
  · apply List.Nodup.sublist (part.map Prod.snd).sublist
    rw [List.map_rotate, List.nodup_rotate, List.zipIdx_map_snd]
    exact List.nodup_range'
  · have firsts := part.map Prod.fst
    rw [List.map_rotate, List.zipIdx_map_fst] at firsts
    exact firsts.map some

theorem mem_round {start index : Nat} :
    (∃ there, (index, there) ∈ assigned.zipIdx.rotate start) ↔ index ∈ assigned := by
  have images : index ∈ (assigned.zipIdx.rotate start).map Prod.fst ↔ index ∈ assigned := by
    rw [List.map_rotate, List.zipIdx_map_fst, List.mem_rotate]
  rw [← images, List.mem_map]
  constructor
  · rintro ⟨there, member⟩
    exact ⟨_, member, rfl⟩
  · rintro ⟨⟨_, there⟩, member, rfl⟩
    exact ⟨there, member⟩

theorem round (present : assigned ≠ []) (rotation : Nat) :
    pass assigned.length assigned.length assigned.length
        (nextRotation assigned.length rotation) (assigned ++ []) =
      (assigned.zipIdx.rotate (nextRotation assigned.length rotation), some assigned) := by
  rw [List.append_nil]
  exact pass_stay (nextRotation_lt (List.length_pos_iff.mpr present) rotation)

theorem short_iff {index : Nat} (small : iovcnt < hdr.lineCount) :
    (segments index).Short hdr thread.readerIndex iovcnt ↔
      (segments index).unreadLines hdr thread.readerIndex < iovcnt := by
  unfold Segment.Short
  rw [Nat.mod_eq_of_lt small]

theorem success_ne_empty : fipsBufSuccess ≠ fipsBufErrorEmpty := by decide

/-- One call on a cache of assigned segments. -/
theorem roundRobin (holds : thread.cache.Holds hdr assigned []) (present : assigned ≠ [])
    (fresh : thread.cache.generation = area.generation)
    (within : ∀ index, (segments index).WithinRing hdr) (small : iovcnt < hdr.lineCount) :
    ∃ outcome, fipsBufRead hdr area segments thread iovcnt 0 = some outcome ∧
      RoundRobin hdr area segments thread iovcnt assigned outcome := by
  have around := round present thread.rotation
  have stands := holds.stands
  have call := @fipsBufRead_refreshed hdr area segments thread assigned [] iovcnt _
    (refreshCache_fresh fresh) holds
  rw [List.append_nil] at stands call
  rcases all_or_first (fun place => (segments place.1).Short hdr thread.readerIndex iovcnt)
      (assigned.zipIdx.rotate (nextRotation assigned.length thread.rotation)) with
    all | ⟨before, ⟨index, there⟩, after, split, short, enough⟩
  · rcases stands.trace_empty within (by rw [around]; exact all) (by rw [around]) with
      ⟨made, next, later, trace, passes, -, -, -⟩
    rw [trace] at call
    rw [around] at passes
    have visits : readVisits hdr area segments thread iovcnt = made := call.2
    have places := visits_once (places_of_passes passes) (List.prefix_refl _)
    rw [← visits] at places
    refine ⟨_, call.1, places.1, places.2, iff_of_true rfl ?_, fun other => absurd rfl other,
      fipsBufRead_cache holds.trailingBuffersCount fresh call.1⟩
    intro index member
    rcases mem_round.mpr member with ⟨there, found⟩
    exact (short_iff small).mp (all _ found)
  · rcases stands.trace_ready within (by rw [around]; exact split) short enough with
      ⟨made, visit, next, later, trace, passes, place, -, -, -, -⟩
    rw [trace] at call
    have visits : readVisits hdr area segments thread iovcnt = made ++ [visit] := call.2
    have same : (made ++ [visit]).map Visit.place =
        (before ++ [(index, there)]).map fun place => (some place.1, place.2) := by
      rw [List.map_append, List.map_append, places_of_passes passes]
      exact congrArg (_ ++ [·]) place
    have part : before ++ [(index, there)] <+: assigned.zipIdx.rotate
        (nextRotation assigned.length thread.rotation) := by
      rw [split, List.append_cons before (index, there) after]
      exact List.prefix_append _ _
    have places := visits_once same part
    rw [← visits] at places
    have member : index ∈ assigned := by
      apply mem_round.mp
      refine ⟨there, ?_⟩
      rw [split]
      exact List.mem_append_right _ List.mem_cons_self
    have lines : iovcnt ≤ (segments index).unreadLines hdr thread.readerIndex :=
      Nat.not_lt.mp fun few => enough ((short_iff small).mpr few)
    have notEmpty : ¬∀ index ∈ assigned,
        (segments index).unreadLines hdr thread.readerIndex < iovcnt :=
      fun all => absurd (all index member) (Nat.not_lt.mpr lines)
    exact ⟨_, call.1, places.1, places.2, iff_of_false success_ne_empty notEmpty,
      fun _ => ⟨index, member, _, _, rfl, lines, rfl, rfl, rfl, rfl, rfl⟩,
      fipsBufRead_cache holds.trailingBuffersCount fresh call.1⟩

theorem getElem?_round {start ahead index there : Nat} (inside : ahead < assigned.length)
    (place : (start + ahead) % assigned.length = there) (found : assigned[there]? = some index) :
    (assigned.zipIdx.rotate start)[ahead]? = some (index, there) := by
  rw [List.getElem?_rotate (by rw [List.length_zipIdx]; exact inside), List.length_zipIdx,
    Nat.add_comm ahead start, place, List.getElem?_zipIdx, found, Option.map_some, Nat.zero_add]

/-- A call on a cache with a segment that has enough lines: it takes from the
first such segment on its way. -/
theorem served (holds : thread.cache.Holds hdr assigned []) (present : assigned ≠ [])
    (fresh : thread.cache.generation = area.generation)
    (within : ∀ index, (segments index).WithinRing hdr) {ahead index there : Nat}
    (inside : ahead < assigned.length)
    (place : (nextRotation assigned.length thread.rotation + ahead) % assigned.length = there)
    (found : assigned[there]? = some index)
    (enough : ¬(segments index).Short hdr thread.readerIndex iovcnt) :
    ∃ outcome taken iov tag, fipsBufRead hdr area segments thread iovcnt 0 = some outcome ∧
      outcome.code = fipsBufSuccess ∧ outcome.lines = some (iov, tag) ∧
      taken ≤ ahead ∧ (taken = ahead → tag.segmentIndex = index) ∧
      outcome.thread.rotation =
        (nextRotation assigned.length thread.rotation + taken) % assigned.length ∧
      outcome.thread.cache = thread.cache ∧ outcome.thread.readerIndex = thread.readerIndex := by
  have around := round present thread.rotation
  have stands := holds.stands
  have call := @fipsBufRead_refreshed hdr area segments thread assigned [] iovcnt _
    (refreshCache_fresh fresh) holds
  rw [List.append_nil] at stands call
  have here := getElem?_round inside place found
  rcases all_or_first (fun place => (segments place.1).Short hdr thread.readerIndex iovcnt)
      (assigned.zipIdx.rotate (nextRotation assigned.length thread.rotation)) with
    all | ⟨before, ⟨first, position⟩, after, split, short, ready⟩
  · exact absurd (all _ (List.mem_of_getElem? here)) enough
  · rcases stands.trace_ready within (by rw [around]; exact split) short ready with
      ⟨made, visit, next, later, trace, -, -, -, -, -, -⟩
    rw [trace] at call
    rw [split] at here
    have taken : before.length ≤ ahead := by
      apply Nat.not_lt.mp
      intro earlier
      rw [List.getElem?_append_left earlier] at here
      exact enough (short _ (List.mem_of_getElem? here))
    have atFirst : (before ++ (first, position) :: after)[before.length]? =
        some (first, position) := by
      rw [List.getElem?_append_right (Nat.le_refl _), Nat.sub_self]
      rfl
    refine ⟨_, before.length, _, _, call.1, rfl, rfl, taken, ?_, ?_,
      fipsBufRead_cache holds.trailingBuffersCount fresh call.1, (fipsBufRead_thread call.1).2⟩
    · rintro rfl
      rw [atFirst] at here
      exact (Prod.mk.inj (Option.some.inj here)).1
    · have firstInside : before.length < assigned.length := by omega
      have known := List.getElem?_eq_getElem (Nat.mod_lt
        (nextRotation assigned.length thread.rotation + before.length)
        (List.length_pos_iff.mpr present))
      have same := getElem?_round firstInside rfl known
      rw [split, atFirst] at same
      exact (Prod.mk.inj (Option.some.inj same)).2

/-- Every call returns while one segment always has enough lines. -/
theorem run_returns (present : assigned ≠ []) {calls : List (AssignmentArea × (Nat → Segment))}
    {index there : Nat} (holds : thread.cache.Holds hdr assigned [])
    (fresh : ∀ call ∈ calls, thread.cache.generation = call.1.generation)
    (within : ∀ call ∈ calls, ∀ other, (call.2 other).WithinRing hdr)
    (found : assigned[there]? = some index)
    (enough : ∀ call ∈ calls, ¬(call.2 index).Short hdr thread.readerIndex iovcnt) :
    ∃ outcomes, readRun hdr iovcnt calls thread = some outcomes ∧
      ∀ outcome ∈ outcomes, outcome.code = fipsBufSuccess := by
  have positive := List.length_pos_iff.mpr present
  induction calls generalizing thread with
  | nil => exact ⟨[], rfl, fun _ absent => absurd absent List.not_mem_nil⟩
  | cons call rest inductionHypothesis =>
      have start := nextRotation_lt positive thread.rotation
      have place := add_distance_mod start (List.getElem?_eq_some_iff.mp found).1
      rcases holds.served present (fresh call List.mem_cons_self) (within call List.mem_cons_self)
          (Nat.mod_lt _ positive) place found (enough call List.mem_cons_self) with
        ⟨outcome, taken, iov, tag, result, success, -, -, -, -, cache, reader⟩
      rw [← cache] at holds fresh
      rw [← reader] at enough
      rcases inductionHypothesis holds
          (fun other member => fresh other (List.mem_cons_of_mem _ member))
          (fun other member => within other (List.mem_cons_of_mem _ member))
          (fun other member => enough other (List.mem_cons_of_mem _ member)) with
        ⟨outcomes, later, successes⟩
      refine ⟨outcome :: outcomes, ?_, ?_⟩
      · rw [readRun, result, Option.bind_eq_bind, Option.bind_some, later]
        rfl
      · intro other member
        rcases List.mem_cons.mp member with rfl | inRest
        · exact success
        · exact successes other inRest

/-- Consecutive calls come round to a segment that always has enough lines. -/
theorem run_serves (present : assigned ≠ []) {calls : List (AssignmentArea × (Nat → Segment))}
    {ahead index there : Nat} (holds : thread.cache.Holds hdr assigned [])
    (fresh : ∀ call ∈ calls, thread.cache.generation = call.1.generation)
    (within : ∀ call ∈ calls, ∀ other, (call.2 other).WithinRing hdr)
    (inside : ahead < assigned.length) (long : ahead < calls.length)
    (place : (nextRotation assigned.length thread.rotation + ahead) % assigned.length = there)
    (found : assigned[there]? = some index)
    (enough : ∀ call ∈ calls, ¬(call.2 index).Short hdr thread.readerIndex iovcnt)
    {outcomes : List ReadOutcome} (run : readRun hdr iovcnt calls thread = some outcomes) :
    ∃ outcome ∈ outcomes, ∃ iov tag, outcome.lines = some (iov, tag) ∧
      tag.segmentIndex = index := by
  -- every call that stops earlier leaves less of the way to the segment
  induction calls generalizing thread ahead outcomes with
  | nil => exact absurd long (Nat.not_lt_zero _)
  | cons call rest inductionHypothesis =>
      rcases holds.served present (fresh call List.mem_cons_self) (within call List.mem_cons_self)
          inside place found (enough call List.mem_cons_self) with
        ⟨outcome, taken, iov, tag, result, -, lines, before, atSegment, rotation, cache, reader⟩
      rw [readRun, result, Option.bind_eq_bind, Option.bind_some] at run
      rcases Option.bind_eq_some_iff.mp run with ⟨outcomes', later, gathered⟩
      cases gathered
      rcases Nat.lt_or_ge taken ahead with earlier | last
      · have position : (nextRotation assigned.length thread.rotation + taken) % assigned.length <
            assigned.length := Nat.mod_lt _ (by omega)
        have byte := Nat.lt_of_le_of_lt holds.length_le hdr.segmentCount_lt
        rw [List.append_nil] at byte
        have start : (nextRotation assigned.length outcome.thread.rotation + (ahead - taken - 1)) %
            assigned.length = there := by
          rw [rotation, ReaderThread.Stands.nextRotation_eq position byte,
            nextPosition_eq_mod position, Nat.mod_add_mod, Nat.add_assoc, Nat.mod_add_mod, ← place]
          congr 1
          omega
        rw [← cache] at holds fresh
        rw [← reader] at enough
        rw [List.length_cons] at long
        rcases inductionHypothesis holds
            (fun other member => fresh other (List.mem_cons_of_mem _ member))
            (fun other member => within other (List.mem_cons_of_mem _ member)) (by omega)
            (by omega) start (fun other member => enough other (List.mem_cons_of_mem _ member))
            later with ⟨served, member, parts⟩
        exact ⟨served, List.mem_cons_of_mem _ member, parts⟩
      · exact ⟨outcome, List.mem_cons_self, iov, tag, lines,
          atSegment (Nat.le_antisymm before last)⟩

end ReaderCache.Holds

/-- Reading goes round the assigned segments: one call visits each at most once
and returns empty-handed only if none has enough lines, and of as many calls as
there are segments one takes from any that always has. -/
theorem fipsBufRead_roundRobin {hdr : Header} {assigned : List Nat} (present : assigned ≠ [])
    {thread : ReaderThread} (holds : thread.cache.Holds hdr assigned []) {iovcnt : Nat}
    (small : iovcnt < hdr.lineCount) :
    (∀ area segments, thread.cache.generation = area.generation →
      (∀ index, (segments index).WithinRing hdr) →
        ∃ outcome, fipsBufRead hdr area segments thread iovcnt 0 = some outcome ∧
          RoundRobin hdr area segments thread iovcnt assigned outcome) ∧
    ∀ calls : List (AssignmentArea × (Nat → Segment)), calls.length = assigned.length →
      (∀ call ∈ calls, thread.cache.generation = call.1.generation) →
      (∀ call ∈ calls, ∀ index, (call.2 index).WithinRing hdr) →
      ∀ index ∈ assigned,
        (∀ call ∈ calls, iovcnt ≤ (call.2 index).unreadLines hdr thread.readerIndex) →
        ∃ outcomes, readRun hdr iovcnt calls thread = some outcomes ∧
          (∀ outcome ∈ outcomes, outcome.code = fipsBufSuccess) ∧
          ∃ outcome ∈ outcomes, ∃ iov tag, outcome.lines = some (iov, tag) ∧
            tag.segmentIndex = index := by
  constructor
  · intro area segments fresh within
    exact holds.roundRobin present fresh within small
  · intro calls long fresh within index member lines
    have positive := List.length_pos_iff.mpr present
    rcases List.mem_iff_getElem?.mp member with ⟨there, found⟩
    have enough : ∀ call ∈ calls, ¬(call.2 index).Short hdr thread.readerIndex iovcnt := by
      intro call listed short
      exact absurd ((ReaderCache.Holds.short_iff small).mp short)
        (Nat.not_lt.mpr (lines call listed))
    have start := nextRotation_lt positive thread.rotation
    have place := add_distance_mod start (List.getElem?_eq_some_iff.mp found).1
    have inside := Nat.mod_lt
      (there + assigned.length - nextRotation assigned.length thread.rotation) positive
    rcases ReaderCache.Holds.run_returns present holds fresh within found enough with
      ⟨outcomes, run, successes⟩
    exact ⟨outcomes, run, successes, ReaderCache.Holds.run_serves present holds fresh within
      inside (long ▸ inside) place found enough run⟩

/-- Two lines have been committed and none read. -/
def filledSegment : Segment where
  headOffset := 2
  commitOffset := 2
  readers := fun _ => ⟨0, 0, ⟨0, 0, 0, none, fun _ => ⟨.zero, none⟩⟩⟩
  data := fun _ => 0

/-- A thread with two segments whose `rotation` is left over from a larger
cache. -/
def staleThread : ReaderThread := ⟨0, some 0, ⟨[some 0, some 1], 2, 0, 0⟩, 200⟩

theorem fipsBufRead_roundRobin_stale :
    (∃ outcome, fipsBufRead twoWriterHeader zeroArea (fun _ => filledSegment) staleThread 1 0 =
        some outcome ∧
      RoundRobin twoWriterHeader zeroArea (fun _ => filledSegment) staleThread 1 [0, 1]
        outcome) ∧
    ∃ outcomes, readRun twoWriterHeader 1
        [(zeroArea, fun _ => filledSegment), (zeroArea, fun _ => filledSegment)] staleThread =
          some outcomes ∧
      ∃ outcome ∈ outcomes, ∃ iov tag, outcome.lines = some (iov, tag) ∧
        tag.segmentIndex = 1 := by
  have filled : filledSegment.WithinRing twoWriterHeader :=
    ⟨by decide, by decide, fun _ => (by decide : 0 < twoWriterHeader.lineCount),
      fun _ => (by decide : 0 < twoWriterHeader.lineCount)⟩
  have holds : staleThread.cache.Holds twoWriterHeader [0, 1] [] :=
    ⟨rfl, List.prefix_refl _, rfl, rfl⟩
  have rounds := fipsBufRead_roundRobin (List.cons_ne_nil 0 [1]) holds
    (by decide : 1 < twoWriterHeader.lineCount)
  refine ⟨rounds.1 _ _ rfl fun _ => filled, ?_⟩
  rcases rounds.2 [(zeroArea, fun _ => filledSegment), (zeroArea, fun _ => filledSegment)] rfl
      (by simp [staleThread, zeroArea]) (by simpa using filled) 1 (by decide)
      (by simp; decide) with ⟨outcomes, run, -, served⟩
  exact ⟨outcomes, run, served⟩

end FipsIpc.FipsBuf
