import FipsIpc.Lib.Run
import FipsIpc.ShmRingbuf.Ranges
import Mathlib.Algebra.BigOperators.Group.List.Basic
import Mathlib.Algebra.GroupWithZero.Nat

/-!
Contract: collecting lines from a range of segments, and from the others.

Owns: `shmrbuf_readv_rng`, the order in which its loops visit the segments, and
how many lines a call takes from which of them.

`probes` records for every `shmrbuf_readv` of a call the segment and the lines it
has copied.  A call is complete; between two calls of a thread the segments may
change in any way.

Does not own: `shmrbuf_readv` beyond the number and the order of its lines.
-/

set_option autoImplicit false

namespace FipsIpc.ShmRingbuf

open FipsIpc.Lib

/-! ### `shmrbuf_readv_rng` -/

/-- The lines a reader has still to read, as `shmrbuf_readv` copies them. -/
def unreadQueue (hdr : GlobalHdr) (segment : Segment) (reader : Nat) : List (List UInt8) :=
  (List.range (unreadLines hdr segment reader)).map fun line =>
    getLine segment.data (readvSource hdr segment reader line) hdr.lineSize

/-- The lines copied to `&iovecs[read]`. -/
def storeLines (iovecs : Nat → List UInt8) (read : Nat) (lines : List (List UInt8)) :
    Nat → List UInt8 :=
  fun index =>
    if read ≤ index ∧ index < read + lines.length then lines.getD (index - read) []
    else iovecs index

/-- The variables of the loops. -/
structure Collecting where
  segments : Nat → Segment
  iovecs : Nat → List UInt8
  vsize : Nat
  read : Nat
  wsteal : UInt16
  probes : List (Nat × List (List UInt8))
  index : Nat

/-- What a call of `shmrbuf_readv` for a segment does to them. -/
def Collecting.probe (state : Collecting) (segmentId : Nat) (result : ReadResult) : Collecting :=
  { state with
    segments := Function.update state.segments segmentId result.segment
    iovecs := storeLines state.iovecs state.read result.lines
    probes := state.probes ++ [(segmentId, result.lines)]
    index := indexNext segmentId }

/-- `read += retval`, and `*wsteal += retval` in the second loop. -/
def Collecting.count (state : Collecting) (stealing : Bool) (retval : Nat) : Collecting :=
  { state with
    read := (state.read + retval) % 2 ^ 16
    wsteal := if stealing then state.wsteal + UInt16.ofNat retval else state.wsteal }

/-- A loop over segments; the first component is the value it returns, if it does. -/
def collectSegments (hdr : GlobalHdr) (reader bufsize : Nat) (cursor : Nat → Nat)
    (stealing : Bool) : (tries : Nat) → Collecting → Option Int × Collecting
  | 0, state => (none, state)
  | tries + 1, state =>
      let segmentId := cursor state.index
      let result := shmrbufReadv hdr segmentId (state.segments segmentId) reader state.vsize bufsize
      let state := state.probe segmentId result
      if result.code < 0 then (some result.code, state)
      else if result.code > 0 then
        let retval := result.code.toNat
        let state := state.count stealing retval
        if retval = state.vsize then (some state.read, state)
        else
          collectSegments hdr reader bufsize cursor stealing tries
            { state with vsize := state.vsize - retval }
      else collectSegments hdr reader bufsize cursor stealing tries state

structure ReadvRngResult where
  code : Int
  segments : Nat → Segment
  iovecs : Nat → List UInt8
  wsteal : Option UInt16
  probes : List (Nat × List (List UInt8))
  cursors : Cursors

/-- `shmrbuf_readv_rng`; `wsteal` is what the pointer points to, if it is not NULL. -/
def shmrbufReadvRng (hdr : GlobalHdr) (segments : Nat → Segment) (reader : Nat)
    (iovecs : Nat → List UInt8) (vsize bufsize : UInt16) (lower upper : Nat)
    (wsteal : Option UInt16) (cursors : Cursors) : ReadvRngResult :=
  if lower > upper ∨ upper > hdr.segmentCount then
    ⟨ioIpcArgErr, segments, iovecs, wsteal, [], cursors⟩
  else
    let rng := upper - lower
    let own := collectSegments hdr reader bufsize.toNat (ownCursor lower upper) false rng
      ⟨segments, iovecs, vsize.toNat, 0, wsteal.getD 0, [], cursors.segmentIndex⟩
    let cursors := { cursors with segmentIndex := own.2.index }
    match own.1, wsteal with
    | some code, _ => ⟨code, own.2.segments, own.2.iovecs, wsteal, own.2.probes, cursors⟩
    | none, none => ⟨own.2.read, own.2.segments, own.2.iovecs, none, own.2.probes, cursors⟩
    | none, some _ =>
        let stolen := collectSegments hdr reader bufsize.toNat
          (stealCursor hdr.segmentCount lower upper) true (hdr.segmentCount - rng)
          { own.2 with index := cursors.stealIndex }
        ⟨stolen.1.getD stolen.2.read, stolen.2.segments, stolen.2.iovecs, some stolen.2.wsteal,
          stolen.2.probes, { cursors with stealIndex := stolen.2.index }⟩

/-! ### One segment -/

theorem unreadQueue_length (hdr : GlobalHdr) (segment : Segment) (reader : Nat) :
    (unreadQueue hdr segment reader).length = unreadLines hdr segment reader := by
  rw [unreadQueue, List.length_map, List.length_range]

/-- `shmrbuf_readv` copies as many of the unread lines as are asked for and returns
their number. -/
theorem shmrbufReadv_takes {hdr : GlobalHdr} {segmentId bufsize : Nat}
    (inside : segmentId < hdr.segmentCount) (room : hdr.lineSize ≤ bufsize) (segment : Segment)
    (reader vsize : Nat) :
    (shmrbufReadv hdr segmentId segment reader vsize bufsize).lines =
        (unreadQueue hdr segment reader).take vsize ∧
      (shmrbufReadv hdr segmentId segment reader vsize bufsize).code =
        ((unreadQueue hdr segment reader).take vsize).length := by
  rw [List.length_take, unreadQueue_length]
  unfold shmrbufReadv
  rw [if_neg (Nat.not_le_of_lt inside)]
  by_cases nothing : vsize = 0
  · simp [nothing]
  · rw [if_neg nothing]
    dsimp only
    by_cases empty : segment.writeIndex = segment.readIndex reader
    · have none : unreadLines hdr segment reader = 0 := by
        simp [unreadLines, empty]
      rw [if_pos empty, unreadQueue, none]
      simp
    · have clamped : (if vsize > unreadLines hdr segment reader then
          unreadLines hdr segment reader else vsize) =
            min vsize (unreadLines hdr segment reader) := by
        split <;> omega
      rw [if_neg empty, if_neg (Nat.not_lt_of_le room), clamped]
      refine ⟨?_, rfl⟩
      rw [unreadQueue, ← List.map_take, List.take_range]

/-! ### One loop -/

/-- The lines of a list of probes. -/
def probedLines (probes : List (Nat × List (List UInt8))) : List (List UInt8) :=
  (probes.map Prod.snd).flatten

/-- A loop that goes through `segmentIds` and makes the probes `taken`. -/
structure Collected (hdr : GlobalHdr) (reader : Nat) (stealing : Bool) (segmentIds : List Nat)
    (state : Collecting) (outcome : Option Int × Collecting)
    (taken : List (Nat × List (List UInt8))) : Prop where
  probes : outcome.2.probes = state.probes ++ taken
  order : taken.map Prod.fst <+: segmentIds
  lines : probedLines taken =
    (segmentIds.flatMap fun segmentId =>
      unreadQueue hdr (state.segments segmentId) reader).take state.vsize
  genuine : ∀ probe ∈ taken, ∃ count,
    probe.2 = (unreadQueue hdr (state.segments probe.1) reader).take count
  iovecs : outcome.2.iovecs = storeLines state.iovecs state.read (probedLines taken)
  read : outcome.2.read = state.read + (probedLines taken).length
  wsteal : outcome.2.wsteal =
    if stealing then state.wsteal + UInt16.ofNat (probedLines taken).length else state.wsteal
  exit : (outcome.1 = none ∧ outcome.2.vsize = state.vsize - (probedLines taken).length) ∨
    (outcome.1 = some (outcome.2.read : Int) ∧ (probedLines taken).length = state.vsize)
  segments : ∀ segmentId, segmentId ∉ segmentIds →
    outcome.2.segments segmentId = state.segments segmentId
  index : outcome.2.index = state.index ∨
    ∃ segmentId ∈ segmentIds, outcome.2.index = indexNext segmentId

theorem storeLines_append (iovecs : Nat → List UInt8) (read : Nat)
    (first later : List (List UInt8)) :
    storeLines (storeLines iovecs read first) (read + first.length) later =
      storeLines iovecs read (first ++ later) := by
  funext index
  unfold storeLines
  rw [List.length_append]
  by_cases early : index < read + first.length
  · rw [if_neg (by omega)]
    by_cases before : index < read
    · rw [if_neg (by omega), if_neg (by omega)]
    · rw [if_pos (by omega), if_pos (by omega), List.getD_append _ _ _ _ (by omega)]
  · by_cases inside : index < read + first.length + later.length
    · rw [if_pos (by omega), if_pos (by omega), List.getD_append_right _ _ _ _ (by omega)]
      congr 1
      omega
    · rw [if_neg (by omega), if_neg (by omega), if_neg (by omega)]

theorem storeLines_nil (iovecs : Nat → List UInt8) (read : Nat) :
    storeLines iovecs read [] = iovecs := by
  funext index
  unfold storeLines
  exact if_neg (by simp)

section Loop

variable {hdr : GlobalHdr} {reader bufsize : Nat} {cursor : Nat → Nat} {stealing : Bool}
  {state : Collecting}

/-- The state with which a loop goes on after the lines of a segment. -/
def Collecting.goOn (state : Collecting) (stealing : Bool) (segmentId : Nat)
    (result : ReadResult) : Collecting :=
  { (state.probe segmentId result).count stealing result.lines.length with
    vsize := state.vsize - result.lines.length }

/-- One round: the loop ends with the last line that was asked for. -/
theorem collectSegments_succ (tries : Nat) (inside : cursor state.index < hdr.segmentCount)
    (room : hdr.lineSize ≤ bufsize) (small : state.read + state.vsize < 2 ^ 16) :
    collectSegments hdr reader bufsize cursor stealing (tries + 1) state =
      let segmentId := cursor state.index
      let result := shmrbufReadv hdr segmentId (state.segments segmentId) reader state.vsize bufsize
      if result.lines.length = state.vsize ∧ state.vsize ≠ 0 then
        (some ((state.read + state.vsize : Nat) : Int),
          (state.probe segmentId result).count stealing state.vsize)
      else collectSegments hdr reader bufsize cursor stealing tries
        (state.goOn stealing segmentId result) := by
  obtain ⟨lines, code⟩ := shmrbufReadv_takes inside room (state.segments (cursor state.index))
    reader state.vsize
  rw [← lines] at code
  rw [collectSegments]
  dsimp only
  generalize shmrbufReadv hdr (cursor state.index) (state.segments (cursor state.index)) reader
    state.vsize bufsize = result at code lines
  rw [code, Int.toNat_natCast, if_neg (by omega)]
  by_cases nothing : result.lines.length = 0
  · have same : state.goOn stealing (cursor state.index) result =
        state.probe (cursor state.index) result := by
      have read : (state.read + 0) % 2 ^ 16 = state.read := Nat.mod_eq_of_lt (by omega)
      have steals : (if stealing = true then state.wsteal + UInt16.ofNat 0 else state.wsteal) =
          state.wsteal := by
        cases stealing <;> simp
      unfold Collecting.goOn Collecting.count Collecting.probe
      dsimp only
      rw [nothing, read, steals, Nat.sub_zero]
    rw [if_neg (by omega), if_neg (by omega), same]
  · rw [if_pos (by omega)]
    by_cases all : result.lines.length = state.vsize
    · have read : ((state.probe (cursor state.index) result).count stealing state.vsize).read =
          state.read + state.vsize := Nat.mod_eq_of_lt small
      have vsize : (((state.probe (cursor state.index) result).count stealing
          result.lines.length).vsize) = state.vsize := rfl
      rw [vsize, if_pos all, if_pos ⟨all, by omega⟩, all, read]
    · have vsize : (((state.probe (cursor state.index) result).count stealing
          result.lines.length).vsize) = state.vsize := rfl
      rw [vsize, if_neg all, if_neg fun ends => all ends.1]
      rfl

section Cons

variable {segmentId : Nat} {segmentIds : List Nat} {result : ReadResult}

theorem Collecting.goOn_segments {other : Nat} (different : other ≠ segmentId) :
    (state.goOn stealing segmentId result).segments other = state.segments other :=
  Function.update_of_ne different _ _

theorem Collecting.goOn_read (small : state.read + result.lines.length < 2 ^ 16) :
    (state.goOn stealing segmentId result).read = state.read + result.lines.length :=
  Nat.mod_eq_of_lt small

/-- The loop goes on behind the lines of a segment. -/
theorem Collected.cons {outcome : Option Int × Collecting}
    {taken : List (Nat × List (List UInt8))} (fresh : segmentId ∉ segmentIds)
    (small : state.read + state.vsize < 2 ^ 16)
    (gave : result.lines = (unreadQueue hdr (state.segments segmentId) reader).take state.vsize)
    (later : Collected hdr reader stealing segmentIds (state.goOn stealing segmentId result)
      outcome taken) :
    Collected hdr reader stealing (segmentId :: segmentIds) state outcome
      ((segmentId, result.lines) :: taken) := by
  have amount : result.lines.length =
      min state.vsize (unreadQueue hdr (state.segments segmentId) reader).length := by
    rw [gave, List.length_take]
  have read := @Collecting.goOn_read stealing state segmentId result (by omega)
  have others {other : Nat} (member : other ∈ segmentIds) :
      (state.goOn stealing segmentId result).segments other = state.segments other :=
    Collecting.goOn_segments fun same => fresh (same ▸ member)
  have split : probedLines ((segmentId, result.lines) :: taken) =
      result.lines ++ probedLines taken := rfl
  have remaining : (state.goOn stealing segmentId result).vsize =
      state.vsize - result.lines.length := rfl
  have taken_le : (probedLines taken).length ≤ state.vsize - result.lines.length := by
    rw [later.lines]
    exact List.length_take_le _ _
  refine ⟨?_, ?_, ?_, ?_, ?_, ?_, ?_, ?_, ?_, ?_⟩
  · rw [later.probes]
    exact List.append_assoc _ _ _
  · exact List.cons_prefix_cons.mpr ⟨rfl, later.order⟩
  · rw [split, later.lines, remaining, List.flatMap_cons, List.take_append, ← gave]
    have rest : state.vsize - result.lines.length =
        state.vsize - (unreadQueue hdr (state.segments segmentId) reader).length := by omega
    rw [rest]
    congr 2
    exact List.flatMap_congr fun other member => by rw [others member]
  · intro probe member
    rcases List.mem_cons.mp member with this | earlier
    · exact ⟨state.vsize, by rw [this, gave]⟩
    · obtain ⟨count, lines⟩ := later.genuine probe earlier
      have listed : probe.1 ∈ segmentIds :=
        later.order.subset (List.mem_map_of_mem earlier)
      rw [others listed] at lines
      exact ⟨count, lines⟩
  · rw [later.iovecs, split, ← storeLines_append, read]
    rfl
  · rw [later.read, split, List.length_append, read, Nat.add_assoc]
  · rw [later.wsteal, split, List.length_append, UInt16.ofNat_add]
    cases stealing with
    | false => rfl
    | true => exact UInt16.add_assoc _ _ _
  · rw [split, List.length_append]
    rcases later.exit with ⟨goes, left⟩ | ⟨ends, all⟩
    · exact Or.inl ⟨goes, by rw [left, remaining]; omega⟩
    · exact Or.inr ⟨ends, by omega⟩
  · intro other absent
    rw [later.segments other fun member => absent (List.mem_cons_of_mem _ member)]
    exact Collecting.goOn_segments fun same => absent (same ▸ List.mem_cons_self)
  · rcases later.index with same | ⟨last, member, behind⟩
    · exact Or.inr ⟨segmentId, List.mem_cons_self, same⟩
    · exact Or.inr ⟨last, List.mem_cons_of_mem _ member, behind⟩

/-- The loop ends with the lines of a segment. -/
theorem Collected.last (small : state.read + state.vsize < 2 ^ 16)
    (gave : result.lines = (unreadQueue hdr (state.segments segmentId) reader).take state.vsize)
    (all : result.lines.length = state.vsize) :
    Collected hdr reader stealing (segmentId :: segmentIds) state
      (some ((state.read + state.vsize : Nat) : Int),
        (state.probe segmentId result).count stealing state.vsize)
      [(segmentId, result.lines)] := by
  have lines : probedLines [(segmentId, result.lines)] = result.lines := List.append_nil _
  have read : ((state.probe segmentId result).count stealing state.vsize).read =
      state.read + state.vsize := Nat.mod_eq_of_lt small
  refine ⟨rfl, ?_, ?_, ?_, ?_, ?_, ?_, ?_, ?_, ?_⟩
  · exact List.cons_prefix_cons.mpr ⟨rfl, List.nil_prefix⟩
  · have enough : state.vsize ≤ (unreadQueue hdr (state.segments segmentId) reader).length := by
      rw [gave, List.length_take] at all
      omega
    rw [lines, gave, List.flatMap_cons, List.take_append_of_le_length enough]
  · intro probe member
    rw [List.mem_singleton.mp member]
    exact ⟨state.vsize, gave⟩
  · rw [lines]
    rfl
  · rw [lines, all]
    exact read
  · rw [lines, all]
    rfl
  · rw [lines]
    exact Or.inr ⟨by rw [read], all⟩
  · intro other absent
    have different : other ≠ segmentId := fun same => absent (same ▸ List.mem_cons_self)
    exact Function.update_of_ne different _ _
  · exact Or.inr ⟨segmentId, List.mem_cons_self, rfl⟩

end Cons

/-- A loop over different segments takes their lines in the order of its visits, as many
as are asked for. -/
theorem collectSegments_collected (room : hdr.lineSize ≤ bufsize) {tries : Nat}
    (small : state.read + state.vsize < 2 ^ 16)
    (inside : ∀ segmentId ∈ visits cursor indexNext tries state.index,
      segmentId < hdr.segmentCount)
    (once : (visits cursor indexNext tries state.index).Nodup) :
    ∃ taken, Collected hdr reader stealing (visits cursor indexNext tries state.index) state
      (collectSegments hdr reader bufsize cursor stealing tries state) taken := by
  induction tries generalizing state with
  | zero =>
      refine ⟨[], ?_, List.nil_prefix, ?_, ?_, ?_, rfl, ?_, Or.inl ⟨rfl, rfl⟩, ?_, Or.inl rfl⟩
      · exact (List.append_nil _).symm
      · exact List.take_nil.symm
      · intro probe member
        cases member
      · exact (storeLines_nil _ _).symm
      · cases stealing with
        | false => rfl
        | true => exact (UInt16.add_zero _).symm
      · intro segmentId _
        rfl
  | succ tries inductionHypothesis =>
      rw [visits] at inside once ⊢
      obtain ⟨fresh, rest⟩ := List.nodup_cons.mp once
      have first := inside _ List.mem_cons_self
      obtain ⟨gave, _⟩ := shmrbufReadv_takes first room (state.segments (cursor state.index)) reader
        state.vsize
      have atMost := List.length_take_le state.vsize
        (unreadQueue hdr (state.segments (cursor state.index)) reader)
      rw [← gave] at atMost
      rw [collectSegments_succ tries first room small]
      dsimp only
      split
      case isTrue ends => exact ⟨_, .last small gave ends.1⟩
      case isFalse goes =>
        have left : (state.goOn stealing (cursor state.index)
            (shmrbufReadv hdr (cursor state.index) (state.segments (cursor state.index)) reader
              state.vsize bufsize)).read + (state.vsize -
            (shmrbufReadv hdr (cursor state.index) (state.segments (cursor state.index)) reader
              state.vsize bufsize).lines.length) < 2 ^ 16 := by
          rw [Collecting.goOn_read (by omega)]
          omega
        obtain ⟨taken, later⟩ := inductionHypothesis left
          (fun segmentId member => inside segmentId (List.mem_cons_of_mem _ member)) rest
        exact ⟨_, .cons fresh small gave later⟩

end Loop

section Outcome

variable {hdr : GlobalHdr} {segmentIds order : List Nat} {state : Collecting} {stealing : Bool}
  {reader : Nat} {outcome : Option Int × Collecting} {taken : List (Nat × List (List UInt8))}

/-- Returned or not, the value is the number of lines. -/
theorem Collected.code
    (collected : Collected hdr reader stealing segmentIds state outcome taken) :
    outcome.1.getD outcome.2.read = outcome.2.read := by
  rcases collected.exit with ⟨goes, _⟩ | ⟨returns, _⟩
  · rw [goes, Option.getD_none]
  · rw [returns, Option.getD_some]

theorem Collected.mem_order
    (collected : Collected hdr reader stealing segmentIds state outcome taken)
    (perm : segmentIds.Perm order) {probe : Nat × List (List UInt8)} (member : probe ∈ taken) :
    probe.1 ∈ order :=
  perm.mem_iff.mp (collected.order.subset (List.mem_map_of_mem member))

end Outcome

/-! ### The other segments -/

/-- The segments outside a range. -/
def stealOrder (segmentCount lower upper : Nat) : List Nat :=
  List.range lower ++ List.range' upper (segmentCount - upper)

section Others

variable {segmentCount lower upper : Nat}

theorem stealOrder_length :
    (stealOrder segmentCount lower upper).length = lower + (segmentCount - upper) := by
  rw [stealOrder, List.length_append, List.length_range, List.length_range']

theorem mem_stealOrder {segmentId : Nat} :
    segmentId ∈ stealOrder segmentCount lower upper ↔
      segmentId < lower ∨ (upper ≤ segmentId ∧ segmentId < segmentCount) := by
  rw [stealOrder, List.mem_append, List.mem_range, List.mem_range'_1]
  omega

theorem stealOrder_getElem?_low {position : Nat} (low : position < lower) :
    (stealOrder segmentCount lower upper)[position]? = some position := by
  rw [stealOrder, List.getElem?_append_left (by rw [List.length_range]; exact low),
    List.getElem?_range low]

theorem stealOrder_getElem?_high {position : Nat} (high : lower ≤ position)
    (inside : position < lower + (segmentCount - upper)) :
    (stealOrder segmentCount lower upper)[position]? = some (upper + (position - lower)) := by
  rw [stealOrder, List.getElem?_append_right (by rw [List.length_range]; exact high),
    List.length_range, List.getElem?_range' (by omega), Nat.one_mul]

theorem stealCursor_circles (ordered : lower ≤ upper) (bounded : upper ≤ segmentCount)
    (small : segmentCount < 2 ^ 8) :
    Circles (fun segmentId => stealCursor segmentCount lower upper (indexNext segmentId))
      (stealOrder segmentCount lower upper) := by
  intro position entry found
  obtain ⟨inside, _⟩ := List.getElem?_eq_some_iff.mp found
  rw [stealOrder_length] at inside ⊢
  dsimp only
  by_cases low : position < lower
  · -- below the range: the next segment, or the jump over the range
    rw [stealOrder_getElem?_low low] at found
    cases found
    rw [indexNext_eq (show position < segmentCount by omega) small, stealCursor]
    by_cases last : position + 1 = lower
    · rw [if_pos last]
      by_cases atEnd : upper = segmentCount
      · rw [if_pos atEnd]
        have wraps : (position + 1) % (lower + (segmentCount - upper)) = 0 := by
          have whole : lower + (segmentCount - upper) = position + 1 := by omega
          rw [whole, Nat.mod_self]
        rw [wraps, stealOrder_getElem?_low (by omega)]
      · rw [if_neg atEnd, Nat.mod_eq_of_lt (by omega),
          stealOrder_getElem?_high (by omega) (by omega)]
        congr 1
        omega
    · rw [if_neg last, if_neg (by omega), Nat.mod_eq_of_lt (by omega),
        stealOrder_getElem?_low (by omega)]
  · -- behind the range: the next segment, or back to the first outside
    rw [stealOrder_getElem?_high (by omega) inside] at found
    cases found
    rw [indexNext_eq (show upper + (position - lower) < segmentCount by omega) small, stealCursor,
      if_neg (by omega)]
    by_cases last : position + 1 = lower + (segmentCount - upper)
    · rw [if_pos (by omega), last, Nat.mod_self]
      by_cases first : lower = 0
      · rw [if_pos first, stealOrder_getElem?_high (by omega) (by omega)]
        congr 1
        omega
      · rw [if_neg first, stealOrder_getElem?_low (by omega)]
    · rw [if_neg (by omega), Nat.mod_eq_of_lt (by omega),
        stealOrder_getElem?_high (by omega) (by omega)]
      congr 1
      omega

/-- The first value of the cursor is corrected to a segment outside the range. -/
theorem stealCursor_start (ordered : lower ≤ upper) (bounded : upper ≤ segmentCount)
    (others : stealOrder segmentCount lower upper ≠ []) :
    stealCursor segmentCount lower upper 0 ∈ stealOrder segmentCount lower upper := by
  have some := List.length_pos_iff.mpr others
  rw [stealOrder_length] at some
  rw [mem_stealOrder, stealCursor]
  by_cases first : 0 = lower
  · rw [if_pos first, if_neg (by omega)]
    omega
  · rw [if_neg first, if_neg (by omega)]
    omega

theorem range_append_range' {first all : Nat} (ordered : first ≤ all) :
    List.range first ++ List.range' first (all - first) = List.range all := by
  have joined := @List.range'_append_1 0 first (all - first)
  rw [Nat.zero_add, Nat.add_sub_of_le ordered] at joined
  rw [List.range_eq_range', List.range_eq_range', joined]

/-- Range and others together are all segments. -/
theorem ownOrder_stealOrder_perm (ordered : lower ≤ upper) (bounded : upper ≤ segmentCount) :
    (ownOrder lower upper ++ stealOrder segmentCount lower upper).Perm
      (List.range segmentCount) := by
  rw [ownOrder, stealOrder, ← List.append_assoc, ← range_append_range' bounded,
    ← range_append_range' ordered]
  exact List.Perm.append_right _ List.perm_append_comm

end Others

/-! ### Calls -/

/-- A call with room for whole lines; `segments` is what it finds. -/
structure CollectCall (hdr : GlobalHdr) where
  segments : Nat → Segment
  reader : Nat
  iovecs : Nat → List UInt8
  vsize : UInt16
  bufsize : UInt16
  wsteal : Option UInt16
  bufsize_ge : hdr.lineSize ≤ bufsize.toNat

namespace CollectCall

variable {hdr : GlobalHdr} (call : CollectCall hdr)

def result (lower upper : Nat) (cursors : Cursors) : ReadvRngResult :=
  shmrbufReadvRng hdr call.segments call.reader call.iovecs call.vsize call.bufsize lower upper
    call.wsteal cursors

/-- The unread lines in some segments. -/
def unreadIn (segmentIds : List Nat) : Nat :=
  (segmentIds.map fun segmentId => unreadLines hdr (call.segments segmentId) call.reader).sum

/-- The segments a call may read from. -/
def eligible (lower upper : Nat) : List Nat :=
  if call.wsteal.isSome then List.range hdr.segmentCount else ownOrder lower upper

/-- The lines of the probes outside a range. -/
def outsideLines (lower upper : Nat) (probes : List (Nat × List (List UInt8))) : Nat :=
  ((probes.filter fun probe => ¬(lower ≤ probe.1 ∧ probe.1 < upper)).map fun probe =>
    probe.2.length).sum

/-- The call takes all it may and can, and accounts for it. -/
structure CollectsAll (lower upper : Nat) (result : ReadvRngResult) : Prop where
  code : result.code =
    ((min call.vsize.toNat (call.unreadIn (call.eligible lower upper)) : Nat) : Int)
  wsteal : result.wsteal =
    call.wsteal.map (· + UInt16.ofNat (outsideLines lower upper result.probes))
  once : (result.probes.map Prod.fst).Nodup
  inside : ∀ probe ∈ result.probes, probe.1 ∈ call.eligible lower upper
  genuine : ∀ probe ∈ result.probes, ∃ count,
    probe.2 = (unreadQueue hdr (call.segments probe.1) call.reader).take count
  filled : (probedLines result.probes).length = result.code ∧
    result.iovecs = storeLines call.iovecs 0 (probedLines result.probes)

/-- Where the cursors of a thread are between its calls. -/
structure CursorsRest (hdr : GlobalHdr) (lower upper : Nat) (cursors : Cursors) : Prop where
  own : cursors.segmentIndex ≤ upper
  steal : Rests (stealCursor hdr.segmentCount lower upper) (stealOrder hdr.segmentCount lower upper)
    cursors.stealIndex

variable {call} {lower upper : Nat}

theorem eligible_none (absent : call.wsteal = none) :
    call.eligible lower upper = ownOrder lower upper := by
  simp [eligible, absent]

theorem eligible_some {held : UInt16} (present : call.wsteal = some held) :
    call.eligible lower upper = List.range hdr.segmentCount := by
  simp [eligible, present]

theorem outsideLines_append (first later : List (Nat × List (List UInt8))) :
    outsideLines lower upper (first ++ later) =
      outsideLines lower upper first + outsideLines lower upper later := by
  simp [outsideLines]

theorem outsideLines_inside {probes : List (Nat × List (List UInt8))}
    (inside : ∀ probe ∈ probes, lower ≤ probe.1 ∧ probe.1 < upper) :
    outsideLines lower upper probes = 0 := by
  have none : probes.filter (fun probe => ¬(lower ≤ probe.1 ∧ probe.1 < upper)) = [] := by
    rw [List.filter_eq_nil_iff]
    intro probe member
    simp [inside probe member]
  rw [outsideLines, none]
  rfl

theorem outsideLines_outside {probes : List (Nat × List (List UInt8))}
    (outside : ∀ probe ∈ probes, ¬(lower ≤ probe.1 ∧ probe.1 < upper)) :
    outsideLines lower upper probes = (probedLines probes).length := by
  have all : probes.filter (fun probe => ¬(lower ≤ probe.1 ∧ probe.1 < upper)) = probes := by
    rw [List.filter_eq_self]
    intro probe member
    exact decide_eq_true (outside probe member)
  rw [outsideLines, all, probedLines, List.length_flatten, List.map_map]
  rfl

/-- The number of lines a loop takes. -/
theorem probedLines_length {segmentIds order : List Nat} {state : Collecting} {stealing : Bool}
    {outcome : Option Int × Collecting} {taken : List (Nat × List (List UInt8))}
    (collected : Collected hdr call.reader stealing segmentIds state outcome taken)
    (perm : segmentIds.Perm order)
    (same : ∀ segmentId ∈ order, state.segments segmentId = call.segments segmentId) :
    (probedLines taken).length = min state.vsize (call.unreadIn order) := by
  rw [collected.lines, List.length_take, List.length_flatMap]
  have counts : (segmentIds.map fun segmentId =>
      (unreadQueue hdr (state.segments segmentId) call.reader).length).sum =
      call.unreadIn order := by
    rw [unreadIn, (perm.map _).sum_eq]
    congr 1
    apply List.map_congr_left
    intro segmentId member
    rw [unreadQueue_length, same segmentId member]
  rw [counts]

/-- The variables before the loop over the own range. -/
def ownStart (call : CollectCall hdr) (cursors : Cursors) : Collecting :=
  ⟨call.segments, call.iovecs, call.vsize.toNat, 0, call.wsteal.getD 0, [], cursors.segmentIndex⟩

def ownLoop (call : CollectCall hdr) (lower upper : Nat) (cursors : Cursors) :
    Option Int × Collecting :=
  collectSegments hdr call.reader call.bufsize.toNat (ownCursor lower upper) false (upper - lower)
    (call.ownStart cursors)

/-- The variables before the loop over the others. -/
def stealStart (call : CollectCall hdr) (lower upper : Nat) (cursors : Cursors) : Collecting :=
  { (call.ownLoop lower upper cursors).2 with index := cursors.stealIndex }

def stealLoop (call : CollectCall hdr) (lower upper : Nat) (cursors : Cursors) :
    Option Int × Collecting :=
  collectSegments hdr call.reader call.bufsize.toNat (stealCursor hdr.segmentCount lower upper)
    true (hdr.segmentCount - (upper - lower)) (call.stealStart lower upper cursors)

/-- What the loop over the own range takes. -/
theorem ownLoop_collected {cursors : Cursors} (bounded : upper ≤ hdr.segmentCount)
    (early : cursors.segmentIndex ≤ upper) : ∃ taken,
    Collected hdr call.reader false
      (visits (ownCursor lower upper) indexNext (upper - lower) cursors.segmentIndex)
      (call.ownStart cursors) (call.ownLoop lower upper cursors) taken := by
  have small : upper < 2 ^ 8 := Nat.lt_of_le_of_lt bounded hdr.segmentCount_lt
  have whole := @visits_ownCursor_perm lower upper cursors.segmentIndex small early
  refine @collectSegments_collected hdr call.reader call.bufsize.toNat (ownCursor lower upper)
    false (call.ownStart cursors) call.bufsize_ge (upper - lower) ?_ ?_ ?_
  · have all := call.vsize.toNat_lt
    change 0 + call.vsize.toNat < 2 ^ 16
    omega
  · intro segmentId member
    have inRange := mem_ownOrder.mp (whole.mem_iff.mp member)
    omega
  · exact whole.nodup_iff.mpr List.nodup_range'

theorem ownLoop_index_le {cursors : Cursors} (bounded : upper ≤ hdr.segmentCount)
    (early : cursors.segmentIndex ≤ upper) :
    (call.ownLoop lower upper cursors).2.index ≤ upper := by
  have small : upper < 2 ^ 8 := Nat.lt_of_le_of_lt bounded hdr.segmentCount_lt
  have whole := @visits_ownCursor_perm lower upper cursors.segmentIndex small early
  obtain ⟨taken, collected⟩ := @ownLoop_collected hdr call lower upper cursors bounded early
  rcases collected.index with same | ⟨last, visited, behind⟩
  · rw [same]
    exact early
  · have own := (mem_ownOrder.mp (whole.mem_iff.mp visited)).2
    rw [behind, indexNext_eq own small]
    exact own

/-- What is still asked for when the call goes on with the others. -/
theorem stealStart_vsize {cursors : Cursors} {own : List (Nat × List (List UInt8))}
    (collected : Collected hdr call.reader false
      (visits (ownCursor lower upper) indexNext (upper - lower) cursors.segmentIndex)
      (call.ownStart cursors) (call.ownLoop lower upper cursors) own)
    (goes : (call.ownLoop lower upper cursors).1 = none) :
    (call.stealStart lower upper cursors).vsize =
      call.vsize.toNat - (probedLines own).length := by
  rcases collected.exit with ⟨_, left⟩ | ⟨returns, _⟩
  · exact left
  · cases goes.symm.trans returns

/-- The segments of the others are as the call has found them. -/
theorem stealStart_untouched {cursors : Cursors} (bounded : upper ≤ hdr.segmentCount)
    (early : cursors.segmentIndex ≤ upper) {own : List (Nat × List (List UInt8))}
    (collected : Collected hdr call.reader false
      (visits (ownCursor lower upper) indexNext (upper - lower) cursors.segmentIndex)
      (call.ownStart cursors) (call.ownLoop lower upper cursors) own) :
    ∀ segmentId ∈ stealOrder hdr.segmentCount lower upper,
      (call.stealStart lower upper cursors).segments segmentId = call.segments segmentId := by
  intro segmentId member
  have small : upper < 2 ^ 8 := Nat.lt_of_le_of_lt bounded hdr.segmentCount_lt
  have whole := @visits_ownCursor_perm lower upper cursors.segmentIndex small early
  refine collected.segments segmentId fun visited => ?_
  have own := mem_ownOrder.mp (whole.mem_iff.mp visited)
  have other := mem_stealOrder.mp member
  omega

section Valid

variable {cursors : Cursors} (ordered : lower ≤ upper) (bounded : upper ≤ hdr.segmentCount)

include ordered bounded

/-- The call ends with the own range. -/
theorem result_own (ends : (call.ownLoop lower upper cursors).1 ≠ none ∨ call.wsteal = none) :
    call.result lower upper cursors =
      ⟨(call.ownLoop lower upper cursors).1.getD (call.ownLoop lower upper cursors).2.read,
        (call.ownLoop lower upper cursors).2.segments,
        (call.ownLoop lower upper cursors).2.iovecs, call.wsteal,
        (call.ownLoop lower upper cursors).2.probes,
        ⟨(call.ownLoop lower upper cursors).2.index, cursors.stealIndex⟩⟩ := by
  have valid : ¬(lower > upper ∨ upper > hdr.segmentCount) := by omega
  unfold result shmrbufReadvRng
  rw [if_neg valid]
  dsimp only
  unfold ownLoop ownStart at ends ⊢
  split
  case h_1 code _ returns =>
    rw [returns]
    rfl
  case h_2 _ _ goes absent =>
    rw [goes, absent]
    rfl
  case h_3 _ _ goes present =>
    rcases ends with returns | absent
    · exact absurd goes returns
    · cases absent.symm.trans present

/-- The call goes on with the others. -/
theorem result_stolen {held : UInt16} (goes : (call.ownLoop lower upper cursors).1 = none)
    (present : call.wsteal = some held) :
    call.result lower upper cursors =
      ⟨(call.stealLoop lower upper cursors).1.getD (call.stealLoop lower upper cursors).2.read,
        (call.stealLoop lower upper cursors).2.segments,
        (call.stealLoop lower upper cursors).2.iovecs,
        some (call.stealLoop lower upper cursors).2.wsteal,
        (call.stealLoop lower upper cursors).2.probes,
        ⟨(call.ownLoop lower upper cursors).2.index,
          (call.stealLoop lower upper cursors).2.index⟩⟩ := by
  have valid : ¬(lower > upper ∨ upper > hdr.segmentCount) := by omega
  unfold result shmrbufReadvRng
  rw [if_neg valid]
  unfold stealLoop stealStart
  unfold ownLoop ownStart at goes ⊢
  dsimp only
  rw [goes, present]

theorem visits_stealCursor_perm (rest : CursorsRest hdr lower upper cursors) :
    (visits (stealCursor hdr.segmentCount lower upper) indexNext
        (hdr.segmentCount - (upper - lower)) cursors.stealIndex).Perm
      (stealOrder hdr.segmentCount lower upper) := by
  have tries : hdr.segmentCount - (upper - lower) =
      (stealOrder hdr.segmentCount lower upper).length := by
    rw [stealOrder_length]
    omega
  rw [tries]
  exact visits_perm (stealCursor_circles ordered bounded hdr.segmentCount_lt) rest.steal

/-- What the loop over the others takes. -/
theorem stealLoop_collected (rest : CursorsRest hdr lower upper cursors)
    {own : List (Nat × List (List UInt8))}
    (collected : Collected hdr call.reader false
      (visits (ownCursor lower upper) indexNext (upper - lower) cursors.segmentIndex)
      (call.ownStart cursors) (call.ownLoop lower upper cursors) own)
    (goes : (call.ownLoop lower upper cursors).1 = none) : ∃ taken,
    Collected hdr call.reader true
      (visits (stealCursor hdr.segmentCount lower upper) indexNext
        (hdr.segmentCount - (upper - lower)) cursors.stealIndex)
      (call.stealStart lower upper cursors) (call.stealLoop lower upper cursors) taken := by
  have whole := visits_stealCursor_perm ordered bounded rest
  refine @collectSegments_collected hdr call.reader call.bufsize.toNat
    (stealCursor hdr.segmentCount lower upper) true (call.stealStart lower upper cursors)
    call.bufsize_ge (hdr.segmentCount - (upper - lower)) ?_ ?_ ?_
  · have all := call.vsize.toNat_lt
    have left := stealStart_vsize collected goes
    have read : (call.stealStart lower upper cursors).read = 0 + (probedLines own).length :=
      collected.read
    have atMost : (probedLines own).length ≤ call.vsize.toNat := by
      rw [collected.lines]
      exact List.length_take_le _ _
    omega
  · intro segmentId member
    have other := mem_stealOrder.mp (whole.mem_iff.mp member)
    omega
  · have all := (ownOrder_stealOrder_perm ordered bounded).nodup_iff.mpr List.nodup_range
    exact whole.nodup_iff.mpr (List.nodup_append.mp all).2.1

theorem unreadIn_range : call.unreadIn (List.range hdr.segmentCount) =
    call.unreadIn (ownOrder lower upper) +
      call.unreadIn (stealOrder hdr.segmentCount lower upper) := by
  unfold unreadIn
  rw [← ((ownOrder_stealOrder_perm ordered bounded).map _).sum_eq, List.map_append,
    List.sum_append]

/-- A call that ends with the own range. -/
theorem collectsAll_own (early : cursors.segmentIndex ≤ upper)
    (ends : (call.ownLoop lower upper cursors).1 ≠ none ∨ call.wsteal = none) :
    call.CollectsAll lower upper (call.result lower upper cursors) := by
  have small : upper < 2 ^ 8 := Nat.lt_of_le_of_lt bounded hdr.segmentCount_lt
  have whole := @visits_ownCursor_perm lower upper cursors.segmentIndex small early
  obtain ⟨taken, collected⟩ := @ownLoop_collected hdr call lower upper cursors bounded early
  have amount : (probedLines taken).length =
      min call.vsize.toNat (call.unreadIn (ownOrder lower upper)) :=
    probedLines_length collected whole fun _ _ => rfl
  have probes : (call.ownLoop lower upper cursors).2.probes = taken := collected.probes
  have inRange : ∀ probe ∈ taken, lower ≤ probe.1 ∧ probe.1 < upper :=
    fun probe member => mem_ownOrder.mp (collected.mem_order whole member)
  have code : (call.ownLoop lower upper cursors).1.getD
      (call.ownLoop lower upper cursors).2.read = ((probedLines taken).length : Int) := by
    have read : (call.ownLoop lower upper cursors).2.read = 0 + (probedLines taken).length :=
      collected.read
    rw [collected.code, read, Nat.zero_add]
  have total : (probedLines taken).length =
      min call.vsize.toNat (call.unreadIn (call.eligible lower upper)) := by
    cases present : call.wsteal with
    | none =>
        rw [eligible_none present]
        exact amount
    | some held =>
        have full : (probedLines taken).length = call.vsize.toNat := by
          rcases collected.exit with ⟨goes, _⟩ | ⟨_, full⟩
          · rcases ends with returns | absent
            · exact absurd goes returns
            · cases absent.symm.trans present
          · exact full
        have sum := @unreadIn_range hdr call lower upper ordered bounded
        rw [eligible_some present]
        omega
  rw [result_own ordered bounded ends]
  refine ⟨?_, ?_, ?_, ?_, ?_, ?_⟩
  · rw [code, total]
  · rw [probes, outsideLines_inside inRange]
    cases call.wsteal with
    | none => rfl
    | some held => exact congrArg some (UInt16.add_zero held).symm
  · rw [probes]
    exact (collected.order.sublist.nodup (whole.nodup_iff.mpr List.nodup_range'))
  · rw [probes]
    intro probe member
    have own := inRange probe member
    unfold eligible
    split
    · exact List.mem_range.mpr (by omega)
    · exact mem_ownOrder.mpr own
  · rw [probes]
    exact collected.genuine
  · rw [probes, code]
    exact ⟨rfl, collected.iovecs⟩

/-- What both loops of a call take, and where they leave it. -/
structure TakesBoth (call : CollectCall hdr) (lower upper : Nat) (cursors : Cursors)
    (own stolen : List (Nat × List (List UInt8))) : Prop where
  inRange : ∀ probe ∈ own, lower ≤ probe.1 ∧ probe.1 < upper
  outside : ∀ probe ∈ stolen, probe.1 ∈ stealOrder hdr.segmentCount lower upper
  once : ((own ++ stolen).map Prod.fst).Nodup
  genuine : ∀ probe ∈ own ++ stolen, ∃ count,
    probe.2 = (unreadQueue hdr (call.segments probe.1) call.reader).take count
  total : (probedLines (own ++ stolen)).length =
    min call.vsize.toNat (call.unreadIn (List.range hdr.segmentCount))
  probes : (call.stealLoop lower upper cursors).2.probes = own ++ stolen
  code : (call.stealLoop lower upper cursors).1.getD (call.stealLoop lower upper cursors).2.read =
    ((probedLines (own ++ stolen)).length : Int)
  iovecs : (call.stealLoop lower upper cursors).2.iovecs =
    storeLines call.iovecs 0 (probedLines (own ++ stolen))
  wsteal : (call.stealLoop lower upper cursors).2.wsteal =
    call.wsteal.getD 0 + UInt16.ofNat (probedLines stolen).length

theorem stealLoop_takesBoth (rest : CursorsRest hdr lower upper cursors)
    (goes : (call.ownLoop lower upper cursors).1 = none) :
    ∃ own stolen, TakesBoth call lower upper cursors own stolen := by
  have small : upper < 2 ^ 8 := Nat.lt_of_le_of_lt bounded hdr.segmentCount_lt
  have wholeOwn := @visits_ownCursor_perm lower upper cursors.segmentIndex small rest.own
  have wholeSteal := visits_stealCursor_perm ordered bounded rest
  obtain ⟨own, ownCollected⟩ := @ownLoop_collected hdr call lower upper cursors bounded rest.own
  obtain ⟨stolen, collected⟩ := stealLoop_collected ordered bounded rest ownCollected goes
  have untouched := stealStart_untouched bounded rest.own ownCollected
  have lines : probedLines (own ++ stolen) = probedLines own ++ probedLines stolen := by
    simp [probedLines]
  have place : (call.stealStart lower upper cursors).read = 0 + (probedLines own).length :=
    ownCollected.read
  refine ⟨own, stolen, ?_, ?_, ?_, ?_, ?_, ?_, ?_, ?_, ?_⟩
  · exact fun probe member => mem_ownOrder.mp (ownCollected.mem_order wholeOwn member)
  · exact fun probe member => collected.mem_order wholeSteal member
  · have all := (ownOrder_stealOrder_perm ordered bounded).nodup_iff.mpr List.nodup_range
    rw [List.map_append]
    exact (ownCollected.order.sublist.append collected.order.sublist).nodup
      ((wholeOwn.append wholeSteal).nodup_iff.mpr all)
  · intro probe member
    rcases List.mem_append.mp member with first | later
    · exact ownCollected.genuine probe first
    · obtain ⟨count, lines⟩ := collected.genuine probe later
      rw [untouched probe.1 (collected.mem_order wholeSteal later)] at lines
      exact ⟨count, lines⟩
  · have ownAmount : (probedLines own).length =
        min call.vsize.toNat (call.unreadIn (ownOrder lower upper)) :=
      probedLines_length ownCollected wholeOwn fun _ _ => rfl
    have stolenAmount := probedLines_length collected wholeSteal untouched
    have left := stealStart_vsize ownCollected goes
    have sum := @unreadIn_range hdr call lower upper ordered bounded
    rw [lines, List.length_append]
    omega
  · have first : (call.stealStart lower upper cursors).probes = own := ownCollected.probes
    rw [collected.probes, first]
  · rw [collected.code, collected.read, place, lines, List.length_append, Nat.zero_add]
  · have first : (call.stealStart lower upper cursors).iovecs =
        storeLines call.iovecs 0 (probedLines own) := ownCollected.iovecs
    rw [collected.iovecs, first, place, storeLines_append, lines]
  · have kept : (call.stealStart lower upper cursors).wsteal = call.wsteal.getD 0 :=
      ownCollected.wsteal
    rw [collected.wsteal, kept, if_pos rfl]

/-- A call that goes on with the others. -/
theorem collectsAll_stolen (rest : CursorsRest hdr lower upper cursors) {held : UInt16}
    (goes : (call.ownLoop lower upper cursors).1 = none) (present : call.wsteal = some held) :
    call.CollectsAll lower upper (call.result lower upper cursors) := by
  obtain ⟨own, stolen, both⟩ :=
    @stealLoop_takesBoth hdr call lower upper cursors ordered bounded rest goes
  have outside : ∀ probe ∈ stolen, ¬(lower ≤ probe.1 ∧ probe.1 < upper) := by
    intro probe member
    have other := mem_stealOrder.mp (both.outside probe member)
    omega
  rw [result_stolen ordered bounded goes present]
  refine ⟨?_, ?_, ?_, ?_, ?_, ?_⟩
  · rw [both.code, both.total, eligible_some present]
  · rw [both.probes, outsideLines_append, outsideLines_inside both.inRange,
      outsideLines_outside outside, Nat.zero_add, both.wsteal, present]
    rfl
  · rw [both.probes]
    exact both.once
  · rw [both.probes, eligible_some present]
    intro probe member
    apply List.mem_range.mpr
    rcases List.mem_append.mp member with first | later
    · have own := both.inRange probe first
      omega
    · have other := mem_stealOrder.mp (both.outside probe later)
      omega
  · rw [both.probes]
    exact both.genuine
  · rw [both.probes, both.code]
    exact ⟨rfl, both.iovecs⟩

theorem collectsAll (rest : CursorsRest hdr lower upper cursors) :
    call.CollectsAll lower upper (call.result lower upper cursors) := by
  cases goes : (call.ownLoop lower upper cursors).1 with
  | some code =>
      have returns : (call.ownLoop lower upper cursors).1 ≠ none := by
        rw [goes]
        exact Option.some_ne_none code
      exact collectsAll_own ordered bounded rest.own (Or.inl returns)
  | none =>
      cases present : call.wsteal with
      | none => exact collectsAll_own ordered bounded rest.own (Or.inr present)
      | some held => exact collectsAll_stolen ordered bounded rest goes present

/-- A call leaves the cursors where the next one of the thread needs them. -/
theorem result_rest (rest : CursorsRest hdr lower upper cursors) :
    CursorsRest hdr lower upper (call.result lower upper cursors).cursors := by
  have own := @ownLoop_index_le hdr call lower upper cursors bounded rest.own
  by_cases ends : (call.ownLoop lower upper cursors).1 ≠ none ∨ call.wsteal = none
  · rw [result_own ordered bounded ends]
    exact ⟨own, rest.steal⟩
  · obtain ⟨goes, present⟩ := not_or.mp ends
    have goes := Decidable.not_not.mp goes
    obtain ⟨held, present⟩ := Option.ne_none_iff_exists'.mp present
    obtain ⟨first, ownCollected⟩ :=
      @ownLoop_collected hdr call lower upper cursors bounded rest.own
    obtain ⟨stolen, collected⟩ := stealLoop_collected ordered bounded rest ownCollected goes
    rw [result_stolen ordered bounded goes present]
    refine ⟨own, ?_⟩
    dsimp only
    rcases collected.index with same | ⟨last, visited, behind⟩
    · rw [same]
      exact rest.steal
    · have member := (visits_stealCursor_perm ordered bounded rest).mem_iff.mp visited
      rw [behind]
      exact rests_move (stealCursor_circles ordered bounded hdr.segmentCount_lt) member

end Valid

end CollectCall

/-! ### Sequences of calls -/

def collectStep {hdr : GlobalHdr} (lower upper : Nat) (cursors : Cursors) (call : CollectCall hdr) :
    Option Cursors :=
  some (call.result lower upper cursors).cursors

theorem CollectCall.cursorsRest_start {hdr : GlobalHdr} {lower upper : Nat}
    (ordered : lower ≤ upper) (bounded : upper ≤ hdr.segmentCount) :
    CollectCall.CursorsRest hdr lower upper .start :=
  ⟨Nat.zero_le upper, stealCursor_start ordered bounded⟩

/-- A thread that always passes the same range: whatever calls it has made, the next one
takes all lines it may, from every segment once, and accounts for them. -/
theorem readvRng_collects {hdr : GlobalHdr} {lower upper : Nat} (ordered : lower ≤ upper)
    (bounded : upper ≤ hdr.segmentCount) {calls : List (CollectCall hdr)} {last : Cursors}
    (run : Run (collectStep lower upper) (fun _ _ => True) .start calls last)
    (call : CollectCall hdr) :
    call.CollectsAll lower upper (call.result lower upper last) := by
  have rest : CollectCall.CursorsRest hdr lower upper last := by
    refine run.invariant ?_ (CollectCall.cursorsRest_start ordered bounded)
    intro cursors earlier next before _ taken
    cases taken
    exact CollectCall.result_rest ordered bounded before
  exact CollectCall.collectsAll ordered bounded rest

/-- Up to five lines, also of other segments, where each of three has one. -/
def fiveOfThree : CollectCall threeSegments :=
  ⟨oneLineIn [0, 1, 2], 0, fun _ => [], 5, 1, some 0, by decide⟩

theorem readvRng_collects_three : ∃ last,
    Run (collectStep 1 2) (fun _ _ => True) .start [fiveOfThree] last ∧
    fiveOfThree.CollectsAll 1 2 (fiveOfThree.result 1 2 last) := by
  have run : Run (collectStep 1 2) (fun _ _ => True) .start [fiveOfThree] _ :=
    .single trivial rfl
  exact ⟨_, run, readvRng_collects (by decide) (by decide) run fiveOfThree⟩

/-- All three lines, two of them taken from other segments. -/
example : (fiveOfThree.result 1 2 .start).code = 3 ∧
    (fiveOfThree.result 1 2 .start).wsteal = some 2 ∧
    (fiveOfThree.result 1 2 .start).cursors = ⟨2, 3⟩ := by
  decide

end FipsIpc.ShmRingbuf
