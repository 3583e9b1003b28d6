import FipsIpc.UringGetline.Getline
import Mathlib.Data.List.Basic

/-!
Contract: reading many lines at once into the entries of a vector.

Owns: `uring_getlines`, the lines a call consumes, and which of them are found in
the first entries, as many as the call reports.

A line that is too long for the entries is consumed and leaves its entry as it
was, so the number of lines stored falls behind the index of the entry.  The file
may grow between two calls of `uring_getline`, so each has its own file and
answer.  The entries are memory of their own, at least `bufsize` bytes each.

Does not own: how `uring_getline` finds its lines.
-/

set_option autoImplicit false

namespace FipsIpc.UringGetline

def ioIpcArgErr : Int := -1

def ioIpcNullptrErr : Int := -3

/-! ### `uring_getlines` -/

/-- `struct iovec`, with the memory behind `iov_base`. -/
structure Iovec where
  base : Nat → UInt8
  len : Nat

/-- The bytes of the entry that count. -/
def Iovec.held (iovec : Iovec) : List UInt8 := bytesAt iovec.base 0 iovec.len

/-- `memcpy` of a line to `iov_base`, and its length to `iov_len`. -/
def Iovec.store (iovec : Iovec) (lineptr : List UInt8) : Iovec :=
  ⟨fun index => (lineptr[index]?).getD (iovec.base index), lineptr.length⟩

/-- What a call of `uring_getline` finds: the file, and the answer to a read. -/
structure Turn where
  file : List UInt8
  answer : ReadAnswer

structure GetlinesResult where
  code : Int
  fio : Option FileIo
  iovecs : Option (Nat → Iovec)

/-- The loop; `left` is `vsize - i`. -/
def getlinesLoop (bufsize : Nat) (turns : Nat → Turn) : (left i read : Nat) → FileIo →
    (Nat → Iovec) → Option GetlinesResult
  | 0, _, read, fio, iovecs => some ⟨read, some fio, some iovecs⟩
  | left + 1, i, read, fio, iovecs => do
      let (outcome, fio) ← uringGetline (turns i).file (turns i).answer fio
      let retval := outcome.line.length
      if retval > 0 then
        if retval ≤ bufsize then
          getlinesLoop bufsize turns left (i + 1) (read + 1) fio
            (Function.update iovecs i ((iovecs i).store outcome.line))
        else getlinesLoop bufsize turns left (i + 1) read fio iovecs
      else some ⟨read, some fio, some iovecs⟩

/-- `uring_getlines`; pointers that are NULL are `none`. -/
def uringGetlines (turns : Nat → Turn) (fio : Option FileIo) (iovecs : Option (Nat → Iovec))
    (vsize bufsize : UInt16) : Option GetlinesResult :=
  match iovecs, fio with
  | none, fio => some ⟨ioIpcArgErr, fio, none⟩
  | some iovecs, none =>
      -- The first `uring_getline` reports the pointer, if there is one.
      some ⟨if vsize = 0 then 0 else ioIpcNullptrErr, none, some iovecs⟩
  | some iovecs, some fio => getlinesLoop bufsize.toNat turns vsize.toNat 0 0 fio iovecs

/-! ### The lines of a call -/

/-- The lines returned by up to `left` calls of `uring_getline`, until one returns
nothing, and the reader behind them. -/
def readLines (turns : Nat → Turn) : (left i : Nat) → FileIo →
    Option (List (List UInt8) × FileIo)
  | 0, _, fio => some ([], fio)
  | left + 1, i, fio => do
      let (outcome, fio) ← uringGetline (turns i).file (turns i).answer fio
      if outcome.line.length > 0 then
        let (lines, fio) ← readLines turns left (i + 1) fio
        some (outcome.line :: lines, fio)
      else some ([], fio)

/-- The lines `uring_getlines` consumes, if it returns. -/
def consumed (turns : Nat → Turn) (fio : Option FileIo) (vsize : UInt16) :
    Option (List (List UInt8)) :=
  match fio with
  | none => some []
  | some fio => (readLines turns vsize.toNat 0 fio).map Prod.fst

/-- The line is not too long for an entry. -/
def Accepted (bufsize : Nat) (line : List UInt8) : Bool := line.length ≤ bufsize

/-- If the call returns a number that is no error, the first so many entries hold
the accepted ones of the lines it consumed, whatever the entries held before. -/
def Packs (turns : Nat → Turn) (fio : Option FileIo) (vsize bufsize : UInt16) : Prop :=
  ∀ before result, uringGetlines turns fio before vsize bufsize = some result →
    0 ≤ result.code → ∃ lines iovecs, consumed turns fio vsize = some lines ∧
      result.iovecs = some iovecs ∧
      (List.range result.code.toNat).map (fun index => (iovecs index).held) =
        lines.filter (Accepted bufsize.toNat)

/-- No accepted line comes after one that is too long. -/
def TooLongLast (bufsize : Nat) (lines : List (List UInt8)) : Prop :=
  lines.Pairwise fun earlier later => Accepted bufsize later → Accepted bufsize earlier

instance (bufsize : Nat) (lines : List (List UInt8)) : Decidable (TooLongLast bufsize lines) :=
  inferInstanceAs (Decidable (lines.Pairwise _))

/-! ### What the loop stores -/

/-- The entries after the lines were stored, each at its own index. -/
def storeAccepted (bufsize : Nat) (iovecs : Nat → Iovec) (first : Nat)
    (lines : List (List UInt8)) (index : Nat) : Iovec :=
  if index < first then iovecs index
  else
    match lines[index - first]? with
    | some line => if Accepted bufsize line then (iovecs index).store line else iovecs index
    | none => iovecs index

@[simp]
theorem Iovec.held_store (iovec : Iovec) (line : List UInt8) : (iovec.store line).held = line := by
  apply List.ext_getElem
  · simp [Iovec.held, Iovec.store, bytesAt]
  · intro index _ inside
    simp [Iovec.held, Iovec.store, bytesAt, inside]

theorem Iovec.length_held (iovec : Iovec) : iovec.held.length = iovec.len := by
  simp [Iovec.held, bytesAt]

theorem storeAccepted_nil (bufsize : Nat) (iovecs : Nat → Iovec) (first : Nat) :
    storeAccepted bufsize iovecs first [] = iovecs := by
  funext index
  simp [storeAccepted]

/-- The head at its entry, and the other lines behind it. -/
theorem storeAccepted_cons (bufsize : Nat) (iovecs : Nat → Iovec) (first : Nat)
    (line : List UInt8) (lines : List (List UInt8)) :
    storeAccepted bufsize iovecs first (line :: lines) =
      storeAccepted bufsize
        (if Accepted bufsize line then
          Function.update iovecs first ((iovecs first).store line) else iovecs)
        (first + 1) lines := by
  funext index
  rcases Nat.lt_trichotomy index first with below | rfl | above
  · have other : index ≠ first := Nat.ne_of_lt below
    by_cases accepted : Accepted bufsize line <;>
      simp [storeAccepted, below, Nat.lt_succ_of_lt below, accepted, other]
  · by_cases accepted : Accepted bufsize line <;> simp [storeAccepted, accepted]
  · have other : index ≠ first := Nat.ne_of_gt above
    have notBelow : ¬ index < first := Nat.not_lt_of_gt above
    have notHead : ¬ index < first + 1 := by omega
    have behind : index - first = index - (first + 1) + 1 := by omega
    by_cases accepted : Accepted bufsize line <;>
      simp [storeAccepted, notBelow, notHead, behind, accepted, other]

/-- The loop counts the accepted lines, but stores a line at its own index. -/
theorem getlinesLoop_eq (bufsize : Nat) (turns : Nat → Turn) (left i read : Nat) (fio : FileIo)
    (iovecs : Nat → Iovec) :
    getlinesLoop bufsize turns left i read fio iovecs =
      (readLines turns left i fio).map fun lines =>
        ⟨((read + lines.1.countP (Accepted bufsize) : Nat) : Int), some lines.2,
          some (storeAccepted bufsize iovecs i lines.1)⟩ := by
  induction left generalizing i read fio iovecs with
  | zero => simp [getlinesLoop, readLines, storeAccepted_nil]
  | succ left inductionHypothesis =>
      rw [getlinesLoop, readLines]
      cases call : uringGetline (turns i).file (turns i).answer fio with
      | none => rfl
      | some returned =>
          obtain ⟨outcome, next⟩ := returned
          by_cases found : outcome.line.length > 0
          · simp only [Option.bind_eq_bind, Option.bind_some, found, ↓reduceIte,
              inductionHypothesis]
            cases rest : readLines turns left (i + 1) next with
            | none => simp
            | some lines =>
                by_cases accepted : outcome.line.length ≤ bufsize <;>
                  simp [accepted, storeAccepted_cons, Accepted, Nat.add_assoc, Nat.add_comm]
          · simp [found, storeAccepted_nil]

/-! ### Accepted lines first -/

section Kept

variable {α : Type} (keep : α → Bool)

/-- If no item is kept after one that is not, the first items are those that are
kept, as many as there are. -/
theorem filter_eq_take_countP {items : List α}
    (sorted : items.Pairwise fun earlier later => keep later → keep earlier) :
    items.filter keep = items.take (items.countP keep) := by
  induction items with
  | nil => rfl
  | cons item items inductionHypothesis =>
      obtain ⟨first, rest⟩ := List.pairwise_cons.mp sorted
      by_cases kept : keep item
      · simp [kept, inductionHypothesis rest]
      · have none : ∀ other ∈ items, ¬ keep other := fun other member others =>
          kept (first other member others)
        have count : items.countP keep = 0 := List.countP_eq_zero.mpr none
        simpa [kept, count] using none

theorem pairwise_of_take_countP {items : List α}
    (first : ∀ item ∈ items.take (items.countP keep), keep item) :
    items.Pairwise fun earlier later => keep later → keep earlier := by
  induction items with
  | nil => exact List.Pairwise.nil
  | cons item items inductionHypothesis =>
      by_cases kept : keep item
      · apply List.Pairwise.cons
        · exact fun _ _ _ => kept
        · apply inductionHypothesis
          intro other member
          apply first
          simp [kept, member]
      · rcases Nat.eq_zero_or_pos (items.countP keep) with count | positive
        · have none : ∀ other ∈ item :: items, ¬ keep other := by
            simpa [kept] using List.countP_eq_zero.mp count
          exact List.pairwise_of_forall_mem_list fun _ _ other member others =>
            absurd others (none other member)
        · refine absurd (first item ?_) kept
          obtain ⟨count, more⟩ := Nat.exists_eq_succ_of_ne_zero (Nat.ne_of_gt positive)
          simp [kept, more]

end Kept

/-! ### When the entries are packed -/

/-- A call with its pointers set. -/
theorem uringGetlines_eq (turns : Nat → Turn) (fio : FileIo) (iovecs : Nat → Iovec)
    (vsize bufsize : UInt16) :
    uringGetlines turns (some fio) (some iovecs) vsize bufsize =
      (readLines turns vsize.toNat 0 fio).map fun lines =>
        ⟨(lines.1.countP (Accepted bufsize.toNat) : Nat), some lines.2,
          some (storeAccepted bufsize.toNat iovecs 0 lines.1)⟩ := by
  rw [uringGetlines, getlinesLoop_eq]
  simp

/-- The entry of an accepted line. -/
theorem held_storeAccepted {bufsize : Nat} (iovecs : Nat → Iovec) {lines : List (List UInt8)}
    {index : Nat} {line : List UInt8} (found : lines[index]? = some line)
    (accepted : Accepted bufsize line) :
    (storeAccepted bufsize iovecs 0 lines index).held = line := by
  simp [storeAccepted, found, accepted]

/-- The entry of a line that is too long. -/
theorem storeAccepted_tooLong {bufsize : Nat} (iovecs : Nat → Iovec) {lines : List (List UInt8)}
    {index : Nat} {line : List UInt8} (found : lines[index]? = some line)
    (tooLong : ¬ Accepted bufsize line) :
    storeAccepted bufsize iovecs 0 lines index = iovecs index := by
  simp [storeAccepted, found, tooLong]

theorem TooLongLast.packed {bufsize : Nat} {lines : List (List UInt8)}
    (sorted : TooLongLast bufsize lines) (iovecs : Nat → Iovec) :
    (List.range (lines.countP (Accepted bufsize))).map
        (fun index => (storeAccepted bufsize iovecs 0 lines index).held) =
      lines.filter (Accepted bufsize) := by
  have first : lines.filter (Accepted bufsize) = lines.take (lines.countP (Accepted bufsize)) :=
    filter_eq_take_countP (Accepted bufsize) sorted
  have inside : lines.countP (Accepted bufsize) ≤ lines.length := List.countP_le_length
  apply List.ext_getElem
  · simp [List.countP_eq_length_filter]
  · intro index below belowFilter
    have stored : index < lines.countP (Accepted bufsize) := by simpa using below
    have found : lines[index]? = some (lines.filter (Accepted bufsize))[index] := by
      simp only [first, List.getElem_take]
      exact List.getElem?_eq_getElem (Nat.lt_of_lt_of_le stored inside)
    have accepted : Accepted bufsize (lines.filter (Accepted bufsize))[index] :=
      (List.mem_filter.mp (List.getElem_mem belowFilter)).2
    simp only [List.getElem_map, List.getElem_range]
    exact held_storeAccepted iovecs found accepted

/-- Entries that hold more bytes than the accepted line that belongs there. -/
def longerEntries (bufsize : Nat) (lines : List (List UInt8)) (index : Nat) : Iovec :=
  ⟨fun _ => 0, ((lines.filter (Accepted bufsize)).getD index []).length + 1⟩

theorem TooLongLast.of_packed {bufsize : Nat} {lines : List (List UInt8)}
    (packed : (List.range (lines.countP (Accepted bufsize))).map
        (fun index =>
          (storeAccepted bufsize (longerEntries bufsize lines) 0 lines index).held) =
      lines.filter (Accepted bufsize)) :
    TooLongLast bufsize lines := by
  apply pairwise_of_take_countP
  intro line member
  obtain ⟨index, below, at_index⟩ := List.mem_take_iff_getElem.mp member
  have stored : index < lines.countP (Accepted bufsize) := by omega
  have found : lines[index]? = some line := by
    rw [← at_index]
    exact List.getElem?_eq_getElem (by omega)
  by_contra tooLong
  have held := congrArg (fun list => list.getD index []) packed
  have lengths := congrArg List.length held
  simp only [List.getD_eq_getElem?_getD, List.getElem?_map, List.getElem?_range stored,
    Option.map_some, Option.getD_some, storeAccepted_tooLong _ found tooLong,
    Iovec.length_held, longerEntries] at lengths
  omega

/-- Without a reader there is no line and no entry to fill. -/
theorem packs_nullptr {turns : Nat → Turn} {vsize bufsize : UInt16}
    {before : Option (Nat → Iovec)} {result : GetlinesResult}
    (call : uringGetlines turns none before vsize bufsize = some result)
    (noError : 0 ≤ result.code) :
    ∃ lines iovecs, consumed turns none vsize = some lines ∧ result.iovecs = some iovecs ∧
      (List.range result.code.toNat).map (fun index => (iovecs index).held) =
        lines.filter (Accepted bufsize.toNat) := by
  cases before with
  | none =>
      cases call
      exact absurd noError (by decide)
  | some iovecs =>
      cases call
      by_cases empty : vsize = 0
      · exact ⟨[], iovecs, rfl, rfl, by simp [empty]⟩
      · simp [empty, ioIpcNullptrErr] at noError

/-- A call that packs its entries, whatever they held before, has sorted lines. -/
theorem Packs.tooLongLast {turns : Nat → Turn} {fio : Option FileIo} {vsize bufsize : UInt16}
    (packs : Packs turns fio vsize bufsize) {lines : List (List UInt8)}
    (read : consumed turns fio vsize = some lines) : TooLongLast bufsize.toNat lines := by
  cases fio with
  | none =>
      cases read
      exact List.Pairwise.nil
  | some fio =>
      obtain ⟨all, reads, rfl⟩ := Option.map_eq_some_iff.mp read
      have call := uringGetlines_eq turns fio (longerEntries bufsize.toNat all.1) vsize bufsize
      rw [reads, Option.map_some] at call
      obtain ⟨lines, iovecs, same, kept, packed⟩ := packs _ _ call (by simp)
      cases read.symm.trans same
      cases kept
      apply TooLongLast.of_packed
      simpa using packed

/-- The first entries hold the accepted lines exactly if no accepted line of the
call comes after one that is too long. -/
theorem packs_iff (turns : Nat → Turn) (fio : Option FileIo) (vsize bufsize : UInt16) :
    Packs turns fio vsize bufsize ↔
      ∀ lines, consumed turns fio vsize = some lines → TooLongLast bufsize.toNat lines := by
  constructor
  · exact fun packs _ read => packs.tooLongLast read
  · intro sorted before result call noError
    cases fio with
    | none => exact packs_nullptr call noError
    | some fio =>
        cases before with
        | none =>
            cases call
            exact absurd noError (by decide : ¬ (0 : Int) ≤ ioIpcArgErr)
        | some iovecs =>
            rw [uringGetlines_eq] at call
            obtain ⟨all, reads, rfl⟩ := Option.map_eq_some_iff.mp call
            have read : consumed turns (some fio) vsize = some all.1 :=
              Option.map_eq_some_iff.mpr ⟨all, reads, rfl⟩
            exact ⟨all.1, _, read, rfl, (sorted all.1 read).packed iovecs⟩

/-- A line of five bytes and one of two. -/
def longThenShort (_ : Nat) : Turn := ⟨[97, 97, 97, 97, 10, 98, 10], .bytes 7⟩

/-- For entries of four bytes the call reports one line, which is in the second
entry; the first is as it was. -/
theorem longThenShort_not_packed : ¬ Packs longThenShort (some FileIo.started) 2 4 := by
  intro packs
  have read : consumed longThenShort (some FileIo.started) 2 =
      some [[97, 97, 97, 97, 10], [98, 10]] := by decide
  have sorted : TooLongLast 4 [[97, 97, 97, 97, 10], [98, 10]] := packs.tooLongLast read
  exact absurd sorted (by decide)

end FipsIpc.UringGetline
