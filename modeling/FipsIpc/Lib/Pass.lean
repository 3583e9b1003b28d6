import Mathlib.Data.List.Rotate

/-!
Contract: one pass round a list that shrinks behind the visitor.

Owns: a visitor that goes round the positions of a list, from any of them on and
for as many visits as there were entries at the start; the first entries stay,
any other is taken out once it has been visited.  Which entries the visitor
comes to, and when it leaves the list.

The visitor moves on by one position also where the list has closed up, so that
it passes over every second of the entries that are taken out.

Does not own: what a visitor looks for.
-/

set_option autoImplicit false

namespace FipsIpc.Lib

variable {α : Type*}

/-! ### The visitor -/

/-- The position after `position`, of `size` in a circle. -/
def nextPosition (size position : Nat) : Nat := if size ≤ position + 1 then 0 else position + 1

/-- The entries visited with their positions, and what is left of the list;
`none` when a position is past its end. -/
def pass (fixed size : Nat) : (tries position : Nat) → List α → List (α × Nat) × Option (List α)
  | 0, _, entries => ([], some entries)
  | tries + 1, position, entries =>
      match entries[position]? with
      | none => ([], none)
      | some entry =>
          let later := pass fixed size tries (nextPosition size position)
            (if position < fixed then entries else entries.eraseIdx position)
          ((entry, position) :: later.1, later.2)

/-- The first entry of a list, the third, and so on. -/
def everySecond : List α → List α
  | [] => []
  | [entry] => [entry]
  | entry :: _ :: rest => entry :: everySecond rest

/-- The entries a whole pass from `start` on visits inside the list. -/
def passOrder (start : Nat) (fixed removed : List α) : List α :=
  fixed.drop start ++ everySecond (removed.drop (start - fixed.length)) ++
    if removed.length ≤ start - fixed.length + 1 then
      fixed.take start ++ everySecond (removed.take (start - fixed.length))
    else []

/-! ### Steps -/

theorem nextPosition_eq_mod {size position : Nat} (inside : position < size) :
    nextPosition size position = (position + 1) % size := by
  unfold nextPosition
  split
  case isTrue last =>
    have whole : position + 1 = size := Nat.le_antisymm inside last
    rw [whole, Nat.mod_self]
  case isFalse earlier => exact (Nat.mod_eq_of_lt (Nat.not_le.mp earlier)).symm

variable {fixed size tries position : Nat} {entries front rest : List α}

theorem pass_visit {entry : α} (found : entries[position]? = some entry) :
    pass fixed size (tries + 1) position entries =
      ((entry, position) :: (pass fixed size tries (nextPosition size position)
          (if position < fixed then entries else entries.eraseIdx position)).1,
        (pass fixed size tries (nextPosition size position)
          (if position < fixed then entries else entries.eraseIdx position)).2) := by
  rw [pass, found]

theorem pass_outside (absent : entries.length ≤ position) :
    pass fixed size (tries + 1) position entries = ([], none) := by
  rw [pass, List.getElem?_eq_none absent]

/-- A visit among the entries that are taken out. -/
theorem pass_removed {entry : α} (late : fixed ≤ front.length) :
    pass fixed size (tries + 1) front.length (front ++ entry :: rest) =
      ((entry, front.length) ::
          (pass fixed size tries (nextPosition size front.length) (front ++ rest)).1,
        (pass fixed size tries (nextPosition size front.length) (front ++ rest)).2) := by
  have found : (front ++ entry :: rest)[front.length]? = some entry := by
    rw [List.getElem?_append_right (Nat.le_refl _), Nat.sub_self]
    rfl
  have erased : (front ++ entry :: rest).eraseIdx front.length = front ++ rest := by
    rw [List.eraseIdx_append_of_length_le (Nat.le_refl _), Nat.sub_self]
    rfl
  rw [pass_visit found, if_neg (Nat.not_lt.mpr late), erased]

/-- The entry behind one that is taken out is passed over. -/
theorem pass_skip {entry skipped : α} (late : fixed ≤ front.length)
    (inside : front.length + 1 < size) :
    pass fixed size (tries + 1) front.length (front ++ entry :: skipped :: rest) =
      ((entry, front.length) ::
          (pass fixed size tries (front ++ [skipped]).length ((front ++ [skipped]) ++ rest)).1,
        (pass fixed size tries (front ++ [skipped]).length ((front ++ [skipped]) ++ rest)).2) := by
  have next : nextPosition size front.length = (front ++ [skipped]).length := by
    rw [List.length_append]
    exact if_neg (Nat.not_le.mpr inside)
  have closedUp : front ++ skipped :: rest = (front ++ [skipped]) ++ rest := by
    rw [List.append_assoc, List.singleton_append]
  rw [pass_removed late, next, closedUp]

/-- Visits among the entries that stay. -/
theorem pass_fixed {count : Nat} (inside : position + count ≤ fixed)
    (present : fixed ≤ entries.length) (whole : entries.length ≤ size) (start : position < size) :
    pass fixed size (count + tries) position entries =
      ((entries.zipIdx.drop position).take count ++
          (pass fixed size tries (if size ≤ position + count then 0 else position + count)
            entries).1,
        (pass fixed size tries (if size ≤ position + count then 0 else position + count)
          entries).2) := by
  induction count generalizing tries with
  | zero =>
      rw [Nat.zero_add, Nat.add_zero, if_neg (Nat.not_le.mpr start), List.take_zero,
        List.nil_append]
  | succ count inductionHypothesis =>
      have here : position + count < entries.length := by omega
      have found : entries[position + count]? = some entries[position + count] :=
        List.getElem?_eq_getElem here
      have pair : (entries.zipIdx.drop position)[count]? =
          some (entries[position + count], position + count) := by
        rw [List.getElem?_drop, List.getElem?_zipIdx, found]
        simp only [Option.map_some, Nat.zero_add]
      have next : nextPosition size (position + count) =
          if size ≤ position + (count + 1) then 0 else position + (count + 1) := rfl
      rw [Nat.add_assoc, Nat.add_comm 1 tries, inductionHypothesis (by omega),
        if_neg (by omega : ¬size ≤ position + count), pass_visit found,
        if_pos (by omega : position + count < fixed), next, List.take_add_one, pair,
        Option.toList_some, List.append_assoc, List.singleton_append]

/-! ### Leaving the list -/

/-- Where fewer entries are left than positions the visitor runs past them. -/
theorem pass_gap (late : fixed ≤ front.length) (gap : front.length + rest.length < size)
    (enough : (rest.length + 1) / 2 < tries) :
    (pass fixed size tries front.length (front ++ rest)).1.map Prod.fst = everySecond rest ∧
      (pass fixed size tries front.length (front ++ rest)).2 = none := by
  induction rest using everySecond.induct generalizing front tries with
  | case1 =>
      obtain ⟨later, rfl⟩ : ∃ later, tries = later + 1 := ⟨tries - 1, by omega⟩
      rw [List.append_nil, pass_outside (Nat.le_refl _)]
      exact ⟨rfl, rfl⟩
  | case2 entry =>
      simp only [List.length_singleton] at gap enough
      obtain ⟨later, rfl⟩ : ∃ later, tries = later + 2 := ⟨tries - 2, by omega⟩
      have next : nextPosition size front.length = front.length + 1 := if_neg (by omega)
      rw [pass_removed late, next, List.append_nil, pass_outside (Nat.le_succ _)]
      exact ⟨rfl, rfl⟩
  | case3 entry skipped rest inductionHypothesis =>
      simp only [List.length_cons] at gap enough
      obtain ⟨later, rfl⟩ : ∃ later, tries = later + 1 := ⟨tries - 1, by omega⟩
      have length : (front ++ [skipped]).length = front.length + 1 := List.length_append
      have remaining := @inductionHypothesis later (front ++ [skipped]) (by omega) (by omega)
        (by omega)
      rw [pass_skip late (by omega)]
      exact ⟨congrArg (entry :: ·) remaining.1, remaining.2⟩

/-- Two entries that are taken out at the end of the list make the visitor run
past it. -/
theorem pass_end (late : fixed ≤ front.length) (whole : front.length + rest.length = size)
    (several : 2 ≤ rest.length) (enough : rest.length ≤ tries) :
    (pass fixed size tries front.length (front ++ rest)).1.map Prod.fst = everySecond rest ∧
      (pass fixed size tries front.length (front ++ rest)).2 = none := by
  match rest, several with
  | entry :: skipped :: rest, _ =>
      simp only [List.length_cons] at whole enough
      obtain ⟨later, rfl⟩ : ∃ later, tries = later + 1 := ⟨tries - 1, by omega⟩
      have length : (front ++ [skipped]).length = front.length + 1 := List.length_append
      have late' : fixed ≤ (front ++ [skipped]).length := by omega
      have gap : (front ++ [skipped]).length + rest.length < size := by omega
      have remaining := pass_gap late' gap (by omega : (rest.length + 1) / 2 < later)
      rw [pass_skip late (by omega)]
      exact ⟨congrArg (entry :: ·) remaining.1, remaining.2⟩

/-- The last entry taken out brings the visitor back to the start. -/
theorem pass_last {entry : α} (late : fixed ≤ front.length) (whole : front.length + 1 = size) :
    pass fixed size (tries + 1) front.length (front ++ [entry]) =
      ((entry, front.length) :: (pass fixed size tries 0 front).1,
        (pass fixed size tries 0 front).2) := by
  have next : nextPosition size front.length = 0 := if_pos (by omega)
  rw [pass_removed late, next, List.append_nil]

/-! ### Whole passes -/

section Whole

variable {stay go : List α} {start : Nat}

/-- The position of a visit tells which part of the list its entry is from. -/
theorem mem_pass {place : α × Nat}
    (member : place ∈ (pass stay.length size tries position (stay ++ go)).1) :
    (place.2 < stay.length → place.1 ∈ stay) ∧ (stay.length ≤ place.2 → place.1 ∈ go) := by
  induction tries generalizing position go with
  | zero => exact absurd member List.not_mem_nil
  | succ tries inductionHypothesis =>
      cases found : (stay ++ go)[position]? with
      | none =>
          rw [pass_outside (List.getElem?_eq_none_iff.mp found)] at member
          exact absurd member List.not_mem_nil
      | some entry =>
          rw [pass_visit found] at member
          rcases List.mem_cons.mp member with rfl | later
          · constructor
            · intro early
              rw [List.getElem?_append_left early] at found
              exact List.mem_of_getElem? found
            · intro late
              rw [List.getElem?_append_right late] at found
              exact List.mem_of_getElem? found
          · by_cases early : position < stay.length
            · rw [if_pos early] at later
              exact inductionHypothesis later
            · rw [if_neg early, List.eraseIdx_append_of_length_le (Nat.not_lt.mp early)] at later
              have parts := inductionHypothesis later
              exact ⟨parts.1, fun late => List.mem_of_mem_eraseIdx (parts.2 late)⟩

/-- The second half of a pass that began among the entries that stay. -/
theorem pass_back (inside : start ≤ stay.length) (bound : stay.length ≤ size)
    (positive : 0 < size) :
    pass stay.length size start 0 stay = (stay.zipIdx.take start, some stay) := by
  have visits := @pass_fixed α stay.length size 0 0 stay start (by omega) (Nat.le_refl _) bound
    positive
  rw [Nat.add_zero] at visits
  rw [visits, List.drop_zero, pass, List.append_nil]

theorem map_fst_take_drop_zipIdx (skip count : Nat) (entries : List α) :
    ((entries.zipIdx.drop skip).take count).map Prod.fst = (entries.drop skip).take count := by
  rw [List.map_take, List.map_drop, List.zipIdx_map_fst]

/-- The second half of a pass that began among the entries that are taken out,
of which the last has gone. -/
theorem pass_back_removed (whole : stay.length + rest.length + 1 = size) :
    (pass stay.length size (stay.length + rest.length) 0 (stay ++ rest)).1.map Prod.fst =
        stay ++ everySecond rest ∧
      (pass stay.length size (stay.length + rest.length) 0 (stay ++ rest)).2 =
        if rest.length ≤ 1 then some stay else none := by
  have length : (stay ++ rest).length = stay.length + rest.length := List.length_append
  rw [pass_fixed (by omega) (by omega) (by omega) (by omega), if_neg (by omega), Nat.zero_add,
    List.map_append, map_fst_take_drop_zipIdx, List.drop_zero, List.take_left]
  match rest with
  | [] =>
      rw [List.append_nil]
      exact ⟨rfl, rfl⟩
  | [entry] =>
      rw [List.length_singleton, pass_removed (Nat.le_refl _), List.append_nil]
      exact ⟨rfl, rfl⟩
  | first :: second :: later =>
      simp only [List.length_cons] at whole ⊢
      have left := pass_gap (Nat.le_refl stay.length)
        (by simp only [List.length_cons]; omega :
          stay.length + (first :: second :: later).length < size)
        (by simp only [List.length_cons]; omega :
          ((first :: second :: later).length + 1) / 2 < later.length + 1 + 1)
      rw [left.1, if_neg (by omega)]
      exact ⟨rfl, left.2⟩

/-- A pass from the entries that are taken out on. -/
theorem pass_from_removed (late : stay.length ≤ front.length)
    (whole : front.length + rest.length = size) (present : rest ≠ []) (tries : Nat) :
    (pass stay.length size (rest.length + tries) front.length (front ++ rest)).1.map Prod.fst =
        everySecond rest ++
          (if rest.length ≤ 1 then (pass stay.length size tries 0 front).1.map Prod.fst else []) ∧
      (pass stay.length size (rest.length + tries) front.length (front ++ rest)).2 =
        if rest.length ≤ 1 then (pass stay.length size tries 0 front).2 else none := by
  match rest, present with
  | [entry], _ =>
      rw [List.length_singleton, Nat.add_comm 1 tries, pass_last late whole]
      exact ⟨rfl, rfl⟩
  | first :: second :: later, _ =>
      have left := pass_end late whole (by simp only [List.length_cons]; omega)
        (Nat.le_add_right _ tries)
      have several : ¬(first :: second :: later).length ≤ 1 := by
        simp only [List.length_cons]
        omega
      rw [left.1, left.2, if_neg several, if_neg several, List.append_nil]
      exact ⟨rfl, rfl⟩

theorem pass_order_early (early : start < stay.length) :
    (pass stay.length (stay ++ go).length (stay ++ go).length start (stay ++ go)).1.map Prod.fst =
        passOrder start stay go ∧
      (pass stay.length (stay ++ go).length (stay ++ go).length start (stay ++ go)).2 =
        if go.length ≤ 1 then some stay else none := by
  have length : (stay ++ go).length = stay.length + go.length := List.length_append
  have before : start - stay.length = 0 := by omega
  have split : (stay ++ go).length = (stay.length - start) + (go.length + start) := by omega
  have visits := @pass_fixed α stay.length (stay ++ go).length (go.length + start) start
    (stay ++ go) (stay.length - start) (by omega) (by omega) (Nat.le_refl _) (by omega)
  have first : (((stay ++ go).drop start).take (stay.length - start)) = stay.drop start := by
    rw [List.drop_append_of_le_length (Nat.le_of_lt early)]
    exact List.take_left' List.length_drop
  have back := pass_back (Nat.le_of_lt early) (by omega : stay.length ≤ (stay ++ go).length)
    (by omega)
  have second : (stay.zipIdx.take start).map Prod.fst = stay.take start := by
    rw [List.map_take, List.zipIdx_map_fst]
  rw [← split, Nat.add_sub_cancel' (Nat.le_of_lt early)] at visits
  rw [visits, List.map_append, map_fst_take_drop_zipIdx, first, passOrder, before,
    List.drop_zero, List.take_zero, everySecond, List.append_nil]
  cases go with
  | nil =>
      simp only [List.append_nil, List.length_nil, Nat.zero_add, Nat.le_refl, if_true] at back ⊢
      rw [back, second, everySecond, List.append_nil, if_pos (Nat.zero_le 1)]
      exact ⟨rfl, rfl⟩
  | cons entry later =>
      have removed := pass_from_removed (Nat.le_refl stay.length) length.symm
        (List.cons_ne_nil entry later) start
      rw [if_neg (by simp only [length, List.length_cons]; omega), removed.1, removed.2, back,
        second, List.append_assoc]
      exact ⟨rfl, rfl⟩

theorem pass_order_late (late : stay.length ≤ start) (inside : start < (stay ++ go).length) :
    (pass stay.length (stay ++ go).length (stay ++ go).length start (stay ++ go)).1.map Prod.fst =
        passOrder start stay go ∧
      (pass stay.length (stay ++ go).length (stay ++ go).length start (stay ++ go)).2 =
        if go.length ≤ start - stay.length + 1 ∧ start - stay.length ≤ 1 then some stay
        else none := by
  have length : (stay ++ go).length = stay.length + go.length := List.length_append
  set skipped := start - stay.length with skippedDef
  have front : (stay ++ go.take skipped).length = start := by
    rw [List.length_append, List.length_take]
    omega
  have rest : (go.drop skipped).length = go.length - skipped := List.length_drop
  have split : stay ++ go = (stay ++ go.take skipped) ++ go.drop skipped := by
    rw [List.append_assoc, List.take_append_drop]
  have present : go.drop skipped ≠ [] := by
    rw [← List.length_pos_iff]
    omega
  have removed := pass_from_removed (by omega : stay.length ≤ (stay ++ go.take skipped).length)
    (by omega : _ + (go.drop skipped).length = (stay ++ go).length) present start
  have tries : (go.drop skipped).length + start = (stay ++ go).length := by omega
  rw [← split, front, tries] at removed
  rw [removed.1, removed.2, passOrder, ← skippedDef, List.drop_eq_nil_of_le late,
    List.nil_append, rest]
  rcases Nat.lt_or_ge (skipped + 1) go.length with several | single
  · rw [if_neg (by omega), if_neg (by omega), if_neg (by omega), if_neg (by omega)]
    exact ⟨rfl, rfl⟩
  · have taken : (go.take skipped).length = skipped := by
      rw [List.length_take]
      omega
    have back := pass_back_removed (by omega :
      stay.length + (go.take skipped).length + 1 = (stay ++ go).length)
    rw [taken, (by omega : stay.length + skipped = start)] at back
    have lastOne : go.length - skipped ≤ 1 := by omega
    rw [if_pos lastOne, if_pos lastOne, if_pos single, back.1, back.2,
      List.take_of_length_le late]
    refine ⟨rfl, ?_⟩
    by_cases few : skipped ≤ 1
    · rw [if_pos few, if_pos ⟨single, few⟩]
    · rw [if_neg few, if_neg (fun both => few both.2)]

/-- **What a whole pass comes to.**  It stays inside the list exactly when at
most one entry is taken out in either half. -/
theorem pass_order (inside : start < (stay ++ go).length) :
    (pass stay.length (stay ++ go).length (stay ++ go).length start (stay ++ go)).1.map Prod.fst =
        passOrder start stay go ∧
      (pass stay.length (stay ++ go).length (stay ++ go).length start (stay ++ go)).2 =
        if go.length ≤ start - stay.length + 1 ∧ start - stay.length ≤ 1 then some stay
        else none := by
  rcases Nat.lt_or_ge start stay.length with early | late
  · have before : start - stay.length = 0 := Nat.sub_eq_zero_of_le (Nat.le_of_lt early)
    simpa only [before, Nat.zero_add, Nat.zero_le, and_true] using pass_order_early early
  · exact pass_order_late late inside

/-- Nothing is taken out of a list whose entries all stay. -/
theorem pass_stay (inside : start < stay.length) :
    pass stay.length stay.length stay.length start stay =
      (stay.zipIdx.rotate start, some stay) := by
  have visits := @pass_fixed α stay.length stay.length start start stay (stay.length - start)
    (by omega) (Nat.le_refl _) (Nat.le_refl _) inside
  rw [Nat.sub_add_cancel (Nat.le_of_lt inside), Nat.add_sub_cancel' (Nat.le_of_lt inside),
    if_pos (Nat.le_refl _), pass_back (Nat.le_of_lt inside) (Nat.le_refl _) (by omega)] at visits
  have whole : (stay.zipIdx.drop start).length = stay.length - start := by
    rw [List.length_drop, List.length_zipIdx]
  have early : start ≤ stay.zipIdx.length := by
    rw [List.length_zipIdx]
    exact Nat.le_of_lt inside
  rw [visits, List.take_of_length_le (Nat.le_of_eq whole), List.rotate_eq_drop_append_take early]

end Whole

/-- Either every entry of a list has a property or there is a first without it. -/
theorem all_or_first (property : α → Prop) [DecidablePred property] (entries : List α) :
    (∀ entry ∈ entries, property entry) ∨
      ∃ before entry after, entries = before ++ entry :: after ∧
        (∀ earlier ∈ before, property earlier) ∧ ¬property entry := by
  cases search : entries.find? (fun entry => !decide (property entry)) with
  | none =>
      left
      simpa only [List.find?_eq_none, Bool.not_eq_true', decide_eq_false_iff_not, not_not] using
        search
  | some entry =>
      right
      rcases List.find?_eq_some_iff_append.mp search with ⟨fails, before, after, split, earlier⟩
      refine ⟨before, entry, after, split, ?_, by simpa using fails⟩
      intro other member
      simpa using earlier other member

end FipsIpc.Lib
