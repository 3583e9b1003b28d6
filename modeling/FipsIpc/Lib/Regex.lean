import Mathlib.Computability.RegularExpressions

/-!
Contract: patterns and where they match in a text.

Owns: character classes, bounded repetitions and literals as Mathlib's regular
expressions, with their membership equations; matches of an expression between
two positions of a text, leftmost matches, and the rules that bound where a
match can be.

Does not own: any concrete pattern, text or scanner.
-/

set_option autoImplicit false

namespace FipsIpc.Lib.Regex

universe u

variable {α : Type u}

/-! ### Expressions -/

/-- One of the given characters. -/
def oneOf : List α → RegularExpression α
  | [] => 0
  | char :: rest => .char char + oneOf rest

/-- Exactly the given characters in order. -/
def literal : List α → RegularExpression α
  | [] => 1
  | char :: rest => .char char * literal rest

/-- At most `count` repetitions. -/
def upTo (expression : RegularExpression α) (count : Nat) : RegularExpression α :=
  (1 + expression) ^ count

/-- At least `low` repetitions and at most `low + more`. -/
def between (expression : RegularExpression α) (low more : Nat) : RegularExpression α :=
  expression ^ low * upTo expression more

theorem mem_oneOf {chars word : List α} :
    word ∈ (oneOf chars).matches' ↔ ∃ char ∈ chars, word = [char] := by
  induction chars with
  | nil => simp [oneOf, Language.notMem_zero]
  | cons first rest inductionHypothesis =>
      rw [oneOf, RegularExpression.matches'_add, Language.mem_add, inductionHypothesis,
        RegularExpression.matches'_char]
      simp only [List.mem_cons, exists_eq_or_imp]
      rfl

theorem mem_literal {text word : List α} : word ∈ (literal text).matches' ↔ word = text := by
  induction text generalizing word with
  | nil => exact Language.mem_one word
  | cons first rest inductionHypothesis =>
      rw [literal, RegularExpression.matches'_mul, Language.mem_mul]
      simp only [inductionHypothesis, RegularExpression.matches'_char]
      constructor
      · intro split
        rcases split with ⟨_, rfl, _, rfl, rfl⟩
        rfl
      · intro same
        subst same
        exact ⟨[first], rfl, rest, rfl, rfl⟩

theorem mem_pow_succ {expression : RegularExpression α} {word : List α} {count : Nat} :
    word ∈ (expression ^ (count + 1)).matches' ↔ ∃ first ∈ expression.matches',
      ∃ rest ∈ (expression ^ count).matches', first ++ rest = word := by
  rw [RegularExpression.matches'_pow, RegularExpression.matches'_pow, pow_succ', Language.mem_mul]

/-- Parts with a separator between them. -/
def separated (part : RegularExpression α) (separator : α) (count : Nat) : RegularExpression α :=
  (part * literal [separator]) ^ count * part

theorem intercalate_cons {separator : α} {first : List α} {parts : List (List α)}
    (more : parts ≠ []) : [separator].intercalate (first :: parts) =
      first ++ separator :: [separator].intercalate parts := by
  cases parts with
  | nil => exact absurd rfl more
  | cons second rest => simp [List.intercalate]

theorem intercalate_concat {separator : α} {parts : List (List α)} {last : List α}
    (nonempty : parts ≠ []) : [separator].intercalate (parts ++ [last]) =
      [separator].intercalate parts ++ separator :: last := by
  induction parts with
  | nil => exact absurd rfl nonempty
  | cons first rest inductionHypothesis =>
      by_cases more : rest = []
      · subst more
        simp [List.intercalate]
      · rw [List.cons_append, intercalate_cons (by simp), inductionHypothesis more,
          intercalate_cons more, List.append_assoc, List.cons_append]

theorem mem_separated_succ {part : RegularExpression α} {separator : α} {count : Nat}
    {word : List α} : word ∈ (separated part separator (count + 1)).matches' ↔
      ∃ first ∈ part.matches', ∃ rest ∈ (separated part separator count).matches',
        word = first ++ separator :: rest := by
  unfold separated
  rw [RegularExpression.matches'_mul, RegularExpression.matches'_pow, pow_succ', mul_assoc,
    ← RegularExpression.matches'_pow, ← RegularExpression.matches'_mul, Language.mem_mul]
  simp only [RegularExpression.matches'_mul part, Language.mem_mul, mem_literal]
  constructor
  · intro split
    rcases split with ⟨_, ⟨first, isFirst, _, rfl, rfl⟩, rest, isRest, rfl⟩
    exact ⟨first, isFirst, rest, isRest, by simp⟩
  · intro split
    rcases split with ⟨first, isFirst, rest, isRest, rfl⟩
    exact ⟨first ++ [separator], ⟨first, isFirst, _, rfl, rfl⟩, rest, isRest, by simp⟩

/-- The words are the joined lists of words. -/
theorem mem_separated {part : RegularExpression α} {separator : α} {count : Nat} {word : List α} :
    word ∈ (separated part separator count).matches' ↔ ∃ parts : List (List α),
      parts.length = count + 1 ∧ (∀ piece ∈ parts, piece ∈ part.matches') ∧
        word = [separator].intercalate parts := by
  induction count generalizing word with
  | zero =>
      have single : (separated part separator 0).matches' = part.matches' := by
        rw [separated, RegularExpression.matches'_mul, RegularExpression.matches'_pow, pow_zero,
          one_mul]
      rw [single]
      constructor
      · intro isPart
        exact ⟨[word], rfl, by simpa using isPart, by simp [List.intercalate]⟩
      · intro split
        rcases split with ⟨parts, length, allParts, rfl⟩
        rcases List.length_eq_one_iff.mp length with ⟨piece, rfl⟩
        simpa [List.intercalate] using allParts
  | succ count inductionHypothesis =>
      rw [mem_separated_succ]
      simp only [inductionHypothesis]
      constructor
      · intro split
        rcases split with ⟨first, isFirst, _, ⟨parts, length, allParts, rfl⟩, rfl⟩
        have more : parts ≠ [] := List.ne_nil_of_length_pos (by omega)
        exact ⟨first :: parts, by rw [List.length_cons, length],
          List.forall_mem_cons.mpr ⟨isFirst, allParts⟩, (intercalate_cons more).symm⟩
      · intro split
        rcases split with ⟨parts, length, allParts, rfl⟩
        cases parts with
        | nil => simp at length
        | cons first rest =>
            rw [List.forall_mem_cons] at allParts
            rw [List.length_cons, Nat.add_right_cancel_iff] at length
            have more : rest ≠ [] := List.ne_nil_of_length_pos (by omega)
            exact ⟨first, allParts.1, _, ⟨rest, length, allParts.2, rfl⟩, intercalate_cons more⟩

theorem mem_intercalate {separator char : α} {parts : List (List α)}
    (member : char ∈ [separator].intercalate parts) :
    char = separator ∨ ∃ piece ∈ parts, char ∈ piece := by
  induction parts with
  | nil => simp [List.intercalate] at member
  | cons first rest inductionHypothesis =>
      by_cases more : rest = []
      · subst more
        exact Or.inr ⟨first, by simp, by simpa [List.intercalate] using member⟩
      · rw [intercalate_cons more, List.mem_append, List.mem_cons] at member
        rcases member with inFirst | isSeparator | later
        · exact Or.inr ⟨first, by simp, inFirst⟩
        · exact Or.inl isSeparator
        · rcases inductionHypothesis later with isSeparator | ⟨piece, isPiece, inPiece⟩
          · exact Or.inl isSeparator
          · exact Or.inr ⟨piece, List.mem_cons_of_mem _ isPiece, inPiece⟩

/-- Separators are counted when no part has one. -/
theorem count_intercalate [DecidableEq α] {separator : α} {parts : List (List α)}
    (apart : ∀ piece ∈ parts, separator ∉ piece) :
    ([separator].intercalate parts).count separator = parts.length - 1 := by
  induction parts with
  | nil => simp [List.intercalate]
  | cons first rest inductionHypothesis =>
      rw [List.forall_mem_cons] at apart
      have none := List.count_eq_zero.mpr apart.1
      by_cases more : rest = []
      · subst more
        simpa [List.intercalate] using none
      · have length : 0 < rest.length := List.length_pos_iff.mpr more
        rw [intercalate_cons more, List.count_append, none, List.count_cons_self,
          inductionHypothesis apart.2, List.length_cons]
        omega

theorem double_of_append {separator : α} {front back : List α} (apart : separator ∉ front)
    (double : [separator, separator] <:+: front ++ back) : [separator, separator] <:+: back := by
  induction front with
  | nil => exact double
  | cons first rest inductionHypothesis =>
      rw [List.mem_cons, not_or] at apart
      rw [List.cons_append, List.infix_cons_iff] at double
      rcases double with atFront | later
      · exact absurd (List.cons_prefix_cons.mp atFront).1 apart.1
      · exact inductionHypothesis apart.2 later

/-- Joined parts that are not empty have no adjacent separators. -/
theorem not_double_intercalate {separator : α} {parts : List (List α)}
    (nonempty : ∀ part ∈ parts, part ≠ []) (apart : ∀ part ∈ parts, separator ∉ part) :
    ¬ [separator, separator] <:+: [separator].intercalate parts := by
  induction parts with
  | nil => simp [List.intercalate]
  | cons first rest inductionHypothesis =>
      rw [List.forall_mem_cons] at nonempty apart
      intro double
      cases rest with
      | nil =>
          have inFirst : [separator, separator] <:+: first ++ [] := by
            simpa [List.intercalate] using double
          simpa using double_of_append apart.1 inFirst
      | cons second more =>
          rw [intercalate_cons (List.cons_ne_nil _ _)] at double
          rcases List.infix_cons_iff.mp (double_of_append apart.1 double) with atFront | later
          · -- The second separator would be the first character of a part.
            have head := (List.cons_prefix_cons.mp atFront).2
            rcases List.exists_cons_of_ne_nil (nonempty.2 second (by simp)) with ⟨char, tail, rfl⟩
            have joined : ∃ others, [separator].intercalate ((char :: tail) :: more) =
                char :: others := by
              cases more with
              | nil => exact ⟨tail, by simp [List.intercalate]⟩
              | cons third others => exact ⟨_, intercalate_cons (List.cons_ne_nil _ _)⟩
            rcases joined with ⟨others, joined⟩
            rw [joined] at head
            have same := (List.cons_prefix_cons.mp head).1
            exact apart.2 (char :: tail) (by simp) (by simp [same])
          · exact inductionHypothesis nonempty.2 apart.2 later

/-- A class repeated a fixed number of times. -/
theorem mem_pow_oneOf {chars word : List α} {count : Nat} :
    word ∈ ((oneOf chars) ^ count).matches' ↔
      word.length = count ∧ ∀ char ∈ word, char ∈ chars := by
  induction count generalizing word with
  | zero =>
      rw [RegularExpression.matches'_pow, pow_zero, Language.mem_one, List.length_eq_zero_iff]
      constructor
      · intro same
        subst same
        simp
      · exact fun facts => facts.1
  | succ count inductionHypothesis =>
      rw [mem_pow_succ]
      simp only [inductionHypothesis, mem_oneOf]
      constructor
      · intro split
        rcases split with ⟨_, ⟨char, isChar, rfl⟩, rest, ⟨length, inClass⟩, rfl⟩
        exact ⟨by simp [length], by simpa using ⟨isChar, inClass⟩⟩
      · intro facts
        rcases facts with ⟨length, inClass⟩
        cases word with
        | nil => simp at length
        | cons char rest =>
            rw [List.forall_mem_cons] at inClass
            exact ⟨[char], ⟨char, inClass.1, rfl⟩, rest, ⟨by simpa using length, inClass.2⟩, rfl⟩

/-- A class repeated up to a number of times. -/
theorem mem_upTo_oneOf {chars word : List α} {count : Nat} :
    word ∈ (upTo (oneOf chars) count).matches' ↔
      word.length ≤ count ∧ ∀ char ∈ word, char ∈ chars := by
  unfold upTo
  induction count generalizing word with
  | zero =>
      rw [RegularExpression.matches'_pow, pow_zero, Language.mem_one, Nat.le_zero,
        List.length_eq_zero_iff]
      constructor
      · intro same
        subst same
        simp
      · exact fun facts => facts.1
  | succ count inductionHypothesis =>
      rw [mem_pow_succ]
      simp only [inductionHypothesis, RegularExpression.matches'_add, Language.mem_add,
        RegularExpression.matches'_epsilon, Language.mem_one, mem_oneOf]
      constructor
      · intro split
        rcases split with ⟨_, rfl | ⟨char, isChar, rfl⟩, rest, ⟨length, inClass⟩, rfl⟩
        · exact ⟨by simpa using Nat.le_succ_of_le length, by simpa using inClass⟩
        · exact ⟨by simpa using length, by simpa using ⟨isChar, inClass⟩⟩
      · intro facts
        rcases facts with ⟨length, inClass⟩
        cases word with
        | nil => exact ⟨[], Or.inl rfl, [], ⟨Nat.zero_le _, by simp⟩, rfl⟩
        | cons char rest =>
            rw [List.forall_mem_cons] at inClass
            exact ⟨[char], Or.inr ⟨char, inClass.1, rfl⟩, rest,
              ⟨by simpa using length, inClass.2⟩, rfl⟩

/-- A class repeated between two numbers of times. -/
theorem mem_between_oneOf {chars word : List α} {low more : Nat} :
    word ∈ (between (oneOf chars) low more).matches' ↔
      low ≤ word.length ∧ word.length ≤ low + more ∧ ∀ char ∈ word, char ∈ chars := by
  rw [between, RegularExpression.matches'_mul, Language.mem_mul]
  simp only [mem_pow_oneOf, mem_upTo_oneOf]
  constructor
  · intro split
    rcases split with ⟨front, ⟨frontLength, frontIn⟩, back, ⟨backLength, backIn⟩, rfl⟩
    rw [List.length_append]
    refine ⟨by omega, by omega, fun char member => ?_⟩
    rcases List.mem_append.mp member with inFront | inBack
    · exact frontIn char inFront
    · exact backIn char inBack
  · intro facts
    rcases facts with ⟨atLeast, atMost, inClass⟩
    have backLength : (word.drop low).length ≤ more := by
      rw [List.length_drop]
      omega
    refine ⟨word.take low, ⟨by simpa using atLeast, fun char member => ?_⟩,
      word.drop low, ⟨backLength, fun char member => ?_⟩, List.take_append_drop _ _⟩
    · exact inClass char (List.mem_of_mem_take member)
    · exact inClass char (List.mem_of_mem_drop member)

/-! ### Positions -/

/-- The part of a text between two positions. -/
def excerpt (text : List α) (start stop : Nat) : List α := (text.drop start).take (stop - start)

/-- The expression matches the text between two positions. -/
def Match (expression : RegularExpression α) (text : List α) (start stop : Nat) : Prop :=
  start ≤ stop ∧ stop ≤ text.length ∧ excerpt text start stop ∈ expression.matches'

/-- A match that no match with the same end precedes. -/
def LeftmostMatch (expression : RegularExpression α) (text : List α) (start stop : Nat) : Prop :=
  Match expression text start stop ∧ ∀ earlier < start, ¬ Match expression text earlier stop

/-- The first position where a match ends. -/
def FirstEnd (expression : RegularExpression α) (text : List α) (stop : Nat) : Prop :=
  (∃ start < stop + 1, Match expression text start stop) ∧
    ∀ earlier < stop, ¬ ∃ start < earlier + 1, Match expression text start earlier

section Decide

variable [DecidableEq α]

instance (expression : RegularExpression α) (text : List α) (start stop : Nat) :
    Decidable (Match expression text start stop) := inferInstanceAs (Decidable (_ ∧ _ ∧ _))

instance (expression : RegularExpression α) (text : List α) (start stop : Nat) :
    Decidable (LeftmostMatch expression text start stop) := inferInstanceAs (Decidable (_ ∧ _))

instance (expression : RegularExpression α) (text : List α) (stop : Nat) :
    Decidable (FirstEnd expression text stop) := inferInstanceAs (Decidable (_ ∧ _))

end Decide

section Positions

variable {expression : RegularExpression α} {text : List α} {start stop position : Nat}

theorem getElem?_excerpt {offset : Nat} (inside : offset < stop - start) :
    (excerpt text start stop)[offset]? = text[start + offset]? := by
  rw [excerpt, List.getElem?_take_of_lt inside, List.getElem?_drop]

/-- A part of a part. -/
theorem excerpt_isInfix {low high : Nat} (lower : low ≤ start) (upper : stop ≤ high) :
    excerpt text start stop <:+: excerpt text low high := by
  have behind : text.drop start = (text.drop low).drop (start - low) := by
    rw [List.drop_drop, Nat.add_sub_cancel' lower]
  have inner : excerpt text start stop =
      ((excerpt text low high).drop (start - low)).take (stop - start) := by
    unfold excerpt
    rw [behind, List.drop_take, List.take_take]
    congr 1
    omega
  rw [inner]
  exact (List.take_prefix _ _).isInfix.trans (List.drop_suffix _ _).isInfix

theorem count_excerpt_le [DecidableEq α] (text : List α) {low high : Nat} (lower : low ≤ start)
    (upper : stop ≤ high) (char : α) :
    (excerpt text start stop).count char ≤ (excerpt text low high).count char :=
  (excerpt_isInfix lower upper).sublist.count_le char

theorem match_add {other : RegularExpression α} : Match (expression + other) text start stop ↔
    Match expression text start stop ∨ Match other text start stop := by
  unfold Match
  rw [RegularExpression.matches'_add, Language.mem_add]
  tauto

/-- A match contains no character that its words cannot have. -/
theorem Match.avoids {allowed : α → Prop} (found : Match expression text start stop)
    (words : ∀ word ∈ expression.matches', ∀ char ∈ word, allowed char) {char : α}
    (present : text[position]? = some char) (foreign : ¬ allowed char) :
    stop ≤ position ∨ position < start := by
  by_contra inside
  have offset : position - start < stop - start := by omega
  have member : char ∈ excerpt text start stop := by
    apply List.mem_of_getElem?
    rw [getElem?_excerpt offset, Nat.add_sub_cancel' (by omega), present]
  exact foreign (words _ found.2.2 char member)

/-- A match ends with the last character of its words. -/
theorem Match.last {last : α} (found : Match expression text start stop)
    (words : ∀ word ∈ expression.matches', word.getLast? = some last) :
    start < stop ∧ text[stop - 1]? = some last := by
  have ends := words _ found.2.2
  have ordered := found.1
  have bounded := found.2.1
  have length : (excerpt text start stop).length = stop - start := by
    rw [excerpt, List.length_take, List.length_drop]
    omega
  rw [List.getLast?_eq_getElem?, length] at ends
  have nonempty : start < stop := by
    by_contra empty
    rw [List.getElem?_eq_none (by omega)] at ends
    cases ends
  rw [getElem?_excerpt (by omega)] at ends
  refine ⟨nonempty, ?_⟩
  rw [← ends]
  congr 1
  omega

/-- Where a match starts, no later start is leftmost. -/
theorem LeftmostMatch.le {other : Nat} (leftmost : LeftmostMatch expression text start stop)
    (found : Match expression text other stop) : start ≤ other := by
  by_contra later
  exact leftmost.2 other (by omega) found

theorem LeftmostMatch.unique {other : Nat} (left : LeftmostMatch expression text start stop)
    (right : LeftmostMatch expression text other stop) : start = other :=
  Nat.le_antisymm (left.le right.1) (right.le left.1)

theorem FirstEnd.unique {left right : Nat} (isLeft : FirstEnd expression text left)
    (isRight : FirstEnd expression text right) : left = right := by
  rcases Nat.lt_trichotomy left right with before | same | after
  · exact absurd isLeft.1 (isRight.2 left before)
  · exact same
  · exact absurd isRight.1 (isLeft.2 right after)

/-- A character of a match has a position. -/
theorem mem_excerpt {char : α} (member : char ∈ excerpt text start stop) :
    ∃ position, start ≤ position ∧ position < stop ∧ text[position]? = some char := by
  obtain ⟨offset, found⟩ := List.mem_iff_getElem?.mp member
  have inside : offset < stop - start := by
    have bounded := (List.getElem?_eq_some_iff.mp found).1
    rw [excerpt, List.length_take] at bounded
    omega
  rw [getElem?_excerpt inside] at found
  exact ⟨start + offset, by omega, by omega, found⟩

/-- A match is no shorter than its words. -/
theorem Match.length (found : Match expression text start stop) {least : Nat}
    (words : ∀ word ∈ expression.matches', least ≤ word.length) : start + least ≤ stop := by
  have ordered := found.1
  have bounded := found.2.1
  have long := words _ found.2.2
  rw [excerpt, List.length_take, List.length_drop] at long
  omega

end Positions

/-! ### Joined texts -/

section Joined

variable {expression : RegularExpression α} {front : List α} {start stop : Nat}

theorem excerpt_append_left (back : List α) (inside : stop ≤ front.length) :
    excerpt (front ++ back) start stop = excerpt front start stop := by
  rcases Nat.le_total start stop with ordered | reversed
  · rw [excerpt, excerpt, List.drop_append_of_le_length (by omega),
      List.take_append_of_le_length (by rw [List.length_drop]; omega)]
  · rw [excerpt, excerpt, Nat.sub_eq_zero_of_le reversed, List.take_zero, List.take_zero]

theorem excerpt_append_right (front back : List α) (start stop : Nat) :
    excerpt (front ++ back) (front.length + start) (front.length + stop) =
      excerpt back start stop := by
  have width : front.length + stop - (front.length + start) = stop - start := by omega
  rw [excerpt, excerpt, List.drop_length_add_append, width]

/-- What matches up to a position does not depend on the text behind it. -/
theorem match_append_left (back : List α) (inside : stop ≤ front.length) :
    Match expression (front ++ back) start stop ↔ Match expression front start stop := by
  unfold Match
  rw [excerpt_append_left back inside, List.length_append]
  constructor
  · exact fun found => ⟨found.1, inside, found.2.2⟩
  · exact fun found => ⟨found.1, by omega, found.2.2⟩

theorem match_append_right (front back : List α) (start stop : Nat) :
    Match expression (front ++ back) (front.length + start) (front.length + stop) ↔
      Match expression back start stop := by
  unfold Match
  rw [excerpt_append_right, List.length_append, Nat.add_le_add_iff_left, Nat.add_le_add_iff_left]

theorem leftmostMatch_append_left (back : List α) (inside : stop ≤ front.length) :
    LeftmostMatch expression (front ++ back) start stop ↔
      LeftmostMatch expression front start stop := by
  unfold LeftmostMatch
  simp only [match_append_left back inside]

theorem firstEnd_append_left (back : List α) (inside : stop ≤ front.length) :
    FirstEnd expression (front ++ back) stop ↔ FirstEnd expression front stop := by
  unfold FirstEnd
  simp only [match_append_left back inside]
  refine and_congr_right fun _ => forall₂_congr fun earlier before => ?_
  simp only [match_append_left back (before.le.trans inside)]

end Joined

end FipsIpc.Lib.Regex
