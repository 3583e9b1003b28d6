import FipsIpc.Sf2b.Agreement

/-!
Contract: the matches of a buffer whose first bytes are a line.

Owns: that no two matches end at the same position, that the matches of the buffer
are those of the line and then others behind it, and how much room the matches
behind the line need.

No pattern matches a newline or a NUL, so no match reaches over the end of the
line.

Does not own: what the handler does with the matches.
-/

set_option autoImplicit false

namespace FipsIpc.Sf2b

open FipsIpc.IpHashtable FipsIpc.Lib.Regex FipsIpc.UdpServer

/-- A line ends in a newline or in a NUL. -/
def EndsLine (line : List UInt8) : Prop := line.getLast? = some 10 ∨ line.getLast? = some 0

instance (line : List UInt8) : Decidable (EndsLine line) := inferInstanceAs (Decidable (_ ∨ _))

/-! ### Where matches end -/

section Ends

variable {block : List UInt8} {event : MatchEvent} {start stop : Nat}

/-- What is reported, pattern by pattern. -/
theorem Reported.inv (reported : Reported block event) :
    (event.id = ip4RegexId ∧ LeftmostMatch ip4Regex block event.start event.stop) ∨
      (event.id = ip6RegexId ∧ LeftmostMatch ip6Regex block event.start event.stop) ∨
      (event.id = rateLimitRegexId ∧ event.start = 0 ∧
        FirstEnd rateLimitRegex block event.stop) := by
  unfold Reported at reported
  split at reported
  case isTrue isIp4 => exact Or.inl ⟨isIp4, reported⟩
  case isFalse =>
    split at reported
    case isTrue isIp6 => exact Or.inr (Or.inl ⟨isIp6, reported⟩)
    case isFalse => exact Or.inr (Or.inr reported)

theorem last_rateLimitRegex : ∀ word ∈ rateLimitRegex.matches', word.getLast? = some 116 := by
  intro word isWord
  rw [mem_literal.mp isWord]
  decide

theorem length_ip6Groups : ∀ word ∈ ip6Groups.matches', 7 ≤ word.length := by
  intro word isWord
  rw [← count_ip6Groups word isWord]
  exact List.count_le_length

/-- An IPv6 match ends with a hash, a digit or a colon. -/
theorem last_ip6Regex (found : Match ip6Regex block start stop) :
    start < stop ∧ ∃ char, block[stop - 1]? = some char ∧
      (char = hash ∨ char ∈ hexChars ∨ char = col) := by
  rcases match_add.mp found with groups | double
  · have long := groups.length length_ip6Groups
    obtain ⟨char, present⟩ : ∃ char, block[stop - 1]? = some char :=
      ⟨_, List.getElem?_eq_getElem (by have := groups.2.1; omega)⟩
    refine ⟨by omega, char, present, Or.inr ?_⟩
    by_contra foreign
    have := groups.avoids chars_ip6Groups present foreign
    omega
  · obtain ⟨nonempty, last⟩ := double.last last_ip6Double
    exact ⟨nonempty, hash, last, Or.inl rfl⟩

/-- An IPv4 match and an IPv6 match do not end together: one has dots, the other
colons. -/
theorem ip4_ip6_apart {other : Nat} (ip4 : Match ip4Regex block start stop) :
    ¬ Match ip6Regex block other stop := by
  intro ip6
  obtain ⟨nonempty, isHash⟩ := ip4.last last_ip4Regex
  rcases match_add.mp ip6 with groups | double
  · have long := groups.length length_ip6Groups
    have := groups.avoids chars_ip6Groups isHash (by decide)
    omega
  · have colons := double_ip6Double _ double.2.2
    obtain ⟨colon, afterOther, beforeStop, isCol⟩ :=
      mem_excerpt (colons.subset (List.mem_cons_self : col ∈ [col, col]))
    obtain ⟨point, afterStart, pointBefore, isDot⟩ := mem_excerpt (dot_ip4Regex _ ip4.2.2)
    have noCol := ip4.avoids chars_ip4Regex isCol (by decide)
    have noDot := double.avoids chars_ip6Double isDot (by decide)
    omega

/-- The word of the rate limit ends with a letter that no address has. -/
theorem rate_apart (first : FirstEnd rateLimitRegex block stop) :
    ¬ Match ip4Regex block start stop ∧ ¬ Match ip6Regex block start stop := by
  obtain ⟨_, _, found⟩ := first.1
  have isLetter := (found.last last_rateLimitRegex).2
  constructor
  · intro ip4
    have isHash := (ip4.last last_ip4Regex).2
    rw [isLetter] at isHash
    exact absurd isHash (by decide)
  · intro ip6
    obtain ⟨-, char, isLast, allowed⟩ := last_ip6Regex ip6
    rw [isLetter, Option.some.injEq] at isLast
    rw [← isLast] at allowed
    exact absurd allowed (by decide)

/-- No two reports end at the same position. -/
theorem Reported.eq_of_stop {left right : MatchEvent} (isLeft : Reported block left)
    (isRight : Reported block right) (same : left.stop = right.stop) : left = right := by
  obtain ⟨id, start, stop⟩ := left
  obtain ⟨otherId, other, _⟩ := right
  cases same
  rcases isLeft.inv with ⟨rfl, left⟩ | ⟨rfl, left⟩ | ⟨rfl, rfl, left⟩ <;>
    rcases isRight.inv with ⟨rfl, right⟩ | ⟨rfl, right⟩ | ⟨rfl, rfl, right⟩
  · cases left.unique right
    rfl
  · exact absurd right.1 (ip4_ip6_apart left.1)
  · exact absurd left.1 (rate_apart right).1
  · exact absurd left.1 (ip4_ip6_apart right.1)
  · cases left.unique right
    rfl
  · exact absurd left.1 (rate_apart right).2
  · exact absurd right.1 (rate_apart left).1
  · exact absurd right.1 (rate_apart left).2
  · rfl

theorem ScanEvents.strict {events : List MatchEvent} (scan : ScanEvents block events) :
    events.Pairwise fun left right => left.stop < right.stop := by
  refine List.Pairwise.imp_of_mem ?_ (scan.ordered.and scan.once)
  intro left right isLeft isRight facts
  refine Nat.lt_of_le_of_ne facts.1 fun same => facts.2 ?_
  exact ((scan.reported left).mp isLeft).eq_of_stop ((scan.reported right).mp isRight) same

end Ends

/-! ### The line and what stands behind it -/

section Line

variable {line rest : List UInt8} {event : MatchEvent} {start stop : Nat}

theorem reported_append (rest : List UInt8) (inside : event.stop ≤ line.length) :
    Reported (line ++ rest) event ↔ Reported line event := by
  unfold Reported
  rw [leftmostMatch_append_left rest inside, leftmostMatch_append_left rest inside,
    firstEnd_append_left rest inside]

/-- A match of a pattern without newlines and NULs that ends behind the line starts
behind it. -/
theorem EndsLine.behind (ends : EndsLine line) {expression : RegularExpression UInt8}
    {allowed : UInt8 → Prop}
    (chars : ∀ word ∈ expression.matches', ∀ char ∈ word, allowed char)
    (foreign : ¬ allowed 10 ∧ ¬ allowed 0) (found : Match expression (line ++ rest) start stop)
    (beyond : line.length < stop) : line.length ≤ start := by
  have present : ∃ char, (line ++ rest)[line.length - 1]? = some char ∧ ¬ allowed char := by
    have nonempty : line ≠ [] := by
      rintro rfl
      exact absurd ends (by decide)
    have last : (line ++ rest)[line.length - 1]? = line.getLast? := by
      have := List.length_pos_iff.mpr nonempty
      rw [List.getElem?_append_left (by omega), List.getLast?_eq_getElem?]
    rw [last]
    rcases ends with isNewline | isNul
    · exact ⟨10, isNewline, foreign.1⟩
    · exact ⟨0, isNul, foreign.2⟩
  obtain ⟨char, isChar, foreign⟩ := present
  have := found.avoids chars isChar foreign
  omega

theorem chars_ip6Regex : ∀ word ∈ ip6Regex.matches', ∀ char ∈ word,
    char ∈ hexChars ∨ char = col ∨ char = hash := by
  intro word isWord char member
  rw [ip6Regex, RegularExpression.matches'_add, Language.mem_add] at isWord
  rcases isWord with groups | double
  · exact (chars_ip6Groups word groups char member).imp_right Or.inl
  · exact chars_ip6Double word double char member

theorem chars_rateLimitRegex : ∀ word ∈ rateLimitRegex.matches', ∀ char ∈ word,
    char ∈ ascii "client" := by
  intro word isWord char member
  rwa [mem_literal.mp isWord] at member

theorem scanBlock_stop_le (member : event ∈ scanBlock line) : event.stop ≤ line.length :=
  (((scanEvents_scanBlock line).reported event).mp member).mem_candidates.1

/-- The matches of the line, and then those behind it. -/
theorem ScanEvents.append_of {events behind : List MatchEvent}
    (scan : ScanEvents (line ++ rest) events)
    (reported : ∀ event, line.length < event.stop →
      (Reported (line ++ rest) event ↔ event ∈ behind))
    (beyond : ∀ event ∈ behind, line.length < event.stop)
    (ordered : behind.Pairwise fun left right => left.stop < right.stop) :
    events = scanBlock line ++ behind := by
  have own := scanEvents_scanBlock line
  apply scan.eq_of_mem
  · intro event
    rw [List.mem_append, own.reported]
    rcases Nat.lt_or_ge line.length event.stop with later | inside
    · rw [reported event later]
      refine ⟨Or.inr, fun either => either.elim (fun isOwn => ?_) id⟩
      exact absurd isOwn.mem_candidates.1 (by omega)
    · rw [reported_append rest inside]
      refine ⟨Or.inl, fun either => either.elim id fun isBehind => ?_⟩
      exact absurd (beyond event isBehind) (by omega)
  · rw [List.pairwise_append]
    refine ⟨own.strict, ordered, fun left isLeft right isRight => ?_⟩
    exact Nat.lt_of_le_of_lt (scanBlock_stop_le isLeft) (beyond right isRight)

theorem ScanEvents.append {events : List MatchEvent} (scan : ScanEvents (line ++ rest) events) :
    events = scanBlock line ++ events.filter fun event => line.length < event.stop := by
  apply scan.append_of
  · intro event later
    rw [List.mem_filter, scan.reported, decide_eq_true later]
    simp
  · exact fun event member => of_decide_eq_true (List.mem_filter.mp member).2
  · exact scan.strict.filter _

end Line

/-! ### Room for matches -/

/-- The characters of the address patterns. -/
def AddressChar (char : UInt8) : Prop :=
  char ∈ hexChars ∨ char = dot ∨ char = col ∨ char = hash

instance (char : UInt8) : Decidable (AddressChar char) := inferInstanceAs (Decidable (_ ∨ _))

/-- One of the address patterns matches. -/
def AddressMatch (block : List UInt8) (start stop : Nat) : Prop :=
  Match ip4Regex block start stop ∨ Match ip6Regex block start stop

section Room

variable {block : List UInt8} {start stop : Nat}

theorem digits_subset_hexChars : digits ⊆ hexChars := by decide

theorem length_ip4Regex : ∀ word ∈ ip4Regex.matches', 7 ≤ word.length := by
  intro word isWord
  obtain ⟨parts, length, numbers, rfl⟩ := mem_ip4Regex.mp isWord
  match parts, length with
  | [first, second, third, fourth], _ =>
      have one := (numbers first (by simp)).1
      have two := (numbers second (by simp)).1
      have three := (numbers third (by simp)).1
      have four := (numbers fourth (by simp)).1
      simp [List.intercalate]
      omega

theorem length_ip6Double : ∀ word ∈ ip6Double.matches', 3 ≤ word.length := by
  intro word isWord
  obtain ⟨front, back, -, rfl⟩ := mem_ip6Double isWord
  simp only [List.length_append, List.length_cons, List.length_nil]
  omega

/-- An address match has at least three characters; a shorter one than seven ends
with a hash. -/
theorem AddressMatch.long (found : AddressMatch block start stop) :
    start + 3 ≤ stop ∧ (start + 7 ≤ stop ∨ block[stop - 1]? = some hash) := by
  rcases found with ip4 | ip6
  · have long := ip4.length length_ip4Regex
    exact ⟨by omega, Or.inl long⟩
  · rcases match_add.mp ip6 with groups | double
    · have long := groups.length length_ip6Groups
      exact ⟨by omega, Or.inl long⟩
    · exact ⟨double.length length_ip6Double, Or.inr (double.last last_ip6Double).2⟩

theorem AddressMatch.avoids (found : AddressMatch block start stop) {position : Nat}
    {char : UInt8} (present : block[position]? = some char) (foreign : ¬ AddressChar char) :
    stop ≤ position ∨ position < start := by
  rcases found with ip4 | ip6
  · refine ip4.avoids chars_ip4Regex present fun allowed => foreign ?_
    rcases allowed with isDigit | isDot | isHash
    · exact Or.inl (digits_subset_hexChars isDigit)
    · exact Or.inr (Or.inl isDot)
    · exact Or.inr (Or.inr (Or.inr isHash))
  · refine ip6.avoids chars_ip6Regex present fun allowed => foreign ?_
    rcases allowed with isHex | isCol | isHash
    · exact Or.inl isHex
    · exact Or.inr (Or.inr (Or.inl isCol))
    · exact Or.inr (Or.inr (Or.inr isHash))

/-- The word of the rate limit, letter by letter. -/
theorem rate_letters (found : Match rateLimitRegex block start stop) :
    stop = start + 6 ∧ ∀ offset < 6, block[start + offset]? = (ascii "client")[offset]? := by
  have word := mem_literal.mp found.2.2
  have length := congrArg List.length word
  have six : (ascii "client").length = 6 := by decide
  have ordered := found.1
  have bounded := found.2.1
  rw [excerpt, List.length_take, List.length_drop, six] at length
  refine ⟨by omega, ?_⟩
  intro offset inside
  rw [← word, getElem?_excerpt (by omega)]

/-- An address and the word of the rate limit need nine characters, whichever comes
first. -/
theorem AddressMatch.room (found : AddressMatch block start stop) {other finish : Nat}
    (rate : Match rateLimitRegex block other finish) :
    (stop < finish → start + 9 ≤ finish) ∧ (finish < stop → other + 9 ≤ stop) := by
  obtain ⟨rfl, letters⟩ := rate_letters rate
  have long := found.long
  have letterL := found.avoids (letters 1 (by decide)) (by decide)
  have letterI := found.avoids (letters 2 (by decide)) (by decide)
  have letterT := found.avoids (letters 5 (by decide)) (by decide)
  -- Only the first letter could belong to an address, but not as its last one.
  have notLast : stop = other + 1 → start + 7 ≤ stop := by
    intro overlap
    rcases long.2 with far | isHash
    · exact far
    · have isC := letters 0 (by decide)
      rw [overlap, Nat.add_sub_cancel, ← Nat.add_zero other, isC] at isHash
      exact absurd isHash (by decide)
  omega

end Room

/-! ### Reports -/

section Reports

variable {block line rest : List UInt8} {event other : MatchEvent} {start stop : Nat}

theorem Reported.address (reported : Reported block event)
    (notRate : event.id ≠ rateLimitRegexId) : AddressMatch block event.start event.stop := by
  rcases reported.inv with ⟨-, ip4⟩ | ⟨-, ip6⟩ | ⟨isRate, -⟩
  · exact Or.inl ip4.1
  · exact Or.inr ip6.1
  · exact absurd isRate notRate

theorem Reported.rate (reported : Reported block event) (isRate : event.id = rateLimitRegexId) :
    event.start = 0 ∧ FirstEnd rateLimitRegex block event.stop := by
  rcases reported.inv with ⟨isIp4, -⟩ | ⟨isIp6, -⟩ | ⟨-, first⟩
  · exact absurd (isRate.symm.trans isIp4) (by decide)
  · exact absurd (isRate.symm.trans isIp6) (by decide)
  · exact first

/-- The rate limit is reported once. -/
theorem Reported.rate_unique (reported : Reported block event) (again : Reported block other)
    (isRate : event.id = rateLimitRegexId) (isRateToo : other.id = rateLimitRegexId) :
    event.stop = other.stop :=
  (reported.rate isRate).2.unique (again.rate isRateToo).2

theorem EndsLine.address_behind (ends : EndsLine line)
    (found : AddressMatch (line ++ rest) start stop) (beyond : line.length < stop) :
    line.length ≤ start := by
  rcases found with ip4 | ip6
  · exact ends.behind chars_ip4Regex (by decide) ip4 beyond
  · exact ends.behind chars_ip6Regex (by decide) ip6 beyond

theorem EndsLine.rate_behind (ends : EndsLine line)
    (found : Match rateLimitRegex (line ++ rest) start stop) (beyond : line.length < stop) :
    line.length ≤ start :=
  ends.behind chars_rateLimitRegex (by decide) found beyond

/-- A word of the rate limit in the line is reported. -/
theorem exists_rate_event (found : Match rateLimitRegex line start stop) :
    ∃ event ∈ scanBlock line, event.id = rateLimitRegexId := by
  have ends : ∃ stop, ∃ start < stop + 1, Match rateLimitRegex line start stop :=
    ⟨stop, start, Nat.lt_succ_of_le found.1, found⟩
  have first : FirstEnd rateLimitRegex line (Nat.find ends) :=
    ⟨Nat.find_spec ends, fun earlier before => Nat.find_min ends before⟩
  have reported : Reported line ⟨rateLimitRegexId, 0, Nat.find ends⟩ := by
    simpa [Reported, rateLimitRegexId, ip4RegexId, ip6RegexId] using first
  exact ⟨_, ((scanEvents_scanBlock line).reported _).mpr reported, rfl⟩

/-- The terminator is behind every match of the line. -/
theorem EndsLine.stop_lt (ends : EndsLine line) (member : event ∈ scanBlock line) :
    event.stop < line.length := by
  have reported := ((scanEvents_scanBlock line).reported event).mp member
  have atMost := scanBlock_stop_le member
  refine Nat.lt_of_le_of_ne atMost fun atEnd => ?_
  -- the last character would be one of the pattern
  have last : (line)[event.stop - 1]? = line.getLast? := by
    rw [atEnd, List.getLast?_eq_getElem?]
  by_cases isRate : event.id = rateLimitRegexId
  · obtain ⟨_, _, found⟩ := (reported.rate isRate).2.1
    have isT := (found.last last_rateLimitRegex).2
    rw [last] at isT
    unfold EndsLine at ends
    rw [isT] at ends
    exact absurd ends (by decide)
  · have found := reported.address isRate
    have long := found.long
    unfold EndsLine at ends
    rw [← last] at ends
    rcases ends with isNewline | isNul
    · have := found.avoids isNewline (by decide)
      omega
    · have := found.avoids isNul (by decide)
      omega

end Reports

end FipsIpc.Sf2b
