import FipsIpc.Sf2b.Handling

/-!
Contract: when the bytes behind a line decide how it is parsed.

Owns: the comparison of two buffers that begin with the same line, and the exact
condition on the line and the cached time stamp under which `parse_str` does the
same with both.

`parse_str` scans `LINEBUF_SIZE` bytes whatever the length of the line, and slots
and line buffers are used again without being cleared.  If the matches of the line
do not stop the scan, three bytes are enough to add an address, six to add the word
of the rate limit, and nine for both; one more if the handler has written a blank
over the first byte behind the line.  The cached time stamp is compared with 21
bytes, also if the line has fewer.

Does not own: how the bytes behind a line come about.
-/

set_option autoImplicit false

namespace FipsIpc.Sf2b

open FipsIpc.IpHashtable FipsIpc.Lib.Regex FipsIpc.UdpServer

/-! ### The line alone -/

/-- The handler stops the scan at a match of the line. -/
def lineStops (line : List UInt8) (context : HsContext) : Bool :=
  handlerStops (scanBlock line) (scanStart line context 0)

/-- What the handler has found when it has seen the matches of the line. -/
def lineContext (line : List UInt8) (context : HsContext) : HsContext :=
  handleEvents (scanBlock line) (scanStart line context 0)

/-- An IPv6 match ends right in front of the terminator of the line, so that the
handler writes a blank behind the line. -/
def blanked (line : List UInt8) : Bool :=
  (scanBlock line).any fun event => event.id = ip6RegexId ∧ event.stop + 1 = line.length

/-- The number of bytes behind the line that can complete what it lacks. -/
def missing (line : List UInt8) (found : HsContext) : Nat :=
  let blank := if blanked line then 1 else 0
  if found.rateLimitMatch then 3 + blank
  else if found.domain ≠ -1 then 6
  else 9 + blank

/-- The time stamp of a line does not depend on what stands behind the word
`client`: no date contains it, so the conversion has ended or failed before. -/
def StampLocal (stampOf : List UInt8 → Int) : Prop :=
  ∀ front rest rest', stampOf (front ++ ascii "client" ++ rest) =
    stampOf (front ++ ascii "client" ++ rest')

/-- The bytes behind the line cannot decide whether the cached time stamp is
used, or it makes no difference. -/
def StampSettled (stampOf : List UInt8 → Int) (line : List UInt8) (cache : StampCache) : Prop :=
  21 ≤ line.length ∨ ¬ line <+: cache.text ∨ cache.stamp = stampOf line

/-- `parse_str` does the same with all buffers that begin with the line. -/
def LineOnly (hsScan : List UInt8 → Option (List MatchEvent)) (stampOf : List UInt8 → Int)
    (line : List UInt8) (context : HsContext) (cache : StampCache) : Prop :=
  ∀ rest rest', (line ++ rest).length = linebufSize → (line ++ rest').length = linebufSize →
    let left := parseStr hsScan stampOf (line ++ rest) context cache
    let right := parseStr hsScan stampOf (line ++ rest') context cache
    left.1 = right.1 ∧ (left.1 = 0 → left.2.1.domain = right.2.1.domain ∧
      left.2.1.ipAddr = right.2.1.ipAddr ∧ left.2.1.timestamp = right.2.1.timestamp)

/-- The line alone decides. -/
def Settled (stampOf : List UInt8 → Int) (line : List UInt8) (context : HsContext)
    (cache : StampCache) : Prop :=
  if lineStops line context then
    (lineContext line context).domain = -1 ∨ StampSettled stampOf line cache
  else linebufSize < line.length + missing line (lineContext line context)

/-! ### Matches of the line in a buffer -/

section Front

variable {line rest : List UInt8} {context : HsContext} {stamp : Int}

theorem within_scanBlock {event : MatchEvent} (member : event ∈ scanBlock line) :
    event.Within line.length :=
  (((scanEvents_scanBlock line).reported event).mp member).within

/-- In every buffer the matches of the line are handled as in the line alone. -/
theorem front_same (line rest : List UInt8) (context : HsContext) (stamp : Int) :
    handlerStops (scanBlock line) (scanStart (line ++ rest) context stamp) =
        lineStops line context ∧
      SameUpTo line.length (handleEvents (scanBlock line) (scanStart (line ++ rest) context stamp))
        (lineContext line context) := by
  apply SameUpTo.handleEvents
  · exact fun event member => ⟨(within_scanBlock member).nonempty, (within_scanBlock member).inside⟩
  · refine ⟨rfl, rfl, rfl, rfl, rfl, ?_, ?_, Nat.le_refl _⟩
    · simp [scanStart]
    · simp [scanStart]

theorem front_converted (line rest : List UInt8) (context : HsContext) (stamp : Int) :
    Converted line.length
      (handleEvents (scanBlock line) (scanStart (line ++ rest) context stamp)) ∧
      (lineStops line context = true → (lineContext line context).rateLimitMatch = true) ∧
      (lineStops line context = false → Undecided (lineContext line context)) := by
  have within : ∀ event ∈ scanBlock line, event.Within line.length :=
    fun event member => within_scanBlock member
  have inBuffer : Converted line.length (scanStart (line ++ rest) context stamp) :=
    ⟨by simp [scanStart], fun found => absurd rfl found, fun found => absurd rfl found,
      fun found => absurd rfl found⟩
  have alone := scanStart_converted line context 0
  exact ⟨(inBuffer.handleEvents within (scanStart_converted (line ++ rest) context stamp).2).1,
    (alone.1.handleEvents within alone.2).2⟩

end Front

/-! ### Lines that stop the scan -/

section Stops

variable {hsScan : List UInt8 → Option (List MatchEvent)} {stampOf : List UInt8 → Int}
  {line rest : List UInt8} {context : HsContext} {cache : StampCache}

/-- The scan of a buffer: the matches of the line, then others. -/
theorem Scans.append (scans : Scans hsScan) (line rest : List UInt8) :
    ∃ behind, hsScan (line ++ rest) = some (scanBlock line ++ behind) ∧
      ScanEvents (line ++ rest) (scanBlock line ++ behind) := by
  obtain ⟨events, scanned, scan⟩ := scans (line ++ rest)
  rw [scan.append] at scanned
  exact ⟨_, scanned, scan.append ▸ scan⟩

/-- The buffer is refused if the line stops the scan without a domain. -/
theorem parseStr_stopped_refused (scans : Scans hsScan) (stops : lineStops line context = true)
    (noDomain : (lineContext line context).domain = -1) (rest : List UInt8) :
    (parseStr hsScan stampOf (line ++ rest) context cache).1 = -2 := by
  obtain ⟨behind, scanned, -⟩ := scans.append line rest
  obtain ⟨same, front⟩ := front_same line rest context (stampIn stampOf cache (line ++ rest))
  have final := handleEvents_append (scanBlock line) behind
    (scanStart (line ++ rest) context (stampIn stampOf cache (line ++ rest)))
  rw [if_pos (same.trans stops)] at final
  apply parseStr_refused scanned final
  rw [Undecided, front.domain]
  exact fun both => both.2 noDomain

/-- The buffer is accepted if the line stops the scan with a domain, and the context
is that of the line. -/
theorem parseStr_stopped_found (scans : Scans hsScan) (stops : lineStops line context = true)
    (domain : (lineContext line context).domain ≠ -1) (rest : List UInt8) :
    (parseStr hsScan stampOf (line ++ rest) context cache).1 = 0 ∧
      (parseStr hsScan stampOf (line ++ rest) context cache).2.1.domain =
        (convertAddress (lineContext line context)).2.domain ∧
      (parseStr hsScan stampOf (line ++ rest) context cache).2.1.ipAddr =
        (convertAddress (lineContext line context)).2.ipAddr ∧
      (parseStr hsScan stampOf (line ++ rest) context cache).2.1.timestamp =
        stampIn stampOf cache (line ++ rest) := by
  obtain ⟨behind, scanned, scan⟩ := scans.append line rest
  obtain ⟨same, front⟩ := front_same line rest context (stampIn stampOf cache (line ++ rest))
  obtain ⟨converted, rate, -⟩ :=
    front_converted line rest context (stampIn stampOf cache (line ++ rest))
  have final := handleEvents_append (scanBlock line) behind
    (scanStart (line ++ rest) context (stampIn stampOf cache (line ++ rest)))
  rw [if_pos (same.trans stops)] at final
  have both : ¬ Undecided (handleEvents (scanBlock line)
      (scanStart (line ++ rest) context (stampIn stampOf cache (line ++ rest)))) := by
    rw [Undecided, front.rate, front.domain, not_not]
    exact ⟨rate stops, domain⟩
  obtain ⟨code, result⟩ := parseStr_found scanned scan final both
  obtain ⟨family, address⟩ := front.convertAddress converted (front.domain ▸ domain)
  rw [result]
  refine ⟨code, family, address, ?_⟩
  rw [convertAddress_timestamp, handleEvents_timestamp]
  rfl

/-- If the word of the rate limit was found, it is in the line. -/
theorem exists_rate_of_found (found : (lineContext line context).rateLimitMatch = true) :
    ∃ event ∈ scanBlock line, event.id = rateLimitRegexId := by
  by_contra none
  push Not at none
  have addresses : ∀ event ∈ scanBlock line, event.id = ip4RegexId ∨ event.id = ip6RegexId :=
    fun event member => (within_scanBlock member).known.resolve_left (none event member)
  rw [lineContext, handleEvents_noRate addresses rfl] at found
  cases found

/-- A line that stops the scan has the word of the rate limit. -/
theorem exists_client (stops : lineStops line context = true) :
    ∃ front back, line = front ++ ascii "client" ++ back := by
  have found := (front_converted line [] context 0).2.1 stops
  obtain ⟨event, member, isRate⟩ := exists_rate_of_found found
  have reported := ((scanEvents_scanBlock line).reported event).mp member
  obtain ⟨start, _, isMatch⟩ := (reported.rate isRate).2.1
  have word := mem_literal.mp isMatch.2.2
  refine ⟨line.take start, (line.drop start).drop (event.stop - start), ?_⟩
  rw [← word, excerpt, List.append_assoc, List.take_append_drop, List.take_append_drop]

/-- The stamp of a line with the word of the rate limit is its own, unless it is
taken from the cache. -/
theorem stampIn_eq (isLocal : StampLocal stampOf)
    (client : ∃ front back, line = front ++ ascii "client" ++ back) (rest : List UInt8) :
    stampIn stampOf cache (line ++ rest) =
      if (line ++ rest).take 21 = cache.text then cache.stamp else stampOf line := by
  obtain ⟨front, back, rfl⟩ := client
  have same : stampOf (front ++ ascii "client" ++ back ++ rest) =
      stampOf (front ++ ascii "client" ++ back) := by
    rw [List.append_assoc _ back rest]
    exact isLocal front (back ++ rest) back
  unfold stampIn refreshStamp
  split
  · rfl
  · exact same

/-- The bytes behind a settled line do not change its stamp. -/
theorem StampSettled.stampIn_same (settled : StampSettled stampOf line cache)
    (isLocal : StampLocal stampOf) (client : ∃ front back, line = front ++ ascii "client" ++ back)
    (rest rest' : List UInt8) :
    stampIn stampOf cache (line ++ rest) = stampIn stampOf cache (line ++ rest') := by
  rw [stampIn_eq isLocal client, stampIn_eq isLocal client]
  rcases Nat.lt_or_ge line.length 21 with short | long
  · have starts : ∀ rest, (line ++ rest).take 21 = cache.text → line <+: cache.text := by
      intro rest same
      rw [← same, List.prefix_take_iff]
      exact ⟨List.prefix_append line rest, by omega⟩
    rcases settled with long | apart | equal
    · omega
    · rw [if_neg fun same => apart (starts rest same), if_neg fun same => apart (starts rest' same)]
    · rw [equal, ite_self, ite_self]
  · rw [List.take_append_of_le_length long, List.take_append_of_le_length long]

/-- Otherwise two buffers get different stamps. -/
theorem stampSettled_of_same (isLocal : StampLocal stampOf)
    (client : ∃ front back, line = front ++ ascii "client" ++ back)
    (size : cache.text.length = 21)
    (same : ∀ rest rest', (line ++ rest).length = linebufSize →
      (line ++ rest').length = linebufSize →
      stampIn stampOf cache (line ++ rest) = stampIn stampOf cache (line ++ rest')) :
    StampSettled stampOf line cache := by
  by_contra unsettled
  simp only [StampSettled, not_or, not_not, not_le] at unsettled
  obtain ⟨short, ⟨tail, starts⟩, different⟩ := unsettled
  have bound : linebufSize = 200 := rfl
  have lengths := congrArg List.length starts
  rw [List.length_append, size] at lengths
  -- One buffer goes on like the cached text, the other one does not.
  have cached : stampIn stampOf cache (line ++ (tail ++ List.replicate 179 0)) = cache.stamp := by
    rw [stampIn_eq isLocal client, if_pos]
    rw [← List.append_assoc, starts, ← size, List.take_left]
  have fresh : stampIn stampOf cache
      (line ++ (tail.map (· + 1) ++ List.replicate 179 0)) = stampOf line := by
    rw [stampIn_eq isLocal client, if_neg]
    intro equal
    have length : 21 = (line ++ tail.map (· + 1)).length := by simpa using lengths.symm
    rw [← List.append_assoc, length, List.take_left, ← starts, List.append_cancel_left_eq] at equal
    cases tail with
    | nil =>
        rw [List.length_nil] at lengths
        omega
    | cons first more =>
        have next : first + 1 = first := (List.cons.inj equal).1
        simp at next
  refine different ?_
  rw [← cached, ← fresh]
  apply same
  · simp only [List.length_append, List.length_replicate]
    omega
  · simp only [List.length_append, List.length_map, List.length_replicate]
    omega

end Stops

/-! ### The first byte behind the line -/

section Blank

variable {line rest : List UInt8} {context : HsContext} {stamp : Int} {event : MatchEvent}

theorem splitOn_blank (separator : UInt8) (different : (32 : UInt8) ≠ separator)
    (text : List UInt8) : ∃ first rest, (32 :: text).splitOn separator = (32 :: first) :: rest := by
  have apart : ((32 : UInt8) == separator) = false := beq_false_of_ne different
  obtain ⟨first, rest, parts⟩ :=
    List.exists_cons_of_ne_nil (List.splitOnP_ne_nil (· == separator) text)
  refine ⟨first, rest, ?_⟩
  rw [List.splitOn, List.splitOnP_cons_eq_if_modifyHead, apart, parts]
  rfl

theorem inetPton4_blank (text : List UInt8) : inetPton4 (32 :: text) = none := by
  obtain ⟨first, rest, split⟩ := splitOn_blank dot (by decide) text
  have noDigit : octet (32 :: first) = none := by simp [octet, isDigit]
  simp [inetPton4, split, noDigit]

theorem hexGroup_blank (text : List UInt8) : hexGroup (32 :: text) = none := by
  have noDigit : hexValue 32 = none := by decide
  simp [hexGroup, noDigit]

/-- An address does not begin with a blank. -/
theorem inetPton6_blank (text : List UInt8) : inetPton6 (32 :: text) = none := by
  unfold inetPton6
  cases cut : cutDouble (32 :: text) with
  | none =>
      obtain ⟨first, rest, split⟩ := splitOn_blank col (by decide) text
      rw [split]
      cases rest with
      | nil => simp [groupBytes, hexGroup_blank, inetPton4_blank]
      | cons second rest => simp [groupBytes, hexGroup_blank]
  | some parts =>
      obtain ⟨front, back⟩ := parts
      have begins : ∃ more, front = 32 :: more := by
        cases text with
        | nil => cases cut
        | cons second rest =>
            have notCol : (32 : UInt8) ≠ col := by decide
            rw [cutDouble, if_neg fun both => notCol both.1] at cut
            obtain ⟨later, -, same⟩ := Option.map_eq_some_iff.mp cut
            cases same
            exact ⟨_, rfl⟩
      obtain ⟨more, rfl⟩ := begins
      obtain ⟨first, rest, split⟩ := splitOn_blank col (by decide) more
      simp [split, hexGroup_blank]

/-- An address that begins with a blank is none. -/
theorem handler_blankAddress (isAddress : event.id = ip4RegexId ∨ event.id = ip6RegexId)
    (long : event.start + 1 < event.stop) (isBlank : context.logstr[event.start]? = some 32) :
    (regexMatchHandler event context).2.domain = -1 := by
  have text : ∃ more, addressText event context = 32 :: more := by
    have stays : (cutLogstr event context)[event.start]? = some 32 := by
      rw [cutLogstr, List.getElem?_set_ne (by omega), isBlank]
    obtain ⟨inside, char⟩ := List.getElem?_eq_some_iff.mp stays
    refine ⟨((cutLogstr event context).drop (event.start + 1)).takeWhile (· != 0), ?_⟩
    rw [addressText, cString, List.drop_eq_getElem_cons inside, char]
    rfl
  obtain ⟨more, text⟩ := text
  rcases isAddress with isIp4 | isIp6
  · rw [handler_ip4 isIp4, text, inetPton4_blank]
  · rw [handler_ip6 isIp6, text, inetPton6_blank]

/-- The bytes behind the line are as they were, up to a blank. -/
theorem front_logstr (ends : EndsLine line) {position : Nat} (behind : line.length ≤ position)
    (noBlank : position = line.length → blanked line = false) :
    (handleEvents (scanBlock line) (scanStart (line ++ rest) context stamp)).logstr[position]? =
      (line ++ rest)[position]? := by
  refine @handleEvents_keeps _ _
    (fun context => context.logstr[position]? = (line ++ rest)[position]?) ?_ rfl
  intro event member context same
  have before := ends.stop_lt member
  rw [handler_behind (by omega) _ context, same]
  intro isIp6 here
  have atEnd : event.stop + 1 = line.length := by omega
  have blank := noBlank (by omega)
  rw [blanked, List.any_eq_false] at blank
  exact blank event member (by simp [isIp6, atEnd])

/-- If the handler has written a blank behind the line, it is still there. -/
theorem front_blank (ends : EndsLine line) (blank : blanked line = true)
    (goesOn : lineStops line context = false) (more : 0 < rest.length) :
    (handleEvents (scanBlock line) (scanStart (line ++ rest) context stamp)).logstr[line.length]? =
      some 32 := by
  obtain ⟨event, member, found⟩ := List.any_eq_true.mp blank
  obtain ⟨isIp6, atEnd⟩ := of_decide_eq_true found
  have running := (front_same line rest context stamp).1.trans goesOn
  have kept : ∀ event ∈ scanBlock line, ∀ context : HsContext,
      (line.length < context.logstr.length → context.logstr[line.length]? = some 32) →
      line.length < (regexMatchHandler event context).2.logstr.length →
      (regexMatchHandler event context).2.logstr[line.length]? = some 32 := by
    intro event member context still inside
    rw [handler_length] at inside
    have before := ends.stop_lt member
    by_cases here : event.id = ip6RegexId ∧ event.stop + 1 = line.length
    · rw [← here.2]
      exact handler_blank here.1 context (here.2 ▸ inside)
    · rw [handler_behind (by omega) (fun isIp6 atEnd => here ⟨isIp6, atEnd⟩) context]
      exact still inside
  have brings : ∀ context : HsContext,
      line.length < (regexMatchHandler event context).2.logstr.length →
      (regexMatchHandler event context).2.logstr[line.length]? = some 32 := by
    intro context inside
    rw [handler_length] at inside
    rw [← atEnd]
    exact handler_blank isIp6 context (atEnd ▸ inside)
  apply handleEvents_reaches kept brings member running
  have length : (handleEvents (scanBlock line)
      (scanStart (line ++ rest) context stamp)).logstr.length = (line ++ rest).length := by
    refine @handleEvents_keeps _ _
      (fun context => context.logstr.length = (line ++ rest).length) ?_ rfl
    intro event _ context same
    rw [handler_length, same]
  rw [length, List.length_append]
  omega

end Blank

/-! ### Lines that leave no room -/

section Room

variable {line rest : List UInt8} {context : HsContext} {behind : List MatchEvent}

/-- The matches behind the line, with what is known about them. -/
structure Behind (line rest : List UInt8) (behind : List MatchEvent) : Prop where
  reported : ∀ event ∈ behind, Reported (line ++ rest) event
  beyond : ∀ event ∈ behind, line.length < event.stop
  ordered : behind.Pairwise fun left right => left.stop < right.stop

theorem ScanEvents.behind_line (scan : ScanEvents (line ++ rest) (scanBlock line ++ behind)) :
    Behind line rest behind := by
  have strict := List.pairwise_append.mp scan.strict
  refine ⟨fun event member => (scan.reported event).mp (List.mem_append_right _ member), ?_,
    strict.2.1⟩
  intro event member
  by_contra inside
  have reported := (scan.reported event).mp (List.mem_append_right _ member)
  rw [reported_append rest (by omega)] at reported
  have own := ((scanEvents_scanBlock line).reported event).mpr reported
  exact absurd (strict.2.2 event own event member) (Nat.lt_irrefl _)

/-- An address behind the line. -/
theorem Behind.address (is : Behind line rest behind) (ends : EndsLine line) {event : MatchEvent}
    (member : event ∈ behind) (notRate : event.id ≠ rateLimitRegexId) :
    AddressMatch (line ++ rest) event.start event.stop ∧ line.length ≤ event.start ∧
      event.start + 3 ≤ event.stop ∧ event.stop ≤ line.length + rest.length := by
  have reported := is.reported event member
  have found := reported.address notRate
  have bounded := reported.mem_candidates.1
  rw [List.length_append] at bounded
  exact ⟨found, ends.address_behind found (is.beyond event member), found.long.1, bounded⟩

/-- The word of the rate limit behind the line. -/
theorem Behind.rate (is : Behind line rest behind) (ends : EndsLine line) {event : MatchEvent}
    (member : event ∈ behind) (isRate : event.id = rateLimitRegexId) :
    ∃ start, Match rateLimitRegex (line ++ rest) start event.stop ∧ line.length ≤ start ∧
      start + 6 = event.stop ∧ event.stop ≤ line.length + rest.length := by
  have reported := is.reported event member
  obtain ⟨start, -, found⟩ := (reported.rate isRate).2.1
  have bounded := reported.mem_candidates.1
  rw [List.length_append] at bounded
  exact ⟨start, found, ends.rate_behind found (is.beyond event member),
    (rate_letters found).1.symm, bounded⟩

theorem Behind.known (is : Behind line rest behind) {event : MatchEvent} (member : event ∈ behind)
    (notRate : event.id ≠ rateLimitRegexId) : event.id = ip4RegexId ∨ event.id = ip6RegexId :=
  (is.reported event member).within.known.resolve_left notRate

/-- The word of the rate limit in the line is the only one reported. -/
theorem Behind.no_rate (is : Behind line rest behind)
    (found : ∃ event ∈ scanBlock line, event.id = rateLimitRegexId) (event : MatchEvent)
    (member : event ∈ behind) : event.id ≠ rateLimitRegexId := by
  intro isRate
  obtain ⟨first, inLine, isRateToo⟩ := found
  have inside := scanBlock_stop_le inLine
  have reported := ((scanEvents_scanBlock line).reported first).mp inLine
  rw [← reported_append rest inside] at reported
  have same := reported.rate_unique (is.reported event member) isRateToo isRate
  have beyond := is.beyond event member
  omega

/-- Addresses that begin with the blank behind the line find nothing. -/
theorem handleEvents_blank {events : List MatchEvent}
    (addresses : ∀ event ∈ events, (event.id = ip4RegexId ∨ event.id = ip6RegexId) ∧
      event.start = line.length ∧ event.start + 3 ≤ event.stop)
    (isBlank : context.logstr[line.length]? = some 32) (noDomain : context.domain = -1) :
    (handleEvents events context).domain = -1 ∧ handlerStops events context = false := by
  induction events generalizing context with
  | nil => exact ⟨noDomain, rfl⟩
  | cons event rest inductionHypothesis =>
      rw [List.forall_mem_cons] at addresses
      obtain ⟨⟨isAddress, start, long⟩, later⟩ := addresses
      have lost : (regexMatchHandler event context).2.domain = -1 :=
        handler_blankAddress isAddress (by omega) (start ▸ isBlank)
      have code : (regexMatchHandler event context).1 = 0 := by
        rw [(handler_address isAddress context).2, if_neg fun both => both.2 lost]
      have stays : (regexMatchHandler event context).2.logstr[line.length]? = some 32 := by
        rw [(handler_address isAddress context).1.before (by omega), isBlank]
      rw [handleEvents_cons, if_pos code, handlerStops]
      simp only [code, ↓reduceIte]
      exact inductionHypothesis later stays lost

/-- With the word of the rate limit in the line, there is no room for an address. -/
theorem Behind.undecided_rate (is : Behind line rest behind) (ends : EndsLine line)
    {front : HsContext} (found : ∃ event ∈ scanBlock line, event.id = rateLimitRegexId)
    (noDomain : front.domain = -1)
    (room : rest.length < 3 ∨ rest.length = 3 ∧ front.logstr[line.length]? = some 32) :
    Undecided (handleEvents behind front) := by
  have addresses : ∀ event ∈ behind, (event.id = ip4RegexId ∨ event.id = ip6RegexId) ∧
      rest.length = 3 ∧ event.start = line.length ∧ event.start + 3 ≤ event.stop := by
    intro event member
    have notRate := is.no_rate found event member
    obtain ⟨-, start, long, bounded⟩ := is.address ends member notRate
    exact ⟨is.known member notRate, by omega, by omega, by omega⟩
  have lost : (handleEvents behind front).domain = -1 := by
    rcases room with tooShort | ⟨-, isBlank⟩
    · cases behind with
      | nil => exact noDomain
      | cons event more =>
          have three := (addresses event List.mem_cons_self).2.1
          omega
    · exact (handleEvents_blank
        (fun event member => ⟨(addresses event member).1, (addresses event member).2.2⟩)
        isBlank noDomain).1
  exact fun both => both.2 lost

/-- With a domain from the line, there is no room for the word of the rate limit. -/
theorem Behind.undecided_domain (is : Behind line rest behind) (ends : EndsLine line)
    {front : HsContext} (noRate : front.rateLimitMatch = false) (room : rest.length < 6) :
    Undecided (handleEvents behind front) := by
  have addresses : ∀ event ∈ behind, event.id = ip4RegexId ∨ event.id = ip6RegexId := by
    intro event member
    refine is.known member fun isRate => ?_
    obtain ⟨start, -, after, six, bounded⟩ := is.rate ends member isRate
    omega
  have missing := handleEvents_noRate addresses noRate
  exact fun both => absurd both.1 (by simp [missing])

/-- An address and the word of the rate limit behind the line, one in front of the
other. -/
theorem Behind.both (is : Behind line rest behind) (ends : EndsLine line)
    {address rate : MatchEvent} (isMember : address ∈ behind)
    (notRate : address.id ≠ rateLimitRegexId)
    (isMemberToo : rate ∈ behind) (isRate : rate.id = rateLimitRegexId) :
    9 ≤ rest.length ∧ (address.stop < rate.stop → address.start + 9 ≤ rate.stop) := by
  obtain ⟨found, start, long, bounded⟩ := is.address ends isMember notRate
  obtain ⟨word, isWord, wordBehind, six, wordBounded⟩ := is.rate ends isMemberToo isRate
  obtain ⟨addressFirst, rateFirst⟩ := found.room isWord
  have different : address.stop ≠ rate.stop := by
    intro same
    have equal := (is.reported address isMember).eq_of_stop (is.reported rate isMemberToo) same
    exact notRate (equal ▸ isRate)
  exact ⟨by omega, addressFirst⟩

/-- With neither and a blank behind the line, an address that fits is in front of the
word and begins with the blank. -/
theorem Behind.undecided_blank (is : Behind line rest behind) (ends : EndsLine line)
    {front : HsContext} (noDomain : front.domain = -1) (room : rest.length = 9)
    (isMatch : front.isMatch = true) (isBlank : front.logstr[line.length]? = some 32)
    {rate : MatchEvent} (isMember : rate ∈ behind) (isRate : rate.id = rateLimitRegexId) :
    Undecided (handleEvents behind front) := by
  obtain ⟨_, -, -, -, bounded⟩ := is.rate ends isMember isRate
  obtain ⟨first, later, rfl⟩ := List.append_of_mem isMember
  have before : ∀ event ∈ first, event.stop < rate.stop := fun event member =>
    (List.pairwise_append.mp is.ordered).2.2 event member rate List.mem_cons_self
  have addresses : ∀ event ∈ first, (event.id = ip4RegexId ∨ event.id = ip6RegexId) ∧
      event.start = line.length ∧ event.start + 3 ≤ event.stop := by
    intro event member
    have inAll : event ∈ first ++ rate :: later := List.mem_append_left _ member
    have notRate : event.id ≠ rateLimitRegexId := by
      intro isRateToo
      have same := (is.reported event inAll).rate_unique (is.reported rate isMember) isRateToo
        isRate
      exact absurd (before event member) (by omega)
    obtain ⟨-, start, long, -⟩ := is.address ends inAll notRate
    have nine := (is.both ends inAll notRate isMember isRate).2 (before event member)
    exact ⟨is.known inAll notRate, by omega, long⟩
  obtain ⟨lost, goesOn⟩ := handleEvents_blank addresses isBlank noDomain
  have still : (handleEvents first front).isMatch = true :=
    @handleEvents_keeps _ _ (fun context => context.isMatch = true)
      (fun event member context _ =>
        (handler_address (addresses event member).1 context).1.isMatch) isMatch
  rw [handleEvents_append, goesOn, if_neg (by decide), handleEvents_cons, handler_rate isRate,
    still]
  exact fun both => both.2 lost

/-- With neither, there is no room for both. -/
theorem Behind.undecided_neither (is : Behind line rest behind) (ends : EndsLine line)
    {front : HsContext} (noRate : front.rateLimitMatch = false) (noDomain : front.domain = -1)
    (room : rest.length < 9 ∨
      rest.length = 9 ∧ front.isMatch = true ∧ front.logstr[line.length]? = some 32) :
    Undecided (handleEvents behind front) := by
  by_cases found : ∃ event ∈ behind, event.id = rateLimitRegexId
  · obtain ⟨rate, isMember, isRate⟩ := found
    rcases room with tooShort | ⟨nine, isMatch, isBlank⟩
    · have rates : ∀ event ∈ behind, event.id = rateLimitRegexId := by
        intro event member
        by_contra notRate
        have nine := (is.both ends member notRate isMember isRate).1
        omega
      exact fun both => both.2 (handleEvents_noAddress rates noDomain)
    · exact is.undecided_blank ends noDomain nine isMatch isBlank isMember isRate
  · push Not at found
    have addresses : ∀ event ∈ behind, event.id = ip4RegexId ∨ event.id = ip6RegexId :=
      fun event member => is.known member (found event member)
    have missing := handleEvents_noRate addresses noRate
    exact fun both => absurd both.1 (by simp [missing])

/-- A blank comes from a match. -/
theorem lineContext_isMatch (blank : blanked line = true)
    (goesOn : lineStops line context = false) : (lineContext line context).isMatch = true := by
  obtain ⟨event, member, found⟩ := List.any_eq_true.mp blank
  have isIp6 := (of_decide_eq_true found).1
  refine @handleEvents_reaches _ _ (fun context => context.isMatch = true) event ?_ ?_ member goesOn
  · exact fun event member context => handler_keeps_isMatch (within_scanBlock member) context
  · exact fun context => (handler_address (Or.inr isIp6) context).1.isMatch

/-- Whatever stands behind the line, it is refused. -/
theorem parseStr_noRoom {hsScan : List UInt8 → Option (List MatchEvent)}
    {stampOf : List UInt8 → Int} {cache : StampCache} (scans : Scans hsScan)
    (ends : EndsLine line) (goesOn : lineStops line context = false)
    (room : rest.length < missing line (lineContext line context)) :
    (parseStr hsScan stampOf (line ++ rest) context cache).1 = -2 := by
  obtain ⟨behind, scanned, scan⟩ := scans.append line rest
  have is := scan.behind_line
  have final := handleEvents_append (scanBlock line) behind
    (scanStart (line ++ rest) context (stampIn stampOf cache (line ++ rest)))
  obtain ⟨same, front⟩ := front_same line rest context (stampIn stampOf cache (line ++ rest))
  rw [if_neg (by rw [same, goesOn]; decide)] at final
  refine parseStr_refused scanned final ?_
  have undecided := (front_converted line rest context 0).2.2 goesOn
  have written : blanked line = true → 0 < rest.length →
      (handleEvents (scanBlock line) (scanStart (line ++ rest) context
        (stampIn stampOf cache (line ++ rest)))).logstr[line.length]? = some 32 :=
    fun blank more => front_blank ends blank goesOn more
  cases rate : (lineContext line context).rateLimitMatch with
  | true =>
      have noDomain : (lineContext line context).domain = -1 := by
        by_contra domain
        exact undecided ⟨rate, domain⟩
      apply is.undecided_rate ends (exists_rate_of_found rate) (front.domain.trans noDomain)
      cases blank : blanked line with
      | false =>
          simp only [missing, rate, blank] at room
          exact Or.inl (by simpa using room)
      | true =>
          have four : rest.length < 4 := by simpa [missing, rate, blank] using room
          rcases Nat.lt_or_ge rest.length 3 with fewer | three
          · exact Or.inl fewer
          · exact Or.inr ⟨by omega, written blank (by omega)⟩
  | false =>
      by_cases domain : (lineContext line context).domain = -1
      · apply is.undecided_neither ends (front.rate.trans rate) (front.domain.trans domain)
        cases blank : blanked line with
        | false => exact Or.inl (by simpa [missing, rate, domain, blank] using room)
        | true =>
            have ten : rest.length < 10 := by simpa [missing, rate, domain, blank] using room
            rcases Nat.lt_or_ge rest.length 9 with fewer | nine
            · exact Or.inl fewer
            · exact Or.inr ⟨by omega, front.isMatch.trans (lineContext_isMatch blank goesOn),
                written blank (by omega)⟩
      · exact is.undecided_domain ends (front.rate.trans rate)
          (by simpa [missing, rate, domain] using room)

end Room

/-! ### Bytes that complete a line -/

/-- The shortest address and its hash. -/
def shortAddress : List UInt8 := [col, col, hash]

/-- Bytes behind a line: some text, and zeros. -/
def padded (text : List UInt8) (zeros : Nat) : List UInt8 := text ++ List.replicate zeros 0

section Complete

variable {line text : List UInt8} {zeros start stop : Nat}

theorem getElem?_padded {offset : Nat} (inside : offset < text.length) :
    (line ++ padded text zeros)[line.length + offset]? = text[offset]? := by
  rw [List.getElem?_append_right (Nat.le_add_right _ _), Nat.add_sub_cancel_left, padded,
    List.getElem?_append_left inside]

theorem getElem?_padding {position : Nat} (behind : line.length + text.length ≤ position)
    (inside : position < (line ++ padded text zeros).length) :
    (line ++ padded text zeros)[position]? = some 0 := by
  rw [padded, List.length_append, List.length_append, List.length_replicate] at inside
  rw [padded, ← List.append_assoc, List.getElem?_append_right (by rw [List.length_append]; omega),
    List.getElem?_replicate_of_lt]
  rw [List.length_append]
  omega

/-- No match ends in the zeros. -/
theorem stop_le_of_reported {event : MatchEvent}
    (reported : Reported (line ++ padded text zeros) event) :
    event.stop ≤ line.length + text.length := by
  by_contra beyond
  have bounded := reported.mem_candidates.1
  have within := reported.within.nonempty
  have isZero := @getElem?_padding line text zeros (event.stop - 1) (by omega) (by omega)
  by_cases isRate : event.id = rateLimitRegexId
  · obtain ⟨_, _, found⟩ := (reported.rate isRate).2.1
    have isT := (found.last last_rateLimitRegex).2
    rw [isZero] at isT
    exact absurd isT (by decide)
  · have := (reported.address isRate).avoids isZero (by decide)
    omega

theorem shortAddress_mem : shortAddress ∈ ip6Regex.matches' := by
  rw [ip6Regex, RegularExpression.matches'_add, Language.mem_add]
  right
  rw [ip6Double]
  simp only [RegularExpression.matches'_mul, Language.mem_mul, mem_upTo_oneOf, mem_literal]
  exact ⟨[col, col], ⟨[col, col], ⟨[], by simp, [col, col], rfl, rfl⟩, [], by simp, rfl⟩, [hash],
    rfl, rfl⟩

/-- The short address right behind the line is reported. -/
theorem reported_shortAddress (ends : EndsLine line) (more : List UInt8) :
    Reported (line ++ (shortAddress ++ more)) ⟨ip6RegexId, line.length, line.length + 3⟩ := by
  have found : Match ip6Regex (line ++ (shortAddress ++ more)) line.length (line.length + 3) := by
    rw [← Nat.add_zero line.length, Nat.add_assoc, match_append_right,
      match_append_left more (by decide)]
    exact ⟨by decide, by decide, shortAddress_mem⟩
  have leftmost : LeftmostMatch ip6Regex (line ++ (shortAddress ++ more)) line.length
      (line.length + 3) := by
    refine ⟨found, fun earlier before isMatch => ?_⟩
    have behind := ends.address_behind (Or.inr isMatch) (by omega)
    omega
  simpa [Reported, ip6RegexId, ip4RegexId] using leftmost

/-- The first word of the rate limit, behind a line that has none. -/
theorem firstEnd_behind (ends : EndsLine line) {rest : List UInt8}
    (none : ∀ event ∈ scanBlock line, event.id ≠ rateLimitRegexId)
    (found : Match rateLimitRegex (line ++ rest) start stop)
    (first : ∀ earlier < start, line.length ≤ earlier → ∃ char,
      (line ++ rest)[earlier]? = some char ∧ char ≠ 99) :
    FirstEnd rateLimitRegex (line ++ rest) stop := by
  refine ⟨⟨start, Nat.lt_succ_of_le found.1, found⟩, ?_⟩
  rintro earlier before ⟨other, -, isMatch⟩
  rcases Nat.lt_or_ge line.length earlier with beyond | inside
  · have behind := ends.rate_behind isMatch beyond
    obtain ⟨length, letters⟩ := rate_letters isMatch
    obtain ⟨sameLength, -⟩ := rate_letters found
    obtain ⟨char, present, notC⟩ := first other (by omega) behind
    have isC := letters 0 (by decide)
    rw [Nat.add_zero, present] at isC
    exact notC (Option.some.inj isC)
  · obtain ⟨event, member, isRate⟩ := exists_rate_event ((match_append_left rest inside).mp isMatch)
    exact none event member isRate

variable {hsScan : List UInt8 → Option (List MatchEvent)}

/-- A scan whose reports behind the line are known. -/
theorem Scans.append_of (scans : Scans hsScan) {rest : List UInt8} {behind : List MatchEvent}
    (known : ∀ event, Behind line rest [event] → event ∈ behind) (is : Behind line rest behind) :
    hsScan (line ++ rest) = some (scanBlock line ++ behind) ∧
      ScanEvents (line ++ rest) (scanBlock line ++ behind) := by
  obtain ⟨events, scanned, scan⟩ := scans (line ++ rest)
  have all : events = scanBlock line ++ behind := by
    refine scan.append_of (fun event beyond => ⟨fun reported => ?_, is.reported event⟩) is.beyond
      is.ordered
    exact known event ⟨by simpa using reported, by simpa using beyond, List.pairwise_singleton _ _⟩
  rw [all] at scanned scan
  exact ⟨scanned, scan⟩

theorem Behind.of_nil (line rest : List UInt8) : Behind line rest [] :=
  ⟨fun _ member => absurd member List.not_mem_nil, fun _ member => absurd member List.not_mem_nil,
    List.Pairwise.nil⟩

/-- The scan of a line in a buffer that holds nothing else. -/
theorem Scans.cleared (scans : Scans hsScan) (line : List UInt8) (zeros : Nat) :
    hsScan (line ++ padded [] zeros) = some (scanBlock line ++ []) ∧
      ScanEvents (line ++ padded [] zeros) (scanBlock line ++ []) := by
  refine scans.append_of (fun event is => ?_) (Behind.of_nil line _)
  have inside := stop_le_of_reported (is.reported event List.mem_cons_self)
  have beyond := is.beyond event List.mem_cons_self
  rw [List.length_nil] at inside
  omega

/-- The scan of a line that has the word of the rate limit, with an address behind
it. -/
theorem Scans.address (scans : Scans hsScan) (ends : EndsLine line)
    (found : ∃ event ∈ scanBlock line, event.id = rateLimitRegexId) (zeros : Nat) :
    hsScan (line ++ padded shortAddress zeros) =
      some (scanBlock line ++ [⟨ip6RegexId, line.length, line.length + 3⟩]) ∧
      ScanEvents (line ++ padded shortAddress zeros)
        (scanBlock line ++ [⟨ip6RegexId, line.length, line.length + 3⟩]) := by
  have reported : Reported (line ++ padded shortAddress zeros)
      ⟨ip6RegexId, line.length, line.length + 3⟩ := reported_shortAddress ends _
  apply scans.append_of
  · intro event is
    have isReported := is.reported event List.mem_cons_self
    have notRate := is.no_rate found event List.mem_cons_self
    obtain ⟨-, start, long, -⟩ := is.address ends List.mem_cons_self notRate
    have three : event.stop ≤ line.length + 3 := stop_le_of_reported isReported
    rw [List.mem_singleton]
    exact isReported.eq_of_stop reported (by dsimp only; omega)
  · exact ⟨by simpa using reported, by simp, List.pairwise_singleton _ _⟩

/-- The word of the rate limit behind some text. -/
theorem match_client (line front more : List UInt8) :
    Match rateLimitRegex (line ++ (front ++ ascii "client" ++ more)) (line.length + front.length)
      (line.length + (front.length + 6)) := by
  have six : (ascii "client").length = 6 := by decide
  have alone : Match rateLimitRegex (ascii "client") 0 6 :=
    ⟨by decide, by decide, mem_literal.mpr (by decide)⟩
  rw [match_append_right, match_append_left more (by rw [List.length_append, six])]
  exact (@match_append_right _ rateLimitRegex front (ascii "client") 0 6).mpr alone

theorem reported_rate_of {block : List UInt8} (first : FirstEnd rateLimitRegex block stop) :
    Reported block ⟨rateLimitRegexId, 0, stop⟩ := by
  simpa [Reported, rateLimitRegexId, ip4RegexId, ip6RegexId] using first

/-- The scan of a line that has no word of the rate limit, with the word behind
it. -/
theorem Scans.rate (scans : Scans hsScan) (ends : EndsLine line)
    (none : ∀ event ∈ scanBlock line, event.id ≠ rateLimitRegexId) (zeros : Nat) :
    hsScan (line ++ padded (ascii "client") zeros) =
      some (scanBlock line ++ [⟨rateLimitRegexId, 0, line.length + 6⟩]) ∧
      ScanEvents (line ++ padded (ascii "client") zeros)
        (scanBlock line ++ [⟨rateLimitRegexId, 0, line.length + 6⟩]) := by
  have six : (ascii "client").length = 6 := by decide
  have found : Match rateLimitRegex (line ++ padded (ascii "client") zeros) line.length
      (line.length + 6) := match_client line [] (List.replicate zeros 0)
  have reported := reported_rate_of
    (firstEnd_behind ends none found fun earlier before behind => absurd before (by omega))
  apply scans.append_of
  · intro event is
    have isReported := is.reported event List.mem_cons_self
    have atMost := stop_le_of_reported isReported
    rw [six] at atMost
    rw [List.mem_singleton]
    by_cases isRate : event.id = rateLimitRegexId
    · exact isReported.eq_of_stop reported (isReported.rate_unique reported isRate rfl)
    · -- only one of the letters belongs to the address patterns at a time
      obtain ⟨isMatch, start, long, -⟩ := is.address ends List.mem_cons_self isRate
      have letterL := isMatch.avoids (getElem?_padded (by decide : 1 < (ascii "client").length))
        (by decide)
      have letterI := isMatch.avoids (getElem?_padded (by decide : 2 < (ascii "client").length))
        (by decide)
      have letterT := isMatch.avoids (getElem?_padded (by decide : 5 < (ascii "client").length))
        (by decide)
      omega
  · exact ⟨by simpa using reported, by simp, List.pairwise_singleton _ _⟩

/-- The scan of a line that has no word of the rate limit, with an address and the
word behind it. -/
theorem Scans.both (scans : Scans hsScan) (ends : EndsLine line)
    (none : ∀ event ∈ scanBlock line, event.id ≠ rateLimitRegexId) (zeros : Nat) :
    hsScan (line ++ padded (shortAddress ++ ascii "client") zeros) =
      some (scanBlock line ++ [⟨ip6RegexId, line.length, line.length + 3⟩,
        ⟨rateLimitRegexId, 0, line.length + 9⟩]) ∧
      ScanEvents (line ++ padded (shortAddress ++ ascii "client") zeros)
        (scanBlock line ++ [⟨ip6RegexId, line.length, line.length + 3⟩,
          ⟨rateLimitRegexId, 0, line.length + 9⟩]) := by
  have nine : (shortAddress ++ ascii "client").length = 9 := by decide
  have found : Match rateLimitRegex (line ++ padded (shortAddress ++ ascii "client") zeros)
      (line.length + 3) (line.length + 9) :=
    match_client line shortAddress (List.replicate zeros 0)
  have address : Reported (line ++ padded (shortAddress ++ ascii "client") zeros)
      ⟨ip6RegexId, line.length, line.length + 3⟩ := by
    rw [padded, List.append_assoc]
    exact reported_shortAddress ends _
  have char : ∀ offset < 9, (line ++ padded (shortAddress ++ ascii "client") zeros)[line.length +
      offset]? = (shortAddress ++ ascii "client")[offset]? :=
    fun offset inside => getElem?_padded (by rw [nine]; exact inside)
  have noC : ∀ earlier < line.length + 3, line.length ≤ earlier → ∃ char,
      (line ++ padded (shortAddress ++ ascii "client") zeros)[earlier]? = some char ∧
        char ≠ 99 := by
    intro earlier before behind
    obtain ⟨offset, rfl⟩ := Nat.exists_eq_add_of_le behind
    rw [char offset (by omega)]
    match offset, before with
    | 0, _ => exact ⟨col, rfl, by decide⟩
    | 1, _ => exact ⟨col, rfl, by decide⟩
    | 2, _ => exact ⟨hash, rfl, by decide⟩
    | offset + 3, before => omega
  have rate := reported_rate_of (firstEnd_behind ends none found noC)
  apply scans.append_of
  · intro event is
    have isReported := is.reported event List.mem_cons_self
    have atMost := stop_le_of_reported isReported
    rw [nine] at atMost
    rw [List.mem_pair]
    by_cases isRate : event.id = rateLimitRegexId
    · exact Or.inr (isReported.eq_of_stop rate (isReported.rate_unique rate isRate rfl))
    · obtain ⟨isMatch, start, long, -⟩ := is.address ends List.mem_cons_self isRate
      have letterL := isMatch.avoids (char 4 (by decide)) (by decide)
      have letterI := isMatch.avoids (char 5 (by decide)) (by decide)
      have letterN := isMatch.avoids (char 7 (by decide)) (by decide)
      have letterC : event.stop ≠ line.length + 4 := by
        intro overlap
        rcases isMatch.long.2 with far | isHash
        · omega
        · rw [overlap, Nat.add_sub_assoc (by decide), char 3 (by decide)] at isHash
          exact absurd isHash (by decide)
      exact Or.inl (isReported.eq_of_stop address (by dsimp only; omega))
  · refine ⟨?_, by simp, ?_⟩
    · simpa using ⟨address, rate⟩
    · simp

end Complete

/-! ### Lines that leave room -/

section Leave

variable {hsScan : List UInt8 → Option (List MatchEvent)} {stampOf : List UInt8 → Int}
  {line rest : List UInt8} {context : HsContext} {cache : StampCache}

/-- The handler goes on behind the line. -/
theorem handleEvents_line (goesOn : lineStops line context = false) (rest : List UInt8)
    (behind : List MatchEvent) (stamp : Int) :
    handleEvents (scanBlock line ++ behind) (scanStart (line ++ rest) context stamp) =
      handleEvents behind
        (handleEvents (scanBlock line) (scanStart (line ++ rest) context stamp)) := by
  rw [handleEvents_append, (front_same line rest context stamp).1, goesOn, if_neg (by decide)]

/-- In a buffer that holds nothing else the line is refused. -/
theorem parseStr_cleared (scans : Scans hsScan) (goesOn : lineStops line context = false)
    (zeros : Nat) : (parseStr hsScan stampOf (line ++ padded [] zeros) context cache).1 = -2 := by
  refine parseStr_refused (scans.cleared line zeros).1 (handleEvents_line goesOn _ [] _) ?_
  obtain ⟨-, front⟩ := front_same line (padded [] zeros) context
    (stampIn stampOf cache (line ++ padded [] zeros))
  have undecided := (front_converted line [] context 0).2.2 goesOn
  rw [handleEvents, Undecided, front.rate, front.domain]
  exact undecided

/-- A line without the word of the rate limit. -/
theorem no_rate_of_missing (goesOn : lineStops line context = false)
    (missing : (lineContext line context).rateLimitMatch = false) :
    ∀ event ∈ scanBlock line, event.id ≠ rateLimitRegexId := by
  intro event member isRate
  have found : (lineContext line context).rateLimitMatch = true := by
    refine @handleEvents_reaches _ _ (fun context => context.rateLimitMatch = true) event ?_ ?_
      member goesOn
    · exact fun event member context => handler_keeps_rate (within_scanBlock member) context
    · intro context
      rw [handler_rate isRate]
  rw [missing] at found
  cases found

/-- The word of the rate limit behind a line with an address. -/
theorem parseStr_rate (scans : Scans hsScan) (ends : EndsLine line)
    (goesOn : lineStops line context = false)
    (noRate : (lineContext line context).rateLimitMatch = false)
    (domain : (lineContext line context).domain ≠ -1) (zeros : Nat) :
    (parseStr hsScan stampOf (line ++ padded (ascii "client") zeros) context cache).1 = 0 := by
  obtain ⟨scanned, scan⟩ := scans.rate ends (no_rate_of_missing goesOn noRate) zeros
  refine (parseStr_found scanned scan (handleEvents_line goesOn _ _ _) ?_).1
  obtain ⟨-, front⟩ := front_same line (padded (ascii "client") zeros) context
    (stampIn stampOf cache (line ++ padded (ascii "client") zeros))
  obtain ⟨converted, -⟩ := front_converted line (padded (ascii "client") zeros) context
    (stampIn stampOf cache (line ++ padded (ascii "client") zeros))
  rw [← front.domain] at domain
  rw [handleEvents_cons, handler_rate rfl, converted.isMatch domain, Undecided, not_not]
  exact ⟨rfl, domain⟩

/-- The text of the short address. -/
theorem addressText_short {front : HsContext} (first : front.logstr[line.length]? = some col)
    (second : front.logstr[line.length + 1]? = some col)
    (inside : line.length + 2 < front.logstr.length) :
    addressText ⟨ip6RegexId, line.length, line.length + 3⟩ front = [col, col] := by
  have cut : cutLogstr ⟨ip6RegexId, line.length, line.length + 3⟩ front =
      front.logstr.set (line.length + 2) 0 := rfl
  have here : (front.logstr.set (line.length + 2) 0)[line.length]? = some col := by
    rw [List.getElem?_set_ne (by omega), first]
  have next : (front.logstr.set (line.length + 2) 0)[line.length + 1]? = some col := by
    rw [List.getElem?_set_ne (by omega), second]
  have last : (front.logstr.set (line.length + 2) 0)[line.length + 2]? = some 0 :=
    List.getElem?_set_self inside
  obtain ⟨hereInside, isHere⟩ := List.getElem?_eq_some_iff.mp here
  obtain ⟨nextInside, isNext⟩ := List.getElem?_eq_some_iff.mp next
  obtain ⟨lastInside, isLast⟩ := List.getElem?_eq_some_iff.mp last
  rw [addressText, cut, cString, List.drop_eq_getElem_cons hereInside, isHere,
    List.drop_eq_getElem_cons nextInside, isNext, List.drop_eq_getElem_cons lastInside, isLast]
  rfl

/-- The context behind the short address, if no blank was written over it. -/
theorem handler_short (ends : EndsLine line) (unblanked : blanked line = false)
    (more : List UInt8) (stamp : Int) {front : HsContext}
    (isFront : handleEvents (scanBlock line)
      (scanStart (line ++ (shortAddress ++ more)) context stamp) = front) :
    AddressHandled ⟨ip6RegexId, line.length, line.length + 3⟩ front
        (regexMatchHandler ⟨ip6RegexId, line.length, line.length + 3⟩ front).2 ∧
      (regexMatchHandler ⟨ip6RegexId, line.length, line.length + 3⟩ front).1 =
        (if front.rateLimitMatch then 1 else 0) ∧
      (regexMatchHandler ⟨ip6RegexId, line.length, line.length + 3⟩ front).2.domain ≠ -1 := by
  refine ⟨(handler_address (Or.inr rfl) front).1, ?_⟩
  have present : ∀ offset < 3, front.logstr[line.length + offset]? = shortAddress[offset]? := by
    intro offset inside
    rw [← isFront, front_logstr ends (Nat.le_add_right _ _) fun _ => unblanked,
      List.getElem?_append_right (Nat.le_add_right _ _), Nat.add_sub_cancel_left,
      List.getElem?_append_left inside]
  have inside : line.length + 2 < front.logstr.length :=
    (List.getElem?_eq_some_iff.mp (present 2 (by decide))).1
  have text := addressText_short (present 0 (by decide)) (present 1 (by decide)) inside
  have converts : inetPton6 [col, col] = some (List.replicate 16 0) := by decide
  have handled := handler_ip6 (rfl : (⟨ip6RegexId, line.length, line.length + 3⟩ :
    MatchEvent).id = ip6RegexId) front
  rw [text, converts] at handled
  rw [handled]
  exact ⟨rfl, (by decide : afInet6 ≠ -1)⟩

/-- An address behind a line with the word of the rate limit. -/
theorem parseStr_address (scans : Scans hsScan) (ends : EndsLine line)
    (unblanked : blanked line = false) (goesOn : lineStops line context = false)
    (rate : (lineContext line context).rateLimitMatch = true) (zeros : Nat) :
    (parseStr hsScan stampOf (line ++ padded shortAddress zeros) context cache).1 = 0 := by
  obtain ⟨scanned, scan⟩ := scans.address ends (exists_rate_of_found rate) zeros
  refine (parseStr_found scanned scan (handleEvents_line goesOn _ _ _) ?_).1
  obtain ⟨-, front⟩ := front_same line (padded shortAddress zeros) context
    (stampIn stampOf cache (line ++ padded shortAddress zeros))
  obtain ⟨handled, -, domain⟩ := @handler_short line context ends unblanked
    (List.replicate zeros 0) (stampIn stampOf cache (line ++ padded shortAddress zeros)) _ rfl
  have found := handled.rate.trans (front.rate.trans rate)
  rw [handleEvents_cons]
  split
  · exact not_not.mpr ⟨found, domain⟩
  · exact not_not.mpr ⟨found, domain⟩

/-- An address and the word of the rate limit behind a line with neither. -/
theorem parseStr_both (scans : Scans hsScan) (ends : EndsLine line)
    (unblanked : blanked line = false) (goesOn : lineStops line context = false)
    (noRate : (lineContext line context).rateLimitMatch = false) (zeros : Nat) :
    (parseStr hsScan stampOf (line ++ padded (shortAddress ++ ascii "client") zeros) context
      cache).1 = 0 := by
  obtain ⟨scanned, scan⟩ := scans.both ends (no_rate_of_missing goesOn noRate) zeros
  refine (parseStr_found scanned scan (handleEvents_line goesOn _ _ _) ?_).1
  obtain ⟨-, front⟩ := front_same line (padded (shortAddress ++ ascii "client") zeros) context
    (stampIn stampOf cache (line ++ padded (shortAddress ++ ascii "client") zeros))
  have asText : padded (shortAddress ++ ascii "client") zeros =
      shortAddress ++ padded (ascii "client") zeros := List.append_assoc _ _ _
  have short := @handler_short line context ends unblanked (padded (ascii "client") zeros)
    (stampIn stampOf cache (line ++ padded (shortAddress ++ ascii "client") zeros)) _ rfl
  rw [← asText, front.rate, noRate, if_neg (by decide)] at short
  obtain ⟨handled, code, domain⟩ := short
  rw [handleEvents_cons, if_pos code, handleEvents_cons, handler_rate rfl, handled.isMatch]
  exact not_not.mpr ⟨rfl, domain⟩

/-- If the line decides and some bytes behind it would complete it, there is no room
for them. -/
theorem LineOnly.no_room (only : LineOnly hsScan stampOf line context cache)
    (scans : Scans hsScan) (goesOn : lineStops line context = false) {text : List UInt8}
    (accepted : ∀ zeros,
      (parseStr hsScan stampOf (line ++ padded text zeros) context cache).1 = 0) :
    linebufSize < line.length + text.length := by
  by_contra room
  rw [Nat.not_lt] at room
  have filled := accepted (linebufSize - (line.length + text.length))
  have cleared := @parseStr_cleared hsScan stampOf line context cache scans goesOn
    (linebufSize - line.length)
  have same := (only (padded text (linebufSize - (line.length + text.length)))
    (padded [] (linebufSize - line.length)) ?_ ?_).1
  · rw [filled, cleared] at same
    cases same
  · simp only [padded, List.length_append, List.length_replicate]
    omega
  · simp only [padded, List.length_append, List.length_replicate, List.length_nil]
    omega

/-- A line without a domain, if no blank is written behind it. -/
theorem LineOnly.room_unblanked (only : LineOnly hsScan stampOf line context cache)
    (scans : Scans hsScan) (ends : EndsLine line) (goesOn : lineStops line context = false)
    (unblanked : blanked line = false) :
    linebufSize <
      line.length + if (lineContext line context).rateLimitMatch then 3 else 9 := by
  cases rate : (lineContext line context).rateLimitMatch with
  | true => exact only.no_room scans goesOn (parseStr_address scans ends unblanked goesOn rate)
  | false => exact only.no_room scans goesOn (parseStr_both scans ends unblanked goesOn rate)

/-! ### A zero behind the line -/

theorem scanBlock_zero (line : List UInt8) : scanBlock (line ++ [0]) = scanBlock line := by
  have scanned := Option.some.inj (scans_scanBlock.cleared line 1).1
  rw [List.append_nil] at scanned
  exact scanned

theorem lineContext_zero (line : List UInt8) (context : HsContext) :
    lineStops (line ++ [0]) context = lineStops line context ∧
      SameUpTo line.length (lineContext (line ++ [0]) context) (lineContext line context) := by
  rw [lineStops, lineContext, scanBlock_zero]
  exact front_same line [0] context 0

/-- A zero keeps the blank away from the bytes behind it. -/
theorem blanked_zero (ends : EndsLine line) : blanked (line ++ [0]) = false := by
  rw [blanked, scanBlock_zero, List.any_eq_false]
  intro event member
  have before := ends.stop_lt member
  simp only [List.length_append, List.length_singleton, decide_eq_true_eq, not_and]
  omega

theorem LineOnly.zero (only : LineOnly hsScan stampOf line context cache) :
    LineOnly hsScan stampOf (line ++ [0]) context cache := by
  intro rest rest' length length'
  simp only [List.append_assoc] at length length' ⊢
  exact only _ _ length length'

/-- A line that decides and does not stop the scan leaves no room. -/
theorem LineOnly.room (only : LineOnly hsScan stampOf line context cache)
    (scans : Scans hsScan) (ends : EndsLine line) (goesOn : lineStops line context = false) :
    linebufSize < line.length + missing line (lineContext line context) := by
  have undecided := (front_converted line [] context 0).2.2 goesOn
  by_cases domain : (lineContext line context).domain = -1
  · cases blank : blanked line with
    | false => simpa [missing, domain, blank] using only.room_unblanked scans ends goesOn blank
    | true =>
        -- The byte under the blank is a zero, and the others complete the line.
        obtain ⟨stops, same⟩ := lineContext_zero line context
        have room := only.zero.room_unblanked scans (Or.inr (by simp)) (stops.trans goesOn)
          (blanked_zero ends)
        rw [same.rate, List.length_append, List.length_singleton] at room
        cases rate : (lineContext line context).rateLimitMatch with
        | true =>
            simp only [missing, rate, blank, ↓reduceIte] at room ⊢
            omega
        | false =>
            simp only [missing, rate, blank, domain] at room ⊢
            simp at room ⊢
            omega
  · have noRate : (lineContext line context).rateLimitMatch = false := by
      by_contra found
      exact undecided ⟨Bool.eq_true_of_not_eq_false found, domain⟩
    have room := only.no_room scans goesOn (parseStr_rate scans ends goesOn noRate domain)
    have six : (ascii "client").length = 6 := by decide
    simpa [missing, noRate, domain, six] using room

end Leave

/-! ### The condition -/

section Condition

variable {hsScan : List UInt8 → Option (List MatchEvent)} {stampOf : List UInt8 → Int}
  {line : List UInt8} {context : HsContext} {cache : StampCache}

/-- A settled line decides. -/
theorem Settled.lineOnly (settled : Settled stampOf line context cache) (scans : Scans hsScan)
    (isLocal : StampLocal stampOf) (ends : EndsLine line) :
    LineOnly hsScan stampOf line context cache := by
  intro rest rest' length length'
  unfold Settled at settled
  split at settled
  case isTrue stops =>
    by_cases noDomain : (lineContext line context).domain = -1
    · have left := @parseStr_stopped_refused _ stampOf _ _ cache scans stops noDomain rest
      have right := @parseStr_stopped_refused _ stampOf _ _ cache scans stops noDomain rest'
      refine ⟨left.trans right.symm, fun accepted => ?_⟩
      rw [left] at accepted
      cases accepted
    · obtain ⟨code, family, address, stamp⟩ :=
        @parseStr_stopped_found _ stampOf _ _ cache scans stops noDomain rest
      obtain ⟨code', family', address', stamp'⟩ :=
        @parseStr_stopped_found _ stampOf _ _ cache scans stops noDomain rest'
      have same := (settled.resolve_left noDomain).stampIn_same isLocal (exists_client stops)
        rest rest'
      exact ⟨code.trans code'.symm, fun _ => ⟨family.trans family'.symm,
        address.trans address'.symm, stamp.trans (same.trans stamp'.symm)⟩⟩
  case isFalse notStopped =>
    have goesOn : lineStops line context = false := Bool.eq_false_of_not_eq_true notStopped
    rw [List.length_append] at length length'
    have left := @parseStr_noRoom line rest context hsScan stampOf cache scans ends goesOn
      (by omega)
    have right := @parseStr_noRoom line rest' context hsScan stampOf cache scans ends goesOn
      (by omega)
    refine ⟨left.trans right.symm, fun accepted => ?_⟩
    rw [left] at accepted
    cases accepted

/-- A line that decides is settled. -/
theorem LineOnly.settled (only : LineOnly hsScan stampOf line context cache)
    (scans : Scans hsScan) (isLocal : StampLocal stampOf) (ends : EndsLine line)
    (size : cache.text.length = 21) : Settled stampOf line context cache := by
  unfold Settled
  split
  case isTrue stops =>
    by_cases noDomain : (lineContext line context).domain = -1
    · exact Or.inl noDomain
    · refine Or.inr (stampSettled_of_same isLocal (exists_client stops) size ?_)
      intro rest rest' length length'
      obtain ⟨code, -, -, stamp⟩ :=
        @parseStr_stopped_found _ stampOf _ _ cache scans stops noDomain rest
      obtain ⟨-, -, -, stamp'⟩ :=
        @parseStr_stopped_found _ stampOf _ _ cache scans stops noDomain rest'
      have same := ((only rest rest' length length').2 code).2.2
      rw [← stamp, ← stamp']
      exact same
  case isFalse notStopped =>
    exact only.room scans ends (Bool.eq_false_of_not_eq_true notStopped)

/-- `parse_str` depends on the line only if and only if the line is settled. -/
theorem lineOnly_iff_settled (scans : Scans hsScan) (isLocal : StampLocal stampOf)
    (ends : EndsLine line) (size : cache.text.length = 21) :
    LineOnly hsScan stampOf line context cache ↔ Settled stampOf line context cache :=
  ⟨fun only => only.settled scans isLocal ends size,
    fun settled => settled.lineOnly scans isLocal ends⟩

end Condition

/-! ### Two lines -/

/-- The cache before the first line. -/
def zeroCache : StampCache := ⟨List.replicate 21 0, 0⟩

theorem stampLocal_const (stamp : Int) : StampLocal fun _ => stamp := fun _ _ _ => rfl

/-- A line with the word of the rate limit and an address. -/
def clientLine : List UInt8 := ascii "client::#" ++ [10]

/-- Nothing behind it changes how it is parsed. -/
theorem lineOnly_clientLine :
    LineOnly (fun block => some (scanBlock block)) (fun _ => 1747128119) clientLine emptyContext
      zeroCache := by
  refine (lineOnly_iff_settled scans_scanBlock (stampLocal_const _) (by decide) (by decide)).mpr ?_
  have stops : lineStops clientLine emptyContext = true := by decide +kernel
  have apart : ¬ clientLine <+: zeroCache.text := by decide
  rw [Settled, if_pos stops]
  exact Or.inr (Or.inr (Or.inl apart))

/-- A line with neither. -/
def plainLine : List UInt8 := ascii "ok" ++ [10]

/-- What an earlier, longer message may leave behind it. -/
def leftover : List UInt8 := ascii "client::#"

theorem leftover_found : lineStops (plainLine ++ leftover) emptyContext = true ∧
    (lineContext (plainLine ++ leftover) emptyContext).domain = afInet6 := by
  decide +kernel

/-- It is refused if the buffer is cleared, and accepted with the leftover behind
it. -/
theorem plainLine_not_lineOnly :
    (Scans fun block => some (scanBlock block)) ∧ (StampLocal fun _ => 1747128119) ∧
      EndsLine plainLine ∧
      ¬ LineOnly (fun block => some (scanBlock block)) (fun _ => 1747128119) plainLine emptyContext
        zeroCache := by
  refine ⟨scans_scanBlock, stampLocal_const _, by decide, fun only => ?_⟩
  obtain ⟨stops, family⟩ := leftover_found
  have domain : (lineContext (plainLine ++ leftover) emptyContext).domain ≠ -1 := by
    rw [family]
    decide
  have goesOn : lineStops plainLine emptyContext = false := by decide +kernel
  have accepted : ∀ zeros, (parseStr (fun block => some (scanBlock block)) (fun _ => 1747128119)
      (plainLine ++ padded leftover zeros) emptyContext zeroCache).1 = 0 := by
    intro zeros
    rw [padded, ← List.append_assoc]
    exact (parseStr_stopped_found scans_scanBlock stops domain _).1
  have room := only.no_room scans_scanBlock goesOn accepted
  exact absurd room (by decide)

end FipsIpc.Sf2b
