import FipsIpc.Sf2b.Parse

/-!
Contract: the text format of the producer against the parser of the consumer.

Owns: the buffer a long log line of `udp_server` is scanned in, the events of
its scan, what they leave of the line, and the theorem that the parser finds the
client exactly when it is IPv4-mapped.

The line of an IPv6 client has five matches of the IPv6 pattern, since its last
group may have fewer than four digits.  The first ends behind the last colon,
which the handler replaces by a terminator.

Does not own: the producer's loop and the buffers between the two programs.
-/

set_option autoImplicit false

namespace FipsIpc.Sf2b

open FipsIpc.IpHashtable FipsIpc.Lib.Regex FipsIpc.UdpServer

/-! ### String forms -/

theorem octet_decMap (c : UInt8) : octet (decMap c) = some c := by
  have values : ∀ value < 256, octet (decMap (UInt8.ofNat value)) = some (UInt8.ofNat value) := by
    decide +kernel
  have this := values c.toNat c.toNat_lt
  rwa [UInt8.ofNat_toNat] at this

theorem digit_mem : ∀ value < 10, digit value ∈ digits := by decide

theorem hexDigit_mem : ∀ value < 16, hexDigit value ∈ hexChars := by decide

/-- The numbers of the producer have one to three digits. -/
theorem decMap_digits (c : UInt8) :
    1 ≤ (decMap c).length ∧ (decMap c).length ≤ 3 ∧ ∀ char ∈ decMap c, char ∈ digits := by
  have below := c.toNat_lt
  have hundreds : digit (c.toNat / 100) ∈ digits := digit_mem _ (by omega)
  have tens : digit (c.toNat / 10 % 10) ∈ digits := digit_mem _ (by omega)
  have ones : digit (c.toNat % 10) ∈ digits := digit_mem _ (by omega)
  unfold decMap
  dsimp only
  split
  · simp [hundreds, tens, ones]
  · split
    · have isTens : digit (c.toNat / 10) ∈ digits := digit_mem _ (by omega)
      simp [isTens, ones]
    · have isOnes : digit c.toNat ∈ digits := digit_mem _ (by omega)
      simp [isOnes]

theorem hexMap_hexChars (c : UInt8) : ∀ char ∈ hexMap c, char ∈ hexChars := by
  have below := c.toNat_lt
  have high : hexDigit (c.toNat / 16) ∈ hexChars := hexDigit_mem _ (by omega)
  have low : hexDigit (c.toNat % 16) ∈ hexChars := hexDigit_mem _ (by omega)
  simp [hexMap, high, low]

theorem dot_notMem_digits : dot ∉ digits := by decide

theorem dot_notMem_hexChars : dot ∉ hexChars := by decide

theorem inetPton4_ipv4ToStr (addr : In6Addr) :
    inetPton4 (ipv4ToStr (v4Part addr)) = some (v4Part addr) := by
  have parts : (ipv4ToStr (v4Part addr)).splitOn dot = (v4Part addr).map decMap := by
    apply List.splitOn_intercalate
    · intro part isPart
      rcases List.mem_map.mp isPart with ⟨c, -, rfl⟩
      exact fun member => dot_notMem_digits ((decMap_digits c).2.2 dot member)
    · rcases exists_v4Part addr with ⟨a, b, c, d, bytes⟩
      rw [bytes]
      exact List.cons_ne_nil _ _
  unfold inetPton4
  dsimp only
  rw [parts, List.length_map, length_v4Part, if_pos rfl]
  rcases exists_v4Part addr with ⟨a, b, c, d, bytes⟩
  rw [bytes]
  simp [octet_decMap]

/-- Groups of digits, none of them an IPv4 address, give two bytes each. -/
theorem length_groupBytes {parts : List (List UInt8)} {bytes : List UInt8}
    (noDot : ∀ part ∈ parts, dot ∉ part) (converted : groupBytes parts = some bytes) :
    bytes.length = 2 * parts.length := by
  have two : ∀ {part pair : List UInt8}, hexGroup part = some pair → pair.length = 2 := by
    intro part pair isGroup
    unfold hexGroup at isGroup
    split at isGroup
    · rcases Option.map_eq_some_iff.mp isGroup with ⟨_, -, rfl⟩
      rfl
    · cases isGroup
  induction parts generalizing bytes with
  | nil =>
      cases converted
      rfl
  | cons first rest inductionHypothesis =>
      rw [List.forall_mem_cons] at noDot
      cases rest with
      | nil =>
          rw [groupBytes] at converted
          rcases Option.or_eq_some_iff.mp converted with isGroup | ⟨-, isIp4⟩
          · exact two isGroup
          · have single : ([dot].intercalate [first]).splitOn dot = [first] :=
              List.splitOn_intercalate dot (by simpa using noDot.1) (List.cons_ne_nil _ _)
            have joined : [dot].intercalate [first] = first := by simp [List.intercalate]
            rw [joined] at single
            unfold inetPton4 at isIp4
            dsimp only at isIp4
            rw [single] at isIp4
            cases isIp4
      | cons second more =>
          rw [groupBytes] at converted
          · rcases Option.bind_eq_some_iff.mp converted with ⟨pair, isGroup, others⟩
            rcases Option.map_eq_some_iff.mp others with ⟨back, isBack, rfl⟩
            have counted := inductionHypothesis noDot.2 isBack
            rw [List.length_append, two isGroup, counted]
            simp only [List.length_cons]
            omega
          · simp

/-- Without adjacent colons there is no `::` to cut at. -/
theorem cutDouble_eq_none {text : List UInt8} (apart : ¬ [col, col] <:+: text) :
    cutDouble text = none := by
  induction text with
  | nil => rfl
  | cons first rest inductionHypothesis =>
      cases rest with
      | nil => rfl
      | cons second more =>
          have different : ¬ (first = col ∧ second = col) := by
            intro both
            rcases both with ⟨rfl, rfl⟩
            exact apart ⟨[], more, rfl⟩
          have later : ¬ [col, col] <:+: second :: more :=
            fun inside => apart (inside.trans (List.suffix_cons _ _).isInfix)
          rw [cutDouble, if_neg different, inductionHypothesis later]
          rfl

/-- Seven groups are no IPv6 address. -/
theorem inetPton6_intercalate {parts : List (List UInt8)} (seven : parts.length = 7)
    (groups : ∀ part ∈ parts, part ≠ [] ∧ ∀ char ∈ part, char ∈ hexChars) :
    inetPton6 ([col].intercalate parts) = none := by
  have noCol : ∀ part ∈ parts, col ∉ part :=
    fun part member inside => col_notMem_hexChars ((groups part member).2 col inside)
  have noDot : ∀ part ∈ parts, dot ∉ part :=
    fun part member inside => dot_notMem_hexChars ((groups part member).2 dot inside)
  have uncut := cutDouble_eq_none
    (not_double_intercalate (fun part member => (groups part member).1) noCol)
  have split : ([col].intercalate parts).splitOn col = parts :=
    List.splitOn_intercalate col noCol (List.ne_nil_of_length_pos (by omega))
  unfold inetPton6
  rw [uncut, split]
  dsimp only
  cases converted : groupBytes parts with
  | none => rfl
  | some bytes =>
      have length := length_groupBytes noDot converted
      rw [seven] at length
      simp [Option.filter, length]

/-! ### The line in its buffer -/

def linebufSize : Nat := 200

/-- A line in its zeroed buffer of `LINEBUF_SIZE` bytes. -/
def lineBlock (line : List UInt8) : List UInt8 :=
  line ++ List.replicate (linebufSize - line.length) 0

/-- Dates without a hash and with no more than six colons; the format of the
producer has two. -/
structure PlainDate (date : DateBuf) : Prop where
  noHash : hash ∉ date.toList
  fewCols : date.toList.count col ≤ 6

/-- The address between what stands in front of it and its hash. -/
def framed (front body back : List UInt8) : List UInt8 := front ++ (body ++ hash :: back)

/-- What a scan needs to know about the text around the address. -/
structure Framed (front body back : List UInt8) : Prop where
  length : front.length = 28
  blank : front[27]? = some 32
  client : excerpt front 21 27 = ascii "client"
  frontHash : hash ∉ front
  frontCols : front.count col ≤ 6
  bodyHash : hash ∉ body
  backHash : hash ∉ back
  backCols : col ∉ back

section Frame

variable {front body back : List UInt8}

theorem Framed.getElem?_blank (frame : Framed front body back) :
    (framed front body back)[27]? = some 32 := by
  have length := frame.length
  rw [framed, List.getElem?_append_left (by omega), frame.blank]

theorem Framed.drop (frame : Framed front body back) :
    (framed front body back).drop 28 = body ++ hash :: back := by
  rw [framed, ← frame.length, List.drop_left]

/-- There is one hash in the line. -/
theorem Framed.hash_at (frame : Framed front body back) {position : Nat}
    (isHash : (framed front body back)[position]? = some hash) :
    position = 28 + body.length := by
  have length := frame.length
  rw [framed] at isHash
  rcases Nat.lt_or_ge position front.length with inFront | behind
  · rw [List.getElem?_append_left inFront] at isHash
    exact absurd (List.mem_of_getElem? isHash) frame.frontHash
  rw [List.getElem?_append_right behind] at isHash
  rcases Nat.lt_or_ge (position - front.length) body.length with inBody | behindBody
  · rw [List.getElem?_append_left inBody] at isHash
    exact absurd (List.mem_of_getElem? isHash) frame.bodyHash
  rw [List.getElem?_append_right behindBody] at isHash
  cases offset : position - front.length - body.length with
  | zero => omega
  | succ later =>
      rw [offset, List.getElem?_cons_succ] at isHash
      exact absurd (List.mem_of_getElem? isHash) frame.backHash

/-- The address up to a position. -/
theorem Framed.excerpt_body (frame : Framed front body back) {stop : Nat}
    (inside : stop ≤ 28 + body.length) :
    excerpt (framed front body back) 28 stop = body.take (stop - 28) := by
  rw [excerpt, frame.drop, List.take_append_of_le_length (by omega)]

/-- The address with its hash. -/
theorem Framed.excerpt_hash (frame : Framed front body back) :
    excerpt (framed front body back) 28 (29 + body.length) = body ++ [hash] := by
  have count : 29 + body.length - 28 = body.length + 1 := by omega
  rw [excerpt, frame.drop, count, List.take_append, List.take_of_length_le (by omega),
    Nat.add_sub_cancel_left]
  rfl

theorem Framed.excerpt_front (frame : Framed front body back) :
    excerpt (framed front body back) 0 28 = front := by
  rw [excerpt, List.drop_zero, Nat.sub_zero, framed, ← frame.length, List.take_left]

theorem Framed.drop_hash (frame : Framed front body back) :
    (framed front body back).drop (29 + body.length) = back := by
  have split : 29 + body.length = 28 + (body.length + 1) := by omega
  rw [split, ← List.drop_drop, frame.drop, List.drop_length_add_append]
  rfl

theorem Framed.getElem?_hash (frame : Framed front body back) :
    (framed front body back)[28 + body.length]? = some hash := by
  rw [← List.getElem?_drop, frame.drop, List.getElem?_append_right (Nat.le_refl _), Nat.sub_self,
    List.getElem?_cons_zero]

theorem Framed.length_le (frame : Framed front body back) :
    29 + body.length ≤ (framed front body back).length := by
  have length := frame.length
  simp only [framed, List.length_append, List.length_cons]
  omega

/-- A match of a word without blanks that ends in a hash is within the
address. -/
theorem Framed.hash_match (frame : Framed front body back)
    {expression : RegularExpression UInt8} {start stop : Nat}
    (found : Match expression (framed front body back) start stop)
    (last : ∀ word ∈ expression.matches', word.getLast? = some hash) {allowed : UInt8 → Prop}
    (chars : ∀ word ∈ expression.matches', ∀ char ∈ word, allowed char) (foreign : ¬ allowed 32) :
    stop = 29 + body.length ∧ 28 ≤ start ∧
      excerpt (framed front body back) start stop <:+: body ++ [hash] := by
  rcases found.last last with ⟨nonempty, isHash⟩
  have stopAt := frame.hash_at isHash
  have behind := found.avoids chars frame.getElem?_blank foreign
  have isStop : stop = 29 + body.length := by omega
  have startBehind : 28 ≤ start := by omega
  refine ⟨isStop, startBehind, ?_⟩
  rw [← frame.excerpt_hash]
  exact excerpt_isInfix startBehind isStop.le

/-- The rate limit pattern first matches before the address. -/
theorem Framed.exists_firstEnd (frame : Framed front body back) :
    ∃ stop ≤ 27, FirstEnd rateLimitRegex (framed front body back) stop := by
  have length := frame.length
  have found : Match rateLimitRegex (framed front body back) 21 27 := by
    have total := frame.length_le
    refine ⟨by decide, by omega, ?_⟩
    rw [rateLimitRegex, mem_literal, ← frame.client, excerpt, excerpt, framed,
      List.drop_append_of_le_length (by omega), List.take_append_of_le_length]
    rw [List.length_drop]
    omega
  have ends : ∃ stop, ∃ start < stop + 1,
      Match rateLimitRegex (framed front body back) start stop := ⟨27, 21, by decide, found⟩
  exact ⟨Nat.find ends, Nat.find_le ⟨21, by decide, found⟩, Nat.find_spec ends,
    fun earlier before => Nat.find_min ends before⟩

/-! ### The line of an IPv4-mapped client -/

/-- Four numbers in front of the hash are one match. -/
theorem Framed.ip4_iff (frame : Framed front body back)
    (address : body ++ [hash] ∈ ip4Regex.matches') {start stop : Nat} :
    LeftmostMatch ip4Regex (framed front body back) start stop ↔
      start = 28 ∧ stop = 29 + body.length := by
  have found : Match ip4Regex (framed front body back) 28 (29 + body.length) := by
    refine ⟨by omega, frame.length_le, ?_⟩
    rwa [frame.excerpt_hash]
  constructor
  · intro leftmost
    rcases frame.hash_match leftmost.1 last_ip4Regex chars_ip4Regex (by decide) with
      ⟨rfl, behind, -⟩
    exact ⟨Nat.le_antisymm (leftmost.le found) behind, rfl⟩
  · intro position
    rcases position with ⟨rfl, rfl⟩
    refine ⟨found, fun earlier before isMatch => ?_⟩
    have behind := (frame.hash_match isMatch last_ip4Regex chars_ip4Regex (by decide)).2.1
    omega

/-- The IPv6 pattern needs more colons than the line has. -/
theorem Framed.no_ip6 (frame : Framed front body back) (noCol : col ∉ body) {start stop : Nat} :
    ¬ Match ip6Regex (framed front body back) start stop := by
  intro found
  rcases match_add.mp found with groups | double
  · have counted := count_ip6Groups _ groups.2.2
    have part : (excerpt (framed front body back) start stop).Sublist (framed front body back) :=
      (List.take_sublist _ _).trans (List.drop_sublist _ _)
    have total : (framed front body back).count col = front.count col := by
      rw [framed, List.count_append, List.count_append, List.count_eq_zero.mpr noCol,
        List.count_cons_of_ne (by decide), List.count_eq_zero.mpr frame.backCols, Nat.add_zero]
    have atMost := part.count_le col
    have few := frame.frontCols
    omega
  · have within := (frame.hash_match double last_ip6Double chars_ip6Double (by decide)).2.2
    have colons := (double_ip6Double _ double.2.2).trans within
    have inside : col ∈ body ++ [hash] := colons.subset (by simp)
    rcases List.mem_append.mp inside with inBody | isHash
    · exact noCol inBody
    · exact absurd (List.mem_singleton.mp isHash) (by decide)

/-! ### The line of an IPv6 client -/

/-- Seven groups with their colons between them, and the last group. -/
structure FullGroups (seven : List (List UInt8)) (last : List UInt8) : Prop where
  count : seven.length = 7
  width : ([col].intercalate seven).length = 34
  groups : ∀ part ∈ seven, part ≠ [] ∧ part.length ≤ 4 ∧ ∀ char ∈ part, char ∈ hexChars
  lastWidth : last.length = 4
  lastChars : ∀ char ∈ last, char ∈ hexChars

section Groups

variable {seven : List (List UInt8)} {last : List UInt8} {start stop : Nat}

theorem FullGroups.length (full : FullGroups seven last) :
    ([col].intercalate seven ++ col :: last).length = 39 := by
  rw [List.length_append, full.width, List.length_cons, full.lastWidth]

/-- All eight groups match up to any digit of the last. -/
theorem FullGroups.ip6_match (full : FullGroups seven last)
    (frame : Framed front ([col].intercalate seven ++ col :: last) back)
    (atLeast : 63 ≤ stop) (atMost : stop ≤ 67) :
    Match ip6Regex (framed front ([col].intercalate seven ++ col :: last) back) 28 stop := by
  have length := full.length
  have total := frame.length_le
  have width := full.width
  have nonempty : seven ≠ [] := List.ne_nil_of_length_pos (by rw [full.count]; decide)
  rw [ip6Regex, match_add]
  refine Or.inl ⟨by omega, by omega, ?_⟩
  have upto : stop - 28 = ([col].intercalate seven).length + (stop - 63 + 1) := by omega
  rw [frame.excerpt_body (by omega), upto, List.take_length_add_append, List.take_succ_cons,
    ← intercalate_concat nonempty, mem_ip6Groups]
  refine ⟨_, by rw [List.length_append, full.count]; rfl, ?_, rfl⟩
  intro part member
  rcases List.mem_append.mp member with inSeven | isLast
  · exact (full.groups part inSeven).2
  · rw [List.mem_singleton.mp isLast]
    refine ⟨?_, fun char inLast => full.lastChars char (List.mem_of_mem_take inLast)⟩
    rw [List.length_take]
    omega

/-- Nothing else matches the IPv6 pattern: the other parts of the line have too
few colons. -/
theorem FullGroups.ip6_only (full : FullGroups seven last)
    (frame : Framed front ([col].intercalate seven ++ col :: last) back)
    (found : Match ip6Regex (framed front ([col].intercalate seven ++ col :: last) back) start
      stop) :
    28 ≤ start ∧ 63 ≤ stop ∧ stop ≤ 67 := by
  have length := full.length
  rcases match_add.mp found with groups | double
  · have counted := count_ip6Groups _ groups.2.2
    have notBlank := groups.avoids chars_ip6Groups frame.getElem?_blank (by decide)
    have notHash := groups.avoids chars_ip6Groups frame.getElem?_hash (by decide)
    rw [length] at notHash
    rcases notBlank with inFront | behind
    · -- In front of the address there are at most six colons.
      have atMost := count_excerpt_le (framed front ([col].intercalate seven ++ col :: last) back)
        (Nat.zero_le start) (inFront.trans (by decide : 27 ≤ 28)) col
      have few := frame.frontCols
      rw [frame.excerpt_front] at atMost
      omega
    · rcases notHash with inBody | inBack
      · -- Up to the last digit before the seventh colon there are six.
        refine ⟨behind, ?_, inBody⟩
        by_contra early
        have atMost := count_excerpt_le (framed front ([col].intercalate seven ++ col :: last) back)
          behind (by omega : stop ≤ 62) col
        rw [frame.excerpt_body (by omega), List.take_left' full.width,
          count_intercalate (fun part member inside =>
            col_notMem_hexChars ((full.groups part member).2.2 col inside)), full.count] at atMost
        omega
      · -- Behind the hash there are none.
        have part : (excerpt (framed front ([col].intercalate seven ++ col :: last) back)
            start stop).Sublist ((framed front ([col].intercalate seven ++ col :: last) back).drop
              (29 + ([col].intercalate seven ++ col :: last).length)) :=
          (List.take_sublist _ _).trans (List.drop_suffix_drop_left _ (by omega)).sublist
        have atMost := part.count_le col
        rw [frame.drop_hash, List.count_eq_zero.mpr frame.backCols] at atMost
        omega
  · exfalso
    have within := (frame.hash_match double last_ip6Double chars_ip6Double (by decide)).2.2
    have colons := (double_ip6Double _ double.2.2).trans within
    have nonempty : seven ≠ [] := List.ne_nil_of_length_pos (by rw [full.count]; decide)
    have joined : [col].intercalate seven ++ col :: last ++ [hash] =
        [col].intercalate (seven ++ [last ++ [hash]]) := by
      rw [intercalate_concat nonempty, List.append_assoc, List.cons_append]
    rw [joined] at colons
    refine not_double_intercalate ?_ ?_ colons
    · intro part member
      rcases List.mem_append.mp member with inSeven | isLast
      · exact (full.groups part inSeven).1
      · rw [List.mem_singleton.mp isLast]
        exact List.concat_ne_nil _ _
    · intro part member inside
      rcases List.mem_append.mp member with inSeven | isLast
      · exact col_notMem_hexChars ((full.groups part inSeven).2.2 col inside)
      · rw [List.mem_singleton.mp isLast] at inside
        rcases List.mem_append.mp inside with inLast | isHash
        · exact col_notMem_hexChars (full.lastChars col inLast)
        · exact absurd (List.mem_singleton.mp isHash) (by decide)

theorem FullGroups.ip6_iff (full : FullGroups seven last)
    (frame : Framed front ([col].intercalate seven ++ col :: last) back) :
    LeftmostMatch ip6Regex (framed front ([col].intercalate seven ++ col :: last) back) start stop ↔
      start = 28 ∧ 63 ≤ stop ∧ stop ≤ 67 := by
  constructor
  · intro leftmost
    rcases full.ip6_only frame leftmost.1 with ⟨behind, atLeast, atMost⟩
    have first := leftmost.le (full.ip6_match frame atLeast atMost)
    exact ⟨Nat.le_antisymm first behind, atLeast, atMost⟩
  · intro position
    rcases position with ⟨rfl, atLeast, atMost⟩
    refine ⟨full.ip6_match frame atLeast atMost, fun earlier before isMatch => ?_⟩
    have behind := (full.ip6_only frame isMatch).1
    omega

/-- The IPv4 pattern needs dots. -/
theorem Framed.no_ip4 (frame : Framed front body back) (noDot : dot ∉ body) :
    ¬ Match ip4Regex (framed front body back) start stop := by
  intro found
  have within := (frame.hash_match found last_ip4Regex chars_ip4Regex (by decide)).2.2
  have inside : dot ∈ body ++ [hash] := within.subset (dot_ip4Regex _ found.2.2)
  rcases List.mem_append.mp inside with inBody | isHash
  · exact noDot inBody
  · exact absurd (List.mem_singleton.mp isHash) (by decide)

end Groups

/-! ### Events -/

/-- A scan whose reports are known and end at distinct positions. -/
theorem ScanEvents.eq_of_mem {block : List UInt8} {events expected : List MatchEvent}
    (scan : ScanEvents block events) (reported : ∀ event, Reported block event ↔ event ∈ expected)
    (ordered : expected.Pairwise fun left right => left.stop < right.stop) : events = expected := by
  have distinct : (expected.map MatchEvent.stop).Nodup :=
    List.pairwise_map.mpr (ordered.imp fun before => before.ne)
  have same : ∀ event, event ∈ events ↔ event ∈ expected :=
    fun event => (scan.reported event).trans (reported event)
  have permuted : events.Perm expected :=
    (List.perm_ext_iff_of_nodup scan.once distinct.of_map).mpr same
  refine permuted.eq_of_pairwise ?_ scan.ordered (ordered.imp fun before => before.le)
  intro left right inEvents inExpected before after
  exact List.inj_on_of_nodup_map distinct ((same left).mp inEvents) inExpected
    (Nat.le_antisymm before after)

theorem reported_rate {block : List UInt8} {stop first : Nat}
    (isFirst : FirstEnd rateLimitRegex block first) :
    FirstEnd rateLimitRegex block stop ↔ stop = first := by
  constructor
  · intro isEnd
    exact isEnd.unique isFirst
  · intro same
    rwa [same]

/-- The events of the line of an IPv4-mapped client. -/
theorem Framed.ip4_events (frame : Framed front body back)
    (address : body ++ [hash] ∈ ip4Regex.matches') (noCol : col ∉ body) {events : List MatchEvent}
    (scan : ScanEvents (framed front body back) events) :
    ∃ first, events = [⟨rateLimitRegexId, 0, first⟩, ⟨ip4RegexId, 28, 29 + body.length⟩] := by
  rcases frame.exists_firstEnd with ⟨first, bound, isFirst⟩
  refine ⟨first, scan.eq_of_mem ?_ ?_⟩
  · intro event
    rcases event with ⟨id, start, stop⟩
    simp only [Reported, List.mem_cons, List.not_mem_nil, or_false, MatchEvent.mk.injEq]
    split
    case isTrue isIp4 =>
      rw [frame.ip4_iff address, isIp4]
      simp [ip4RegexId, rateLimitRegexId]
    case isFalse notIp4 =>
      split
      case isTrue isIp6 =>
        rw [isIp6]
        simp only [ip6RegexId, rateLimitRegexId, ip4RegexId]
        constructor
        · intro leftmost
          exact absurd leftmost.1 (frame.no_ip6 noCol)
        · simp
      case isFalse =>
        rw [reported_rate isFirst]
        simp [notIp4]
  · simp only [List.pairwise_cons, List.mem_singleton, forall_eq, List.not_mem_nil, false_imp_iff,
      implies_true, List.Pairwise.nil, and_true]
    omega

/-- The events of the line of an IPv6 client. -/
theorem FullGroups.events {seven : List (List UInt8)} {last : List UInt8}
    (full : FullGroups seven last)
    (frame : Framed front ([col].intercalate seven ++ col :: last) back)
    (noDot : dot ∉ [col].intercalate seven ++ col :: last) {events : List MatchEvent}
    (scan : ScanEvents (framed front ([col].intercalate seven ++ col :: last) back) events) :
    ∃ first, events = ⟨rateLimitRegexId, 0, first⟩ ::
      (List.range' 63 5).map fun stop => ⟨ip6RegexId, 28, stop⟩ := by
  rcases frame.exists_firstEnd with ⟨first, bound, isFirst⟩
  refine ⟨first, scan.eq_of_mem ?_ ?_⟩
  · intro event
    rcases event with ⟨id, start, stop⟩
    simp only [Reported, List.mem_cons, List.mem_map, List.mem_range'_1, MatchEvent.mk.injEq]
    split
    case isTrue isIp4 =>
      rw [isIp4]
      simp only [ip6RegexId, rateLimitRegexId, ip4RegexId]
      constructor
      · intro leftmost
        exact absurd leftmost.1 (frame.no_ip4 noDot)
      · simp
    case isFalse notIp4 =>
      split
      case isTrue isIp6 =>
        rw [full.ip6_iff frame, isIp6]
        simp only [ip6RegexId, rateLimitRegexId]
        constructor
        · intro position
          exact Or.inr ⟨stop, by omega, trivial, position.1.symm, rfl⟩
        · intro member
          rcases member with ⟨impossible, -⟩ | ⟨_, inRange, -, rfl, rfl⟩
          · cases impossible
          · omega
      case isFalse notIp6 =>
        rw [reported_rate isFirst]
        constructor
        · exact Or.inl
        · intro member
          rcases member with isRate | ⟨_, -, isIp6, -⟩
          · exact isRate
          · exact absurd isIp6.symm notIp6
  · rw [List.pairwise_cons, List.pairwise_map]
    constructor
    · intro event member
      rcases List.mem_map.mp member with ⟨stop, inRange, rfl⟩
      have atLeast := (List.mem_range'_1.mp inRange).1
      change first < stop
      omega
    · exact List.pairwise_lt_range'

/-! ### What the handler leaves -/

theorem cString_terminated {rest : List UInt8} (length : front.length = 28) (noZero : 0 ∉ body) :
    cString (front ++ (body ++ 0 :: rest)) 28 = body := by
  have nonzero : ∀ char ∈ body, (char != 0) = true := by
    intro char member
    rw [bne_iff_ne]
    intro isZero
    exact noZero (isZero ▸ member)
  rw [cString, ← length, List.drop_left, List.takeWhile_append_of_pos nonzero]
  simp

theorem Framed.set_hash (frame : Framed front body back) :
    (framed front body back).set (29 + body.length - 1) 0 = front ++ (body ++ 0 :: back) := by
  have position : 29 + body.length - 1 = front.length + body.length := by
    rw [frame.length]
    omega
  rw [position, framed, List.set_append_right _ _ (Nat.le_add_right _ _), Nat.add_sub_cancel_left,
    List.set_append_right _ _ (Nat.le_refl _), Nat.sub_self, List.set_cons_zero]

/-- The two events of an IPv4-mapped client: the address is found and the scan
stops. -/
theorem Framed.handle_ip4 (frame : Framed front body back) (noZero : 0 ∉ body)
    {address : List UInt8} (converts : inetPton4 body = some address) {context : HsContext}
    (isLine : context.logstr = framed front body back) (fresh : context.isMatch = false)
    (first : Nat) :
    handleEvents [⟨rateLimitRegexId, 0, first⟩, ⟨ip4RegexId, 28, 29 + body.length⟩] context =
      { context with
        rateLimitMatch := true
        isMatch := true
        logstr := front ++ (body ++ 0 :: back)
        start := 28
        ipAddr := storeAddr context address
        domain := afInet } := by
  have rate : regexMatchHandler ⟨rateLimitRegexId, 0, first⟩ context =
      (0, { context with rateLimitMatch := true }) := by
    simp [regexMatchHandler, fresh]
  have found : regexMatchHandler ⟨ip4RegexId, 28, 29 + body.length⟩
      { context with rateLimitMatch := true } =
      (1, { context with
        rateLimitMatch := true
        isMatch := true
        logstr := front ++ (body ++ 0 :: back)
        start := 28
        ipAddr := storeAddr context address
        domain := afInet }) := by
    have notRate : ip4RegexId ≠ rateLimitRegexId := by decide
    unfold regexMatchHandler
    rw [if_neg notRate, if_pos rfl]
    dsimp only
    rw [isLine, frame.set_hash, cString_terminated frame.length noZero, converts]
    rfl
  rw [handleEvents, rate]
  dsimp only
  rw [if_pos rfl, handleEvents, found]
  rfl

/-- The line is cut at its seventh colon. -/
structure Cut (front groups logstr : List UInt8) : Prop where
  before : logstr.take 62 = front ++ groups
  zero : logstr[62]? = some 0

theorem Cut.set (cut : Cut front body back) {position : Nat} (behind : 63 ≤ position)
    (char : UInt8) : Cut front body (back.set position char) := by
  constructor
  · rw [List.take_set_of_le (by omega), cut.before]
  · rw [List.getElem?_set_ne (by omega), cut.zero]

theorem Cut.cString (cut : Cut front body back) (length : front.length = 28)
    (noZero : 0 ∉ body) : cString back 28 = body := by
  have split : back = front ++ (body ++ 0 :: back.drop 63) := by
    have inside : 62 < back.length := (List.getElem?_eq_some_iff.mp cut.zero).1
    have atCut : back.get ⟨62, inside⟩ = 0 := (List.getElem?_eq_some_iff.mp cut.zero).2
    calc back = back.take 62 ++ back.drop 62 := (List.take_append_drop 62 back).symm
      _ = front ++ body ++ back.get ⟨62, inside⟩ :: back.drop 63 := by
        rw [cut.before, List.drop_eq_getElem_cons inside]
        rfl
      _ = front ++ (body ++ 0 :: back.drop 63) := by rw [atCut, List.append_assoc]
  rw [split]
  exact cString_terminated length noZero

/-- A match behind the cut converts the cut address again. -/
theorem Cut.handle (cut : Cut front body back) (length : front.length = 28) (noZero : 0 ∉ body)
    (fails : inetPton6 body = none) {context : HsContext} {stop : Nat}
    (isLine : context.logstr.set (stop - 1) 0 = back) (behind : 63 ≤ stop) :
    ∃ next, regexMatchHandler ⟨ip6RegexId, 28, stop⟩ context = (0, next) ∧ next.domain = -1 ∧
      Cut front body next.logstr := by
  have notRate : ip6RegexId ≠ rateLimitRegexId := by decide
  have notIp4 : ip6RegexId ≠ ip4RegexId := by decide
  unfold regexMatchHandler
  rw [if_neg notRate, if_neg notIp4, if_pos rfl]
  dsimp only
  rw [isLine, cut.cString length noZero, fails]
  exact ⟨_, rfl, rfl, cut.set (by omega) 32⟩

/-- No later match of the line finds a domain. -/
theorem Cut.handleEvents (length : front.length = 28) (noZero : 0 ∉ body)
    (fails : inetPton6 body = none) {stops : List Nat} (behind : ∀ stop ∈ stops, 64 ≤ stop)
    {context : HsContext} (cut : Cut front body context.logstr) (noDomain : context.domain = -1) :
    (handleEvents (stops.map fun stop => ⟨ip6RegexId, 28, stop⟩) context).domain = -1 := by
  induction stops generalizing context with
  | nil => exact noDomain
  | cons stop rest inductionHypothesis =>
      rw [List.forall_mem_cons] at behind
      have again : Cut front body (context.logstr.set (stop - 1) 0) := cut.set (by omega) 0
      rcases again.handle length noZero fails rfl (by omega) with ⟨next, handled, lost, stays⟩
      rw [List.map_cons, Sf2b.handleEvents, handled]
      exact inductionHypothesis behind.2 stays lost

/-- The six events of an IPv6 client: the first match of the address cuts the
line, and none of the others finds the whole address. -/
theorem FullGroups.handle_events {seven : List (List UInt8)} {last : List UInt8}
    (full : FullGroups seven last)
    (frame : Framed front ([col].intercalate seven ++ col :: last) back) {context : HsContext}
    (isLine : context.logstr = framed front ([col].intercalate seven ++ col :: last) back)
    (fresh : context.isMatch = false) (first : Nat) :
    (handleEvents (⟨rateLimitRegexId, 0, first⟩ ::
      (List.range' 63 5).map fun stop => ⟨ip6RegexId, 28, stop⟩) context).domain = -1 := by
  have noZero : 0 ∉ [col].intercalate seven := by
    intro member
    rcases mem_intercalate member with isCol | ⟨part, isPart, inPart⟩
    · exact absurd isCol (by decide)
    · exact absurd ((full.groups part isPart).2.2 0 inPart) (by decide)
  have fails : inetPton6 ([col].intercalate seven) = none :=
    inetPton6_intercalate full.count fun part member =>
      ⟨(full.groups part member).1, (full.groups part member).2.2⟩
  have rate : regexMatchHandler ⟨rateLimitRegexId, 0, first⟩ context =
      (0, { context with rateLimitMatch := true }) := by
    simp [regexMatchHandler, fresh]
  have cut : Cut front ([col].intercalate seven) (context.logstr.set (63 - 1) 0) := by
    have upto : 62 = (front ++ [col].intercalate seven).length := by
      rw [List.length_append, frame.length, full.width]
    have long : 62 < context.logstr.length := by
      have total := frame.length_le
      rw [full.length] at total
      rw [isLine]
      omega
    constructor
    · rw [List.take_set_of_le (Nat.le_refl _), isLine, framed, List.append_assoc,
        ← List.append_assoc front, upto, List.take_left]
    · exact List.getElem?_set_self long
  have rest : List.range' 63 5 = 63 :: List.range' 64 4 := rfl
  have cutting : ∃ next, regexMatchHandler ⟨ip6RegexId, 28, 63⟩
      { context with rateLimitMatch := true } = (0, next) ∧ next.domain = -1 ∧
        Cut front ([col].intercalate seven) next.logstr :=
    cut.handle frame.length noZero fails rfl (Nat.le_refl 63)
  rcases cutting with ⟨next, handled, lost, stays⟩
  rw [handleEvents, rate, rest, List.map_cons]
  dsimp only
  rw [if_pos rfl, handleEvents, handled]
  dsimp only
  rw [if_pos rfl]
  exact Cut.handleEvents frame.length noZero fails
    (fun stop member => (List.mem_range'_1.mp member).1) stays lost

end Frame

/-! ### The lines of the producer -/

section Lines

variable {addr : In6Addr} {date : DateBuf}

/-- The block of a long record, cut at the address. -/
theorem lineBlock_logstrLong (date : DateBuf) (addr : In6Addr) :
    lineBlock (logstrLong date addr) = framed (date.toList ++ hostPrefix) (addressStr addr)
      (msgStr ++ List.replicate (linebufSize - (logstrLong date addr).length) 0) := by
  have isHash : ascii "#" = [hash] := by decide
  unfold lineBlock framed
  generalize List.replicate (linebufSize - (logstrLong date addr).length) (0 : UInt8) = padding
  simp only [logstrLong, isHash, List.append_assoc, List.cons_append, List.nil_append]

theorem framed_logstrLong (plain : PlainDate date) {body : List UInt8} (bodyHash : hash ∉ body)
    (padding : Nat) :
    Framed (date.toList ++ hostPrefix) body (msgStr ++ List.replicate padding 0) := by
  have dateLength : date.toList.length = 20 := Vector.length_toList
  have hostFacts : hostPrefix[7]? = some 32 ∧ (hostPrefix.drop 1).take 6 = ascii "client" ∧
      hash ∉ hostPrefix ∧ col ∉ hostPrefix := by decide
  have msgFacts : hash ∉ msgStr ∧ col ∉ msgStr := by decide
  refine ⟨?_, ?_, ?_, ?_, ?_, bodyHash, ?_, ?_⟩
  · rw [List.length_append, dateLength]
    rfl
  · rw [List.getElem?_append_right (by omega), dateLength]
    exact hostFacts.1
  · have behind : (date.toList ++ hostPrefix).drop (20 + 1) = hostPrefix.drop 1 := by
      rw [← dateLength, List.drop_length_add_append]
    rw [excerpt, behind]
    exact hostFacts.2.1
  · rw [List.mem_append, not_or]
    exact ⟨plain.noHash, hostFacts.2.2.1⟩
  · rw [List.count_append, List.count_eq_zero.mpr hostFacts.2.2.2]
    exact plain.fewCols
  · rw [List.mem_append, not_or, List.mem_replicate]
    exact ⟨msgFacts.1, fun isPadding => absurd isPadding.2 (by decide)⟩
  · rw [List.mem_append, not_or, List.mem_replicate]
    exact ⟨msgFacts.2, fun isPadding => absurd isPadding.2 (by decide)⟩

/-- An IPv4 string with its hash is one word of the IPv4 pattern. -/
theorem ipv4ToStr_mem (addr : In6Addr) :
    ipv4ToStr (v4Part addr) ++ [hash] ∈ ip4Regex.matches' := by
  rw [mem_ip4Regex]
  refine ⟨(v4Part addr).map decMap, ?_, ?_, rfl⟩
  · rw [List.length_map, length_v4Part]
  · intro part member
    rcases List.mem_map.mp member with ⟨c, -, rfl⟩
    exact decMap_digits c

theorem mem_ipv4ToStr {char : UInt8} (member : char ∈ ipv4ToStr (v4Part addr)) :
    char ∈ digits ∨ char = dot := by
  rcases mem_intercalate member with isDot | ⟨part, isPart, inPart⟩
  · exact Or.inr isDot
  · rcases List.mem_map.mp isPart with ⟨c, -, rfl⟩
    exact Or.inl ((decMap_digits c).2.2 char inPart)

/-- Digits and dots are no other character. -/
theorem notMem_ipv4ToStr {char : UInt8} (notDigit : char ∉ digits) (notDot : char ≠ dot) :
    char ∉ ipv4ToStr (v4Part addr) :=
  fun member => (mem_ipv4ToStr member).elim notDigit notDot

theorem mem_hexGroups {part : List UInt8} :
    ∀ {src : List UInt8}, part ∈ hexGroups src → ∃ high low, part = hexMap high ++ hexMap low
  | high :: low :: rest, member => by
      rcases List.mem_cons.mp member with isFirst | later
      · exact ⟨high, low, isFirst⟩
      · exact mem_hexGroups later

theorem hexMap_group (high low : UInt8) : hexMap high ++ hexMap low ≠ [] ∧
    (hexMap high ++ hexMap low).length ≤ 4 ∧
      ∀ char ∈ hexMap high ++ hexMap low, char ∈ hexChars := by
  refine ⟨List.cons_ne_nil _ _, Nat.le_refl _, fun char member => ?_⟩
  exact (List.mem_append.mp member).elim (hexMap_hexChars high char) (hexMap_hexChars low char)

/-- Digits and colons are no other character. -/
theorem notMem_ipv6ToStr {char : UInt8} (notHex : char ∉ hexChars) (notCol : char ≠ col) :
    char ∉ ipv6ToStr addr.toList := by
  intro member
  rcases mem_intercalate member with isCol | ⟨part, isPart, inPart⟩
  · exact notCol isCol
  · rcases mem_hexGroups isPart with ⟨high, low, rfl⟩
    exact notHex ((hexMap_group high low).2.2 char inPart)

/-- The string of an IPv6 client is eight full groups. -/
theorem exists_fullGroups (addr : In6Addr) : ∃ seven last, FullGroups seven last ∧
    ipv6ToStr addr.toList = [col].intercalate seven ++ col :: last := by
  have sixteen : addr.toList.length = 16 := by simp
  match addr.toList, sixteen with
  | [a, b, c, d, e, f, g, h, i, j, k, l, m, n, o, p], _ =>
      refine ⟨hexGroups [a, b, c, d, e, f, g, h, i, j, k, l, m, n], hexMap o ++ hexMap p,
        ⟨rfl, rfl, ?_, rfl, (hexMap_group o p).2.2⟩, rfl⟩
      intro part member
      rcases mem_hexGroups member with ⟨high, low, rfl⟩
      exact hexMap_group high low

/-! ### Producer and consumer -/

/-- The parser succeeds with the family and the bytes of the client. -/
def Agrees (addr : In6Addr) (result : Int × HsContext × StampCache) : Prop :=
  result.1 = 0 ∧
    if in6IsAddrV4mapped addr then
      result.2.1.domain = afInet ∧ result.2.1.ipAddr.take 4 = v4Part addr
    else result.2.1.domain = afInet6 ∧ result.2.1.ipAddr.take 16 = addr.toList

variable {hsScan : List UInt8 → Option (List MatchEvent)} {context : HsContext} {cache : StampCache}

/-- The line of an IPv4-mapped client parses to its address. -/
theorem parseStr_mapped (scans : Scans hsScan) (stampOf : List UInt8 → Int)
    (plain : PlainDate date) (mapped : in6IsAddrV4mapped addr = true) :
    Agrees addr
      (parseStr hsScan stampOf (lineBlock (logstrLong date addr)) context cache) := by
  have isString : addressStr addr = ipv4ToStr (v4Part addr) := if_pos mapped
  have noZero : 0 ∉ ipv4ToStr (v4Part addr) := notMem_ipv4ToStr (by decide) (by decide)
  have noCol : col ∉ ipv4ToStr (v4Part addr) := notMem_ipv4ToStr (by decide) (by decide)
  have converts := inetPton4_ipv4ToStr addr
  rw [lineBlock_logstrLong, isString]
  generalize linebufSize - (logstrLong date addr).length = padding
  have noHash : hash ∉ ipv4ToStr (v4Part addr) := notMem_ipv4ToStr (by decide) (by decide)
  have frame := framed_logstrLong plain noHash padding
  rcases scans (framed (date.toList ++ hostPrefix) (ipv4ToStr (v4Part addr))
    (msgStr ++ List.replicate padding 0)) with ⟨events, scanned, scan⟩
  rcases frame.ip4_events (ipv4ToStr_mem addr) noCol scan with ⟨first, rfl⟩
  unfold parseStr
  rw [scanned]
  dsimp only
  rw [frame.handle_ip4 noZero converts rfl rfl]
  dsimp only
  rw [if_neg (by decide), convertAddress, cString_terminated frame.length noZero, converts]
  refine ⟨rfl, ?_⟩
  rw [if_pos mapped]
  exact ⟨rfl, List.take_left' (length_v4Part addr)⟩

/-- The line of an IPv6 client is refused. -/
theorem parseStr_other (scans : Scans hsScan) (stampOf : List UInt8 → Int)
    (plain : PlainDate date) (other : in6IsAddrV4mapped addr = false) :
    (parseStr hsScan stampOf (lineBlock (logstrLong date addr)) context cache).1 = -2 := by
  have isString : addressStr addr = ipv6ToStr addr.toList := if_neg (by simp [other])
  have noDot : dot ∉ ipv6ToStr addr.toList := notMem_ipv6ToStr (by decide) (by decide)
  have noHash : hash ∉ ipv6ToStr addr.toList := notMem_ipv6ToStr (by decide) (by decide)
  rw [lineBlock_logstrLong, isString]
  generalize linebufSize - (logstrLong date addr).length = padding
  have frame := framed_logstrLong plain noHash padding
  rcases exists_fullGroups addr with ⟨seven, last, full, isGroups⟩
  rw [isGroups] at noDot frame ⊢
  generalize isFront : date.toList ++ hostPrefix = front at frame ⊢
  generalize msgStr ++ List.replicate padding 0 = back at frame ⊢
  rcases scans (framed front ([col].intercalate seven ++ col :: last) back) with
    ⟨events, scanned, scan⟩
  rcases full.events frame noDot scan with ⟨first, rfl⟩
  unfold parseStr
  rw [scanned]
  dsimp only
  rw [if_pos]
  exact Or.inr (Or.inl (full.handle_events frame rfl rfl first))

/-- Whatever the date, the parser finds the client of a long record exactly when
the client is IPv4-mapped. -/
theorem parseStr_logstrLong_iff (scans : Scans hsScan) (stampOf : List UInt8 → Int)
    (plain : PlainDate date) :
    Agrees addr (parseStr hsScan stampOf (lineBlock (logstrLong date addr)) context cache) ↔
      in6IsAddrV4mapped addr = true := by
  constructor
  · intro agrees
    cases mapped : in6IsAddrV4mapped addr with
    | true => rfl
    | false =>
        have refused := agrees.1
        rw [parseStr_other scans stampOf plain mapped] at refused
        cases refused
  · exact parseStr_mapped scans stampOf plain

end Lines

/-! ### Dates of the producer -/

/-- What `strftime` may write at each position for `%d-%b-%Y %H:%M:%S`. -/
def dateFormat : List (UInt8 → Bool) :=
  let letter : UInt8 → Bool := fun char =>
    (ascii "abcdefghijklmnopqrstuvwxyz").contains (char ||| 32)
  let dash : UInt8 → Bool := (· == 45)
  let blank : UInt8 → Bool := (· == 32)
  let colon : UInt8 → Bool := (· == col)
  [isDigit, isDigit, dash, letter, letter, letter, dash, isDigit, isDigit, isDigit, isDigit, blank,
    isDigit, isDigit, colon, isDigit, isDigit, colon, isDigit, isDigit]

/-- A character occurs no more often than the format allows. -/
theorem count_le_countP {format : List (UInt8 → Bool)} {text : List UInt8} (char : UInt8)
    (follows : List.Forall₂ (fun allowed char => allowed char = true) format text) :
    text.count char ≤ format.countP fun allowed => allowed char := by
  induction follows with
  | nil => exact Nat.le_refl 0
  | @cons allowed first format text isAllowed _ inductionHypothesis =>
      rw [List.count_cons, List.countP_cons]
      by_cases same : first = char
      · rw [same] at isAllowed
        simpa [same, isAllowed] using inductionHypothesis
      · simpa [same] using Nat.le_add_right_of_le inductionHypothesis

theorem plainDate_of_format {date : DateBuf}
    (follows : List.Forall₂ (fun allowed char => allowed char = true) dateFormat date.toList) :
    PlainDate date := by
  have hashes := count_le_countP hash follows
  have colons := count_le_countP col follows
  have noHash : dateFormat.countP (fun allowed => allowed hash) = 0 := by decide
  have twoCols : dateFormat.countP (fun allowed => allowed col) = 2 := by decide
  constructor
  · rw [← List.count_eq_zero]
    omega
  · omega

def someDate : DateBuf := ⟨(ascii "13-May-2025 09:21:59").toArray, by decide⟩

theorem plainDate_someDate : PlainDate someDate := plainDate_of_format (by decide)

/-- 192.0.2.7 as an IPv4-mapped address. -/
def mappedAddr : In6Addr := #v[0, 0, 0, 0, 0, 0, 0, 0, 0, 0, 0xff, 0xff, 192, 0, 2, 7]

/-- 2001:db8::7. -/
def ipv6Addr : In6Addr := #v[0x20, 1, 0x0d, 0xb8, 0, 0, 0, 0, 0, 0, 0, 0, 0, 0, 0, 7]

def emptyContext : HsContext := ⟨-1, false, false, [], List.replicate 16 0, 0, 0⟩

theorem parseStr_mappedAddr :
    Agrees mappedAddr (parseStr (fun block => some (scanBlock block)) (fun _ => 1747128119)
      (lineBlock (logstrLong someDate mappedAddr)) emptyContext ⟨[], 0⟩) :=
  (parseStr_logstrLong_iff scans_scanBlock _ plainDate_someDate).mpr (by decide)

/-- The scanner works and the date is plain, yet the line of 2001:db8::7 is not
parsed. -/
theorem not_agrees_ipv6Addr :
    (Scans fun block => some (scanBlock block)) ∧ PlainDate someDate ∧
      ¬ Agrees ipv6Addr (parseStr (fun block => some (scanBlock block)) (fun _ => 1747128119)
        (lineBlock (logstrLong someDate ipv6Addr)) emptyContext ⟨[], 0⟩) := by
  refine ⟨scans_scanBlock, plainDate_someDate, fun agrees => ?_⟩
  have succeeded := agrees.1
  rw [parseStr_other scans_scanBlock _ plainDate_someDate (by decide)] at succeeded
  cases succeeded

end FipsIpc.Sf2b
