import FipsIpc.IpHashtable.Table
import FipsIpc.Lib.Regex
import FipsIpc.UdpServer.Logstr

/-!
Contract: parsing a log line, `programs/sf2b/string.c` and `hs.c`.

Owns: the three compiled patterns with their flags, `regex_match_handler`,
`parse_str` with its cached time stamp, and `inet_pton`; what a scan of a block
reports, and a scanner that does.

`hs_scan` is an argument.  It decides on the block it is given, reports the
matches in the order of their ends and stops when the handler returns a value
other than zero.  An address pattern is reported with its leftmost start at
every end, the pattern with `HS_FLAG_SINGLEMATCH` once and without a start.
`strptime`, `mktime` and `time` are one argument, the time stamp of a line.

Does not own: how lines are received, banning, and the format of the producer.
-/

set_option autoImplicit false

namespace FipsIpc.Sf2b

open FipsIpc.IpHashtable FipsIpc.Lib.Regex FipsIpc.UdpServer

/-! ### Addresses -/

def isDigit (char : UInt8) : Bool := 48 ≤ char.toNat && char.toNat ≤ 57

/-- One decimal number of an IPv4 address, without leading zeros. -/
def octet (part : List UInt8) : Option UInt8 :=
  let value := part.foldl (fun value char => 10 * value + (char.toNat - 48)) 0
  if part ≠ [] ∧ part.all isDigit ∧ (part.head? = some 48 → part.length = 1) ∧ value < 256 then
    some (UInt8.ofNat value)
  else none

/-- `inet_pton` of `AF_INET`. -/
def inetPton4 (text : List UInt8) : Option (List UInt8) :=
  let parts := text.splitOn dot
  if parts.length = 4 then parts.mapM octet else none

/-- The value of a hexadecimal digit of either case. -/
def hexValue (char : UInt8) : Option Nat :=
  let value := char.toNat
  if 48 ≤ value ∧ value ≤ 57 then some (value - 48)
  else if 97 ≤ value ∧ value ≤ 102 then some (value - 87)
  else if 65 ≤ value ∧ value ≤ 70 then some (value - 55)
  else none

/-- The two bytes of a group of one to four digits. -/
def hexGroup (part : List UInt8) : Option (List UInt8) :=
  if part ≠ [] ∧ part.length ≤ 4 then
    (part.mapM hexValue).map fun digits =>
      let value := digits.foldl (fun value digit => 16 * value + digit) 0
      [UInt8.ofNat (value / 256), UInt8.ofNat value]
  else none

/-- Groups up to the end of the text, where an IPv4 address may stand for the
last two. -/
def groupBytes : List (List UInt8) → Option (List UInt8)
  | [] => some []
  | [last] => (hexGroup last).or (inetPton4 last)
  | part :: rest => (hexGroup part).bind fun front => (groupBytes rest).map (front ++ ·)

/-- The text before and after the first `::`. -/
def cutDouble : List UInt8 → Option (List UInt8 × List UInt8)
  | first :: second :: rest =>
      if first = col ∧ second = col then some ([], rest)
      else (cutDouble (second :: rest)).map fun (front, back) => (first :: front, back)
  | _ => none

/-- `inet_pton` of `AF_INET6`; `::` stands for at least one group. -/
def inetPton6 (text : List UInt8) : Option (List UInt8) :=
  match cutDouble text with
  | none => (groupBytes (text.splitOn col)).filter (·.length == 16)
  | some (front, back) => do
      let front ← if front = [] then some []
        else ((front.splitOn col).mapM hexGroup).map List.flatten
      let back ← if back = [] then some [] else groupBytes (back.splitOn col)
      if front.length + back.length ≤ 14 then
        some (front ++ List.replicate (16 - front.length - back.length) 0 ++ back)
      else none

/-- The C string at a position of a buffer. -/
def cString (buffer : List UInt8) (position : Nat) : List UInt8 :=
  (buffer.drop position).takeWhile (· != 0)

/-! ### Patterns -/

def ip4RegexId : Nat := 1
def ip6RegexId : Nat := 2
def rateLimitRegexId : Nat := 3

def digits : List UInt8 := ascii "0123456789"
def hexChars : List UInt8 := ascii "abcdef0123456789"
def hash : UInt8 := 35

/-- Four numbers of one to three digits and a hash. -/
def ip4Regex : RegularExpression UInt8 :=
  separated (between (oneOf digits) 1 2) dot 3 * literal [hash]

/-- Eight groups of at most four digits. -/
def ip6Groups : RegularExpression UInt8 := separated (upTo (oneOf hexChars) 4) col 7

/-- Digits and colons with `::` among them, and a hash. -/
def ip6Double : RegularExpression UInt8 :=
  upTo (oneOf (hexChars ++ [col])) 35 * literal [col, col] *
    upTo (oneOf (hexChars ++ [col])) 35 * literal [hash]

/-- The hash belongs to the second alternative only. -/
def ip6Regex : RegularExpression UInt8 := ip6Groups + ip6Double

def rateLimitRegex : RegularExpression UInt8 := literal (ascii "client")

/-! ### Scanning -/

/-- The arguments of a call of the handler. -/
structure MatchEvent where
  id : Nat
  start : Nat
  stop : Nat
deriving DecidableEq, Repr

/-- What the flags of `init_hs` ask to be reported. -/
def Reported (block : List UInt8) (event : MatchEvent) : Prop :=
  if event.id = ip4RegexId then LeftmostMatch ip4Regex block event.start event.stop
  else if event.id = ip6RegexId then LeftmostMatch ip6Regex block event.start event.stop
  else event.id = rateLimitRegexId ∧ event.start = 0 ∧ FirstEnd rateLimitRegex block event.stop

/-- The events of a scan: everything to report, once, in the order of ends. -/
structure ScanEvents (block : List UInt8) (events : List MatchEvent) : Prop where
  ordered : events.Pairwise fun left right => left.stop ≤ right.stop
  once : events.Nodup
  reported : ∀ event, event ∈ events ↔ Reported block event

/-- A scanner that works: every scan succeeds and reports what it should. -/
def Scans (hsScan : List UInt8 → Option (List MatchEvent)) : Prop :=
  ∀ block, ∃ events, hsScan block = some events ∧ ScanEvents block events

/-- The members of `struct hs_context_t`; `ip_addr` is a union of sixteen
bytes. -/
structure HsContext where
  domain : Int
  isMatch : Bool
  rateLimitMatch : Bool
  logstr : List UInt8
  ipAddr : List UInt8
  start : Nat
  timestamp : Int

/-- Storing an address of the family in the union. -/
def storeAddr (context : HsContext) (address : List UInt8) : List UInt8 :=
  address ++ context.ipAddr.drop address.length

def regexMatchHandler (event : MatchEvent) (context : HsContext) : Int × HsContext :=
  if event.id = rateLimitRegexId then
    (if context.isMatch then 1 else 0, { context with rateLimitMatch := true })
  else if event.id = ip4RegexId then
    let context := { context with
      isMatch := true
      logstr := context.logstr.set (event.stop - 1) 0
      start := event.start }
    match inetPton4 (cString context.logstr event.start) with
    | some address =>
        (if context.rateLimitMatch then 1 else 0,
          { context with ipAddr := storeAddr context address, domain := afInet })
    | none => (0, { context with domain := -1, logstr := context.logstr.set event.stop 32 })
  else if event.id = ip6RegexId then
    let context := { context with
      isMatch := true
      logstr := context.logstr.set (event.stop - 1) 0
      start := event.start }
    match inetPton6 (cString context.logstr event.start) with
    | some address =>
        (if context.rateLimitMatch then 1 else 0,
          { context with
            ipAddr := storeAddr context address
            domain := afInet6
            logstr := context.logstr.set (event.stop + 1) 32 })
    | none => (0, { context with domain := -1, logstr := context.logstr.set (event.stop + 1) 32 })
  else (1, context)

/-- The calls of the handler, until one stops the scan. -/
def handleEvents : List MatchEvent → HsContext → HsContext
  | [], context => context
  | event :: rest, context =>
      let result := regexMatchHandler event context
      if result.1 = 0 then handleEvents rest result.2 else result.2

/-- `timestamp_str_cache` and `timestamp_cache`. -/
structure StampCache where
  text : List UInt8
  stamp : Int

/-- The cache after it was compared with the first 21 bytes of the line. -/
def refreshStamp (stampOf : List UInt8 → Int) (cache : StampCache) (logstr : List UInt8) :
    StampCache :=
  if logstr.take 21 = cache.text then cache else ⟨logstr.take 21, stampOf logstr⟩

/-- The conversion at the end of `parse_str`. -/
def convertAddress (context : HsContext) : Int × HsContext :=
  match inetPton4 (cString context.logstr context.start) with
  | some address => (0, { context with ipAddr := storeAddr context address, domain := afInet })
  | none =>
      match inetPton6 (cString context.logstr context.start) with
      | some address => (0, { context with ipAddr := storeAddr context address, domain := afInet6 })
      | none => (-3, context)

def parseStr (hsScan : List UInt8 → Option (List MatchEvent)) (stampOf : List UInt8 → Int)
    (logstr : List UInt8) (context : HsContext) (cache : StampCache) :
    Int × HsContext × StampCache :=
  let cache := refreshStamp stampOf cache logstr
  let context := { context with
    isMatch := false
    domain := -1
    logstr := logstr
    rateLimitMatch := false
    timestamp := cache.stamp }
  match hsScan logstr with
  | none => (-1, context, cache)
  | some events =>
      let context := handleEvents events context
      if context.isMatch = false ∨ context.domain = -1 ∨ context.rateLimitMatch = false then
        (-2, context, cache)
      else
        let result := convertAddress context
        (result.1, result.2, cache)

/-! ### Words of the patterns -/

theorem mem_ip4Regex {word : List UInt8} : word ∈ ip4Regex.matches' ↔
    ∃ parts : List (List UInt8), parts.length = 4 ∧
      (∀ part ∈ parts, 1 ≤ part.length ∧ part.length ≤ 3 ∧ ∀ char ∈ part, char ∈ digits) ∧
      word = [dot].intercalate parts ++ [hash] := by
  rw [ip4Regex, RegularExpression.matches'_mul, Language.mem_mul]
  simp only [mem_separated, mem_between_oneOf, mem_literal]
  constructor
  · intro split
    rcases split with ⟨_, ⟨parts, length, numbers, rfl⟩, _, rfl, rfl⟩
    exact ⟨parts, length, numbers, rfl⟩
  · intro split
    rcases split with ⟨parts, length, numbers, rfl⟩
    exact ⟨_, ⟨parts, length, numbers, rfl⟩, _, rfl, rfl⟩

/-- The characters of an IPv4 match. -/
theorem chars_ip4Regex : ∀ word ∈ ip4Regex.matches', ∀ char ∈ word,
    char ∈ digits ∨ char = dot ∨ char = hash := by
  intro word isWord char member
  rcases mem_ip4Regex.mp isWord with ⟨parts, -, numbers, rfl⟩
  rcases List.mem_append.mp member with inParts | isHash
  · rcases mem_intercalate inParts with isDot | ⟨part, isPart, inPart⟩
    · exact Or.inr (Or.inl isDot)
    · exact Or.inl ((numbers part isPart).2.2 char inPart)
  · exact Or.inr (Or.inr (List.mem_singleton.mp isHash))

theorem last_ip4Regex : ∀ word ∈ ip4Regex.matches', word.getLast? = some hash := by
  intro word isWord
  rcases mem_ip4Regex.mp isWord with ⟨parts, -, -, rfl⟩
  exact List.getLast?_concat

theorem dot_ip4Regex : ∀ word ∈ ip4Regex.matches', dot ∈ word := by
  intro word isWord
  rcases mem_ip4Regex.mp isWord with ⟨parts, length, -, rfl⟩
  match parts, length with
  | [_, _, _, _], _ => simp [List.intercalate]

theorem mem_ip6Groups {word : List UInt8} : word ∈ ip6Groups.matches' ↔
    ∃ parts : List (List UInt8), parts.length = 8 ∧
      (∀ part ∈ parts, part.length ≤ 4 ∧ ∀ char ∈ part, char ∈ hexChars) ∧
      word = [col].intercalate parts := by
  rw [ip6Groups, mem_separated]
  simp only [mem_upTo_oneOf]

theorem col_notMem_hexChars : col ∉ hexChars := by decide

theorem chars_ip6Groups : ∀ word ∈ ip6Groups.matches', ∀ char ∈ word,
    char ∈ hexChars ∨ char = col := by
  intro word isWord char member
  rcases mem_ip6Groups.mp isWord with ⟨parts, -, groups, rfl⟩
  rcases mem_intercalate member with isCol | ⟨part, isPart, inPart⟩
  · exact Or.inr isCol
  · exact Or.inl ((groups part isPart).2 char inPart)

theorem count_ip6Groups : ∀ word ∈ ip6Groups.matches', word.count col = 7 := by
  intro word isWord
  rcases mem_ip6Groups.mp isWord with ⟨parts, length, groups, rfl⟩
  rw [count_intercalate, length]
  intro part isPart inside
  exact col_notMem_hexChars ((groups part isPart).2 col inside)

theorem mem_ip6Double {word : List UInt8} (isWord : word ∈ ip6Double.matches') :
    ∃ front back : List UInt8, (∀ char ∈ front ++ back, char ∈ hexChars ++ [col]) ∧
      word = front ++ [col, col] ++ back ++ [hash] := by
  rw [ip6Double] at isWord
  simp only [RegularExpression.matches'_mul, Language.mem_mul, mem_upTo_oneOf,
    mem_literal] at isWord
  rcases isWord with ⟨_, ⟨_, ⟨front, ⟨-, frontIn⟩, _, rfl, rfl⟩, back, ⟨-, backIn⟩, rfl⟩, _, rfl,
    rfl⟩
  refine ⟨front, back, ?_, rfl⟩
  intro char member
  exact (List.mem_append.mp member).elim (frontIn char) (backIn char)

theorem chars_ip6Double : ∀ word ∈ ip6Double.matches', ∀ char ∈ word,
    char ∈ hexChars ∨ char = col ∨ char = hash := by
  intro word isWord char member
  rcases mem_ip6Double isWord with ⟨front, back, around, rfl⟩
  have inside := around char
  simp only [List.mem_append, List.mem_cons] at member inside
  tauto

theorem last_ip6Double : ∀ word ∈ ip6Double.matches', word.getLast? = some hash := by
  intro word isWord
  rcases mem_ip6Double isWord with ⟨front, back, -, rfl⟩
  exact List.getLast?_concat

theorem double_ip6Double : ∀ word ∈ ip6Double.matches', [col, col] <:+: word := by
  intro word isWord
  rcases mem_ip6Double isWord with ⟨front, back, -, rfl⟩
  exact ⟨front, back ++ [hash], by simp⟩

/-! ### A scanner -/

instance (block : List UInt8) (event : MatchEvent) : Decidable (Reported block event) :=
  inferInstanceAs (Decidable
    (if event.id = ip4RegexId then LeftmostMatch ip4Regex block event.start event.stop
    else if event.id = ip6RegexId then LeftmostMatch ip6Regex block event.start event.stop
    else event.id = rateLimitRegexId ∧ event.start = 0 ∧ FirstEnd rateLimitRegex block event.stop))

/-- The events that could be reported at an end. -/
def candidates (stop : Nat) : List MatchEvent :=
  ⟨rateLimitRegexId, 0, stop⟩ ::
    ((List.range (stop + 1)).map (fun start => ⟨ip4RegexId, start, stop⟩) ++
      (List.range (stop + 1)).map fun start => ⟨ip6RegexId, start, stop⟩)

/-- Try every pattern at every end. -/
def scanBlock (block : List UInt8) : List MatchEvent :=
  (List.range (block.length + 1)).flatMap fun stop =>
    (candidates stop).filter fun event => decide (Reported block event)

theorem stop_of_mem_candidates {stop : Nat} {event : MatchEvent}
    (member : event ∈ candidates stop) : event.stop = stop := by
  simp only [candidates, List.mem_cons, List.mem_append, List.mem_map] at member
  rcases member with rfl | ⟨_, _, rfl⟩ | ⟨_, _, rfl⟩ <;> rfl

theorem nodup_candidates (stop : Nat) : (candidates stop).Nodup := by
  unfold candidates
  rw [List.nodup_cons, List.nodup_append]
  refine ⟨by simp [rateLimitRegexId, ip4RegexId, ip6RegexId], ?_, ?_, ?_⟩
  · exact List.nodup_range.map fun left right same => by simpa using same
  · exact List.nodup_range.map fun left right same => by simpa using same
  · intro left inLeft right inRight same
    rcases List.mem_map.mp inLeft with ⟨_, _, rfl⟩
    rcases List.mem_map.mp inRight with ⟨_, _, rfl⟩
    simp [ip4RegexId, ip6RegexId] at same

/-- Whatever is to be reported is tried. -/
theorem Reported.mem_candidates {block : List UInt8} {event : MatchEvent}
    (reported : Reported block event) :
    event.stop ≤ block.length ∧ event ∈ candidates event.stop := by
  rcases event with ⟨id, start, stop⟩
  simp only [Reported] at reported
  simp only [candidates, List.mem_cons, List.mem_append, List.mem_map, List.mem_range]
  split at reported
  case isTrue isIp4 =>
    have bounds := reported.1
    exact ⟨bounds.2.1, Or.inr (Or.inl ⟨start, Nat.lt_succ_of_le bounds.1, by rw [isIp4]⟩)⟩
  case isFalse =>
    split at reported
    case isTrue isIp6 =>
      have bounds := reported.1
      exact ⟨bounds.2.1, Or.inr (Or.inr ⟨start, Nat.lt_succ_of_le bounds.1, by rw [isIp6]⟩)⟩
    case isFalse =>
      rcases reported with ⟨isRate, isZero, ⟨_, _, found⟩, -⟩
      exact ⟨found.2.1, Or.inl (by rw [isRate, isZero])⟩

theorem scanEvents_scanBlock (block : List UInt8) : ScanEvents block (scanBlock block) := by
  constructor
  · unfold scanBlock
    rw [List.pairwise_flatMap]
    constructor
    · intro stop _
      apply List.Pairwise.filter
      apply List.Pairwise.imp_of_mem _ (nodup_candidates stop)
      intro left right inLeft inRight _
      rw [stop_of_mem_candidates inLeft, stop_of_mem_candidates inRight]
    · apply List.Pairwise.imp _ List.pairwise_lt_range
      intro left right before one inOne other inOther
      rw [stop_of_mem_candidates (List.mem_filter.mp inOne).1,
        stop_of_mem_candidates (List.mem_filter.mp inOther).1]
      exact before.le
  · unfold scanBlock
    rw [List.nodup_flatMap]
    constructor
    · intro stop _
      exact (nodup_candidates stop).filter _
    · apply List.Pairwise.imp _ List.pairwise_lt_range
      intro left right before event inLeft inRight
      have leftStop := stop_of_mem_candidates (List.mem_filter.mp inLeft).1
      have rightStop := stop_of_mem_candidates (List.mem_filter.mp inRight).1
      omega
  · intro event
    unfold scanBlock
    simp only [List.mem_flatMap, List.mem_filter, List.mem_range, decide_eq_true_eq]
    constructor
    · intro found
      rcases found with ⟨_, _, _, reported⟩
      exact reported
    · intro reported
      rcases reported.mem_candidates with ⟨bounded, member⟩
      exact ⟨event.stop, Nat.lt_succ_of_le bounded, member, reported⟩

theorem scans_scanBlock : Scans fun block => some (scanBlock block) :=
  fun block => ⟨_, rfl, scanEvents_scanBlock block⟩

end FipsIpc.Sf2b
