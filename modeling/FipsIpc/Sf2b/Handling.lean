import FipsIpc.Sf2b.ScanLine
import Mathlib.Data.List.TakeWhile

/-!
Contract: what the match handler makes of the matches of a buffer.

Owns: the handler match by match, the comparison of two buffers with the same first
bytes, what a domain in the context says about the buffer, and the two ways in
which `parse_str` ends.

An address is terminated in place, and a blank is written behind an IPv6 match and
behind an IPv4 match that does not convert; neither changes the bytes in front of
the terminator.

Does not own: which matches there are.
-/

set_option autoImplicit false

namespace FipsIpc.Sf2b

open FipsIpc.IpHashtable FipsIpc.Lib.Regex FipsIpc.UdpServer

/-! ### The handler -/

/-- A call of the handler stops the scan. -/
def handlerStops : List MatchEvent → HsContext → Bool
  | [], _ => false
  | event :: rest, context =>
      let result := regexMatchHandler event context
      if result.1 = 0 then handlerStops rest result.2 else true

section Handler

variable {event : MatchEvent} {context : HsContext}

theorem handleEvents_append (before after : List MatchEvent) (context : HsContext) :
    handleEvents (before ++ after) context =
      if handlerStops before context then handleEvents before context
      else handleEvents after (handleEvents before context) := by
  induction before generalizing context with
  | nil => rfl
  | cons event rest inductionHypothesis =>
      simp only [List.cons_append, handleEvents, handlerStops]
      split
      · exact inductionHypothesis _
      · rfl

theorem handler_rate (isRate : event.id = rateLimitRegexId) (context : HsContext) :
    regexMatchHandler event context =
      (if context.isMatch then 1 else 0, { context with rateLimitMatch := true }) :=
  if_pos isRate

/-- The line with the terminator of the address. -/
def cutLogstr (event : MatchEvent) (context : HsContext) : List UInt8 :=
  context.logstr.set (event.stop - 1) 0

/-- The address as the handler converts it. -/
def addressText (event : MatchEvent) (context : HsContext) : List UInt8 :=
  cString (cutLogstr event context) event.start

theorem handler_ip4 (isIp4 : event.id = ip4RegexId) (context : HsContext) :
    regexMatchHandler event context =
      match inetPton4 (addressText event context) with
      | some address =>
          (if context.rateLimitMatch then 1 else 0,
            { context with
              isMatch := true
              logstr := cutLogstr event context
              start := event.start
              ipAddr := storeAddr context address
              domain := afInet })
      | none =>
          (0,
            { context with
              isMatch := true
              logstr := (cutLogstr event context).set event.stop 32
              start := event.start
              domain := -1 }) := by
  have notRate : event.id ≠ rateLimitRegexId := by
    rw [isIp4]
    decide
  unfold regexMatchHandler
  rw [if_neg notRate, if_pos isIp4]
  rfl

theorem handler_ip6 (isIp6 : event.id = ip6RegexId) (context : HsContext) :
    regexMatchHandler event context =
      match inetPton6 (addressText event context) with
      | some address =>
          (if context.rateLimitMatch then 1 else 0,
            { context with
              isMatch := true
              logstr := (cutLogstr event context).set (event.stop + 1) 32
              start := event.start
              ipAddr := storeAddr context address
              domain := afInet6 })
      | none =>
          (0,
            { context with
              isMatch := true
              logstr := (cutLogstr event context).set (event.stop + 1) 32
              start := event.start
              domain := -1 }) := by
  have notRate : event.id ≠ rateLimitRegexId := by
    rw [isIp6]
    decide
  have notIp4 : event.id ≠ ip4RegexId := by
    rw [isIp6]
    decide
  unfold regexMatchHandler
  rw [if_neg notRate, if_neg notIp4, if_pos isIp6]
  rfl

/-- What the handler makes of an address, up to the union. -/
structure AddressHandled (event : MatchEvent) (context next : HsContext) : Prop where
  isMatch : next.isMatch = true
  rate : next.rateLimitMatch = context.rateLimitMatch
  timestamp : next.timestamp = context.timestamp
  start : next.start = event.start
  writes : next.logstr = cutLogstr event context ∨
    ∃ position, event.stop ≤ position ∧ next.logstr = (cutLogstr event context).set position 32
  converts : next.domain ≠ -1 → (inetPton4 (addressText event context)).isSome ∨
    (inetPton6 (addressText event context)).isSome

theorem handler_address (isAddress : event.id = ip4RegexId ∨ event.id = ip6RegexId)
    (context : HsContext) :
    AddressHandled event context (regexMatchHandler event context).2 ∧
      (regexMatchHandler event context).1 = if context.rateLimitMatch = true ∧
        (regexMatchHandler event context).2.domain ≠ -1 then 1 else 0 := by
  have families : afInet ≠ -1 ∧ afInet6 ≠ -1 := by decide
  rcases isAddress with isIp4 | isIp6
  · rw [handler_ip4 isIp4]
    cases converted : inetPton4 (addressText event context) with
    | none => exact ⟨⟨rfl, rfl, rfl, rfl, Or.inr ⟨_, Nat.le_refl _, rfl⟩, by simp⟩, by simp⟩
    | some address =>
        exact ⟨⟨rfl, rfl, rfl, rfl, Or.inl rfl, by simp [converted]⟩, by simp [families.1]⟩
  · rw [handler_ip6 isIp6]
    cases converted : inetPton6 (addressText event context) with
    | none => exact ⟨⟨rfl, rfl, rfl, rfl, Or.inr ⟨_, Nat.le_succ _, rfl⟩, by simp⟩, by simp⟩
    | some address =>
        exact ⟨⟨rfl, rfl, rfl, rfl, Or.inr ⟨_, Nat.le_succ _, rfl⟩, by simp [converted]⟩,
          by simp [families.2]⟩

/-- In front of the terminator nothing is written. -/
theorem AddressHandled.before {next : HsContext} (handled : AddressHandled event context next)
    {position : Nat} (before : position < event.stop - 1) :
    next.logstr[position]? = context.logstr[position]? := by
  have cut : (cutLogstr event context)[position]? = context.logstr[position]? :=
    List.getElem?_set_ne (by omega)
  rcases handled.writes with same | ⟨blank, behind, same⟩
  · rw [same, cut]
  · rw [same, List.getElem?_set_ne (by omega), cut]

/-- Behind the blank nothing is written. -/
theorem handler_behind {position : Nat} (later : event.stop < position)
    (noBlank : event.id = ip6RegexId → event.stop + 1 ≠ position) (context : HsContext) :
    (regexMatchHandler event context).2.logstr[position]? = context.logstr[position]? := by
  have notZero : event.stop - 1 ≠ position := by omega
  have notStop : event.stop ≠ position := by omega
  by_cases isRate : event.id = rateLimitRegexId
  · rw [handler_rate isRate]
  · by_cases isIp4 : event.id = ip4RegexId
    · rw [handler_ip4 isIp4]
      split <;> simp [cutLogstr, notZero, notStop]
    · by_cases isIp6 : event.id = ip6RegexId
      · rw [handler_ip6 isIp6]
        split <;> simp [cutLogstr, notZero, noBlank isIp6]
      · simp [regexMatchHandler, isRate, isIp4, isIp6]

/-- An IPv6 match writes a blank. -/
theorem handler_blank (isIp6 : event.id = ip6RegexId) (context : HsContext)
    (inside : event.stop + 1 < context.logstr.length) :
    (regexMatchHandler event context).2.logstr[event.stop + 1]? = some 32 := by
  have bounded : event.stop + 1 < (cutLogstr event context).length := by
    simpa [cutLogstr] using inside
  rw [handler_ip6 isIp6]
  split <;> exact List.getElem?_set_self bounded

theorem handler_length (event : MatchEvent) (context : HsContext) :
    (regexMatchHandler event context).2.logstr.length = context.logstr.length := by
  by_cases isRate : event.id = rateLimitRegexId
  · rw [handler_rate isRate]
  · by_cases isIp4 : event.id = ip4RegexId
    · rw [handler_ip4 isIp4]
      split <;> simp [cutLogstr]
    · by_cases isIp6 : event.id = ip6RegexId
      · rw [handler_ip6 isIp6]
        split <;> simp [cutLogstr]
      · simp [regexMatchHandler, isRate, isIp4, isIp6]

end Handler

/-! ### Two buffers -/

/-- The first `limit` bytes are the same. -/
structure SameText (limit : Nat) (left right : List UInt8) : Prop where
  take : left.take limit = right.take limit
  leftLong : limit ≤ left.length
  rightLong : limit ≤ right.length

/-- The contexts differ in the time stamp and behind the first `limit` bytes
only. -/
structure SameUpTo (limit : Nat) (left right : HsContext) : Prop where
  domain : left.domain = right.domain
  isMatch : left.isMatch = right.isMatch
  rate : left.rateLimitMatch = right.rateLimitMatch
  ipAddr : left.ipAddr = right.ipAddr
  start : left.start = right.start
  logstr : SameText limit left.logstr right.logstr

section Same

variable {limit : Nat} {left right : HsContext} {event : MatchEvent}

theorem SameText.set {first second : List UInt8} (same : SameText limit first second)
    (position : Nat) (char : UInt8) :
    SameText limit (first.set position char) (second.set position char) where
  take := by rw [List.take_set, List.take_set, same.take]
  leftLong := by rw [List.length_set]; exact same.leftLong
  rightLong := by rw [List.length_set]; exact same.rightLong

/-- A string does not go on behind its terminator. -/
theorem cString_take {text : List UInt8} {position terminator : Nat}
    (isZero : text[terminator]? = some 0) (behind : position ≤ terminator)
    (inside : terminator < limit) :
    cString text position = cString (text.take limit) position := by
  have split : text.drop position = (text.take limit).drop position ++ text.drop limit := by
    conv_lhs => rw [← List.take_append_drop limit text]
    have bounded := (List.getElem?_eq_some_iff.mp isZero).1
    rw [List.drop_append_of_le_length (by rw [List.length_take]; omega)]
  have member : 0 ∈ (text.take limit).drop position := by
    apply List.mem_of_getElem?
    rw [List.getElem?_drop, Nat.add_sub_cancel' behind, List.getElem?_take_of_lt inside, isZero]
  have stops : ((text.take limit).drop position).takeWhile (· != 0) ≠
      (text.take limit).drop position := by
    intro all
    have nonzero := List.takeWhile_eq_self_iff.mp all 0 member
    exact absurd nonzero (by decide)
  have shorter : (((text.take limit).drop position).takeWhile (· != 0)).length ≠
      ((text.take limit).drop position).length := by
    intro length
    exact stops ((List.takeWhile_prefix _).eq_of_length length)
  rw [cString, cString, split, List.takeWhile_append, if_neg shorter]

theorem cutLogstr_zero {context : HsContext} (nonempty : event.start < event.stop)
    (inside : event.stop ≤ context.logstr.length) :
    (cutLogstr event context)[event.stop - 1]? = some 0 :=
  List.getElem?_set_self (by omega)

/-- Strings that end within the first bytes. -/
theorem SameText.cString {first second : List UInt8} (same : SameText limit first second)
    {position terminator : Nat} (isZero : first[terminator]? = some 0)
    (behind : position ≤ terminator) (inside : terminator < limit) :
    cString first position = cString second position := by
  have isZeroToo : second[terminator]? = some 0 := by
    rw [← List.getElem?_take_of_lt inside, ← same.take, List.getElem?_take_of_lt inside, isZero]
  rw [cString_take isZero behind inside, cString_take isZeroToo behind inside, same.take]

theorem SameUpTo.addressText (same : SameUpTo limit left right)
    (nonempty : event.start < event.stop) (inside : event.stop ≤ limit) :
    addressText event left = addressText event right := by
  have isZero := cutLogstr_zero nonempty (inside.trans same.logstr.leftLong)
  exact (same.logstr.set (event.stop - 1) 0).cString isZero (by omega) (by omega)

/-- A match within the first bytes is handled alike. -/
theorem SameUpTo.handler (same : SameUpTo limit left right) (nonempty : event.start < event.stop)
    (inside : event.stop ≤ limit) :
    (regexMatchHandler event left).1 = (regexMatchHandler event right).1 ∧
      SameUpTo limit (regexMatchHandler event left).2 (regexMatchHandler event right).2 := by
  have text := same.addressText nonempty inside
  have cut : SameText limit (cutLogstr event left) (cutLogstr event right) :=
    same.logstr.set (event.stop - 1) 0
  by_cases isRate : event.id = rateLimitRegexId
  · rw [handler_rate isRate, handler_rate isRate, same.isMatch]
    exact ⟨rfl, same.domain, rfl, rfl, same.ipAddr, same.start, same.logstr⟩
  · by_cases isIp4 : event.id = ip4RegexId
    · rw [handler_ip4 isIp4, handler_ip4 isIp4, text, same.rate]
      cases inetPton4 (Sf2b.addressText event right) with
      | none => exact ⟨rfl, rfl, rfl, rfl, same.ipAddr, rfl, cut.set event.stop 32⟩
      | some address =>
          refine ⟨rfl, rfl, rfl, rfl, ?_, rfl, cut⟩
          simp [storeAddr, same.ipAddr]
    · by_cases isIp6 : event.id = ip6RegexId
      · rw [handler_ip6 isIp6, handler_ip6 isIp6, text, same.rate]
        cases inetPton6 (Sf2b.addressText event right) with
        | none => exact ⟨rfl, rfl, rfl, rfl, same.ipAddr, rfl, cut.set (event.stop + 1) 32⟩
        | some address =>
            refine ⟨rfl, rfl, rfl, rfl, ?_, rfl, cut.set (event.stop + 1) 32⟩
            simp [storeAddr, same.ipAddr]
      · simpa [regexMatchHandler, isRate, isIp4, isIp6] using same

/-- So are all matches within the first bytes. -/
theorem SameUpTo.handleEvents {events : List MatchEvent}
    (within : ∀ event ∈ events, event.start < event.stop ∧ event.stop ≤ limit)
    (same : SameUpTo limit left right) :
    handlerStops events left = handlerStops events right ∧
      SameUpTo limit (handleEvents events left) (handleEvents events right) := by
  induction events generalizing left right with
  | nil => exact ⟨rfl, same⟩
  | cons event rest inductionHypothesis =>
      rw [List.forall_mem_cons] at within
      obtain ⟨code, next⟩ := same.handler within.1.1 within.1.2
      simp only [handlerStops, Sf2b.handleEvents, code]
      split
      · exact inductionHypothesis within.2 next
      · exact ⟨rfl, next⟩

end Same

/-! ### What the handler has found -/

/-- An event of one of the patterns within the first `limit` bytes. -/
structure MatchEvent.Within (limit : Nat) (event : MatchEvent) : Prop where
  known : event.id = rateLimitRegexId ∨ event.id = ip4RegexId ∨ event.id = ip6RegexId
  nonempty : event.start < event.stop
  inside : event.stop ≤ limit

/-- A domain comes from an address that converts, with its terminator within the
first `limit` bytes. -/
structure Converted (limit : Nat) (context : HsContext) : Prop where
  long : limit ≤ context.logstr.length
  isMatch : context.domain ≠ -1 → context.isMatch = true
  converts : context.domain ≠ -1 → (convertAddress context).1 = 0
  ends : context.domain ≠ -1 → ∃ terminator, context.start ≤ terminator ∧ terminator < limit ∧
    context.logstr[terminator]? = some 0

/-- The scan is not to be stopped yet. -/
def Undecided (context : HsContext) : Prop :=
  ¬ (context.rateLimitMatch = true ∧ context.domain ≠ -1)

section Found

variable {limit : Nat} {context : HsContext} {event : MatchEvent}

theorem convertAddress_code {context : HsContext} :
    (convertAddress context).1 = 0 ↔
      (inetPton4 (cString context.logstr context.start)).isSome ∨
        (inetPton6 (cString context.logstr context.start)).isSome := by
  unfold convertAddress
  cases inetPton4 (cString context.logstr context.start) with
  | some address => simp
  | none => cases inetPton6 (cString context.logstr context.start) <;> simp

theorem AddressHandled.converted {next : HsContext} (handled : AddressHandled event context next)
    (within : event.Within limit) (long : limit ≤ context.logstr.length) :
    (next.domain ≠ -1 → (convertAddress next).1 = 0) ∧ next.start ≤ event.stop - 1 ∧
      next.logstr[event.stop - 1]? = some 0 := by
  have nonempty := within.nonempty
  have inside := within.inside.trans long
  have isZero := cutLogstr_zero nonempty inside
  have same : SameText event.stop (cutLogstr event context) next.logstr := by
    have bounded : event.stop ≤ (cutLogstr event context).length := by
      simpa [cutLogstr] using inside
    rcases handled.writes with same | ⟨position, behind, same⟩
    · rw [same]
      exact ⟨rfl, bounded, bounded⟩
    · rw [same]
      exact ⟨(List.take_set_of_le behind).symm, bounded, by simpa using bounded⟩
  have behind : event.start ≤ event.stop - 1 := by omega
  refine ⟨fun found => ?_, handled.start ▸ behind, ?_⟩
  · rw [convertAddress_code, handled.start, ← same.cString isZero behind (by omega)]
    exact handled.converts found
  · have before : event.stop - 1 < event.stop := by omega
    rw [← List.getElem?_take_of_lt before, ← same.take, List.getElem?_take_of_lt before, isZero]

theorem Converted.handler (converted : Converted limit context) (within : event.Within limit) :
    Converted limit (regexMatchHandler event context).2 := by
  have long := converted.long.trans_eq (handler_length event context).symm
  rcases within.known with isRate | isAddress
  · rw [handler_rate isRate]
    refine ⟨converted.long, converted.isMatch, fun found => ?_, converted.ends⟩
    have text := convertAddress_code.mp (converted.converts found)
    exact convertAddress_code.mpr text
  · obtain ⟨handled, -⟩ := handler_address isAddress context
    obtain ⟨converts, start, isZero⟩ := handled.converted within converted.long
    have nonempty := within.nonempty
    have inside := within.inside
    exact ⟨long, fun _ => handled.isMatch, converts, fun _ => ⟨_, start, by omega, isZero⟩⟩

/-- The handler stops the scan when both are found, or when it finds the word of
the rate limit behind an address. -/
theorem handler_decides (known : event.id = rateLimitRegexId ∨ event.id = ip4RegexId ∨
    event.id = ip6RegexId) (isMatch : context.domain ≠ -1 → context.isMatch = true) :
    if (regexMatchHandler event context).1 = 0 then Undecided (regexMatchHandler event context).2
    else (regexMatchHandler event context).2.rateLimitMatch = true := by
  rcases known with isRate | isAddress
  · rw [handler_rate isRate]
    cases found : context.isMatch with
    | true => simp
    | false =>
        have noDomain : context.domain = -1 := by
          by_contra domain
          rw [isMatch domain] at found
          cases found
        simp [Undecided, noDomain]
  · obtain ⟨handled, code⟩ := handler_address isAddress context
    rw [code]
    by_cases both : context.rateLimitMatch = true ∧
        (regexMatchHandler event context).2.domain ≠ -1
    · rw [if_pos both, if_neg (by decide), handled.rate]
      exact both.1
    · rw [if_neg both, if_pos rfl, Undecided, handled.rate]
      exact both

/-- The invariant over the events of a scan. -/
theorem Converted.handleEvents {events : List MatchEvent}
    (within : ∀ event ∈ events, event.Within limit) (converted : Converted limit context)
    (undecided : Undecided context) :
    Converted limit (handleEvents events context) ∧
      (handlerStops events context = true →
        (handleEvents events context).rateLimitMatch = true) ∧
      (handlerStops events context = false → Undecided (handleEvents events context)) := by
  induction events generalizing context with
  | nil => exact ⟨converted, fun stops => Bool.noConfusion stops, fun _ => undecided⟩
  | cons event rest inductionHypothesis =>
      rw [List.forall_mem_cons] at within
      have next := converted.handler within.1
      have decides := handler_decides within.1.known converted.isMatch
      simp only [handlerStops, Sf2b.handleEvents]
      split at decides
      case isTrue goesOn =>
        simp only [goesOn, ↓reduceIte]
        exact inductionHypothesis within.2 next decides
      case isFalse stops =>
        simp only [stops, ↓reduceIte]
        exact ⟨next, fun _ => decides, fun goesOn => Bool.noConfusion goesOn⟩

end Found

/-! ### Flags -/

section Flags

variable {context : HsContext} {events : List MatchEvent}

theorem handleEvents_cons (event : MatchEvent) (rest : List MatchEvent) (context : HsContext) :
    handleEvents (event :: rest) context =
      if (regexMatchHandler event context).1 = 0 then
        handleEvents rest (regexMatchHandler event context).2
      else (regexMatchHandler event context).2 := rfl

/-- What every call of the handler keeps, the scan keeps. -/
theorem handleEvents_keeps {Kept : HsContext → Prop}
    (kept : ∀ event ∈ events, ∀ context, Kept context → Kept (regexMatchHandler event context).2)
    (initial : Kept context) : Kept (handleEvents events context) := by
  induction events generalizing context with
  | nil => exact initial
  | cons event rest inductionHypothesis =>
      rw [List.forall_mem_cons] at kept
      rw [handleEvents_cons]
      split
      · exact inductionHypothesis kept.2 (kept.1 context initial)
      · exact kept.1 context initial

/-- Addresses alone do not find the word of the rate limit. -/
theorem handleEvents_noRate
    (addresses : ∀ event ∈ events, event.id = ip4RegexId ∨ event.id = ip6RegexId)
    (noRate : context.rateLimitMatch = false) :
    (handleEvents events context).rateLimitMatch = false := by
  refine @handleEvents_keeps _ _ (fun context => context.rateLimitMatch = false) ?_ noRate
  intro event member context missing
  rw [(handler_address (addresses event member) context).1.rate]
  exact missing

/-- The word of the rate limit alone does not find an address. -/
theorem handleEvents_noAddress (rates : ∀ event ∈ events, event.id = rateLimitRegexId)
    (noDomain : context.domain = -1) : (handleEvents events context).domain = -1 := by
  refine @handleEvents_keeps _ _ (fun context => context.domain = -1) ?_ noDomain
  intro event member context missing
  rw [handler_rate (rates event member)]
  exact missing

/-- What one of the events brings about and the others keep is there at the end of a
scan that was not stopped. -/
theorem handleEvents_reaches {Kept : HsContext → Prop} {event : MatchEvent}
    (kept : ∀ event ∈ events, ∀ context, Kept context → Kept (regexMatchHandler event context).2)
    (brings : ∀ context, Kept (regexMatchHandler event context).2) (member : event ∈ events)
    (goesOn : handlerStops events context = false) : Kept (handleEvents events context) := by
  induction events generalizing context with
  | nil => cases member
  | cons first rest inductionHypothesis =>
      rw [List.forall_mem_cons] at kept
      rw [handlerStops] at goesOn
      rw [handleEvents_cons]
      split at goesOn
      case isTrue code =>
        rw [if_pos code]
        rcases List.mem_cons.mp member with rfl | later
        · exact handleEvents_keeps kept.2 (brings context)
        · exact inductionHypothesis kept.2 later goesOn
      case isFalse => cases goesOn

variable {limit : Nat}

theorem handler_keeps_rate {event : MatchEvent} (within : event.Within limit)
    (context : HsContext) (found : context.rateLimitMatch = true) :
    (regexMatchHandler event context).2.rateLimitMatch = true := by
  rcases within.known with isRate | isAddress
  · rw [handler_rate isRate]
  · rw [(handler_address isAddress context).1.rate]
    exact found

theorem handler_keeps_isMatch {event : MatchEvent} (within : event.Within limit)
    (context : HsContext) (found : context.isMatch = true) :
    (regexMatchHandler event context).2.isMatch = true := by
  rcases within.known with isRate | isAddress
  · rw [handler_rate isRate]
    exact found
  · exact (handler_address isAddress context).1.isMatch

end Flags

/-! ### Parsing a buffer -/

/-- The context when the scan of a text begins. -/
def scanStart (text : List UInt8) (context : HsContext) (stamp : Int) : HsContext :=
  { context with
    isMatch := false
    domain := -1
    logstr := text
    rateLimitMatch := false
    timestamp := stamp }

section Parse

variable {hsScan : List UInt8 → Option (List MatchEvent)} {stampOf : List UInt8 → Int}
  {block : List UInt8} {context : HsContext} {cache : StampCache} {events : List MatchEvent}

theorem Reported.within {event : MatchEvent} (reported : Reported block event) :
    event.Within block.length := by
  have bounded := reported.mem_candidates.1
  by_cases isRate : event.id = rateLimitRegexId
  · obtain ⟨start, first⟩ := reported.rate isRate
    obtain ⟨_, _, found⟩ := first.1
    have nonempty := (found.last last_rateLimitRegex).1
    exact ⟨Or.inl isRate, by omega, bounded⟩
  · have long := (reported.address isRate).long
    refine ⟨?_, by omega, bounded⟩
    rcases reported.inv with ⟨isIp4, -⟩ | ⟨isIp6, -⟩ | ⟨isRateToo, -⟩
    · exact Or.inr (Or.inl isIp4)
    · exact Or.inr (Or.inr isIp6)
    · exact Or.inl isRateToo

theorem scanStart_converted (text : List UInt8) (context : HsContext) (stamp : Int) :
    Converted text.length (scanStart text context stamp) ∧
      Undecided (scanStart text context stamp) :=
  ⟨⟨Nat.le_refl _, fun found => absurd rfl found, fun found => absurd rfl found,
    fun found => absurd rfl found⟩, by simp [Undecided, scanStart]⟩

/-- The stamp of a buffer. -/
def stampIn (stampOf : List UInt8 → Int) (cache : StampCache) (block : List UInt8) : Int :=
  (refreshStamp stampOf cache block).stamp

theorem ScanEvents.converted (scan : ScanEvents block events) (context : HsContext) (stamp : Int) :
    Converted block.length (handleEvents events (scanStart block context stamp)) :=
  ((scanStart_converted block context stamp).1.handleEvents
    (fun event member => ((scan.reported event).mp member).within)
    (scanStart_converted block context stamp).2).1

/-- Both were found. -/
theorem parseStr_found (scanned : hsScan block = some events) (scan : ScanEvents block events)
    {final : HsContext}
    (isFinal : handleEvents events (scanStart block context (stampIn stampOf cache block)) = final)
    (found : ¬ Undecided final) :
    (parseStr hsScan stampOf block context cache).1 = 0 ∧
      (parseStr hsScan stampOf block context cache).2.1 = (convertAddress final).2 := by
  have converted := scan.converted context (stampIn stampOf cache block)
  rw [isFinal] at converted
  obtain ⟨rate, domain⟩ := not_not.mp found
  have both : ¬ (final.isMatch = false ∨ final.domain = -1 ∨ final.rateLimitMatch = false) := by
    simp [converted.isMatch domain, domain, rate]
  unfold parseStr
  simp only [scanned]
  unfold scanStart stampIn at isFinal
  rw [isFinal, if_neg both]
  exact ⟨converted.converts domain, rfl⟩

/-- One of both is missing. -/
theorem parseStr_refused (scanned : hsScan block = some events)
    {final : HsContext}
    (isFinal : handleEvents events (scanStart block context (stampIn stampOf cache block)) = final)
    (missing : Undecided final) : (parseStr hsScan stampOf block context cache).1 = -2 := by
  have either : final.isMatch = false ∨ final.domain = -1 ∨ final.rateLimitMatch = false := by
    by_contra none
    simp only [not_or, Bool.not_eq_false] at none
    exact missing ⟨none.2.2, none.2.1⟩
  unfold parseStr
  simp only [scanned]
  unfold scanStart stampIn at isFinal
  rw [isFinal, if_pos either]

theorem regexMatchHandler_timestamp (event : MatchEvent) (context : HsContext) :
    (regexMatchHandler event context).2.timestamp = context.timestamp := by
  unfold regexMatchHandler
  split
  · rfl
  · split
    · dsimp only
      split <;> rfl
    · split
      · dsimp only
        split <;> rfl
      · rfl

theorem handleEvents_timestamp (events : List MatchEvent) (context : HsContext) :
    (handleEvents events context).timestamp = context.timestamp := by
  induction events generalizing context with
  | nil => rfl
  | cons event rest inductionHypothesis =>
      simp only [handleEvents]
      split
      · rw [inductionHypothesis, regexMatchHandler_timestamp]
      · exact regexMatchHandler_timestamp event context

theorem convertAddress_timestamp (context : HsContext) :
    (convertAddress context).2.timestamp = context.timestamp := by
  unfold convertAddress
  split
  · rfl
  · split <;> rfl

/-- Contexts that are the same up to the terminator of the address convert to the
same address. -/
theorem SameUpTo.convertAddress {limit : Nat} {left right : HsContext}
    (same : SameUpTo limit left right) (converted : Converted limit left)
    (found : left.domain ≠ -1) :
    (convertAddress left).2.domain = (convertAddress right).2.domain ∧
      (convertAddress left).2.ipAddr = (convertAddress right).2.ipAddr := by
  obtain ⟨terminator, behind, inside, isZero⟩ := converted.ends found
  have text : cString left.logstr left.start = cString right.logstr right.start := by
    rw [← same.start]
    exact same.logstr.cString isZero behind inside
  unfold Sf2b.convertAddress
  rw [text]
  cases inetPton4 (cString right.logstr right.start) with
  | some address => exact ⟨rfl, by simp [storeAddr, same.ipAddr]⟩
  | none =>
      cases inetPton6 (cString right.logstr right.start) with
      | some address => exact ⟨rfl, by simp [storeAddr, same.ipAddr]⟩
      | none => exact ⟨same.domain, same.ipAddr⟩

end Parse

end FipsIpc.Sf2b
