import FipsIpc.Sf2b.Handling
import Mathlib.Data.List.Chain

/-!
Contract: the timestamp cache of `parse_str` over the lines of one thread.

Owns: the sequence of calls with the clock, the timestamps they assign, the ones
they would assign without the cache, and when these are the same.

`strptime` and `mktime` are one argument: a function of the string, without a
value when the date does not parse.  The cache is compared by the first 21 bytes
of the line, but neither a date that does not parse nor the end of a date is
decided by these bytes alone: the former takes the clock of the call, and blanks
in front of the time of day push its digits behind them.

Does not own: the scan of a line, and what the timestamps are used for.
-/

set_option autoImplicit false

namespace FipsIpc.Sf2b

variable (hsScan : List UInt8 → Option (List MatchEvent)) (parseDate : List UInt8 → Option Int)

/-- A call of `parse_str`: the line in its buffer, the context and the clock. -/
structure ParseCall where
  logstr : List UInt8
  context : HsContext
  now : Int
  buffered : 21 ≤ logstr.length

/-- The parsed date, or the current time if the date does not parse. -/
def stampOf (now : Int) (logstr : List UInt8) : Int := (parseDate (cString logstr 0)).getD now

/-- The timestamp without the cache. -/
def ParseCall.uncached (call : ParseCall) : Int := stampOf parseDate call.now call.logstr

/-- The bytes that the cache compares. -/
def ParseCall.stampText (call : ParseCall) : List UInt8 := call.logstr.take 21

/-- The cache of a new thread. -/
def StampCache.zero : StampCache := ⟨List.replicate 21 0, 0⟩

/-- The timestamps that a thread assigns. -/
def stamps : StampCache → List ParseCall → List Int
  | _, [] => []
  | cache, call :: rest =>
      let result := parseStr hsScan (stampOf parseDate call.now) call.logstr call.context cache
      result.2.1.timestamp :: stamps result.2.2 rest

/-- Every line gets the timestamp it would get without the cache. -/
def CacheTransparent (calls : List ParseCall) : Prop :=
  stamps hsScan parseDate .zero calls = calls.map (ParseCall.uncached parseDate)

/-- A line that starts like the one before it has the same date, or the same
clock where dates do not parse; and a first line that starts like the empty
cache has the date of the empty cache. -/
def StampsAgree (calls : List ParseCall) : Prop :=
  (∀ first ∈ calls.head?, first.stampText = List.replicate 21 0 → first.uncached parseDate = 0) ∧
    calls.IsChain fun earlier later =>
      earlier.stampText = later.stampText → earlier.uncached parseDate = later.uncached parseDate

section Transparent

variable {hsScan parseDate} {calls : List ParseCall} {cache : StampCache} {call : ParseCall}

/-- A call assigns the stamp of the refreshed cache. -/
theorem parseStr_stamp (hsScan : List UInt8 → Option (List MatchEvent))
    (stampOf : List UInt8 → Int) (logstr : List UInt8) (context : HsContext)
    (cache : StampCache) :
    (parseStr hsScan stampOf logstr context cache).2.1.timestamp =
        (refreshStamp stampOf cache logstr).stamp ∧
      (parseStr hsScan stampOf logstr context cache).2.2 = refreshStamp stampOf cache logstr := by
  unfold parseStr
  dsimp only
  split
  · exact ⟨rfl, rfl⟩
  · split
    · exact ⟨handleEvents_timestamp _ _, rfl⟩
    · refine ⟨?_, rfl⟩
      rw [convertAddress_timestamp, handleEvents_timestamp]

/-- The refreshed cache is that of the line, unless a stale stamp is kept. -/
theorem refreshStamp_stamp_iff :
    (refreshStamp (stampOf parseDate call.now) cache call.logstr).stamp =
        call.uncached parseDate ↔
      (call.stampText = cache.text → call.uncached parseDate = cache.stamp) := by
  unfold refreshStamp ParseCall.stampText
  by_cases hit : call.logstr.take 21 = cache.text
  · simp only [hit, true_implies]
    exact eq_comm
  · simp [hit, ParseCall.uncached]

theorem refreshStamp_eq
    (fresh : (refreshStamp (stampOf parseDate call.now) cache call.logstr).stamp =
      call.uncached parseDate) :
    refreshStamp (stampOf parseDate call.now) cache call.logstr =
      ⟨call.stampText, call.uncached parseDate⟩ := by
  unfold refreshStamp at fresh ⊢
  split at fresh
  case isTrue hit =>
    rw [if_pos hit, ← fresh, ParseCall.stampText, hit]
  case isFalse miss =>
    rw [if_neg miss]
    rfl

/-- From any cache. -/
theorem stamps_eq_iff (hsScan : List UInt8 → Option (List MatchEvent)) (cache : StampCache) :
    stamps hsScan parseDate cache calls = calls.map (ParseCall.uncached parseDate) ↔
      (∀ first ∈ calls.head?, first.stampText = cache.text →
        first.uncached parseDate = cache.stamp) ∧
      calls.IsChain fun earlier later =>
        earlier.stampText = later.stampText →
          earlier.uncached parseDate = later.uncached parseDate := by
  induction calls generalizing cache with
  | nil => simp [stamps]
  | cons call rest inductionHypothesis =>
      have result := parseStr_stamp hsScan (stampOf parseDate call.now) call.logstr call.context
        cache
      simp only [stamps, List.map_cons, List.cons.injEq, result.1, result.2]
      rw [List.isChain_cons]
      simp only [List.head?_cons, Option.mem_some_iff, forall_eq', ← refreshStamp_stamp_iff]
      apply and_congr_right
      intro fresh
      rw [refreshStamp_eq fresh, inductionHypothesis]
      apply and_congr_left'
      apply forall₂_congr
      intro later _
      constructor
      · intro agrees same
        exact (agrees same.symm).symm
      · intro agrees same
        exact (agrees same.symm).symm

end Transparent

/-- The cache is transparent exactly when lines that start alike, one behind the
other, have the same timestamp of their own. -/
theorem cacheTransparent_iff_stampsAgree (calls : List ParseCall) :
    CacheTransparent hsScan parseDate calls ↔ StampsAgree parseDate calls :=
  stamps_eq_iff hsScan .zero

/-- A line without a date, with its terminator. -/
def datelessLine : List UInt8 := UdpServer.ascii "client 10.0.0.1# has no date" ++ [0]

theorem datelessLine_buffered : 21 ≤ datelessLine.length := by decide

/-- The line is handled at this time. -/
def datelessAt (now : Int) : ParseCall :=
  ⟨datelessLine, ⟨-1, false, false, [], [], 0, 0⟩, now, datelessLine_buffered⟩

/-- The same dateless line ten minutes later: whatever else `strptime` accepts,
the cache repeats the clock of the first call. -/
theorem cacheTransparent_fails_dateless :
    ¬ ∃ parseDate : List UInt8 → Option Int, parseDate (cString datelessLine 0) = none ∧
      ∀ (hsScan : List UInt8 → Option (List MatchEvent)) (calls : List ParseCall),
        (calls.map ParseCall.now).Pairwise (· ≤ ·) → CacheTransparent hsScan parseDate calls := by
  rintro ⟨parseDate, rejected, claim⟩
  have transparent := claim (fun _ => none) [datelessAt 100, datelessAt 700] (by decide)
  have agrees := ((stamps_eq_iff _ _).mp transparent).2
  have same := (List.isChain_pair.mp agrees) rfl
  simp [ParseCall.uncached, stampOf, datelessAt, rejected] at same

end FipsIpc.Sf2b
