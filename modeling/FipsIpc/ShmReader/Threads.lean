import FipsIpc.Lib.Shares

/-!
Contract: the segments of the copying ring that reader threads take.

Owns: `segments_per_thread` of `programs/shm_reader.c` and of `init_thread_ipc`
in `programs/sf2b/shmrbuf.c`, the bounds that the threads sum up from it, and
that these bounds share out all segments.

The table is shifted by one, so the same loop sums up the lower and the upper
bound.  `init_thread_ipc` sums in 8-bit variables and turns away threads without
a segment; `shm_reader` sums in `int`s, which no number of segments exceeds, and
starts every thread.

Does not own: reading from the segments.
-/

set_option autoImplicit false

namespace FipsIpc.ShmReader

open FipsIpc.Lib

/-! ### Bounds -/

/-- `segments_per_thread`, filled for all threads. -/
def segmentsPerThread (segCount remainder threads : Nat) : List Nat :=
  0 :: (List.range threads).map fun i => if i < remainder then segCount + 1 else segCount

/-- `init_thread_ipc`: `lower_seg` and `upper_seg` of a thread that is not turned
away. -/
def initThreadIpc (segmentCount threadCount threadId : UInt8) : Option (UInt8 × UInt8) :=
  if threadId ≥ segmentCount then none
  else
    let segCount := segmentCount / threadCount
    let remainder := segmentCount % threadCount
    let table := segmentsPerThread segCount.toNat remainder.toNat threadCount.toNat
    some ((List.range (threadId.toNat + 1)).foldl
      (fun (bounds : UInt8 × UInt8) i =>
        (bounds.1 + UInt8.ofNat (table.getD i 0), bounds.2 + UInt8.ofNat (table.getD (i + 1) 0)))
      (0, 0))

/-- `lower_seg` and `upper_seg` of a thread of `shm_reader`, from the table that
`main` fills. -/
def segmentRange (segmentCount : UInt8) (threadNumber threadId : Nat) : Nat × Nat :=
  let segCount := segmentCount.toNat / threadNumber
  let remainder := segmentCount.toNat % threadNumber
  let table := segmentsPerThread segCount remainder threadNumber
  (List.range (threadId + 1)).foldl
    (fun (bounds : Nat × Nat) i =>
      (bounds.1 + table.getD i 0, bounds.2 + table.getD (i + 1) 0))
    (0, 0)

/-! ### Sharing out -/

/-- The ranges of the threads that are not turned away share out the segments. -/
structure Partitions (segments threads : Nat) (range : Nat → Option (Nat × Nat)) : Prop where
  disjoint : ∀ left < threads, ∀ right < threads, left ≠ right →
    ∀ leftBounds ∈ range left, ∀ rightBounds ∈ range right,
      leftBounds.2 ≤ rightBounds.1 ∨ rightBounds.2 ≤ leftBounds.1
  nonempty : ∀ thread < threads, thread < segments →
    ∃ bounds ∈ range thread, bounds.1 < bounds.2
  inside : ∀ thread < threads, ∀ bounds ∈ range thread,
    bounds.1 ≤ bounds.2 ∧ bounds.2 ≤ segments
  covers : ∀ segment < segments, ∃ thread < threads, ∃ bounds ∈ range thread,
    bounds.1 ≤ segment ∧ segment < bounds.2
  even : ∀ left < threads, ∀ right < threads,
    ∀ leftBounds ∈ range left, ∀ rightBounds ∈ range right,
      leftBounds.2 - leftBounds.1 ≤ rightBounds.2 - rightBounds.1 + 1

section Sharing

variable {segments threads thread : Nat}

theorem share_pos (positive : 1 ≤ threads) (early : thread < segments) :
    0 < share segments threads thread := by
  unfold share
  rcases Nat.lt_or_ge segments threads with few | enough
  · rw [Nat.mod_eq_of_lt few, if_pos early]
    exact Nat.succ_pos _
  · have whole : 0 < segments / threads := Nat.div_pos enough positive
    omega

/-- A thread with a segment is not turned away. -/
theorem lt_of_share_pos (isThread : thread < threads)
    (nonempty : 0 < share segments threads thread) : thread < segments := by
  unfold share at nonempty
  rcases Nat.lt_or_ge segments threads with few | enough
  · rw [Nat.div_eq_of_lt few, Nat.mod_eq_of_lt few] at nonempty
    split at nonempty
    · assumption
    · exact absurd nonempty (Nat.lt_irrefl _)
  · exact Nat.lt_of_lt_of_le isThread enough

/-- The shares, given to all threads with a segment and to some of the others,
share out the segments. -/
theorem partitions_of_cut {range : Nat → Option (Nat × Nat)} (positive : 1 ≤ threads)
    (some_of_early : ∀ thread < threads, thread < segments →
      range thread = some (cut segments threads thread, cut segments threads (thread + 1)))
    (bounds_eq : ∀ thread < threads, ∀ bounds ∈ range thread,
      bounds = (cut segments threads thread, cut segments threads (thread + 1))) :
    Partitions segments threads range where
  disjoint left leftIn right rightIn different leftBounds isLeft rightBounds isRight := by
    rw [bounds_eq left leftIn _ isLeft, bounds_eq right rightIn _ isRight]
    rcases Nat.lt_or_gt_of_ne different with before | after
    · exact Or.inl (cut_mono segments threads before)
    · exact Or.inr (cut_mono segments threads after)
  nonempty thread isThread early := by
    refine ⟨_, some_of_early thread isThread early, ?_⟩
    have some := share_pos positive early
    rw [cut_succ]
    omega
  inside thread isThread bounds isBounds := by
    rw [bounds_eq thread isThread _ isBounds]
    refine ⟨cut_mono segments threads (Nat.le_succ thread), ?_⟩
    have last := cut_mono segments threads (Nat.succ_le_of_lt isThread)
    rwa [cut_parts segments positive] at last
  covers segment isSegment := by
    rcases exists_part positive isSegment with ⟨thread, isThread, low, high⟩
    have some : 0 < share segments threads thread := by
      rw [cut_succ] at high
      omega
    exact ⟨thread, isThread, _, some_of_early thread isThread (lt_of_share_pos isThread some),
      low, high⟩
  even left leftIn right rightIn leftBounds isLeft rightBounds isRight := by
    have most := share_le_div_succ segments threads left
    have least := div_le_share segments threads right
    rw [bounds_eq left leftIn _ isLeft, bounds_eq right rightIn _ isRight, cut_succ, cut_succ]
    omega

end Sharing

/-! ### The sums -/

section Sums

variable {segments threads thread : Nat}

/-- The table holds the shares, shifted by one. -/
theorem getD_segmentsPerThread (isThread : thread < threads) :
    (segmentsPerThread (segments / threads) (segments % threads) threads).getD (thread + 1) 0 =
      share segments threads thread := by
  unfold segmentsPerThread share
  rw [List.getD_cons_succ]
  simp only [List.getD_eq_getElem?_getD, List.getElem?_map, List.getElem?_range isThread,
    Option.map_some, Option.getD_some]
  split <;> rfl

/-- The sums of both bounds. -/
theorem segmentRange_eq {segmentCount : UInt8} (isThread : thread < threads) :
    segmentRange segmentCount threads thread =
      (cut segmentCount.toNat threads thread, cut segmentCount.toNat threads (thread + 1)) := by
  unfold segmentRange
  dsimp only
  induction thread with
  | zero =>
      show (0 + 0, 0 + (segmentsPerThread _ _ threads).getD (0 + 1) 0) = _
      rw [getD_segmentsPerThread isThread, cut_succ, cut_zero]
  | succ thread inductionHypothesis =>
      rw [List.range_succ, List.foldl_append, inductionHypothesis (by omega), List.foldl_cons,
        List.foldl_nil, getD_segmentsPerThread isThread, getD_segmentsPerThread (by omega),
        ← cut_succ, ← cut_succ]

/-- The sums of `init_thread_ipc` are those of `shm_reader`, in 8 bits. -/
theorem initThreadIpc_eq {segmentCount threadCount threadId : UInt8}
    (early : threadId < segmentCount) :
    initThreadIpc segmentCount threadCount threadId =
      some (UInt8.ofNat (segmentRange segmentCount threadCount.toNat threadId.toNat).1,
        UInt8.ofNat (segmentRange segmentCount threadCount.toNat threadId.toNat).2) := by
  unfold initThreadIpc
  rw [if_neg (UInt8.not_le.mpr early)]
  dsimp only
  rw [UInt8.toNat_div, UInt8.toNat_mod]
  apply congrArg some
  show List.foldl _ (Prod.map UInt8.ofNat UInt8.ofNat (0, 0)) _ =
    Prod.map UInt8.ofNat UInt8.ofNat (segmentRange segmentCount threadCount.toNat threadId.toNat)
  apply List.foldl_hom
  intro bounds i
  simp only [Prod.map, UInt8.ofNat_add]

/-- The 8-bit sums do not wrap. -/
theorem toNat_initThreadIpc {segmentCount threadCount threadId : UInt8}
    (isThread : threadId.toNat < threadCount.toNat) (early : threadId < segmentCount) :
    (initThreadIpc segmentCount threadCount threadId).map
        (Prod.map UInt8.toNat UInt8.toNat) =
      some (cut segmentCount.toNat threadCount.toNat threadId.toNat,
        cut segmentCount.toNat threadCount.toNat (threadId.toNat + 1)) := by
  have small := segmentCount.toNat_lt
  have upper : cut segmentCount.toNat threadCount.toNat (threadId.toNat + 1) ≤
      segmentCount.toNat := by
    have last := cut_mono segmentCount.toNat threadCount.toNat (Nat.succ_le_of_lt isThread)
    rwa [cut_parts _ (Nat.zero_lt_of_lt isThread)] at last
  have lower : cut segmentCount.toNat threadCount.toNat threadId.toNat ≤
      cut segmentCount.toNat threadCount.toNat (threadId.toNat + 1) :=
    cut_mono segmentCount.toNat threadCount.toNat (Nat.le_succ threadId.toNat)
  rw [initThreadIpc_eq early, segmentRange_eq isThread]
  simp only [Option.map_some, Prod.map, UInt8.toNat_ofNat']
  rw [Nat.mod_eq_of_lt (by omega), Nat.mod_eq_of_lt (by omega)]

theorem initThreadIpc_none {segmentCount threadCount threadId : UInt8}
    (late : segmentCount ≤ threadId) : initThreadIpc segmentCount threadCount threadId = none := by
  unfold initThreadIpc
  rw [if_pos late]

end Sums

/-- The reader threads of both programs share out the segments. -/
theorem reader_threads_partition_segments (segmentCount threadCount : UInt8) (threadNumber : Nat)
    (someThread : 1 ≤ threadCount.toNat) (someReader : 1 ≤ threadNumber) :
    Partitions segmentCount.toNat threadCount.toNat (fun thread =>
        (initThreadIpc segmentCount threadCount (UInt8.ofNat thread)).map
          (Prod.map UInt8.toNat UInt8.toNat)) ∧
      Partitions segmentCount.toNat threadNumber (fun thread =>
        some (segmentRange segmentCount threadNumber thread)) := by
  constructor
  · have value : ∀ thread < threadCount.toNat, (UInt8.ofNat thread).toNat = thread := by
      intro thread isThread
      have small := threadCount.toNat_lt
      rw [UInt8.toNat_ofNat', Nat.mod_eq_of_lt (by omega)]
    have early_eq : ∀ thread < threadCount.toNat, thread < segmentCount.toNat →
        (initThreadIpc segmentCount threadCount (UInt8.ofNat thread)).map
          (Prod.map UInt8.toNat UInt8.toNat) =
        some (cut segmentCount.toNat threadCount.toNat thread,
          cut segmentCount.toNat threadCount.toNat (thread + 1)) := by
      intro thread isThread early
      have inBytes : UInt8.ofNat thread < segmentCount := by
        rw [UInt8.lt_iff_toNat_lt, value thread isThread]
        exact early
      have threadInBytes : (UInt8.ofNat thread).toNat < threadCount.toNat := by
        rwa [value thread isThread]
      have result := toNat_initThreadIpc threadInBytes inBytes
      rwa [value thread isThread] at result
    apply partitions_of_cut someThread early_eq
    intro thread isThread bounds isBounds
    rcases Nat.lt_or_ge thread segmentCount.toNat with early | late
    · rw [early_eq thread isThread early] at isBounds
      exact (Option.some.inj isBounds).symm
    · have turnedAway : segmentCount ≤ UInt8.ofNat thread := by
        rw [UInt8.le_iff_toNat_le, value thread isThread]
        exact late
      rw [initThreadIpc_none turnedAway] at isBounds
      cases isBounds
  · apply partitions_of_cut someReader
    · intro thread isThread _
      rw [segmentRange_eq isThread]
    · intro thread isThread bounds isBounds
      rw [segmentRange_eq isThread] at isBounds
      exact (Option.some.inj isBounds).symm

/-- Seven segments for three threads of one program and ten of the other. -/
theorem reader_threads_partition_segments_seven :
    Partitions 7 3 (fun thread =>
        (initThreadIpc 7 3 (UInt8.ofNat thread)).map (Prod.map UInt8.toNat UInt8.toNat)) ∧
      Partitions 7 10 (fun thread => some (segmentRange 7 10 thread)) :=
  reader_threads_partition_segments 7 3 10 (by decide) (by decide)

end FipsIpc.ShmReader
