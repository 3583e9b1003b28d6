import FipsIpc.Lib.Tiling
import FipsIpc.ShmRingbuf.Segment

/-!
Contract: the memory of a copying ring as `shmrbuf_init` lays it out.

Owns: the argument check and the size when a writer creates a buffer, the
segment addresses writer and reader compute from the global header, the index
words and slots they stand for, and the geometries for which these fit.

Offsets count from the global header.  `size_t` sums are reduced modulo
`2 ^ 64`, and `line_count * line_size` is a `uint32_t` product in all three
places.  `atomic_uint_fast32_t` has eight bytes, as on an LP64 machine; the
last member of the header is the first reader's flag, one byte before its end.

Does not own: the transfers, attaching to an existing buffer as a writer, and
system calls.
-/

set_option autoImplicit false

namespace FipsIpc.ShmRingbuf

open FipsIpc.Lib

/-! ### `shmrbuf_init` -/

def sizeofGlobalHdr : Nat := 16
def firstReaderAttOffset : Nat := 14
def sizeofAtomicBool : Nat := 1
def sizeofIndex : Nat := 8

/-- The fields of `struct shmrbuf_global_hdr_t` that addresses depend on. -/
structure Geometry where
  lineSize : UInt16
  lineCount : UInt32
  segmentCount : UInt8
  readerCount : UInt8
deriving DecidableEq, Repr

/-- `struct shmrbuf_writer_arg_t` with a key; `reattach` is `SHMRBUF_REATT`. -/
structure WriterArgs where
  geometry : Geometry
  reattach : Bool
deriving DecidableEq, Repr

/-- The argument check; it is left out with `SHMRBUF_REATT`, also when there is
no buffer to attach to and one is created. -/
def WriterArgs.accepted (args : WriterArgs) : Bool :=
  !(!args.reattach && (args.geometry.lineSize == 0 || args.geometry.lineCount == 0 ||
    args.geometry.segmentCount == 0 || args.geometry.readerCount == 0))

namespace Geometry

variable (geometry : Geometry)

/-- `line_count * line_size`, a `uint32_t`. -/
def dataSize : Nat := geometry.lineCount.toNat * geometry.lineSize.toNat % 2 ^ 32

/-- `(reader_count - 1) * sizeof(atomic_bool)`; the `int` becomes a `size_t`. -/
def flagsSize : Nat :=
  (geometry.readerCount.toNat + (2 ^ 64 - 1)) % 2 ^ 64 * sizeofAtomicBool % 2 ^ 64

/-- The size a writer asks `shmget` for. -/
def shmSize : Nat :=
  (sizeofGlobalHdr + geometry.flagsSize + geometry.segmentCount.toNat *
    (geometry.dataSize + (geometry.readerCount.toNat + 1) * sizeofIndex)) % 2 ^ 64

def firstOffset : Nat := (sizeofGlobalHdr + geometry.flagsSize) % 2 ^ 64

def segmentSize : Nat :=
  (sizeofIndex * (geometry.readerCount.toNat + 1) + geometry.dataSize) % 2 ^ 64

/-- `offset` in the loop over the segments. -/
def segHead : (segment : Nat) → Nat
  | 0 => geometry.firstOffset
  | segment + 1 => (segHead segment + geometry.segmentSize) % 2 ^ 64

end Geometry

/-- `struct shmrbuf_seg_whdr_t`. -/
structure SegWhdr where
  writeIndex : Nat
  firstReader : Nat
  data : Nat

/-- `struct shmrbuf_seg_rhdr_t` without its lock. -/
structure SegRhdr where
  writeIndex : Nat
  readIndex : Nat
  data : Nat

/-- The addresses of a writer, from the header it has just written. -/
def writerSegment (geometry : Geometry) (segment : Nat) : SegWhdr :=
  let segHead := geometry.segHead segment
  ⟨segHead, segHead + 1 * sizeofIndex, segHead + (1 + geometry.readerCount.toNat) * sizeofIndex⟩

/-- The addresses of a reader, from the header it finds. -/
def readerSegment (geometry : Geometry) (readerId segment : Nat) : SegRhdr :=
  let segHead := geometry.segHead segment
  ⟨segHead, segHead + (readerId + 1) * sizeofIndex,
    segHead + (geometry.readerCount.toNat + 1) * sizeofIndex⟩

/-! ### Regions -/

namespace Geometry

variable (geometry : Geometry)

/-- The slot at `data + write_index * line_size`. -/
def slot (segment index : Nat) : Region :=
  ⟨(writerSegment geometry segment).data + index * geometry.lineSize.toNat % 2 ^ 32,
    geometry.lineSize.toNat⟩

/-- The index words and the slots of a segment. -/
def segmentRegions (segment : Nat) : List Region :=
  ⟨(writerSegment geometry segment).writeIndex, sizeofIndex⟩ ::
    ((List.range geometry.readerCount.toNat).map (fun reader =>
        ⟨(writerSegment geometry segment).firstReader + reader * sizeofIndex, sizeofIndex⟩) ++
      (List.range geometry.lineCount.toNat).map (geometry.slot segment))

def regions : List Region :=
  (List.range geometry.segmentCount.toNat).flatMap geometry.segmentRegions

def headerRegion : Region := ⟨0, sizeofGlobalHdr⟩

/-- The reader-attached flags. -/
def flagsRegion : Region :=
  ⟨firstReaderAttOffset, geometry.readerCount.toNat * sizeofAtomicBool⟩

/-- Index words and slots do not overlap, stay clear of header and flags, and
lie in the memory. -/
structure Sound : Prop where
  disjoint : geometry.regions.Pairwise Region.Disjoint
  header : ∀ region ∈ geometry.regions, headerRegion.Disjoint region
  flags : ∀ region ∈ geometry.regions, geometry.flagsRegion.Disjoint region
  inside : ∀ region ∈ geometry.regions, region.stop ≤ geometry.shmSize

/-- A reader has the writer's addresses. -/
def ReadersAgree : Prop :=
  ∀ segment < geometry.segmentCount.toNat, ∀ readerId < geometry.readerCount.toNat,
    (readerSegment geometry readerId segment).writeIndex =
        (writerSegment geometry segment).writeIndex ∧
      (readerSegment geometry readerId segment).data = (writerSegment geometry segment).data ∧
      (readerSegment geometry readerId segment).readIndex =
        (writerSegment geometry segment).firstReader + readerId * sizeofIndex

/-! ### Offsets in numbers -/

theorem readerCount_lt : geometry.readerCount.toNat < 256 := geometry.readerCount.toNat_lt

theorem segmentCount_lt : geometry.segmentCount.toNat < 256 := geometry.segmentCount.toNat_lt

theorem dataSize_lt : geometry.dataSize < 2 ^ 32 := Nat.mod_lt _ (by decide)

theorem firstOffset_eq : geometry.firstOffset = 15 + geometry.readerCount.toNat := by
  have readers := geometry.readerCount_lt
  unfold firstOffset flagsSize sizeofGlobalHdr sizeofAtomicBool
  omega

theorem segmentSize_eq :
    geometry.segmentSize = 8 * (geometry.readerCount.toNat + 1) + geometry.dataSize := by
  have readers := geometry.readerCount_lt
  have data := geometry.dataSize_lt
  unfold segmentSize sizeofIndex
  omega

/-- All segments together, far below the range of `size_t`. -/
theorem mul_segmentSize_lt {count : Nat} (bound : count ≤ geometry.segmentCount.toNat) :
    count * geometry.segmentSize < 2 ^ 63 := by
  have segments := geometry.segmentCount_lt
  have readers := geometry.readerCount_lt
  have data := geometry.dataSize_lt
  have stride : geometry.segmentSize ≤ 2 ^ 33 := by
    rw [geometry.segmentSize_eq]
    omega
  calc count * geometry.segmentSize ≤ 255 * 2 ^ 33 := Nat.mul_le_mul (by omega) stride
    _ < 2 ^ 63 := by decide

theorem shmSize_eq : geometry.shmSize = 15 + geometry.readerCount.toNat +
    geometry.segmentCount.toNat * geometry.segmentSize := by
  have readers := geometry.readerCount_lt
  have total := geometry.mul_segmentSize_lt (Nat.le_refl _)
  have stride : geometry.dataSize + (geometry.readerCount.toNat + 1) * sizeofIndex =
      geometry.segmentSize := by
    rw [geometry.segmentSize_eq, sizeofIndex]
    omega
  unfold shmSize flagsSize sizeofGlobalHdr sizeofAtomicBool
  rw [stride]
  omega

theorem segHead_eq {segment : Nat} (bound : segment ≤ geometry.segmentCount.toNat) :
    geometry.segHead segment = 15 + geometry.readerCount.toNat +
      segment * geometry.segmentSize := by
  induction segment with
  | zero =>
      rw [segHead, geometry.firstOffset_eq]
      omega
  | succ segment inductionHypothesis =>
      have readers := geometry.readerCount_lt
      have total := geometry.mul_segmentSize_lt bound
      rw [segHead, inductionHypothesis (Nat.le_of_succ_le bound)]
      rw [Nat.succ_mul] at total ⊢
      omega

/-- The transfer calls compute the same slots. -/
theorem slot_offset (hdr : GlobalHdr) (size : hdr.lineSize = geometry.lineSize.toNat)
    (segment index : Nat) :
    (geometry.slot segment index).offset =
      (writerSegment geometry segment).data + slotOffset hdr index := by
  unfold slot slotOffset
  rw [size]

variable {geometry}

/-! ### Geometries that fit -/

/-- The index words and slots of a segment tile it. -/
theorem tiles_segment (fits : geometry.lineCount.toNat * geometry.lineSize.toNat < 2 ^ 32)
    (segment : Nat) :
    Tiles (geometry.segHead segment) (geometry.segmentRegions segment)
      (geometry.segHead segment + geometry.segmentSize) := by
  have slots : (List.range geometry.lineCount.toNat).map (geometry.slot segment) =
      (List.range geometry.lineCount.toNat).map fun index =>
        ⟨(writerSegment geometry segment).data + index * geometry.lineSize.toNat,
          geometry.lineSize.toNat⟩ := by
    apply List.map_congr_left
    intro index member
    have below : index * geometry.lineSize.toNat ≤
        geometry.lineCount.toNat * geometry.lineSize.toNat :=
      Nat.mul_le_mul_right _ (Nat.le_of_lt (List.mem_range.mp member))
    unfold slot
    rw [Nat.mod_eq_of_lt (by omega)]
  have data : geometry.dataSize = geometry.lineCount.toNat * geometry.lineSize.toNat :=
    Nat.mod_eq_of_lt fits
  refine ⟨rfl, ?_⟩
  change Tiles (writerSegment geometry segment).firstReader _ _
  rw [slots]
  apply Tiles.append
  · exact Tiles.uniform _ sizeofIndex geometry.readerCount.toNat
  · have start : (writerSegment geometry segment).data =
        (writerSegment geometry segment).firstReader +
          geometry.readerCount.toNat * sizeofIndex := by
      unfold writerSegment
      dsimp only
      rw [Nat.add_mul, Nat.add_assoc]
    have stop : geometry.segHead segment + geometry.segmentSize =
        (writerSegment geometry segment).data +
          geometry.lineCount.toNat * geometry.lineSize.toNat := by
      unfold writerSegment sizeofIndex
      dsimp only
      rw [geometry.segmentSize_eq, data]
      omega
    rw [← start, stop]
    exact Tiles.uniform _ geometry.lineSize.toNat geometry.lineCount.toNat

theorem tiles_regions (fits : geometry.lineCount.toNat * geometry.lineSize.toNat < 2 ^ 32) :
    Tiles (15 + geometry.readerCount.toNat) geometry.regions geometry.shmSize := by
  rw [geometry.shmSize_eq]
  apply Tiles.blocks
  intro segment before
  have tiles := tiles_segment fits segment
  rw [geometry.segHead_eq (Nat.le_of_lt before)] at tiles
  rw [Nat.succ_mul, ← Nat.add_assoc]
  exact tiles

theorem sound_of_fits (readers : geometry.readerCount ≠ 0)
    (fits : geometry.lineCount.toNat * geometry.lineSize.toNat < 2 ^ 32) : geometry.Sound := by
  have tiles := tiles_regions fits
  have positive : 0 < geometry.readerCount.toNat := by
    apply Nat.pos_of_ne_zero
    intro zero
    exact readers (UInt8.toNat_inj.mp zero)
  refine ⟨tiles.disjoint, fun region member => ?_, fun region member => ?_,
    fun region member => (tiles.bounds member).2⟩
  · have low := (tiles.bounds member).1
    apply Or.inl
    unfold headerRegion Region.stop sizeofGlobalHdr
    dsimp only
    omega
  · have low := (tiles.bounds member).1
    apply Or.inl
    unfold flagsRegion Region.stop firstReaderAttOffset sizeofAtomicBool
    dsimp only
    omega

/-! ### Geometries that do not fit -/

/-- Without readers the first index word begins in the header. -/
theorem not_sound_of_no_readers (segments : geometry.segmentCount ≠ 0)
    (readers : geometry.readerCount = 0) : ¬geometry.Sound := by
  intro sound
  have positive : 0 < geometry.segmentCount.toNat := by
    apply Nat.pos_of_ne_zero
    intro zero
    exact segments (UInt8.toNat_inj.mp zero)
  have member : (⟨geometry.segHead 0, sizeofIndex⟩ : Region) ∈ geometry.regions :=
    List.mem_flatMap.mpr ⟨0, List.mem_range.mpr positive, List.mem_cons_self⟩
  have head : geometry.segHead 0 = 15 := by
    rw [segHead, geometry.firstOffset_eq, readers]
    rfl
  have apart := sound.header _ member
  rw [head] at apart
  exact absurd apart (by unfold Region.Disjoint; decide)

/-- When the size of the lines wraps around, a slot of the last segment ends
behind the memory. -/
theorem not_sound_of_wrap (segments : geometry.segmentCount ≠ 0)
    (wraps : 2 ^ 32 ≤ geometry.lineCount.toNat * geometry.lineSize.toNat) : ¬geometry.Sound := by
  intro sound
  have positive : 0 < geometry.segmentCount.toNat := by
    apply Nat.pos_of_ne_zero
    intro zero
    exact segments (UInt8.toNat_inj.mp zero)
  have data := geometry.dataSize_lt
  have line : 0 < geometry.lineSize.toNat := by
    apply Nat.pos_of_ne_zero
    intro zero
    rw [zero] at wraps
    omega
  -- the slot that holds the first byte behind the reduced size
  let index := geometry.dataSize / geometry.lineSize.toNat
  have start : index * geometry.lineSize.toNat ≤ geometry.dataSize := Nat.div_mul_le_self _ _
  have stop : geometry.dataSize < index * geometry.lineSize.toNat + geometry.lineSize.toNat :=
    Nat.lt_div_mul_add line
  have before : index < geometry.lineCount.toNat := by
    apply Nat.lt_of_mul_lt_mul_right (a := geometry.lineSize.toNat)
    omega
  let last := geometry.segmentCount.toNat - 1
  have member : geometry.slot last index ∈ geometry.regions := by
    apply List.mem_flatMap.mpr
    refine ⟨last, List.mem_range.mpr (Nat.sub_lt positive Nat.one_pos), ?_⟩
    apply List.mem_cons_of_mem
    apply List.mem_append_right
    exact List.mem_map.mpr ⟨index, List.mem_range.mpr before, rfl⟩
  have inside := sound.inside _ member
  have total : geometry.segmentCount.toNat * geometry.segmentSize =
      last * geometry.segmentSize + geometry.segmentSize := by
    rw [← Nat.succ_mul]
    congr 1
    omega
  have head : geometry.segHead last =
      15 + geometry.readerCount.toNat + last * geometry.segmentSize :=
    geometry.segHead_eq (Nat.sub_le _ _)
  have offset : index * geometry.lineSize.toNat % 2 ^ 32 = index * geometry.lineSize.toNat :=
    Nat.mod_eq_of_lt (by omega)
  have stride := geometry.segmentSize_eq
  unfold slot writerSegment Region.stop sizeofIndex at inside
  dsimp only at inside
  rw [geometry.shmSize_eq, head, total, offset] at inside
  omega

theorem readersAgree (geometry : Geometry) : geometry.ReadersAgree := by
  intro segment _ readerId _
  unfold readerSegment writerSegment
  dsimp only
  refine ⟨rfl, ?_, ?_⟩
  · rw [Nat.add_comm 1]
  · rw [Nat.succ_mul]
    omega

end Geometry

/-- A buffer that `shmrbuf_init` creates is laid out soundly if and only if it
has no segments, or has readers and lines of less than `2 ^ 32` bytes. -/
theorem layout_sound_iff (args : WriterArgs) (_ : args.accepted = true) :
    (args.geometry.Sound ∧ args.geometry.ReadersAgree) ↔
      args.geometry.segmentCount = 0 ∨
        (args.geometry.readerCount ≠ 0 ∧
          args.geometry.lineCount.toNat * args.geometry.lineSize.toNat < 2 ^ 32) := by
  by_cases segments : args.geometry.segmentCount = 0
  · have empty : args.geometry.regions = [] := by
      unfold Geometry.regions
      rw [segments]
      rfl
    have sound : args.geometry.Sound := by
      refine ⟨?_, ?_, ?_, ?_⟩
      all_goals
        rw [empty]
        simp
    exact ⟨fun _ => Or.inl segments, fun _ => ⟨sound, args.geometry.readersAgree⟩⟩
  · constructor
    · intro holds
      refine Or.inr ⟨fun readers => ?_, Nat.lt_of_not_le fun wraps => ?_⟩
      · exact Geometry.not_sound_of_no_readers segments readers holds.1
      · exact Geometry.not_sound_of_wrap segments wraps holds.1
    · intro condition
      rcases condition with none | ⟨readers, fits⟩
      · exact absurd none segments
      · exact ⟨Geometry.sound_of_fits readers fits, args.geometry.readersAgree⟩

/-- Two segments of a thousand lines of 200 bytes for three readers. -/
def usualArgs : WriterArgs := ⟨⟨200, 1000, 2, 3⟩, false⟩

theorem layout_sound_iff_usual :
    usualArgs.accepted = true ∧ usualArgs.geometry.Sound ∧ usualArgs.geometry.ReadersAgree :=
  ⟨by decide, (layout_sound_iff usualArgs (by decide)).mpr (Or.inr ⟨by decide, by decide⟩)⟩

/-- One more line of 200 bytes than fit in `2 ^ 32` bytes. -/
def wideArgs : WriterArgs := ⟨⟨200, 21474837, 1, 1⟩, false⟩

theorem layout_not_sound_wide : wideArgs.accepted = true ∧ ¬wideArgs.geometry.Sound :=
  ⟨by decide, Geometry.not_sound_of_wrap (by decide) (by decide)⟩

end FipsIpc.ShmRingbuf
