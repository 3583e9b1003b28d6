import FipsIpc.ShmRingbuf.Layout

/-!
Contract: writers that create a copying ring or attach to an existing one.

Owns: the global header with its checksum, `shmrbuf_init` for a writer, the
writer handle with its two copies of the geometry, the checks with which
`shmrbuf_write` and `shmrbuf_writev` begin, and for which handles these agree.

A call either returns at once or goes on with an entry of `segment_hdrs`, of
which `shmrbuf_init` has allocated one per segment of the header.  A header may
also be that of a buffer created with `SHMRBUF_REATT` and zeros for a geometry,
since the argument check is left out then.

Does not own: the transfers behind the checks, failing system calls (they leave
no handle), and the addresses in the entries, `ShmRingbuf.Layout`.
-/

set_option autoImplicit false

namespace FipsIpc.ShmRingbuf

/-! ### `shmrbuf_init` of a writer -/

def eexist : Int := 17

/-- `struct shmrbuf_global_hdr_t` without the readers' flags. -/
structure SharedHdr where
  checksum : UInt32
  geometry : Geometry
  overwrite : Bool
  writerAtt : Bool
deriving DecidableEq, Repr

/-- The sum is unsigned, as `line_count` is; `key` is the `key_t` as a `uint32_t`. -/
def getHdrChecksum (geometry : Geometry) (overwrite : Bool) (key : UInt32) : UInt32 :=
  (key + geometry.lineCount + geometry.lineSize.toUInt32 + overwrite.toUInt32 +
    geometry.readerCount.toUInt32 + geometry.segmentCount.toUInt32) % 0xFFFFFFFF

/-- `struct shmrbuf_writer_arg_t` as the caller fills it in, with its other two flags. -/
structure WriterInit where
  args : WriterArgs
  overwrite : Bool
  force : Bool
deriving DecidableEq, Repr

/-- The handle: the caller's arguments, the header they point to and the number of
entries of `segment_hdrs`. -/
structure WriterHandle where
  args : Geometry
  globalHdr : SharedHdr
  segmentHdrs : Nat
deriving DecidableEq, Repr

/-- The header of a new buffer. -/
def WriterInit.createHdr (init : WriterInit) (key : UInt32) : SharedHdr :=
  ⟨getHdrChecksum init.args.geometry init.overwrite key, init.args.geometry, init.overwrite, true⟩

/-- `shmrbuf_init` for `SHMRBUF_WRITER`; `existing` is the header of the buffer that
has the key.  The handle's header is the one in shared memory afterwards. -/
def shmrbufInit (key : UInt32) (init : WriterInit) (existing : Option SharedHdr) :
    Except Int WriterHandle :=
  if init.args.accepted = false then .error ioIpcArgErr
  else
    match existing with
    | none =>
        let globalHdr := init.createHdr key
        .ok ⟨init.args.geometry, globalHdr, globalHdr.geometry.segmentCount.toNat⟩
    | some globalHdr =>
        -- without `SHMRBUF_REATT` the buffer is created with `IPC_EXCL`
        if init.args.reattach = false then .error eexist
        else if globalHdr.checksum ≠ getHdrChecksum globalHdr.geometry globalHdr.overwrite key ∨
            (globalHdr.writerAtt = true ∧ init.force = false) then
          .error ioIpcArgErr
        else
          .ok ⟨init.args.geometry, { globalHdr with writerAtt := true },
            globalHdr.geometry.segmentCount.toNat⟩

/-! ### The checks of the write calls -/

namespace WriterHandle

variable (handle : WriterHandle)

/-- How `shmrbuf_write` begins: the value it returns at once, or the entry of
`segment_hdrs` it goes on with. -/
def shmrbufWriteEntry (wsize : UInt16) (segmentId : UInt8) : Except Int Nat :=
  if segmentId ≥ handle.globalHdr.geometry.segmentCount ∨
      wsize > handle.globalHdr.geometry.lineSize then
    .error ioIpcArgErr
  else if wsize = 0 then .error 0
  else .ok segmentId.toNat

/-- How `shmrbuf_writev` begins; it looks at the caller's copy of the count. -/
def shmrbufWritevEntry (vsize : UInt16) (segmentId : UInt8) : Except Int Nat :=
  if segmentId ≥ handle.args.segmentCount then .error ioIpcArgErr
  else if vsize = 0 then .error 0
  else .ok segmentId.toNat

/-- Both calls reject a segment exactly if the header does not have it, for input that
is not empty and fits into a line, and use entries that are there. -/
structure SameSegments (segmentId : UInt8) : Prop where
  write : ∀ wsize, wsize ≠ 0 → wsize ≤ handle.globalHdr.geometry.lineSize →
    (handle.shmrbufWriteEntry wsize segmentId = .error ioIpcArgErr ↔
      segmentId ≥ handle.globalHdr.geometry.segmentCount)
  writev : ∀ vsize, vsize ≠ 0 →
    (handle.shmrbufWritevEntry vsize segmentId = .error ioIpcArgErr ↔
      segmentId ≥ handle.globalHdr.geometry.segmentCount)
  inside : ∀ size index, handle.shmrbufWriteEntry size segmentId = .ok index ∨
      handle.shmrbufWritevEntry size segmentId = .ok index →
    index < handle.segmentHdrs

variable {handle} {segmentId : UInt8}

theorem shmrbufWriteEntry_rejects_iff {wsize : UInt16}
    (fits : wsize ≤ handle.globalHdr.geometry.lineSize) :
    handle.shmrbufWriteEntry wsize segmentId = .error ioIpcArgErr ↔
      segmentId ≥ handle.globalHdr.geometry.segmentCount := by
  have short : ¬wsize > handle.globalHdr.geometry.lineSize := UInt16.not_lt.mpr fits
  unfold shmrbufWriteEntry
  by_cases outside : segmentId ≥ handle.globalHdr.geometry.segmentCount
  · simp [outside]
  · by_cases empty : wsize = 0
    · simp [outside, empty, ioIpcArgErr]
    · simp [outside, short, empty]

theorem shmrbufWritevEntry_rejects_iff {vsize : UInt16} :
    handle.shmrbufWritevEntry vsize segmentId = .error ioIpcArgErr ↔
      segmentId ≥ handle.args.segmentCount := by
  unfold shmrbufWritevEntry
  by_cases outside : segmentId ≥ handle.args.segmentCount
  · simp [outside]
  · by_cases empty : vsize = 0
    · simp [outside, empty, ioIpcArgErr]
    · simp [outside, empty]

theorem shmrbufWriteEntry_inside {wsize : UInt16} {index : Nat}
    (goesOn : handle.shmrbufWriteEntry wsize segmentId = .ok index) :
    index < handle.globalHdr.geometry.segmentCount.toNat := by
  unfold shmrbufWriteEntry at goesOn
  split at goesOn
  case isTrue => cases goesOn
  case isFalse passes =>
    split at goesOn
    case isTrue => cases goesOn
    case isFalse =>
      cases goesOn
      exact UInt8.not_le.mp fun outside => passes (Or.inl outside)

theorem shmrbufWritevEntry_inside {vsize : UInt16} {index : Nat}
    (goesOn : handle.shmrbufWritevEntry vsize segmentId = .ok index) :
    index < handle.args.segmentCount.toNat := by
  unfold shmrbufWritevEntry at goesOn
  split at goesOn
  case isTrue => cases goesOn
  case isFalse passes =>
    split at goesOn
    case isTrue => cases goesOn
    case isFalse =>
      cases goesOn
      exact UInt8.not_le.mp passes

/-- With entries for the header's segments, the calls agree on all segments exactly if
the two copies of the count do. -/
theorem sameSegments_iff_counts
    (allocated : handle.segmentHdrs = handle.globalHdr.geometry.segmentCount.toNat) :
    (∀ segmentId, handle.SameSegments segmentId) ↔
      handle.globalHdr.geometry.segmentCount = handle.args.segmentCount := by
  constructor
  · intro same
    have rejects (segmentId : UInt8) : segmentId ≥ handle.args.segmentCount ↔
        segmentId ≥ handle.globalHdr.geometry.segmentCount := by
      rw [← (same segmentId).writev 1 (by decide)]
      exact shmrbufWritevEntry_rejects_iff.symm
    apply UInt8.le_antisymm
    · exact (rejects handle.args.segmentCount).mp (UInt8.le_refl _)
    · exact (rejects handle.globalHdr.geometry.segmentCount).mpr (UInt8.le_refl _)
  · intro counts segmentId
    refine ⟨?_, ?_, ?_⟩
    · intro wsize _ fits
      exact shmrbufWriteEntry_rejects_iff fits
    · intro vsize _
      rw [counts]
      exact shmrbufWritevEntry_rejects_iff
    · intro size index goesOn
      rw [allocated]
      rcases goesOn with single | vector
      · exact shmrbufWriteEntry_inside single
      · rw [counts]
        exact shmrbufWritevEntry_inside vector

end WriterHandle

/-! ### The checks and the transfers -/

/-- The header of the transfer calls has the fields of the shared one. -/
structure GlobalHdr.Describes (hdr : GlobalHdr) (geometry : Geometry) : Prop where
  segmentCount : hdr.segmentCount = geometry.segmentCount.toNat
  lineSize : hdr.lineSize = geometry.lineSize.toNat

section Transfers

variable {hdr : GlobalHdr} {handle : WriterHandle} {segmentId : UInt8}

theorem ofNat_ne_ioIpcArgErr (amount : Nat) : (amount : Int) ≠ ioIpcArgErr := by
  unfold ioIpcArgErr
  omega

/-- `shmrbuf_write` begins with its checks, and returns `IO_IPC_ARG_ERR` nowhere else. -/
theorem shmrbufWrite_entry (describes : hdr.Describes handle.globalHdr.geometry)
    (segment : Segment) {src : List UInt8} (short : src.length < 2 ^ 16) :
    match handle.shmrbufWriteEntry (UInt16.ofNat src.length) segmentId with
    | .error code => shmrbufWrite hdr segmentId.toNat segment src = (code, segment)
    | .ok _ => (shmrbufWrite hdr segmentId.toNat segment src).1 ≠ ioIpcArgErr := by
  have sizeErr : ioIpcSizeErr ≠ ioIpcArgErr := by decide
  have size : (UInt16.ofNat src.length).toNat = src.length := UInt16.toNat_ofNat_of_lt short
  have checks : (segmentId ≥ handle.globalHdr.geometry.segmentCount ∨
      UInt16.ofNat src.length > handle.globalHdr.geometry.lineSize) ↔
      (segmentId.toNat ≥ hdr.segmentCount ∨ src.length > hdr.lineSize) := by
    rw [describes.segmentCount, describes.lineSize, ge_iff_le, UInt8.le_iff_toNat_le, gt_iff_lt,
      UInt16.lt_iff_toNat_lt, size]
  have empty : UInt16.ofNat src.length = 0 ↔ src.length = 0 := by
    rw [← UInt16.toNat_inj, size]
    rfl
  unfold WriterHandle.shmrbufWriteEntry shmrbufWrite
  by_cases rejected : segmentId.toNat ≥ hdr.segmentCount ∨ src.length > hdr.lineSize
  · rw [if_pos (checks.mpr rejected), if_pos rejected]
  · rw [if_neg (mt checks.mp rejected), if_neg rejected]
    by_cases nothing : src.length = 0
    · rw [if_pos (empty.mpr nothing), if_pos nothing]
    · rw [if_neg (mt empty.mp nothing), if_neg nothing]
      dsimp only
      split
      · exact sizeErr
      · exact ofNat_ne_ioIpcArgErr hdr.lineSize

/-- `shmrbuf_writev` as well. -/
theorem shmrbufWritev_entry (segment : Segment) (iovecs : List (List UInt8)) (vsize : UInt16) :
    match handle.shmrbufWritevEntry vsize segmentId with
    | .error code =>
        shmrbufWritev hdr handle.args.segmentCount.toNat segmentId.toNat segment iovecs
          vsize.toNat = (code, segment)
    | .ok _ =>
        (shmrbufWritev hdr handle.args.segmentCount.toNat segmentId.toNat segment iovecs
          vsize.toNat).1 ≠ ioIpcArgErr := by
  have sizeErr : ioIpcSizeErr ≠ ioIpcArgErr := by decide
  have empty : vsize = 0 ↔ vsize.toNat = 0 := by
    rw [← UInt16.toNat_inj]
    rfl
  unfold WriterHandle.shmrbufWritevEntry shmrbufWritev
  by_cases rejected : segmentId ≥ handle.args.segmentCount
  · rw [if_pos rejected, if_pos (UInt8.le_iff_toNat_le.mp rejected)]
  · rw [if_neg rejected, if_neg (mt UInt8.le_iff_toNat_le.mpr rejected)]
    by_cases nothing : vsize = 0
    · rw [if_pos nothing, if_pos (empty.mp nothing)]
    · rw [if_neg nothing, if_neg (mt empty.mpr nothing)]
      dsimp only
      split
      · exact ofNat_ne_ioIpcArgErr 0
      · split
        · split
          · exact sizeErr
          · exact ofNat_ne_ioIpcArgErr _
        · split
          · exact sizeErr
          · split
            · exact sizeErr
            · exact ofNat_ne_ioIpcArgErr _

end Transfers

/-! ### Handles -/

/-- What a successful `shmrbuf_init` leaves. -/
theorem shmrbufInit_spec {key : UInt32} {init : WriterInit} {existing : Option SharedHdr}
    {handle : WriterHandle} (initialised : shmrbufInit key init existing = .ok handle) :
    handle.args = init.args.geometry ∧
      handle.segmentHdrs = handle.globalHdr.geometry.segmentCount.toNat ∧
      handle.globalHdr.geometry =
        (existing.map SharedHdr.geometry).getD init.args.geometry := by
  unfold shmrbufInit at initialised
  split at initialised
  case isTrue => cases initialised
  case isFalse =>
    cases existing with
    | none =>
        cases initialised
        exact ⟨rfl, rfl, rfl⟩
    | some found =>
        dsimp only at initialised
        split at initialised
        case isTrue => cases initialised
        case isFalse =>
          split at initialised
          case isTrue => cases initialised
          case isFalse =>
            cases initialised
            exact ⟨rfl, rfl, rfl⟩

/-- Single and vector writes accept the same segments exactly if the buffer is new or
was found with the segment count the writer passes. -/
theorem sameSegments_iff {key : UInt32} {init : WriterInit} {existing : Option SharedHdr}
    {handle : WriterHandle} (initialised : shmrbufInit key init existing = .ok handle) :
    (∀ segmentId, handle.SameSegments segmentId) ↔
      ∀ found, existing = some found →
        found.geometry.segmentCount = init.args.geometry.segmentCount := by
  obtain ⟨args, allocated, geometry⟩ := shmrbufInit_spec initialised
  rw [WriterHandle.sameSegments_iff_counts allocated, args, geometry]
  cases existing with
  | none => simp
  | some found => simp

/-- A writer for `segments` segments of four lines of eight bytes and one reader. -/
def writerFor (segments : UInt8) : WriterInit := ⟨⟨⟨8, 4, segments, 1⟩, true⟩, false, true⟩

theorem sameSegments_iff_same_count :
    ∃ first second, shmrbufInit 7 (writerFor 2) none = .ok first ∧
      shmrbufInit 7 (writerFor 2) (some first.globalHdr) = .ok second ∧
      (∀ segmentId, first.SameSegments segmentId) ∧
      ∀ segmentId, second.SameSegments segmentId := by
  obtain ⟨first, created⟩ : ∃ handle, shmrbufInit 7 (writerFor 2) none = .ok handle :=
    ⟨_, rfl⟩
  have geometry : first.globalHdr.geometry = (writerFor 2).args.geometry := by
    cases created
    rfl
  obtain ⟨second, reattached⟩ :
      ∃ handle, shmrbufInit 7 (writerFor 2) (some first.globalHdr) = .ok handle := by
    cases created
    exact ⟨_, rfl⟩
  refine ⟨first, second, created, reattached, (sameSegments_iff created).mpr ?_,
    (sameSegments_iff reattached).mpr ?_⟩
  · intro found impossible
    cases impossible
  · intro found isFirst
    cases isFirst
    rw [geometry]

/-- A writer attaches to a buffer of one segment with arguments for two: for segment 1
`shmrbuf_write` returns `IO_IPC_ARG_ERR`, and `shmrbuf_writev` uses the second of one
entries. -/
theorem segments_differ_reattached :
    ∃ first handle, shmrbufInit 7 (writerFor 1) none = .ok first ∧
      shmrbufInit 7 (writerFor 2) (some first.globalHdr) = .ok handle ∧
      handle.shmrbufWriteEntry 1 1 = .error ioIpcArgErr ∧
      handle.shmrbufWritevEntry 1 1 = .ok 1 ∧ handle.segmentHdrs = 1 ∧
      ¬handle.SameSegments 1 := by
  refine ⟨_, _, rfl, rfl, rfl, rfl, rfl, fun same => ?_⟩
  exact absurd (same.inside 1 1 (Or.inr rfl)) (by decide)

end FipsIpc.ShmRingbuf
