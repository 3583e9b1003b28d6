import Mathlib.Algebra.Group.Nat.Defs
import Mathlib.Data.List.GetD
import Mathlib.Logic.Function.Basic

/-!
Contract: the copying shared-memory ring of `lib/shm_ringbuf.c`, one segment.

Owns: the global header fields the data path reads, the segment (write index,
one read index per reader id, raw data bytes) and the four transfer calls
`shmrbuf_write`, `shmrbuf_read`, `shmrbuf_writev` and `shmrbuf_readv`.

The data area is a byte memory addressed from `segment->data`; what lies past
`line_count * line_size` belongs to whatever follows the segment.  Slot
addresses keep the C types: `write_index * line_size` is a `uint32_t` product,
while the vector calls advance a pointer by `line_size` afterwards.

Does not own: `shmrbuf_init` and `shmrbuf_finalize`, the registration of
readers, null-pointer checks (the arguments here are values), and mutex errors.
-/

set_option autoImplicit false

namespace FipsIpc.ShmRingbuf

/-! ### Return codes of `io_ipc.h` -/

def ioIpcArgErr : Int := -1
def ioIpcSizeErr : Int := -5

/-! ### Shared structures -/

/-- The fields of `struct shmrbuf_global_hdr_t` read by the transfer calls.
The bounds are the field types together with the argument check `shmrbuf_init`
makes when it creates a buffer. -/
structure GlobalHdr where
  segmentCount : Nat
  readerCount : Nat
  lineSize : Nat
  lineCount : Nat
  overwrite : Bool
  segmentCount_pos : 0 < segmentCount
  segmentCount_lt : segmentCount < 2 ^ 8
  readerCount_pos : 0 < readerCount
  readerCount_lt : readerCount < 2 ^ 8
  lineSize_pos : 0 < lineSize
  lineSize_lt : lineSize < 2 ^ 16
  lineCount_pos : 0 < lineCount
  lineCount_lt : lineCount < 2 ^ 32

/-- Raw bytes, addressed from the start of the segment's data area. -/
abbrev Data := Nat → UInt8

/-- One segment: the writer's index, the index of every reader id
(`first_reader + i`) and the data bytes. -/
structure Segment where
  writeIndex : Nat
  readIndex : Nat → Nat
  data : Data

/-- A freshly created segment; `shmrbuf_init` zeroes the indices only. -/
def Segment.created (data : Data) : Segment where
  writeIndex := 0
  readIndex := fun _ => 0
  data := data

/-! ### Lines in memory -/

/-- The bytes a line occupies once the rest of its slot is filled with NUL. -/
def padLine (lineSize : Nat) (src : List UInt8) : List UInt8 :=
  src ++ List.replicate (lineSize - src.length) 0

/-- `memcpy(dest, src, wsize)` followed by the NUL fill up to `line_size`. -/
def putLine (data : Data) (dest lineSize : Nat) (src : List UInt8) : Data :=
  fun address =>
    if dest ≤ address ∧ address < dest + lineSize then src.getD (address - dest) 0
    else data address

/-- The `count` bytes from `src` on. -/
def getLine (data : Data) (src count : Nat) : List UInt8 :=
  (List.range count).map fun offset => data (src + offset)

/-- `index * line_size`, a product of a `uint32_t` and a promoted `uint16_t`. -/
def slotOffset (hdr : GlobalHdr) (index : Nat) : Nat :=
  index * hdr.lineSize % 2 ^ 32

/-- `(index == line_count - 1) ? 0 : index + 1`. -/
def nextIndex (hdr : GlobalHdr) (index : Nat) : Nat :=
  if index = hdr.lineCount - 1 then 0 else index + 1

/-! ### Single transfers -/

/-- `shmrbuf_write` on the segment selected by `segment_id`; `src` is the
`wsize` bytes passed in.  The result is the return value and the segment. -/
def shmrbufWrite (hdr : GlobalHdr) (segmentId : Nat) (segment : Segment) (src : List UInt8) :
    Int × Segment :=
  if segmentId ≥ hdr.segmentCount ∨ src.length > hdr.lineSize then (ioIpcArgErr, segment)
  else if src.length = 0 then (0, segment)
  else
    let newWriteIndex := nextIndex hdr segment.writeIndex
    if hdr.overwrite = false ∧
        ∃ reader < hdr.readerCount, newWriteIndex = segment.readIndex reader then
      (ioIpcSizeErr, segment)
    else
      (hdr.lineSize,
        { segment with
          writeIndex := newWriteIndex
          data := putLine segment.data (slotOffset hdr segment.writeIndex) hdr.lineSize src })

/-- The result of a read call: the return value, the lines copied out, and the
segment afterwards. -/
structure ReadResult where
  code : Int
  lines : List (List UInt8)
  segment : Segment

/-- `shmrbuf_read` by reader id `reader` into a buffer of `bufsize` bytes. -/
def shmrbufRead (hdr : GlobalHdr) (segmentId : Nat) (segment : Segment) (reader bufsize : Nat) :
    ReadResult :=
  if segmentId ≥ hdr.segmentCount then ⟨ioIpcArgErr, [], segment⟩
  else if bufsize = 0 then ⟨0, [], segment⟩
  else
    let readIndex := segment.readIndex reader
    let rsize := min hdr.lineSize bufsize
    if segment.writeIndex = readIndex then ⟨0, [], segment⟩
    else
      ⟨rsize, [getLine segment.data (slotOffset hdr readIndex) rsize],
        { segment with
          readIndex := Function.update segment.readIndex reader (nextIndex hdr readIndex) }⟩

/-! ### Vector transfers -/

/-- One copy loop of `shmrbuf_writev`: `count` lines from `iovecs[index]` on,
to consecutive slots from the pointer `dest` on.  `iov_len` is narrowed to
`uint16_t` before it is checked, and a line that is too long ends the call with
the earlier lines already copied. -/
def copyLines (lineSize : Nat) (iovecs : List (List UInt8)) :
    (count index dest : Nat) → Data → Bool × Data
  | 0, _, _, data => (true, data)
  | count + 1, index, dest, data =>
      let line := iovecs.getD index []
      let wsize := line.length % 2 ^ 16
      if wsize > lineSize then (false, data)
      else
        copyLines lineSize iovecs count (index + 1) (dest + lineSize)
          (putLine data dest lineSize (line.take wsize))

/-- `dst`: the lines that fit between the writer and one reader. -/
def freeLines (hdr : GlobalHdr) (segment : Segment) (reader : Nat) : Nat :=
  let readIndex := segment.readIndex reader
  if readIndex > segment.writeIndex then readIndex - segment.writeIndex - 1
  else hdr.lineCount - (segment.writeIndex - readIndex) - 1

/-- `vsize` after the truncation to the ring and, without overwrite, to the
free distance of every reader.  The source returns 0 as soon as the value
reaches 0; no later reader can raise it again. -/
def clampVsize (hdr : GlobalHdr) (segment : Segment) (vsize : Nat) : Nat :=
  let vsize := if vsize > hdr.lineCount then hdr.lineCount else vsize
  if hdr.overwrite then vsize
  else
    (List.range hdr.readerCount).foldl
      (fun vsize reader =>
        if freeLines hdr segment reader < vsize then freeLines hdr segment reader else vsize)
      vsize

/-- `shmrbuf_writev` by a writer handle whose own copy of the segment count is
`argsSegmentCount`.  After the wrap the second loop starts again at
`iovecs[0]`, as the source does. -/
def shmrbufWritev (hdr : GlobalHdr) (argsSegmentCount segmentId : Nat) (segment : Segment)
    (iovecs : List (List UInt8)) (vsize : Nat) : Int × Segment :=
  if segmentId ≥ argsSegmentCount then (ioIpcArgErr, segment)
  else if vsize = 0 then (0, segment)
  else
    let writeIndex := segment.writeIndex
    let writeDest := slotOffset hdr writeIndex
    let vsize := clampVsize hdr segment vsize
    if vsize = 0 then (0, segment)
    else
      let newWriteIndex := (writeIndex + vsize) % 2 ^ 32 % hdr.lineCount
      if newWriteIndex > writeIndex then
        match copyLines hdr.lineSize iovecs vsize 0 writeDest segment.data with
        | (false, data) => (ioIpcSizeErr, { segment with data := data })
        | (true, data) => (vsize, { segment with writeIndex := newWriteIndex, data := data })
      else
        let dst := (hdr.lineCount - writeIndex) % 2 ^ 16
        match copyLines hdr.lineSize iovecs dst 0 writeDest segment.data with
        | (false, data) => (ioIpcSizeErr, { segment with data := data })
        | (true, data) =>
            let remaining := (vsize + 2 ^ 16 - dst) % 2 ^ 16
            match copyLines hdr.lineSize iovecs remaining 0 0 data with
            | (false, data) => (ioIpcSizeErr, { segment with data := data })
            | (true, data) => (vsize, { segment with writeIndex := newWriteIndex, data := data })

/-- `max_read`: the lines between the reader and the writer. -/
def unreadLines (hdr : GlobalHdr) (segment : Segment) (reader : Nat) : Nat :=
  let readIndex := segment.readIndex reader
  if readIndex > segment.writeIndex then hdr.lineCount - (readIndex - segment.writeIndex)
  else segment.writeIndex - readIndex

/-- The address `shmrbuf_readv` copies line `line` of its result from: a
pointer set at the reader's slot and advanced by `line_size` per line. -/
def readvSource (hdr : GlobalHdr) (segment : Segment) (reader line : Nat) : Nat :=
  slotOffset hdr (segment.readIndex reader) + line * hdr.lineSize

/-- `shmrbuf_readv` of at most `vsize` lines by reader id `reader`. -/
def shmrbufReadv (hdr : GlobalHdr) (segmentId : Nat) (segment : Segment)
    (reader vsize bufsize : Nat) : ReadResult :=
  if segmentId ≥ hdr.segmentCount then ⟨ioIpcArgErr, [], segment⟩
  else if vsize = 0 then ⟨0, [], segment⟩
  else
    let readIndex := segment.readIndex reader
    if segment.writeIndex = readIndex then ⟨0, [], segment⟩
    else
      let maxRead := unreadLines hdr segment reader
      let vsize := if vsize > maxRead then maxRead else vsize
      let newReadIndex := (readIndex + vsize) % 2 ^ 32 % hdr.lineCount
      if bufsize < hdr.lineSize then ⟨ioIpcSizeErr, [], segment⟩
      else
        ⟨vsize,
          (List.range vsize).map fun line =>
            getLine segment.data (readvSource hdr segment reader line) hdr.lineSize,
          { segment with
            readIndex := Function.update segment.readIndex reader newReadIndex }⟩

/-! ### Facts about lines and slots -/

theorem padLine_length {lineSize : Nat} {src : List UInt8} (fits : src.length ≤ lineSize) :
    (padLine lineSize src).length = lineSize := by
  simp [padLine]
  omega

theorem getLine_length (data : Data) (src count : Nat) :
    (getLine data src count).length = count := by
  simp [getLine]

/-- A slot just written holds the padded line. -/
theorem getLine_putLine_same (data : Data) (dest : Nat) {lineSize : Nat} {src : List UInt8}
    (fits : src.length ≤ lineSize) :
    getLine (putLine data dest lineSize src) dest lineSize = padLine lineSize src := by
  apply List.ext_getElem
  · rw [getLine_length, padLine_length fits]
  · intro offset inLine inPadded
    rw [getLine_length] at inLine
    have inSlot : dest ≤ dest + offset ∧ dest + offset < dest + lineSize := by omega
    simp only [getLine, putLine, List.getElem_map, List.getElem_range, if_pos inSlot,
      Nat.add_sub_cancel_left, padLine, List.getElem_append, List.getElem_replicate]
    split
    · rw [List.getD_eq_getElem _ _ ‹_›]
    · rw [List.getD_eq_default _ _ (by omega)]

/-- Bytes outside the written slot are unchanged. -/
theorem getLine_putLine_disjoint (data : Data) {dest src lineSize count : Nat}
    (line : List UInt8) (disjoint : src + count ≤ dest ∨ dest + lineSize ≤ src) :
    getLine (putLine data dest lineSize line) src count = getLine data src count := by
  unfold getLine
  apply List.map_congr_left
  intro offset member
  have below : offset < count := List.mem_range.mp member
  simp only [putLine]
  rw [if_neg (by omega)]

/-- In a segment below 4 GiB the 32-bit slot product is exact. -/
theorem slotOffset_eq {hdr : GlobalHdr} (fits : hdr.lineCount * hdr.lineSize < 2 ^ 32)
    {index : Nat} (below : index < hdr.lineCount) :
    slotOffset hdr index = index * hdr.lineSize := by
  apply Nat.mod_eq_of_lt
  calc index * hdr.lineSize ≤ hdr.lineCount * hdr.lineSize :=
        Nat.mul_le_mul_right _ (Nat.le_of_lt below)
    _ < 2 ^ 32 := fits

/-- The conditional wrap is the modulo step. -/
theorem nextIndex_eq_mod {hdr : GlobalHdr} {index : Nat} (below : index < hdr.lineCount) :
    nextIndex hdr index = (index + 1) % hdr.lineCount := by
  unfold nextIndex
  split
  case isTrue last =>
    rw [last, Nat.sub_add_cancel hdr.lineCount_pos, Nat.mod_self]
  case isFalse notLast =>
    rw [Nat.mod_eq_of_lt (by omega)]

theorem nextIndex_lt {hdr : GlobalHdr} {index : Nat} (below : index < hdr.lineCount) :
    nextIndex hdr index < hdr.lineCount := by
  rw [nextIndex_eq_mod below]
  exact Nat.mod_lt _ hdr.lineCount_pos

end FipsIpc.ShmRingbuf
