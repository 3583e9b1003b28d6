import Mathlib.Data.List.Basic
import Mathlib.Logic.Function.Basic

/-!
Contract: reading lines of a growing file, `lib/uring_getline.c`.

Owns: `struct file_io_t` with its two buffers, `_rdline`, `_rdstart`, `_rdawait`
and `uring_getline`, over a file whose contents are an argument.

The two halves of `uring_getline` are the same code with the buffers exchanged,
so they are one definition for the buffer in use.  A read is answered when it is
waited for: with some of the bytes behind its offset, or with an error, which
leaves the completion unseen, so that every later wait finds it again.  A wait
without a request does not return.

Getting and submitting a request succeeds: the ring has two entries and one
request is open at a time.  `off_t` sums do not overflow.

Does not own: `uring_getlines`, null pointers, and opening the file.
-/

set_option autoImplicit false

namespace FipsIpc.UringGetline

def bufsize : Nat := 1024

def newline : UInt8 := 10

/-! ### `struct file_io_t` -/

inductive Buf where
  | first
  | second
deriving DecidableEq, Repr

def Buf.other : Buf → Buf
  | .first => .second
  | .second => .first

/-- A buffer with its `offset` and `rsize`. -/
structure Buffer where
  offset : Nat
  rsize : Nat
  data : Nat → UInt8

/-- A submitted read. -/
structure Request where
  buf : Buf
  offset : Nat
  size : Nat
deriving DecidableEq, Repr

/-- `sqe` tells whether the pointer is set; `submitted` are the requests whose
completions were not waited for, and `failed` an unseen completion with an
error. -/
structure FileIo where
  offset : Nat
  scndBuf : Bool
  sqe : Bool
  buffers : Buf → Buffer
  submitted : List Request
  failed : Bool

/-- After `calloc`. -/
def FileIo.started : FileIo := ⟨0, false, false, fun _ => ⟨0, 0, fun _ => 0⟩, [], false⟩

/-- How the kernel answers a read. -/
inductive ReadAnswer where
  | bytes (count : Nat)
  | fails
deriving DecidableEq, Repr

/-! ### `_rdline` -/

/-- `count` bytes of a buffer. -/
def bytesAt (data : Nat → UInt8) (start count : Nat) : List UInt8 :=
  (List.range count).map fun index => data (start + index)

/-- The first loop: `*offset` behind the next newline, `left` bytes before the
end. -/
def lineEnd (data : Nat → UInt8) : (left offset : Nat) → Nat
  | 0, offset => offset
  | left + 1, offset =>
      if data offset = newline then offset + 1 else lineEnd data left (offset + 1)

/-- The second loop: leading NULs are skipped. -/
def skipNul (data : Nat → UInt8) : (left start : Nat) → Nat
  | 0, start => start
  | left + 1, start => if data start = 0 then skipNul data left (start + 1) else start

/-- `_rdline`: the line and the buffer behind it. -/
def rdline (buffer : Buffer) : List UInt8 × Buffer :=
  let offset := lineEnd buffer.data (buffer.rsize - buffer.offset) buffer.offset
  let start := skipNul buffer.data (offset - buffer.offset) buffer.offset
  (bytesAt buffer.data start (offset - start),
    if offset = buffer.rsize then { buffer with offset := 0, rsize := 0 }
    else { buffer with offset := offset })

/-! ### Reads -/

/-- `_rdstart`. -/
def rdstart (fio : FileIo) (buf : Buf) : FileIo :=
  { fio with sqe := true, submitted := fio.submitted ++ [⟨buf, fio.offset, bufsize⟩] }

/-- The loop of `_rdawait`: the size without the line that is not complete. -/
def lastLine (data : Nat → UInt8) : (size : Nat) → Nat
  | 0 => 0
  | size + 1 => if data size = newline then size + 1 else lastLine data size

/-- The read puts its bytes at the start of its buffer. -/
def Buffer.fill (buffer : Buffer) (bytes : List UInt8) : Buffer :=
  { buffer with data := fun index => (bytes[index]?).getD (buffer.data index) }

/-- The result of `_rdawait`, with the bytes the read has brought. -/
structure Awaited where
  full : Bool
  brought : Option (List UInt8)
  fio : FileIo

/-- `_rdawait` for a buffer.  An answer with more bytes than were asked for or are
there does not occur. -/
def rdawait (file : List UInt8) (answer : ReadAnswer) (fio : FileIo) (buf : Buf) :
    Option Awaited :=
  let fio := { fio with sqe := false }
  if fio.failed then some ⟨false, none, fio⟩
  else
    match fio.submitted with
    | [] => none
    | request :: rest =>
        match answer with
        | .fails => some ⟨false, none, { fio with submitted := rest, failed := true }⟩
        | .bytes count =>
            if count ≤ request.size ∧ request.offset + count ≤ file.length then
              let bytes := (file.drop request.offset).take count
              let buffers := Function.update fio.buffers request.buf
                ((fio.buffers request.buf).fill bytes)
              let size := lastLine (buffers buf).data count
              some ⟨count = bufsize, some bytes,
                { fio with
                  offset := fio.offset + size
                  buffers := Function.update buffers buf { buffers buf with rsize := size }
                  submitted := rest }⟩
            else none

/-! ### `uring_getline` -/

/-- What a call returns: the line, whose length is the return value, and the bytes
of the read that was waited for, if one was. -/
structure Outcome where
  line : List UInt8
  brought : Option (List UInt8)
deriving DecidableEq, Repr

/-- Return the next line of a buffer. -/
def takeLine (fio : FileIo) (buf : Buf) (brought : Option (List UInt8)) : Outcome × FileIo :=
  let (line, buffer) := rdline (fio.buffers buf)
  (⟨line, brought⟩, { fio with buffers := Function.update fio.buffers buf buffer })

/-- One half of `uring_getline`; `buf` is the buffer in use. -/
def getlineFrom (buf : Buf) (file : List UInt8) (answer : ReadAnswer) (fio : FileIo) :
    Option (Outcome × FileIo) :=
  if (fio.buffers buf).rsize > 0 then some (takeLine fio buf none)
  else if fio.sqe then do
    let awaited ← rdawait file answer fio buf.other
    let fio := if awaited.full then rdstart awaited.fio buf else awaited.fio
    if (fio.buffers buf.other).rsize > 0 then
      some (takeLine { fio with scndBuf := buf.other = .second } buf.other awaited.brought)
    else some (⟨[], awaited.brought⟩, fio)
  else do
    let awaited ← rdawait file answer (rdstart fio buf) buf
    let fio := if awaited.full then rdstart awaited.fio buf.other else awaited.fio
    if (fio.buffers buf).rsize > 0 then some (takeLine fio buf awaited.brought)
    else some (⟨[], awaited.brought⟩, fio)

def uringGetline (file : List UInt8) (answer : ReadAnswer) (fio : FileIo) :
    Option (Outcome × FileIo) :=
  if fio.scndBuf then getlineFrom .second file answer fio
  else getlineFrom .first file answer fio

end FipsIpc.UringGetline
