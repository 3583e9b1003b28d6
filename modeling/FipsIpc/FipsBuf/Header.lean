import Mathlib.Data.Nat.Bitwise
import Mathlib.Data.List.Basic
import Mathlib.Logic.Function.Basic

/-!
Contract: the constants of a zero-copy buffer of `lib/fips_buf.c`.

Owns: the header fields that `setup_shm` writes once, the error codes and
assignment flags of `fips_buf.h`, and the reduction of ring indices with
`line_MASK`.

The set of reader processes is fixed here: `readerCount` processes have run
`fips_buf_init`, and as `fips_buf.h` asks no more than `max_reader_count` of
them.  `1 << line_count_exp` is a shift of an `int`, so exponents above 30 have
no meaning in C.

Does not own: the assignment area, segments, and the layout of the shared
memory.
-/

set_option autoImplicit false

namespace FipsIpc.FipsBuf

/-- The header fields of `fips_buf_header_t` that stay constant. -/
structure Header where
  segmentCount : Nat
  maxReaderCount : Nat
  maxReaderThreadCount : Nat
  readerCount : Nat
  lineCountExp : Nat
  lineSize : Nat
  maxSqeCount : Nat
  overwrite : Bool
  segmentCount_lt : segmentCount < 2 ^ 8
  maxReaderCount_lt : maxReaderCount < 2 ^ 8
  maxReaderThreadCount_lt : maxReaderThreadCount < 2 ^ 8
  readerCount_le : readerCount ≤ maxReaderCount
  lineCountExp_le : lineCountExp ≤ 30
  lineSize_lt : lineSize < 2 ^ 32
  maxSqeCount_lt : maxSqeCount < 2 ^ 32

/-- The header with these fields, in the order of the structure; that they fit
their types is one decidable condition. -/
def Header.ofFields (segmentCount maxReaderCount maxReaderThreadCount readerCount lineCountExp
    lineSize maxSqeCount : Nat) (overwrite : Bool)
    (fits : segmentCount < 2 ^ 8 ∧ maxReaderCount < 2 ^ 8 ∧ maxReaderThreadCount < 2 ^ 8 ∧
      readerCount ≤ maxReaderCount ∧ lineCountExp ≤ 30 ∧ lineSize < 2 ^ 32 ∧
      maxSqeCount < 2 ^ 32) : Header where
  segmentCount := segmentCount
  maxReaderCount := maxReaderCount
  maxReaderThreadCount := maxReaderThreadCount
  readerCount := readerCount
  lineCountExp := lineCountExp
  lineSize := lineSize
  maxSqeCount := maxSqeCount
  overwrite := overwrite
  segmentCount_lt := fits.1
  maxReaderCount_lt := fits.2.1
  maxReaderThreadCount_lt := fits.2.2.1
  readerCount_le := fits.2.2.2.1
  lineCountExp_le := fits.2.2.2.2.1
  lineSize_lt := fits.2.2.2.2.2.1
  maxSqeCount_lt := fits.2.2.2.2.2.2

/-! ### Codes and flags -/

def fipsBufSuccess : Int := 0
def fipsBufErrorNoFreeSegment : Int := 11
def fipsBufErrorNoSpace : Int := 13
def fipsBufErrorCorrupted : Int := 14
def fipsBufErrorEmpty : Int := 15
def fipsBufErrorNotImplemented : Int := 16

def fipsBufFlagFree : Nat := 0
def fipsBufFlagInUse : Nat := 1
def fipsBufFlagTrailing : Nat := 2

/-! ### Ring indices -/

namespace Header

variable (hdr : Header)

/-- `1 << line_count_exp`. -/
def lineCount : Nat := 2 ^ hdr.lineCountExp

def lineMask : Nat := hdr.lineCount - 1

/-- A `uint32_t` sum reduced with `line_MASK`. -/
def wrapLine (index : Nat) : Nat := index % 2 ^ 32 &&& hdr.lineMask

theorem lineCount_pos : 0 < hdr.lineCount := Nat.two_pow_pos _

/-- Masking is reduction modulo the number of lines. -/
theorem wrapLine_eq_mod (index : Nat) : hdr.wrapLine index = index % hdr.lineCount := by
  have divides : hdr.lineCount ∣ 2 ^ 32 :=
    Nat.pow_dvd_pow 2 (hdr.lineCountExp_le.trans (by decide))
  calc hdr.wrapLine index = index % 2 ^ 32 % 2 ^ hdr.lineCountExp :=
        Nat.and_two_pow_sub_one_eq_mod _ _
    _ = index % hdr.lineCount := Nat.mod_mod_of_dvd _ divides

end Header

end FipsIpc.FipsBuf
