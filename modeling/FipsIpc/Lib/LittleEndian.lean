import Mathlib.Data.Nat.Digits.Defs

/-!
Contract: numbers as bytes, the lowest first.

Owns: the number of a list of bytes, the bytes of a number that a fixed width
keeps, and what a prefix of the bytes says about the number.

Does not own: signs, and the types of a program.
-/

set_option autoImplicit false

namespace FipsIpc.Lib

def littleEndian (bytes : List UInt8) : Nat := Nat.ofDigits 256 (bytes.map UInt8.toNat)

/-- The lowest `width` bytes of a number. -/
def lowBytes (width number : Nat) : List UInt8 :=
  (List.range width).map fun index => UInt8.ofNat (number / 256 ^ index)

theorem littleEndian_cons (byte : UInt8) (rest : List UInt8) :
    littleEndian (byte :: rest) = byte.toNat + 256 * littleEndian rest := rfl

theorem littleEndian_append (front rest : List UInt8) :
    littleEndian (front ++ rest) = littleEndian front + 256 ^ front.length * littleEndian rest := by
  unfold littleEndian
  rw [List.map_append, Nat.ofDigits_append, List.length_map]

theorem littleEndian_lt (bytes : List UInt8) : littleEndian bytes < 256 ^ bytes.length := by
  have below : ∀ digit ∈ bytes.map UInt8.toNat, digit < 256 := by
    intro digit member
    obtain ⟨byte, -, rfl⟩ := List.mem_map.mp member
    exact byte.toNat_lt
  have bound := Nat.ofDigits_lt_base_pow_length (by decide : 1 < 256) below
  rwa [List.length_map] at bound

/-- The bytes behind a prefix count for whole multiples of its range. -/
theorem littleEndian_append_mod (front rest : List UInt8) :
    littleEndian (front ++ rest) % 256 ^ front.length = littleEndian front := by
  rw [littleEndian_append, Nat.add_mul_mod_self_left, Nat.mod_eq_of_lt (littleEndian_lt front)]

theorem lowBytes_succ (width number : Nat) :
    lowBytes (width + 1) number = UInt8.ofNat number :: lowBytes width (number / 256) := by
  unfold lowBytes
  rw [List.range_succ_eq_map, List.map_cons, List.map_map, Nat.pow_zero, Nat.div_one]
  congr 1
  apply List.map_congr_left
  intro index _
  rw [Function.comp_apply, Nat.pow_succ', Nat.div_div_eq_div_mul]

/-- The bytes of a number give the number back, as far as the width keeps it. -/
theorem littleEndian_lowBytes (width number : Nat) :
    littleEndian (lowBytes width number) = number % 256 ^ width := by
  induction width generalizing number with
  | zero => exact (Nat.mod_one number).symm
  | succ width inductionHypothesis =>
      rw [lowBytes_succ, littleEndian_cons, inductionHypothesis, UInt8.toNat_ofNat']
      show number % 256 + 256 * (number / 256 % 256 ^ width) = number % 256 ^ (width + 1)
      rw [← Nat.mod_mul, ← Nat.pow_succ']

end FipsIpc.Lib
