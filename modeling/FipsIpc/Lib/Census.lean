import Mathlib.Data.List.Nodup
import Mathlib.Logic.Function.Basic

/-!
Contract: counting a finite set by what went in and out.

Owns: a set of keys given by its indicator, with the number of keys that were put in
and the number of keys that were taken out, and what keeps the two in balance.

Does not own: what the keys are, and who counts.
-/

set_option autoImplicit false

namespace FipsIpc.Lib

universe u

variable {Key : Type u}

/-- The set is finite, and what went in is still there or went out. -/
def Census (present : Key → Bool) (inserted removed : Nat) : Prop :=
  ∃ keys : List Key, keys.Nodup ∧ (∀ key, key ∈ keys ↔ present key = true) ∧
    inserted = removed + keys.length

namespace Census

theorem empty : Census (fun _ : Key => false) 0 0 :=
  ⟨[], List.nodup_nil, fun _ => by simp, rfl⟩

variable {present : Key → Bool} {inserted removed : Nat}

variable [DecidableEq Key] {key : Key}

/-- A key that is not there comes in. -/
theorem insert (census : Census present inserted removed) (absent : present key = false) :
    Census (Function.update present key true) (inserted + 1) removed := by
  obtain ⟨keys, nodup, members, balance⟩ := census
  have fresh : key ∉ keys := by
    rw [members, absent]
    exact Bool.false_ne_true
  refine ⟨key :: keys, List.nodup_cons.mpr ⟨fresh, nodup⟩, fun other => ?_, ?_⟩
  · rw [List.mem_cons, members]
    by_cases same : other = key
    · simp [same]
    · rw [Function.update_of_ne same]
      simp [same]
  · rw [List.length_cons]
    omega

/-- A key that is there goes out. -/
theorem remove (census : Census present inserted removed) (listed : present key = true) :
    Census (Function.update present key false) inserted (removed + 1) := by
  obtain ⟨keys, nodup, members, balance⟩ := census
  have member : key ∈ keys := (members key).mpr listed
  refine ⟨keys.erase key, nodup.erase key, fun other => ?_, ?_⟩
  · rw [nodup.mem_erase_iff, members]
    by_cases same : other = key
    · simp [same]
    · rw [Function.update_of_ne same]
      simp [same]
  · have shorter := List.length_erase_of_mem member
    have nonempty := List.length_pos_of_mem member
    omega

end Census

end FipsIpc.Lib
