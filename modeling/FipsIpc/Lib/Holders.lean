import Mathlib.Logic.Function.Basic

/-!
Contract: flags that tell which of several things have a holder.

Owns: the agreement of a family of flags with the things that processes hold,
and that it survives taking a thing whose flag is down and giving one up.

Does not own: how a process finds a thing whose flag is down.
-/

set_option autoImplicit false

namespace FipsIpc.Lib.Holders

universe u v

variable {Process : Type u} {Thing : Type v} [DecidableEq Process] [DecidableEq Thing]

/-- No thing has two holders, and its flag is up exactly if it has one. -/
structure Agrees (flag : Thing → Bool) (held : Process → Option Thing) : Prop where
  distinct : ∀ left right thing, held left = some thing → held right = some thing → left = right
  flagged : ∀ thing, flag thing = true ↔ ∃ process, held process = some thing

namespace Agrees

variable {flag : Thing → Bool} {held : Process → Option Thing} {process : Process} {thing : Thing}

/-- A free thing is taken. -/
theorem acquire (agrees : Agrees flag held) (down : flag thing = false)
    (idle : held process = none) :
    Agrees (Function.update flag thing true) (Function.update held process (some thing)) := by
  have free : ∀ other, held other ≠ some thing := by
    intro other holds
    have up := (agrees.flagged thing).mpr ⟨other, holds⟩
    rw [down] at up
    cases up
  constructor
  · intro left right item leftHolds rightHolds
    by_cases isLeft : left = process <;> by_cases isRight : right = process
    · exact isLeft.trans isRight.symm
    · rw [isLeft, Function.update_self] at leftHolds
      rw [Function.update_of_ne isRight, ← Option.some.inj leftHolds] at rightHolds
      exact absurd rightHolds (free right)
    · rw [isRight, Function.update_self] at rightHolds
      rw [Function.update_of_ne isLeft, ← Option.some.inj rightHolds] at leftHolds
      exact absurd leftHolds (free left)
    · rw [Function.update_of_ne isLeft] at leftHolds
      rw [Function.update_of_ne isRight] at rightHolds
      exact agrees.distinct left right item leftHolds rightHolds
  · intro item
    by_cases same : item = thing
    · rw [same, Function.update_self]
      simp only [true_iff]
      exact ⟨process, Function.update_self _ _ _⟩
    · rw [Function.update_of_ne same, agrees.flagged]
      constructor
      · rintro ⟨holder, holds⟩
        have other : holder ≠ process := by
          rintro rfl
          rw [idle] at holds
          cases holds
        exact ⟨holder, (Function.update_of_ne other _ _).trans holds⟩
      · rintro ⟨holder, holds⟩
        have other : holder ≠ process := by
          rintro rfl
          rw [Function.update_self] at holds
          exact same (Option.some.inj holds).symm
        exact ⟨holder, (Function.update_of_ne other _ _).symm.trans holds⟩

/-- A holder gives its thing up. -/
theorem release (agrees : Agrees flag held) (holds : held process = some thing) :
    Agrees (Function.update flag thing false) (Function.update held process none) := by
  have others : ∀ {other item}, Function.update held process none other = some item →
      other ≠ process ∧ held other = some item := by
    intro other item otherHolds
    have isOther : other ≠ process := by
      rintro rfl
      rw [Function.update_self] at otherHolds
      cases otherHolds
    exact ⟨isOther, (Function.update_of_ne isOther _ _).symm.trans otherHolds⟩
  constructor
  · intro left right item leftHolds rightHolds
    exact agrees.distinct left right item (others leftHolds).2 (others rightHolds).2
  · intro item
    by_cases same : item = thing
    · rw [same, Function.update_self]
      simp only [Bool.false_eq_true, false_iff]
      rintro ⟨holder, otherHolds⟩
      rcases others otherHolds with ⟨isOther, stillHolds⟩
      exact isOther (agrees.distinct _ _ _ stillHolds holds)
    · rw [Function.update_of_ne same, agrees.flagged]
      constructor
      · rintro ⟨holder, holderHolds⟩
        have other : holder ≠ process := by
          rintro rfl
          exact same (Option.some.inj (holderHolds.symm.trans holds))
        exact ⟨holder, (Function.update_of_ne other _ _).trans holderHolds⟩
      · rintro ⟨holder, holderHolds⟩
        exact ⟨holder, (others holderHolds).2⟩

end Agrees

end FipsIpc.Lib.Holders
