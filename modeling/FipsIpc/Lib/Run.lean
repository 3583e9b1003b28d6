/-!
Contract: guarded runs of a partial step function.

Owns: the run relation of a system whose calls are complete (one call at a
time, in any order), the invariant rule over such runs, composing runs, and
executing a list of calls to a run.

A call without a successor (`step state call = none`) has undefined behaviour
or does not return; no run continues through it.  `allowed` carries what the
callers promise about a call in the state where they make it.

Does not own: any concrete state, call or guard.
-/

set_option autoImplicit false

namespace FipsIpc.Lib

universe u v

variable {State : Type u} {Call : Type v}

/-- `Run step allowed first calls last`: taking `calls` in order from `first`
ends in `last`, every call being allowed in the state where it is made. -/
inductive Run (step : State → Call → Option State) (allowed : State → Call → Prop) :
    State → List Call → State → Prop where
  | nil (state : State) : Run step allowed state [] state
  | cons {first next last : State} {call : Call} {calls : List Call}
      (guard : allowed first call) (taken : step first call = some next)
      (rest : Run step allowed next calls last) :
      Run step allowed first (call :: calls) last

namespace Run

variable {step : State → Call → Option State} {allowed : State → Call → Prop}

/-- The invariant rule: what every allowed call preserves holds at the end of
every run that starts with it. -/
theorem invariant {Inv : State → Prop}
    (preserved : ∀ state call next, Inv state → allowed state call →
      step state call = some next → Inv next)
    {first last : State} {calls : List Call}
    (run : Run step allowed first calls last) (initial : Inv first) : Inv last := by
  induction run with
  | nil => exact initial
  | cons guard taken _ inductionHypothesis =>
      exact inductionHypothesis (preserved _ _ _ initial guard taken)

/-- The invariant rule for what depends on the calls made so far. -/
theorem invariant_calls {Inv : List Call → State → Prop}
    (preserved : ∀ made state call next, Inv made state → allowed state call →
      step state call = some next → Inv (made ++ [call]) next)
    {first last : State} {calls made : List Call}
    (run : Run step allowed first calls last) (initial : Inv made first) :
    Inv (made ++ calls) last := by
  induction run generalizing made with
  | nil =>
      rw [List.append_nil]
      exact initial
  | cons guard taken _ inductionHypothesis =>
      have whole := inductionHypothesis (preserved _ _ _ _ initial guard taken)
      rw [List.append_assoc] at whole
      exact whole

/-- Runs compose. -/
theorem append {first middle last : State} {before after : List Call}
    (left : Run step allowed first before middle)
    (right : Run step allowed middle after last) :
    Run step allowed first (before ++ after) last := by
  induction left with
  | nil => exact right
  | cons guard taken _ inductionHypothesis =>
      exact .cons guard taken (inductionHypothesis right)

/-- A run is also one under a guard that all of its calls meet. -/
theorem guarded {other : State → Call → Prop} {first last : State} {calls : List Call}
    (run : Run step allowed first calls last)
    (meets : ∀ state, ∀ call ∈ calls, other state call) : Run step other first calls last := by
  induction run with
  | nil => exact .nil _
  | cons _ taken _ inductionHypothesis =>
      exact .cons (meets _ _ (by simp)) taken
        (inductionHypothesis fun state call member => meets state call (by simp [member]))

/-- A run is also one under every guard that its own guard implies. -/
theorem weaken {other : State → Call → Prop}
    (implied : ∀ state call, allowed state call → other state call)
    {first last : State} {calls : List Call} (run : Run step allowed first calls last) :
    Run step other first calls last := by
  induction run with
  | nil => exact .nil _
  | cons guard taken _ inductionHypothesis =>
      exact .cons (implied _ _ guard) taken inductionHypothesis

/-- Without a call nothing changes. -/
theorem eq_of_nil {first last : State} (run : Run step allowed first [] last) : last = first := by
  cases run
  rfl

/-- One call is a run. -/
theorem single {first next : State} {call : Call} (guard : allowed first call)
    (taken : step first call = some next) : Run step allowed first [call] next :=
  .cons guard taken (.nil next)

/-- Take the calls in order as far as they are allowed and return. -/
def exec (step : State → Call → Option State) (allowed : State → Call → Prop)
    [∀ state call, Decidable (allowed state call)] : State → List Call → Option State
  | state, [] => some state
  | state, call :: rest =>
      if allowed state call then (step state call).bind fun next => exec step allowed next rest
      else none

/-- An execution to the end is a run. -/
theorem of_exec [∀ state call, Decidable (allowed state call)] {first last : State}
    {calls : List Call} (executed : exec step allowed first calls = some last) :
    Run step allowed first calls last := by
  induction calls generalizing first with
  | nil =>
      cases executed
      exact .nil _
  | cons call rest inductionHypothesis =>
      unfold exec at executed
      split at executed
      case isTrue guard =>
        obtain ⟨next, taken, later⟩ := Option.bind_eq_some_iff.mp executed
        exact .cons guard taken (inductionHypothesis later)
      case isFalse => cases executed

/-- An execution whose last state passes a check. -/
theorem of_exec_any [∀ state call, Decidable (allowed state call)] {first : State}
    {calls : List Call} {check : State → Bool}
    (executed : (exec step allowed first calls).any check = true) :
    ∃ last, Run step allowed first calls last ∧ check last = true := by
  cases result : exec step allowed first calls with
  | none =>
      rw [result] at executed
      cases executed
  | some last =>
      rw [result] at executed
      exact ⟨last, of_exec result, executed⟩

end Run

end FipsIpc.Lib
