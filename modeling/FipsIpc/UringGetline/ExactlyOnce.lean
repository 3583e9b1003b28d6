import FipsIpc.Lib.Run
import FipsIpc.UringGetline.Follows
import Mathlib.Data.List.Induction

/-!
Contract: `uring_getline` delivers a growing file line by line, exactly once.

Owns: runs in which bytes are appended between calls and every read brings some of
the bytes behind its offset, and what all calls of such a run returned together.

Does not own: reads that fail.
-/

set_option autoImplicit false

namespace FipsIpc.UringGetline

open FipsIpc.Lib (Run)

/-- The file, its reader, and what the calls returned. -/
structure System where
  file : List UInt8
  fio : FileIo
  returned : List Outcome

inductive Event where
  | append (bytes : List UInt8)
  | getline (answer : ReadAnswer)
deriving DecidableEq, Repr

/-- An empty file and a fresh reader. -/
def System.started : System := ⟨[], FileIo.started, []⟩

def System.step (system : System) : Event → Option System
  | .append bytes => some { system with file := system.file ++ bytes }
  | .getline answer => do
      let (outcome, fio) ← uringGetline system.file answer system.fio
      some { system with fio := fio, returned := system.returned ++ [outcome] }

/-- Reads do not fail. -/
def Event.readsBytes (_ : System) (event : Event) : Prop := event ≠ .getline .fails

instance (system : System) (event : Event) : Decidable (Event.readsBytes system event) :=
  inferInstanceAs (Decidable (event ≠ .getline .fails))

/-- The concatenation of the lines returned. -/
def linesOf (returned : List Outcome) : List UInt8 := returned.flatMap Outcome.line

/-- The file is delivered exactly once, so far. -/
structure System.ExactlyOnce (system : System) : Prop where
  delivered : linesOf system.returned <+: system.file
  ends : linesOf system.returned = [] ∨
    ∃ body, linesOf system.returned = body ++ [newline]
  lines : ∀ outcome ∈ system.returned, outcome.line ≠ [] → IsLine outcome.line
  nothing : ∀ before outcome after, system.returned = before ++ outcome :: after →
    outcome.line = [] → ∃ bytes, outcome.brought = some bytes ∧ newline ∉ bytes ∧
      linesOf before ++ bytes <+: system.file
  returns : ∀ count ≤ bufsize, system.fio.offset + count ≤ system.file.length →
    ∃ next, system.step (.getline (.bytes count)) = some next

/-- The invariant over runs. -/
structure System.Inv (system : System) : Prop where
  follows : ∃ buf, Follows system.file (linesOf system.returned) buf system.fio
  honest : ∀ before outcome after, system.returned = before ++ outcome :: after →
    outcome.Honest system.file (linesOf before)

theorem linesOf_append (before : List Outcome) (outcome : Outcome) :
    linesOf (before ++ [outcome]) = linesOf before ++ outcome.line := by
  simp [linesOf]

theorem Outcome.Honest.append {file delivered : List UInt8} {outcome : Outcome}
    (honest : outcome.Honest file delivered) (bytes : List UInt8) :
    outcome.Honest (file ++ bytes) delivered := by
  rcases honest with isLine | ⟨empty, brought, wait, plain, start⟩
  · exact Or.inl isLine
  · exact Or.inr ⟨empty, brought, wait, plain, start.trans (List.prefix_append file bytes)⟩

/-- One call, whatever its read brings. -/
theorem System.Inv.getline {system : System} (inv : system.Inv) (fine : FineLines system.file)
    {count : Nat} {outcome : Outcome} {fio : FileIo}
    (call : uringGetline system.file (.bytes count) system.fio = some (outcome, fio)) :
    outcome.Honest system.file (linesOf system.returned) ∧
      ∃ buf, Follows system.file (linesOf system.returned ++ outcome.line) buf fio := by
  obtain ⟨buf, follows⟩ := inv.follows
  rcases Nat.eq_zero_or_pos (system.fio.buffers buf).rsize with empty | nonempty
  · by_cases answerable : Answerable system.file system.fio count
    · obtain ⟨outcome', next, buf', called, honest, still⟩ :=
        follows.getline_read fine empty answerable
      cases called.symm.trans call
      exact ⟨honest, buf', still⟩
    · rw [follows.getline_blocked empty answerable] at call
      cases call
  · obtain ⟨outcome', next, called, honest, still⟩ :=
      follows.getline_buffered fine nonempty (.bytes count)
    cases called.symm.trans call
    exact ⟨honest, buf, still⟩

/-- The last call, or an earlier one. -/
theorem honest_append {file : List UInt8} {returned : List Outcome} {last : Outcome}
    (earlier : ∀ before outcome after, returned = before ++ outcome :: after →
      outcome.Honest file (linesOf before))
    (honest : last.Honest file (linesOf returned)) (before : List Outcome) (outcome : Outcome)
    (after : List Outcome) (split : returned ++ [last] = before ++ outcome :: after) :
    outcome.Honest file (linesOf before) := by
  rcases List.eq_nil_or_concat after with none | ⟨rest, final, more⟩
  · rw [none] at split
    obtain ⟨rfl, same⟩ := List.append_inj' split rfl
    cases same
    exact honest
  · rw [more, List.concat_eq_append, ← List.cons_append, ← List.append_assoc] at split
    exact earlier before outcome rest (List.append_inj' split rfl).1

theorem System.inv_step {system next : System} {event : Event} (inv : system.Inv)
    (allowed : event.readsBytes system) (step : system.step event = some next)
    (fine : FineLines system.file) : next.Inv := by
  cases event with
  | append bytes =>
      cases step
      obtain ⟨buf, follows⟩ := inv.follows
      refine ⟨⟨buf, follows.append bytes⟩, ?_⟩
      intro before outcome after split
      exact (inv.honest before outcome after split).append bytes
  | getline answer =>
      cases answer with
      | fails => exact absurd rfl allowed
      | bytes count =>
          obtain ⟨⟨outcome, fio⟩, call, taken⟩ := Option.bind_eq_some_iff.mp step
          cases taken
          obtain ⟨honest, still⟩ := inv.getline fine call
          refine ⟨?_, honest_append inv.honest honest⟩
          rw [linesOf_append]
          exact still

theorem System.step_file {system next : System} {event : Event}
    (step : system.step event = some next) : system.file <+: next.file := by
  cases event with
  | append bytes =>
      cases step
      exact List.prefix_append system.file bytes
  | getline answer =>
      obtain ⟨⟨outcome, fio⟩, call, taken⟩ := Option.bind_eq_some_iff.mp step
      cases taken
      exact List.prefix_refl _

theorem System.inv_started : System.started.Inv where
  follows := ⟨.first, follows_started []⟩
  honest := by
    intro before outcome after split
    cases List.append_ne_nil_of_right_ne_nil before (List.cons_ne_nil outcome after) split.symm

/-- Lines concatenate to the empty list or to bytes that end in a newline. -/
theorem linesOf_ends {returned : List Outcome}
    (lines : ∀ outcome ∈ returned, outcome.line ≠ [] → IsLine outcome.line) :
    linesOf returned = [] ∨ ∃ body, linesOf returned = body ++ [newline] := by
  induction returned using List.reverseRecOn with
  | nil => exact Or.inl rfl
  | append_singleton before outcome inductionHypothesis =>
      rw [linesOf_append]
      by_cases empty : outcome.line = []
      · rw [empty, List.append_nil]
        apply inductionHypothesis
        intro earlier member
        exact lines earlier (List.mem_append_left _ member)
      · obtain ⟨body, -, isLine⟩ := lines outcome (List.mem_append_right _ List.mem_cons_self) empty
        right
        exact ⟨linesOf before ++ body, by rw [isLine, List.append_assoc]⟩

theorem System.Inv.exactlyOnce {system : System} (inv : system.Inv)
    (fine : FineLines system.file) : system.ExactlyOnce := by
  obtain ⟨buf, follows⟩ := inv.follows
  have lines : ∀ outcome ∈ system.returned, outcome.line ≠ [] → IsLine outcome.line := by
    intro outcome member nonempty
    obtain ⟨before, after, split⟩ := List.append_of_mem member
    rcases inv.honest before outcome after split with isLine | ⟨empty, -⟩
    · exact isLine
    · exact absurd empty nonempty
  refine ⟨?_, linesOf_ends lines, lines, ?_, ?_⟩
  · exact List.IsPrefix.trans ⟨_, follows.consumed⟩ (List.take_prefix _ _)
  · intro before outcome after split empty
    rcases inv.honest before outcome after split with ⟨body, -, isLine⟩ | ⟨-, nothing⟩
    · rw [empty] at isLine
      cases List.append_ne_nil_of_right_ne_nil body (List.cons_ne_nil newline []) isLine.symm
    · exact nothing
  · intro count bounded inside
    have called : ∃ result, uringGetline system.file (.bytes count) system.fio = some result := by
      rcases Nat.eq_zero_or_pos (system.fio.buffers buf).rsize with empty | nonempty
      · obtain ⟨outcome, next, -, called, -⟩ := follows.getline_read fine empty ⟨bounded, inside⟩
        exact ⟨_, called⟩
      · obtain ⟨outcome, next, called, -⟩ :=
          follows.getline_buffered fine nonempty (.bytes count)
        exact ⟨_, called⟩
    obtain ⟨result, called⟩ := called
    exact ⟨_, by rw [System.step, called]; rfl⟩

/-- Whatever was appended between the calls and whatever the reads brought, the
lines returned are those of the file, each once and in order. -/
theorem System.exactlyOnce_run {events : List Event} {system : System}
    (run : Run System.step Event.readsBytes System.started events system)
    (fine : FineLines system.file) : system.ExactlyOnce := by
  -- The file only grows, so lines that are fine at the end are fine before.
  have preserved : ∀ (state : System) (event : Event) (next : System),
      (FineLines state.file → state.Inv) → event.readsBytes state →
        state.step event = some next → FineLines next.file → next.Inv := by
    intro state event next earlier allowed step fine
    obtain ⟨bytes, grown⟩ := System.step_file step
    rw [← grown] at fine
    exact System.inv_step (earlier fine.of_append) allowed step fine.of_append
  have inv := run.invariant preserved fun _ => System.inv_started
  exact (inv fine).exactlyOnce fine

/-- A file of at most `bufsize` bytes without NUL has no line that is too long. -/
theorem fineLines_of_short {file : List UInt8} (short : file.length ≤ bufsize)
    (noNul : 0 ∉ file) : FineLines file := by
  intro body _ inside
  have length := inside.length_le
  rw [List.length_append, List.length_singleton] at length
  refine ⟨by omega, ?_⟩
  intro member
  exact noNul (inside.mem (List.mem_append_left _ member))

/-- A line and a half, then the rest. -/
def lineAndHalf : List Event :=
  [.append [97, 98, 10, 99, 100], .getline (.bytes 5), .getline (.bytes 2), .append [10, 101],
    .getline (.bytes 4)]

theorem System.exactlyOnce_run_lineAndHalf :
    ∃ system, Run System.step Event.readsBytes System.started lineAndHalf system ∧
      system.returned = [⟨[97, 98, 10], some [97, 98, 10, 99, 100]⟩, ⟨[], some [99, 100]⟩,
        ⟨[99, 100, 10], some [99, 100, 10, 101]⟩] ∧
      FineLines system.file ∧ system.ExactlyOnce := by
  have executed : (Run.exec System.step Event.readsBytes System.started lineAndHalf).any
      (fun system => system.file = [97, 98, 10, 99, 100, 10, 101] ∧
        system.returned = [⟨[97, 98, 10], some [97, 98, 10, 99, 100]⟩, ⟨[], some [99, 100]⟩,
          ⟨[99, 100, 10], some [99, 100, 10, 101]⟩]) = true := by
    decide +kernel
  obtain ⟨system, run, reached⟩ := Run.of_exec_any executed
  obtain ⟨file, returned⟩ := of_decide_eq_true reached
  have fine : FineLines system.file := by
    rw [file]
    exact fineLines_of_short (by decide) (by decide)
  exact ⟨system, run, returned, fine, System.exactlyOnce_run run fine⟩

end FipsIpc.UringGetline
