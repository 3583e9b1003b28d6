import Mathlib.Data.List.TakeWhile

/-!
Contract: what is in force after grants and sweeps.

Owns: events that grant an item or sweep away what has expired, the items in
force after a sequence of them, and how a list that is cut by its first expired
item keeps the items in force.

The newest event comes first, as does the newest item of a list.

Does not own: what expires when, and who holds the list.
-/

set_option autoImplicit false

namespace FipsIpc.Lib

universe u v

variable {Item : Type u} {Time : Type v}

inductive LeaseEvent (Item : Type u) (Time : Type v) where
  | granted (item : Item)
  | swept (time : Time)
deriving Repr

/-- The item was granted, and no sweep since then found it expired. -/
def InForce (expired : Time → Item → Bool) (events : List (LeaseEvent Item Time)) (item : Item) :
    Prop :=
  ∃ later earlier, events = later ++ .granted item :: earlier ∧
    ∀ time, .swept time ∈ later → expired time item = false

section Rules

variable {expired : Time → Item → Bool} {events : List (LeaseEvent Item Time)} {item : Item}

theorem not_inForce_nil : ¬InForce expired [] item := by
  rintro ⟨later, earlier, split, -⟩
  simp at split

theorem inForce_granted {new : Item} :
    InForce expired (.granted new :: events) item ↔ item = new ∨ InForce expired events item := by
  constructor
  · rintro ⟨later, earlier, split, kept⟩
    cases later with
    | nil =>
        cases split
        exact Or.inl rfl
    | cons event later =>
        cases split
        exact Or.inr ⟨later, earlier, rfl, fun time member =>
          kept time (List.mem_cons_of_mem _ member)⟩
  · rintro (rfl | ⟨later, earlier, rfl, kept⟩)
    · exact ⟨[], events, rfl, fun time member => absurd member List.not_mem_nil⟩
    · refine ⟨.granted new :: later, earlier, rfl, fun time member => ?_⟩
      rcases List.mem_cons.mp member with same | member
      · cases same
      · exact kept time member

theorem inForce_swept {time : Time} :
    InForce expired (.swept time :: events) item ↔
      InForce expired events item ∧ expired time item = false := by
  constructor
  · rintro ⟨later, earlier, split, kept⟩
    cases later with
    | nil => cases split
    | cons event later =>
        cases split
        exact ⟨⟨later, earlier, rfl, fun now member =>
          kept now (List.mem_cons_of_mem _ member)⟩, kept time List.mem_cons_self⟩
  · rintro ⟨⟨later, earlier, rfl, kept⟩, unexpired⟩
    refine ⟨.swept time :: later, earlier, rfl, fun now member => ?_⟩
    rcases List.mem_cons.mp member with same | member
    · cases same
      exact unexpired
    · exact kept now member

/-- What is in force was granted. -/
theorem InForce.granted (inForce : InForce expired events item) : .granted item ∈ events := by
  obtain ⟨later, earlier, rfl, -⟩ := inForce
  simp

/-- No sweep behind the grant has found the item expired. -/
theorem InForce.unexpired {time : Time} (inForce : InForce expired (.swept time :: events) item) :
    expired time item = false :=
  (inForce_swept.mp inForce).2

end Rules

/-! ### Lists that are cut -/

section Cut

variable {expired : Time → Item → Bool} {time : Time} {list : List Item} {item : Item}

/-- The front of a list up to its first expired item. -/
theorem unexpired_of_mem_takeWhile
    (kept : item ∈ list.takeWhile fun item => !expired time item) : expired time item = false := by
  simpa using List.mem_takeWhile_imp kept

/-- Everything behind an expired item has expired. -/
def ExpiresInOrder (expired : Time → Item → Bool) (list : List Item) : Prop :=
  list.Pairwise fun front behind => ∀ time, expired time front = true → expired time behind = true

/-- A list that expires in order is cut where it has expired. -/
theorem mem_takeWhile_iff (inOrder : ExpiresInOrder expired list) :
    (item ∈ list.takeWhile fun item => !expired time item) ↔
      item ∈ list ∧ expired time item = false := by
  refine ⟨fun kept => ⟨(List.takeWhile_prefix _).subset kept, unexpired_of_mem_takeWhile kept⟩, ?_⟩
  rintro ⟨member, unexpired⟩
  induction list with
  | nil => cases member
  | cons first rest inductionHypothesis =>
      obtain ⟨behind, later⟩ := List.pairwise_cons.mp inOrder
      have front : expired time first = false := by
        rcases List.mem_cons.mp member with same | after
        · exact same ▸ unexpired
        · by_contra gone
          have expiredToo := behind item after time (by simpa using gone)
          rw [unexpired] at expiredToo
          cases expiredToo
      rw [List.takeWhile_cons_of_pos (by simp [front])]
      rcases List.mem_cons.mp member with same | after
      · exact same ▸ List.mem_cons_self
      · exact List.mem_cons_of_mem _ (inductionHypothesis later after)

theorem ExpiresInOrder.takeWhile (inOrder : ExpiresInOrder expired list) (keeps : Item → Bool) :
    ExpiresInOrder expired (list.takeWhile keeps) :=
  List.Pairwise.sublist (List.takeWhile_sublist keeps) inOrder

theorem ExpiresInOrder.nil : ExpiresInOrder expired ([] : List Item) := List.Pairwise.nil

end Cut

/-! ### Lists that hold what is in force -/

/-- The list holds the items in force, and expires in order. -/
structure Holding (expired : Time → Item → Bool) (events : List (LeaseEvent Item Time))
    (list : List Item) : Prop where
  inOrder : ExpiresInOrder expired list
  holds : ∀ item, item ∈ list ↔ InForce expired events item

namespace Holding

variable {expired : Time → Item → Bool} {events : List (LeaseEvent Item Time)}
  {list : List Item}

theorem nil (expired : Time → Item → Bool) :
    Holding expired ([] : List (LeaseEvent Item Time)) ([] : List Item) :=
  ⟨.nil, fun _ => iff_of_false List.not_mem_nil not_inForce_nil⟩

/-- A grant that expires no sooner than what is in front. -/
theorem grant (holding : Holding expired events list) {item : Item}
    (last : ∀ other ∈ list, ∀ time, expired time item = true → expired time other = true) :
    Holding expired (.granted item :: events) (item :: list) where
  inOrder := List.pairwise_cons.mpr ⟨last, holding.inOrder⟩
  holds := fun other => by rw [List.mem_cons, inForce_granted, holding.holds]

theorem sweep (holding : Holding expired events list) (time : Time) :
    Holding expired (.swept time :: events) (list.takeWhile fun item => !expired time item) where
  inOrder := holding.inOrder.takeWhile _
  holds := fun item => by
    rw [mem_takeWhile_iff holding.inOrder, inForce_swept, holding.holds]

end Holding

end FipsIpc.Lib
