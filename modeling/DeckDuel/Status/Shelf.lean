/-
DeckDuel.Status.Shelf — definitions kept by id.

Whoever keeps the definitions for battles looks them up by id, lists them
in the order in which they came, and changes them between two battles. A
shelf has a part for each:

* `Shelf.byId` — the definition of each id. There is no order in this
  part: what was put in last stands first.
* `Shelf.order` — the ids in the order of their arrival.
* `Shelf.define`, `Shelf.remove` — change both parts, and give back the
  definition that an id had before.
* `Shelf.definitions` — every id of the order with its definition.
* `Shelf.codex` — what a battle is given, which only reads it.
-/
import DeckDuel.Status.Codex

namespace DeckDuel

/-- Definitions by id, and the ids in the order of their arrival. -/
structure Shelf (α : Type) where
  byId : List (String × StatusDefinition α)
  order : List String
deriving Repr

namespace Shelf

variable {α : Type}

/-- The shelf without definitions. -/
def empty : Shelf α := ⟨[], []⟩

/-- The definition of an id. -/
def get? (s : Shelf α) (id : String) : Option (StatusDefinition α) := s.byId.lookup id

/-- Is the id defined? -/
def contains (s : Shelf α) (id : String) : Bool := s.byId.any fun e => e.1 == id

/-- The number of definitions. -/
def size (s : Shelf α) : Nat := s.byId.length

/-- The definitions by id, without an id. -/
def others (s : Shelf α) (id : String) : List (String × StatusDefinition α) :=
  s.byId.filter fun e => e.1 ≠ id

/-- Puts a definition in the place of the one that its id had, and gives
that back. An id that had none arrives last. -/
def define (s : Shelf α) (d : StatusDefinition α) : Option (StatusDefinition α) × Shelf α :=
  let previous := s.get? d.id
  (previous, ⟨(d.id, d) :: s.others d.id,
    if previous.isNone then s.order ++ [d.id] else s.order⟩)

/-- Defines what was generated at some time. -/
def defineGenerated (s : Shelf α) (d : StatusDefinition α) (createdAt : Nat) : Shelf α :=
  (s.define { d with origin := .ai, createdAt := createdAt }).2

/-- Takes the definition of an id away, if it has one, and gives it
back. -/
def remove (s : Shelf α) (id : String) : Option (StatusDefinition α) × Shelf α :=
  match s.get? id with
  | none => (none, s)
  | some d => (some d, ⟨s.others id, s.order.filter (· ≠ id)⟩)

/-- The definitions, in the order of arrival. -/
def definitions (s : Shelf α) : List (StatusDefinition α) := s.order.filterMap s.get?

/-- The definitions as a battle reads them. -/
def codex (s : Shelf α) : Codex α := ⟨s.definitions⟩

end Shelf
end DeckDuel
