/-
DeckDuel.Status.Codex — the status definitions of a battle.

A codex is a map from ids to definitions that remembers the order in
which the ids came: defining a new id appends it, defining a known one
replaces its definition where it stands, and an id that was removed and
comes back is appended again.
-/
import DeckDuel.Status.Definition

namespace DeckDuel

/-- The definitions known to a battle, in the order of their ids'
arrival. -/
structure Codex (α : Type) where
  definitions : List (StatusDefinition α)
deriving DecidableEq, Repr

namespace Codex

variable {α : Type}

/-- The codex without definitions. -/
def empty : Codex α := ⟨[]⟩

/-- The definition of an id. -/
def get? (c : Codex α) (id : String) : Option (StatusDefinition α) :=
  c.definitions.find? fun d => d.id == id

/-- Is the id defined? -/
def contains (c : Codex α) (id : String) : Bool := (c.get? id).isSome

/-- The ids, in order of arrival. -/
def ids (c : Codex α) : List String := c.definitions.map StatusDefinition.id

/-- The number of definitions. -/
def size (c : Codex α) : Nat := c.definitions.length

/-- The codex with a definition added, or put in the place of the one
with its id. -/
def define (c : Codex α) (d : StatusDefinition α) : Codex α :=
  if c.contains d.id then ⟨c.definitions.map fun e => if e.id = d.id then d else e⟩
  else ⟨c.definitions ++ [d]⟩

/-- The codex with a definition that was generated at some time. -/
def defineGenerated (c : Codex α) (d : StatusDefinition α) (createdAt : Nat) : Codex α :=
  c.define { d with origin := .ai, createdAt := createdAt }

/-- The codex without an id. -/
def remove (c : Codex α) (id : String) : Codex α :=
  ⟨c.definitions.filter fun d => d.id ≠ id⟩

end Codex
end DeckDuel
