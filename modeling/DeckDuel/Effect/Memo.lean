/-
DeckDuel.Effect.Memo — effect texts that were read before.

A memo keeps the units of every text it was asked for, and counts how
often it knew the answer. Effect texts never change, so an entry stays
true until the catalog does.
-/
import DeckDuel.Effect.Parser

namespace DeckDuel

/-- The texts read so far, and how often they were asked for. -/
structure Memo (α : Type) where
  entries : List (String × List (Reading α))
  hits : Nat
  misses : Nat
deriving Repr

namespace Memo

variable {α : Type}

/-- A memo that knows nothing. -/
def empty : Memo α := ⟨[], 0, 0⟩

/-- The number of texts it knows. -/
def size (m : Memo α) : Nat := m.entries.length

/-- Forgets every text; the counts stay. -/
def clear (m : Memo α) : Memo α := { m with entries := [] }

/-- The units of a text, and the memo after the question. -/
def parse [Scalar α] (m : Memo α) (catalog : Catalog) (text : String) :
    List (Reading α) × Memo α :=
  match m.entries.lookup text with
  | some units => (units, { m with hits := m.hits + 1 })
  | none =>
    let units := Effect.parseEffect catalog text
    (units, { m with entries := (text, units) :: m.entries, misses := m.misses + 1 })

end Memo
end DeckDuel
