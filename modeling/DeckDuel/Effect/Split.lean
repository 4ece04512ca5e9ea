/-
DeckDuel.Effect.Split — cutting an effect text into units.

`split` cuts at commas and line ends outside brackets, trims the pieces
and drops the empty ones. Round and square brackets are counted
together, and a closing bracket without an opening one is ignored.
-/
import DeckDuel.Text.Blank

namespace DeckDuel.Effect

open DeckDuel.Text

/-- The bracket depth after a character. -/
def depthAfter (depth : Nat) (c : Char) : Nat :=
  if c = '(' || c = '[' then depth + 1
  else if c = ')' || c = ']' then depth - 1
  else depth

/-- Does the character separate units at depth zero? -/
def isUnitEnd (c : Char) : Bool := c == ',' || c == '\n'

/-- The bracket depth after a text. -/
def depthOf (depth : Nat) (cs : List Char) : Nat := cs.foldl depthAfter depth

/-- The pieces between the separators at depth zero, in order; there is
always a first piece. -/
def pieces (depth : Nat) : List Char → List Char × List (List Char)
  | [] => ([], [])
  | c :: cs =>
    if isUnitEnd c && depth == 0 then
      let r := pieces 0 cs
      ([], r.1 :: r.2)
    else
      let r := pieces (depthAfter depth c) cs
      (c :: r.1, r.2)

/-- The unit texts of an effect text. -/
def split (cs : List Char) : List (List Char) :=
  let r := pieces 0 cs
  ((r.1 :: r.2).map trim).filter fun u => !u.isEmpty

end DeckDuel.Effect
