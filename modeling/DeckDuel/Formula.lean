/-
DeckDuel.Formula — arithmetic and conditions over plain numbers.

* `number?` — the number of an arithmetic text.
* `amount` — that number rounded down, and zero for a text that has
  none.
* `holds` — the truth of a condition, and falsity for a text that has
  none.

Both readers accept a fixed set of characters and nothing else, so a
name that was not replaced by a number makes the whole text worthless
instead of being looked up.
-/
import DeckDuel.Formula.Parser
import DeckDuel.Formula.Equality
import DeckDuel.Text.Blank

namespace DeckDuel.Formula

open DeckDuel.Text

/-- The characters of arithmetic: digits, the four operators, point,
parentheses and blanks. -/
def isArithmeticChar (c : Char) : Bool :=
  c.isDigit || c == '+' || c == '-' || c == '*' || c == '/' || c == '.' || c == '(' ||
    c == ')' || isBlank c

/-- The characters of conditions: those of arithmetic and of the
comparison and logical operators. -/
def isConditionChar (c : Char) : Bool :=
  isArithmeticChar c || c == '<' || c == '>' || c == '=' || c == '!' || c == '&' || c == '|'

variable {α : Type} [Scalar α]

/-- The number of an arithmetic text, if it is finite. -/
def number? (cs : List Char) : Option α :=
  ((evaluate isArithmeticChar cs).bind Value.number?).bind Scalar.finite?

/-- The number of an arithmetic text rounded down; zero if it has
none. -/
def amount (cs : List Char) : α :=
  match number? (α := α) cs with
  | some x => Scalar.floor x
  | none => 0

variable (α) in
/-- The truth of a condition; false if it has none. -/
def holds (cs : List Char) : Bool :=
  ((evaluate (α := α) isConditionChar (promote (normalize cs))).bind Value.truth?).getD false

end DeckDuel.Formula
