/-
DeckDuel.Effect.Operand — classifying the right-hand side of a unit.

A value is a number, a variable path, or arithmetic over both, tried in
this order; anything else is refused. A text is taken for a number only
if it starts like one, so that words such as `inf` are variable paths.
-/
import DeckDuel.Effect.Clause

namespace DeckDuel

open DeckDuel.Text

/-- Is the text a variable path, or the rest of one? `start` tells that
a name has to start here. -/
def isPathFrom (start : Bool) : List Char → Bool
  | [] => !start
  | c :: cs =>
    if start then isWordStart c && isPathFrom false cs
    else if c = '.' then isPathFrom true cs
    else isWordChar c && isPathFrom false cs

/-- Is the text a variable path: names joined by points? -/
def isPath (cs : List Char) : Bool := isPathFrom true cs

/-- May the character stand in arithmetic over variables? -/
def isOperandChar (c : Char) : Bool :=
  isWordChar c || c == '.' || c == '+' || c == '-' || c == '*' || c == '/' || c == '(' ||
    c == ')' || isBlank c

/-- May a number start with the character? -/
def startsNumber (c : Char) : Bool := c.isDigit || c == '.' || c == '-' || c == '+'

variable {α : Type} [Scalar α]

/-- The number that a value writes, if it starts like one. -/
def literal? (cs : List Char) : Option α :=
  match cs with
  | [] => none
  | c :: _ => if startsNumber c then (Scalar.ofText cs).bind Scalar.finite? else none

/-- Classifies a value; the trimmed text is the error. -/
def classify (text : List Char) : Except (List Char) (Operand α) :=
  let cs := trim text
  match literal? cs with
  | some x => .ok (.literal x)
  | none =>
    if isPath cs then .ok (.path (String.ofList cs))
    else if !cs.isEmpty && cs.all isOperandChar then .ok (.formula (String.ofList cs))
    else .error cs

end DeckDuel
