/-
DeckDuel.Formula.Token — the tokens of arithmetic and conditions.

* `Operator` — the twelve binary operators with their binding powers.
* `Token` — a number, an operator, `!` or a parenthesis. `+` and `-`
  are one token each, whether they stand before an operand or between
  two.
* `tokenize` — cuts a text into tokens; the four ASCII blanks separate
  tokens, and a run of digits and points must be a numeral.
-/
import DeckDuel.Scalar

namespace DeckDuel.Formula

/-- The binary operators. -/
inductive Operator where
  | or | and
  | equal | unequal
  | less | lessEq | greater | greaterEq
  | plus | minus
  | times | dividedBy
deriving DecidableEq, Repr

/-- How tightly an operator binds; all operators of one power group to
the left. -/
def Operator.power : Operator → Nat
  | .or => 1
  | .and => 2
  | .equal | .unequal => 3
  | .less | .lessEq | .greater | .greaterEq => 4
  | .plus | .minus => 5
  | .times | .dividedBy => 6

/-- The power of a sign or a negation: tighter than every binary
operator. -/
def signPower : Nat := 6

/-- A token of a formula. -/
inductive Token (α : Type) where
  | number (x : α)
  | operator (o : Operator)
  | not
  | opening
  | closing
deriving DecidableEq, Repr

/-- May the character stand in a number? -/
def isNumberChar (c : Char) : Bool := c.isDigit || c == '.'

/-- Does the character separate tokens? -/
def isSeparator (c : Char) : Bool := c == ' ' || c == '\t' || c == '\n' || c == '\r'

variable {α : Type} [Scalar α]

/-- Ends the number read so far, if any: `pending` holds its characters
in reverse. -/
def flush (pending : List Char) (later : Option (List (Token α))) : Option (List (Token α)) :=
  match pending with
  | [] => later
  | _ :: _ =>
    (Scalar.ofText pending.reverse).bind fun x => later.map (Token.number x :: ·)

/-- Cuts a text into tokens, after the number characters in `pending`. -/
def tokenizeFrom (pending : List Char) : List Char → Option (List (Token α))
  | [] => flush pending (some [])
  | '<' :: '=' :: cs => flush pending ((tokenizeFrom [] cs).map (.operator .lessEq :: ·))
  | '>' :: '=' :: cs => flush pending ((tokenizeFrom [] cs).map (.operator .greaterEq :: ·))
  | '=' :: '=' :: '=' :: cs => flush pending ((tokenizeFrom [] cs).map (.operator .equal :: ·))
  | '=' :: '=' :: cs => flush pending ((tokenizeFrom [] cs).map (.operator .equal :: ·))
  | '!' :: '=' :: '=' :: cs => flush pending ((tokenizeFrom [] cs).map (.operator .unequal :: ·))
  | '!' :: '=' :: cs => flush pending ((tokenizeFrom [] cs).map (.operator .unequal :: ·))
  | '&' :: '&' :: cs => flush pending ((tokenizeFrom [] cs).map (.operator .and :: ·))
  | '|' :: '|' :: cs => flush pending ((tokenizeFrom [] cs).map (.operator .or :: ·))
  | c :: cs =>
    if isNumberChar c then tokenizeFrom (c :: pending) cs
    else if isSeparator c then flush pending (tokenizeFrom [] cs)
    else
      match c with
      | '+' => flush pending ((tokenizeFrom [] cs).map (.operator .plus :: ·))
      | '-' => flush pending ((tokenizeFrom [] cs).map (.operator .minus :: ·))
      | '*' => flush pending ((tokenizeFrom [] cs).map (.operator .times :: ·))
      | '/' => flush pending ((tokenizeFrom [] cs).map (.operator .dividedBy :: ·))
      | '<' => flush pending ((tokenizeFrom [] cs).map (.operator .less :: ·))
      | '>' => flush pending ((tokenizeFrom [] cs).map (.operator .greater :: ·))
      | '(' => flush pending ((tokenizeFrom [] cs).map (.opening :: ·))
      | ')' => flush pending ((tokenizeFrom [] cs).map (.closing :: ·))
      | '!' => flush pending ((tokenizeFrom [] cs).map (.not :: ·))
      | _ => none

/-- Cuts a text into tokens; `none` if a character starts no token or a
number is malformed. -/
def tokenize (cs : List Char) : Option (List (Token α)) := tokenizeFrom [] cs

end DeckDuel.Formula
