/-
DeckDuel.Formula.Parser — reading tokens as a tree.

* `parse` — reads a whole token list as a tree, by precedence climbing:
  an operand, then every operator that binds tighter than the context
  allows, each with a right operand read under its own power.
* `evaluate` — reads a text whose characters are all allowed, and
  evaluates it.

The readers return the tokens they leave. Every step of the descent
reads a token or hands over to a reader that does, so three steps a
token are enough for any list.
-/
import DeckDuel.Formula.Term

namespace DeckDuel.Formula

variable {α : Type}

mutual

/-- Reads a tree whose operators bind tighter than `power`. -/
def readTerm : Nat → Nat → List (Token α) → Option (Term α × List (Token α))
  | 0, _, _ => none
  | steps + 1, power, ts =>
    match readOperand steps ts with
    | none => none
    | some (t, rest) => readTail steps power t rest

/-- Reads a number, a signed operand or a group. -/
def readOperand : Nat → List (Token α) → Option (Term α × List (Token α))
  | 0, _ => none
  | steps + 1, ts =>
    match ts with
    | .number x :: rest => some (.number x, rest)
    | .operator .plus :: rest =>
      (readTerm steps signPower rest).map fun r => (.signed .plus r.1, r.2)
    | .operator .minus :: rest =>
      (readTerm steps signPower rest).map fun r => (.signed .minus r.1, r.2)
    | .not :: rest => (readTerm steps signPower rest).map fun r => (.signed .not r.1, r.2)
    | .opening :: rest =>
      match readTerm steps 0 rest with
      | some (t, .closing :: later) => some (.group t, later)
      | _ => none
    | _ => none

/-- Continues a tree with the operators that follow it and bind tighter
than `power`. -/
def readTail : Nat → Nat → Term α → List (Token α) → Option (Term α × List (Token α))
  | 0, _, _, _ => none
  | steps + 1, power, l, ts =>
    match ts with
    | .operator o :: rest =>
      if power < o.power then
        match readTerm steps o.power rest with
        | none => none
        | some (r, later) => readTail steps power (.binary o l r) later
      else some (l, ts)
    | _ => some (l, ts)

end

/-- Reads a whole token list as a tree. -/
def parse (ts : List (Token α)) : Option (Term α) :=
  match readTerm (3 * ts.length + 3) 0 ts with
  | some (t, []) => some t
  | _ => none

variable [Scalar α]

/-- The value of a token list, if it is a formula that has one. -/
def run (ts : List (Token α)) : Option (Value α) := (parse ts).bind Term.value

/-- The value of a text: all its characters must be allowed and there
must be one at least. -/
def evaluate (allowed : Char → Bool) (cs : List Char) : Option (Value α) :=
  if cs.isEmpty || !cs.all allowed then none else (tokenize cs).bind run

end DeckDuel.Formula
