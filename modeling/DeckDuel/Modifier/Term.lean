/-
DeckDuel.Modifier.Term — the modifier terms written in a text.

* `Modifier.Written` — a term `name op value` as it stands in a text.
* `Modifier.written` — the terms of a text, from left to right. A term
  starts at the start of the text or after a character that cannot
  belong to a path, with `ME.` or without; its value is a chain of
  numbers joined by `*` and `/`.
* `Adjustment.absorb` — adds a term to an adjustment: `+` and `-`
  change the sum, `*` and `/` the product; a term that sets a value or
  divides by zero changes nothing.
-/
import DeckDuel.Formula
import DeckDuel.Modifier

namespace DeckDuel.Modifier

open DeckDuel.Text DeckDuel.Variable

/-- A term as it stands in a text. -/
structure Written where
  kind : Modifier
  op : Char
  value : List Char
deriving DecidableEq, Repr

/-- Splits a modifier name off a text. -/
def name? (cs : List Char) : Option (Modifier × List Char) :=
  all.findSome? fun m => (after? m.name.toList cs).map fun rest => (m, rest)

/-- Splits an operator off a text. -/
def op? (cs : List Char) : Option (Char × List Char) :=
  match cs with
  | [] => none
  | c :: rest =>
    if c = '+' || c = '-' || c = '*' || c = '/' || c = '=' then some (c, rest) else none

/-- The part of a text that continues a chain of numbers, in characters:
`number` tells that a number was just read, and blanks and an operator
count only once a number follows them. `pending` characters were seen
since the chain last ended. -/
def chainLength (number : Bool) (operator : Bool) (pending : Nat) : List Char → Nat
  | [] => 0
  | c :: cs =>
    if Formula.isNumberChar c then
      if number || operator then pending + 1 + chainLength true false 0 cs else 0
    else if isBlank c then chainLength false operator (pending + 1) cs
    else if (c = '*' || c = '/') && !operator then chainLength false true (pending + 1) cs
    else 0

/-- Splits a chain of numbers off a text; it starts with a number. -/
def value? (cs : List Char) : Option (List Char × List Char) :=
  match cs with
  | c :: rest =>
    if Formula.isNumberChar c then
      let n := chainLength true false 0 rest
      some (c :: rest.take n, rest.drop n)
    else none
  | [] => none

/-- Reads a term at the front of a text, and the text after it. -/
def term? (cs : List Char) : Option (Written × List Char) :=
  let cs := (after? "ME.".toList cs).getD cs
  (name? cs).bind fun (m, r) => (op? (trimStart r)).bind fun (o, r) =>
    (value? (trimStart r)).map fun (v, r) => (⟨m, o, v⟩, r)

/-- The terms of a text. `free` tells whether a term may start here;
the first `skip` characters belong to a term already read. -/
def writtenFrom (free : Bool) (skip : Nat) : List Char → List Written
  | [] => []
  | c :: cs =>
    match skip with
    | k + 1 => writtenFrom false k cs
    | 0 =>
      match (if free then term? (c :: cs) else none) with
      | some (w, rest) => w :: writtenFrom false (cs.length - rest.length) cs
      | none => writtenFrom (!isPathChar c) 0 cs

/-- The terms of a text, from left to right. -/
def written (cs : List Char) : List Written := writtenFrom true 0 cs

end DeckDuel.Modifier

namespace DeckDuel.Adjustment

variable {α : Type} [Scalar α]

/-- Adds a term's operation and value to an adjustment. -/
def absorb (a : Adjustment α) (op : Char) (value : α) : Adjustment α :=
  match op with
  | '+' => { a with sum := a.sum + value }
  | '-' => { a with sum := a.sum - value }
  | '*' => { a with product := a.product * value }
  | '/' => if value == 0 then a else { a with product := a.product / value }
  | _ => a

/-- Adds the terms of one kind that a text writes. -/
def scan (kind : Modifier) (a : Adjustment α) (cs : List Char) : Adjustment α :=
  (Modifier.written cs).foldl
    (fun a w =>
      if w.kind = kind then
        match Formula.number? w.value with
        | some x => a.absorb w.op x
        | none => a
      else a)
    a

end DeckDuel.Adjustment
