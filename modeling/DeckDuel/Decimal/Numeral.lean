/-
DeckDuel.Decimal.Numeral — the written form of a number.

* `Numeral` — a signed decimal `digits · 10 ^ exponent`, an infinity,
  or "not a number".
* `Numeral.read` — reads a whole text as a numeral: an optional sign,
  then digits with at most one point among or beside them (one digit at
  least) and an optional exponent `e` with at least one digit; or one
  of the words `inf`, `infinity` and `nan` in any case.

A numeral is exact; which machine number it stands for is decided by
the number type that reads it (`DeckDuel.Scalar`).
-/

namespace DeckDuel

/-- A number as written. -/
inductive Numeral where
  | decimal (negative : Bool) (digits : Nat) (exponent : Int)
  | infinite (negative : Bool)
  | notANumber (negative : Bool)
deriving DecidableEq, Repr

namespace Numeral

/-- The value of a decimal digit. -/
def digit (c : Char) : Nat := c.toNat - '0'.toNat

/-- The number that a run of decimal digits writes. -/
def natOf (ds : List Char) : Nat := ds.foldl (fun n c => 10 * n + digit c) 0

/-- The exponent part that ends a numeral: nothing, or `e` with an
optional sign and at least one digit. -/
def readExponent : List Char → Option Int
  | [] => some 0
  | c :: cs =>
    if c = 'e' || c = 'E' then
      match cs with
      | [] => none
      | s :: ds =>
        let body := if s = '+' || s = '-' then ds else cs
        if body.isEmpty || !body.all Char.isDigit then none
        else if s = '-' then some (-(natOf body : Int)) else some (natOf body)
    else none

/-- Reads an unsigned decimal; the point may stand first or last, but
not alone. -/
def readDecimal (negative : Bool) (cs : List Char) : Option Numeral :=
  let whole := cs.takeWhile Char.isDigit
  let rest := cs.dropWhile Char.isDigit
  let (fraction, tail) : List Char × List Char :=
    match rest with
    | '.' :: r => (r.takeWhile Char.isDigit, r.dropWhile Char.isDigit)
    | r => ([], r)
  if whole.isEmpty && fraction.isEmpty then none
  else
    (readExponent tail).map fun e =>
      .decimal negative (natOf (whole ++ fraction)) (e - fraction.length)

/-- Reads the words for the special numbers, in any case. -/
def readWord (negative : Bool) (cs : List Char) : Option Numeral :=
  let w := cs.map Char.toLower
  if w = ['i', 'n', 'f'] || w = ['i', 'n', 'f', 'i', 'n', 'i', 't', 'y'] then
    some (.infinite negative)
  else if w = ['n', 'a', 'n'] then some (.notANumber negative)
  else none

/-- Reads a whole text as a numeral. -/
def read (cs : List Char) : Option Numeral :=
  let (negative, body) : Bool × List Char :=
    match cs with
    | '-' :: r => (true, r)
    | '+' :: r => (false, r)
    | r => (false, r)
  (readDecimal negative body).orElse fun _ => readWord negative body

end Numeral
end DeckDuel
