/-
DeckDuel.Scalar — the numbers a battle is fought with.

* `Scalar` — arithmetic, decidable order, rounding to integers, and the
  written forms of a number. Hit points, costs and effect values are
  all of one such type; the engine never looks inside it.
* `roundTenth` — rounding to one decimal place, which every stored stat
  has gone through.
* `atLeast`, `atMost`, `clamp` — bounds. A value that is no number
  compares with nothing, so `atLeast` and `atMost` answer the bound and
  `clamp` answers the value itself.

The order is not assumed to be total here: double-precision numbers are
a `Scalar`, and they have values that compare with nothing. Laws live
with the theorems that need them.
-/
import DeckDuel.Decimal.Numeral

namespace DeckDuel

/-- The numbers of a battle. -/
class Scalar (α : Type) extends Zero α, One α, Add α, Sub α, Mul α, Div α, Neg α,
    LT α, LE α, BEq α where
  /-- The order can be tested. -/
  decidableLT : DecidableLT α
  /-- The non-strict order can be tested. -/
  decidableLE : DecidableLE α
  /-- A count as a number. -/
  ofNat : Nat → α
  /-- The number that a numeral stands for, if the type has it. -/
  ofNumeral : Numeral → Option α
  /-- Is it an ordinary number, neither infinite nor undefined? -/
  isFinite : α → Bool
  /-- The greatest integer not above it. -/
  floor : α → α
  /-- The nearest integer, a half away from zero. -/
  round : α → α
  /-- The number as an integer, when it is one. -/
  integer? : α → Option Int
  /-- Its integer part as a count, held within `0` and `2 ^ 64 - 1`. -/
  toCount : α → Nat
  /-- The shortest positional decimal that reads back. -/
  text : α → String
  /-- The shortest decimal that reads back, as a document writes it. -/
  documentText : α → String

instance Scalar.instDecidableLT {α : Type} [Scalar α] : DecidableLT α := Scalar.decidableLT

instance Scalar.instDecidableLE {α : Type} [Scalar α] : DecidableLE α := Scalar.decidableLE

/-- A number stored as a 64-bit word. -/
class WordPattern (α : Type) where
  toWord : α → UInt64
  ofWord : UInt64 → α

namespace Scalar

variable {α : Type} [Scalar α]

/-- The largest count that fits 32 bits; stacks never exceed it. -/
def maxCount32 : Nat := (1 <<< 32) - 1

/-- Rounds to one decimal place, a half away from zero; a number too
large to be scaled is left as it is. -/
def roundTenth (x : α) : α :=
  let scaled := x * ofNat 10
  if isFinite scaled then round scaled / ofNat 10 else x

/-- The larger of a value and a bound; the bound if they do not
compare. -/
def atLeast (bound x : α) : α := if bound < x then x else bound

/-- The smaller of a value and a bound; the bound if they do not
compare. -/
def atMost (bound x : α) : α := if x < bound then x else bound

/-- The smaller of two values; the second if the first is undefined. -/
def least (x y : α) : α := if x == x then (if y < x then y else x) else y

/-- Moves a value between two bounds. -/
def clamp (low high x : α) : α :=
  let raised := if x < low then low else x
  if high < raised then high else raised

/-- Passes ordinary numbers only. -/
def finite? (x : α) : Option α := if isFinite x then some x else none

/-- The whole part of a number as a stack count: zero unless it is
positive and finite, and at most 32 bits. -/
def toStacks (x : α) : Nat :=
  if isFinite x && decide ((0 : α) < x) then min maxCount32 (toCount (floor x)) else 0

/-- The text that stands for a number inside a formula: an integer
below `10 ^ 15` is written as one, so that a zero has no sign. -/
def formulaText (x : α) : String :=
  match integer? x with
  | some n => if n.natAbs < Nat.pow 10 15 then toString n else text x
  | none => text x

/-- The number written by a text, if the text is a numeral. -/
def ofText (cs : List Char) : Option α := (Numeral.read cs).bind ofNumeral

end Scalar
end DeckDuel
