/-
DeckDuel.Scalar.Exact — exact rational numbers as battle numbers.

A battle that is fought with them rounds only where its rules say so.
Every number is ordinary, and there is a greatest integer below each.
-/
import DeckDuel.Scalar
import Mathlib.Data.Rat.Floor

namespace DeckDuel

/-- An exact number. -/
structure Exact where
  value : ℚ
deriving DecidableEq, Repr

namespace Exact

/-- The nearest integer, a half away from zero. -/
def nearest (x : ℚ) : ℤ := if 0 ≤ x then ⌊x + 1 / 2⌋ else -⌊-x + 1 / 2⌋

/-- The number that a decimal numeral stands for. -/
def ofDecimal (negative : Bool) (digits : Nat) (exponent : Int) : ℚ :=
  let magnitude : ℚ := digits * (10 : ℚ) ^ exponent
  if negative then -magnitude else magnitude

/-- An integer is written as one, any other number as a quotient in
parentheses, which a formula reads back. -/
def write (x : Exact) : String :=
  if x.value.den = 1 then toString x.value.num
  else "(" ++ toString x.value.num ++ "/" ++ toString x.value.den ++ ")"

instance : Scalar Exact where
  zero := ⟨0⟩
  one := ⟨1⟩
  add x y := ⟨x.value + y.value⟩
  sub x y := ⟨x.value - y.value⟩
  mul x y := ⟨x.value * y.value⟩
  div x y := ⟨x.value / y.value⟩
  neg x := ⟨-x.value⟩
  lt x y := x.value < y.value
  le x y := x.value ≤ y.value
  beq x y := x.value == y.value
  decidableLT := fun x y => inferInstanceAs (Decidable (x.value < y.value))
  decidableLE := fun x y => inferInstanceAs (Decidable (x.value ≤ y.value))
  ofNat n := ⟨n⟩
  ofNumeral
    | .decimal negative digits exponent => some ⟨ofDecimal negative digits exponent⟩
    | .infinite _ | .notANumber _ => none
  isFinite _ := true
  floor x := ⟨⌊x.value⌋⟩
  round x := ⟨nearest x.value⟩
  integer? x := if x.value.den = 1 then some x.value.num else none
  toCount x := min ((1 <<< 64) - 1) ⌊x.value⌋.toNat
  text := write
  documentText := write

end Exact
end DeckDuel
