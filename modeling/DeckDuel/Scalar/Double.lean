/-
DeckDuel.Scalar.Double — double-precision numbers as battle numbers.

A `Double` is its 64-bit word, so that writing a number into a
checkpoint and reading it back loses nothing, not even the sign and the
payload of what is not a number. Its operations are those of
`DeckDuel.Decimal.Binary64`, its written forms those of
`DeckDuel.Decimal.Shortest`.
-/
import DeckDuel.Scalar
import DeckDuel.Decimal.Shortest

namespace DeckDuel

/-- A double-precision number. -/
structure Double where
  word : UInt64
deriving Inhabited, Repr

namespace Double

open DeckDuel.Decimal

/-- The word of a number. -/
def bits (x : Double) : Nat := x.word.toNat

/-- The number of a word. -/
def ofBits (n : Nat) : Double := ⟨UInt64.ofNat n⟩

/-- An operation on words as one on numbers. -/
def lift (f : Nat → Nat → Nat) (x y : Double) : Double := ofBits (f x.bits y.bits)

/-- A comparison of two numbers. -/
def holds (p : Int → Int → Bool) (x y : Double) : Bool := Binary64.compare p x.bits y.bits

/-- Every finite number is written positionally, a whole one without a
point; a tie goes to the larger decimal. -/
def plainLayout : Layout := ⟨-1000, 1000, false, .larger⟩

/-- Documents write `10 ^ -5` to `10 ^ 16` positionally and always with
a point; beyond that they use an exponent. A tie goes to the even
digit. -/
def documentLayout : Layout := ⟨-4, 16, true, .even⟩

/-- Writes a number in a layout; `undefined` and `infinite` stand for
the special values. -/
def write (l : Layout) (undefined infinite : String) (x : Double) : String :=
  match Binary64.parts? x.bits with
  | some p =>
    String.ofList ((if p.negative then ['-'] else []) ++ l.write p.significand p.exponent)
  | none =>
    if Binary64.isNaN x.bits then undefined
    else if Binary64.isNegative x.bits then "-" ++ infinite
    else infinite

instance : Scalar Double where
  zero := ofBits 0
  one := ofBits (1023 <<< 52)
  add := lift Binary64.add
  sub := lift Binary64.sub
  mul := lift Binary64.mul
  div := lift Binary64.div
  neg x := ofBits (Binary64.negate x.bits)
  lt x y := holds (fun a b => decide (a < b)) x y = true
  le x y := holds (fun a b => decide (a ≤ b)) x y = true
  beq := holds fun a b => a == b
  decidableLT := fun x y => inferInstanceAs (Decidable (holds _ x y = true))
  decidableLE := fun x y => inferInstanceAs (Decidable (holds _ x y = true))
  ofNat n := ofBits (Binary64.ofRatio n 1)
  ofNumeral n := some (ofBits (Binary64.ofNumeral n))
  isFinite x := (Binary64.parts? x.bits).isSome
  floor x := ofBits (Binary64.floor x.bits)
  round x := ofBits (Binary64.round x.bits)
  integer? x := (Binary64.parts? x.bits).bind Binary64.Parts.integer?
  toCount x := Binary64.toNat ((1 <<< 64) - 1) x.bits
  text := write plainLayout "NaN" "inf"
  documentText := write documentLayout "null" "null"

instance : WordPattern Double where
  toWord := word
  ofWord := mk

/-- A number is stored as its word, and nothing else. -/
theorem ofWord_toWord (x : Double) :
    (WordPattern.ofWord (WordPattern.toWord x) : Double) = x := rfl

end Double
end DeckDuel
