/-
DeckDuel.Decimal.Binary64 — double-precision words as exact numbers.

* `Binary64.Parts` — the sign of a finite word and its magnitude
  `significand · 2 ^ exponent`.
* `Binary64.ofRatio` — the word nearest to a positive ratio, ties to
  the even significand, overflow to infinity.
* `Binary64.ofNumeral` — the word a numeral stands for.
* `Binary64.floor`, `Binary64.round` — rounding to an integer, down
  and to nearest (a half away from zero). The sign survives a zero
  result.
* `Binary64.add`, `Binary64.sub`, `Binary64.mul`, `Binary64.div` — the
  exact result rounded to the nearest word.
* `Binary64.rank?` — the order of words; what is not a number has no
  place in it.

Everything here is integer arithmetic on the fields of the word, so
that each rounding step is visible to a proof.
-/
import DeckDuel.Decimal.Numeral

namespace DeckDuel.Binary64

/-- The word of positive infinity; larger magnitudes are not numbers. -/
def infinity : Nat := 0x7FF <<< 52

/-- The bit that makes a word negative. -/
def signBit : Nat := 1 <<< 63

/-- The leading bit of a significand, which a word does not show unless
its exponent is the smallest. -/
def hiddenBit : Nat := 1 <<< 52

/-- The word of the quiet "not a number". -/
def notANumber : Nat := 0x7FF8 <<< 48

/-- A finite word taken apart: `± significand · 2 ^ exponent`. -/
structure Parts where
  negative : Bool
  significand : Nat
  exponent : Int
deriving DecidableEq, Repr

/-- The parts of a word, unless it is infinite or not a number. -/
def parts? (bits : Nat) : Option Parts :=
  let field := (bits >>> 52) % 2048
  let fraction := bits % hiddenBit
  let negative := bits ≥ signBit
  if field = 2047 then none
  else if field = 0 then some ⟨negative, fraction, -1074⟩
  else some ⟨negative, hiddenBit + fraction, (field : Int) - 1075⟩

/-- `num / den` rounded to an integer, a tie to the even one. -/
def divEven (num den : Nat) : Nat :=
  let q := num / den
  let r := num % den
  if 2 * r < den then q
  else if den < 2 * r then q + 1
  else if q % 2 = 0 then q else q + 1

/-- The greatest `e` with `2 ^ e ≤ num / den`. -/
def binaryExponent (num den : Nat) : Int :=
  let e : Int := (num.log2 : Int) - den.log2
  let fits : Bool := if 0 ≤ e then den <<< e.toNat ≤ num else den ≤ num <<< (-e).toNat
  if fits then e else e - 1

/-- The word nearest to `num / den`. A word's value grows by one unit
in the last place when the word grows by one, across exponents too,
which is why the exponent field and the significand may simply be
added. -/
def ofRatio (num den : Nat) : Nat :=
  if num = 0 then 0
  else
    let q := max (binaryExponent num den - 52) (-1074)
    let significand :=
      if 0 ≤ q then divEven num (den <<< q.toNat) else divEven (num <<< (-q).toNat) den
    min infinity (((q + 1074).toNat <<< 52) + significand)

/-- Sets the sign of a word. -/
def signed (negative : Bool) (magnitude : Nat) : Nat :=
  if negative then signBit + magnitude else magnitude

/-- The magnitude of `digits · 10 ^ exponent`. Magnitudes that are far
out of range are settled by their number of digits, without forming
the power. -/
def ofDecimal (digits : Nat) (exponent : Int) : Nat :=
  if digits = 0 then 0
  else
    let length : Int := (Nat.toDigits 10 digits).length
    if 320 < length + exponent then infinity
    else if length + exponent < -340 then 0
    else if 0 ≤ exponent then ofRatio (digits * Nat.pow 10 exponent.toNat) 1
    else ofRatio digits (Nat.pow 10 (-exponent).toNat)

/-- The word a numeral stands for. -/
def ofNumeral : Numeral → Nat
  | .decimal negative digits exponent => signed negative (ofDecimal digits exponent)
  | .infinite negative => signed negative infinity
  | .notANumber negative => signed negative notANumber

/-! ## Rounding to integers -/

/-- The integer parts of a magnitude: the integer below it, and the
part above that integer, as a fraction of a power of two. -/
structure Split where
  whole : Nat
  rest : Nat
  unit : Nat

/-- Splits a magnitude at the binary point. -/
def Parts.split (p : Parts) : Split :=
  if 0 ≤ p.exponent then ⟨p.significand <<< p.exponent.toNat, 0, 1⟩
  else
    let unit := 1 <<< (-p.exponent).toNat
    ⟨p.significand / unit, p.significand % unit, unit⟩

/-- The number as an integer, when it is one. -/
def Parts.integer? (p : Parts) : Option Int :=
  let s := p.split
  if s.rest = 0 then some (if p.negative then -(s.whole : Int) else s.whole) else none

/-- The greatest integer not above the number, as a word. -/
def floor (bits : Nat) : Nat :=
  match parts? bits with
  | none => bits
  | some p =>
    let s := p.split
    let whole := if p.negative && s.rest ≠ 0 then s.whole + 1 else s.whole
    signed p.negative (ofRatio whole 1)

/-- The integer nearest to the number, a half away from zero, as a
word. -/
def round (bits : Nat) : Nat :=
  match parts? bits with
  | none => bits
  | some p =>
    let s := p.split
    let whole := if s.unit ≤ 2 * s.rest then s.whole + 1 else s.whole
    signed p.negative (ofRatio whole 1)

/-- The integer part of a number, held within `0` and `limit`. -/
def toNat (limit : Nat) (bits : Nat) : Nat :=
  match parts? bits with
  | some p => if p.negative then 0 else min limit p.split.whole
  | none => if bits = infinity then limit else 0

/-! ## Order -/

/-- Is the word not a number? -/
def isNaN (bits : Nat) : Bool := decide (infinity < bits % signBit)

/-- The place of a word in the order of numbers; both zeros have the
same. -/
def rank? (bits : Nat) : Option Int :=
  if isNaN bits then none
  else if bits < signBit then some bits
  else some (-((bits % signBit : Nat) : Int))

/-- Compares two words; what is not a number compares with nothing. -/
def compare (p : Int → Int → Bool) (a b : Nat) : Bool :=
  match rank? a, rank? b with
  | some x, some y => p x y
  | _, _ => false

/-! ## Arithmetic -/

/-- The other sign. -/
def negate (bits : Nat) : Nat := if bits < signBit then bits + signBit else bits - signBit

/-- Is the word negative? -/
def isNegative (bits : Nat) : Bool := decide (signBit ≤ bits)

/-- The word of an operation that has no result. -/
def invalid : Nat := signed true notANumber

/-- The quiet form of a word that is not a number. -/
def quiet (bits : Nat) : Nat := bits ||| (1 <<< 51)

/-- An operation on two words. The first operand that is not a number
is the result, in its quiet form. -/
def onNumbers (f : Nat → Nat → Nat) (a b : Nat) : Nat :=
  if isNaN a then quiet a else if isNaN b then quiet b else f a b

/-- The magnitude nearest to `significand · 2 ^ exponent`. -/
def ofScaled (significand : Nat) (exponent : Int) : Nat :=
  if 0 ≤ exponent then ofRatio (significand <<< exponent.toNat) 1
  else ofRatio significand (1 <<< (-exponent).toNat)

/-- A finite word in units of `2 ^ exponent`, which divide its own. -/
def Parts.units (p : Parts) (exponent : Int) : Int :=
  let n : Int := p.significand <<< (p.exponent - exponent).toNat
  if p.negative then -n else n

/-- The sum of two finite words. A sum of zero is negative only if both
of them are. -/
def Parts.add (p q : Parts) : Nat :=
  let exponent := min p.exponent q.exponent
  let sum := p.units exponent + q.units exponent
  if sum = 0 then signed (p.negative && q.negative) 0
  else signed (decide (sum < 0)) (ofScaled sum.natAbs exponent)

/-- The sum of two words that are numbers. -/
def addNumbers (a b : Nat) : Nat :=
  match parts? a, parts? b with
  | some p, some q => p.add q
  | some _, none => b
  | none, some _ => a
  | none, none => if a = b then a else invalid

/-- The sum of two words. -/
def add : Nat → Nat → Nat := onNumbers addNumbers

/-- The difference of two words. -/
def sub : Nat → Nat → Nat := onNumbers fun a b => addNumbers a (negate b)

/-- The product of two words that are numbers. -/
def mulNumbers (a b : Nat) : Nat :=
  let sign := isNegative a != isNegative b
  match parts? a, parts? b with
  | some p, some q =>
    signed sign (ofScaled (p.significand * q.significand) (p.exponent + q.exponent))
  | some p, none => if p.significand = 0 then invalid else signed sign infinity
  | none, some q => if q.significand = 0 then invalid else signed sign infinity
  | none, none => signed sign infinity

/-- The product of two words. -/
def mul : Nat → Nat → Nat := onNumbers mulNumbers

/-- The magnitude nearest to the quotient of two, for a positive
divisor. -/
def Parts.quotient (p q : Parts) : Nat :=
  let shift := p.exponent - q.exponent
  if 0 ≤ shift then ofRatio (p.significand <<< shift.toNat) q.significand
  else ofRatio p.significand (q.significand <<< (-shift).toNat)

/-- The quotient of two words that are numbers. -/
def divNumbers (a b : Nat) : Nat :=
  let sign := isNegative a != isNegative b
  match parts? a, parts? b with
  | some p, some q =>
    if q.significand = 0 then (if p.significand = 0 then invalid else signed sign infinity)
    else signed sign (p.quotient q)
  | some _, none => signed sign 0
  | none, some _ => signed sign infinity
  | none, none => invalid

/-- The quotient of two words. -/
def div : Nat → Nat → Nat := onNumbers divNumbers

end DeckDuel.Binary64
