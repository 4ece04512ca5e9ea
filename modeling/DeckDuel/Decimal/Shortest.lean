/-
DeckDuel.Decimal.Shortest — the shortest decimal that reads back.

* `Digits` — a positive number `0.d₁d₂…dₙ · 10 ^ point`.
* `Tie` — which of two equally near decimals is meant.
* `shortest` — for a magnitude `m · 2 ^ q`, the decimal with the fewest
  digits among those that round to it, and of these the nearest.
* `Layout` — the decisions of an output format: which exponents are
  written positionally, whether an integer keeps a `.0`, and how ties
  go.

A grid of `10 ^ e` steps has a point in the interval of numbers that
round to the magnitude if and only if one of the magnitude's two
neighbours on the grid lies there, so testing these two for one digit,
two digits and so on finds the fewest.
-/
import DeckDuel.Decimal.Binary64

namespace DeckDuel.Decimal

/-- The decimal `0.d₁d₂…dₙ · 10 ^ point`. -/
structure Digits where
  digits : List Char
  point : Int
deriving DecidableEq, Repr

/-- The numbers that round to a magnitude: `low / den` to `high / den`
around `mid / den`, ends included if `closed`. -/
structure Interval where
  low : Nat
  mid : Nat
  high : Nat
  den : Nat
  closed : Bool
deriving Repr

/-- The rounding interval of `m · 2 ^ q`. Below a power of two the
words lie twice as close, so the lower half-gap is halved there. -/
def Interval.ofParts (m : Nat) (q : Int) : Interval :=
  let low := if m = Binary64.hiddenBit && q ≠ -1074 then 4 * m - 1 else 4 * m - 2
  let closed := m % 2 = 0
  if 2 ≤ q then
    let s := (q - 2).toNat
    ⟨low <<< s, (4 * m) <<< s, (4 * m + 2) <<< s, 1, closed⟩
  else ⟨low, 4 * m, 4 * m + 2, 1 <<< (2 - q).toNat, closed⟩

/-- Is `num / den` among the numbers of the interval? -/
def Interval.holds (i : Interval) (num den : Nat) : Bool :=
  if i.closed then
    i.low * den ≤ num * i.den && num * i.den ≤ i.high * den
  else
    i.low * den < num * i.den && num * i.den < i.high * den

/-- `10 ^ e` as a ratio. -/
def powerOfTen (e : Int) : Nat × Nat :=
  if 0 ≤ e then (Nat.pow 10 e.toNat, 1) else (1, Nat.pow 10 (-e).toNat)

/-- The `e` with `10 ^ (e - 1) ≤ num / den < 10 ^ e`. The estimate from
the bit lengths is at most two off. -/
def decimalExponent (num den : Nat) : Int :=
  let estimate : Int := (((num.log2 : Int) - den.log2) * 1233).fdiv 4096
  let below (e : Int) : Bool :=
    let p := powerOfTen e
    num * p.2 < den * p.1
  if below (estimate - 1) then estimate - 1
  else if below estimate then estimate
  else if below (estimate + 1) then estimate + 1
  else if below (estimate + 2) then estimate + 2
  else estimate + 3

/-- Which of two equally near neighbours is meant. -/
inductive Tie where
  | larger
  /-- The one with the even last digit. -/
  | even
deriving DecidableEq, Repr

/-- Does a tie between `lower` and its successor go to `lower`? -/
def Tie.isDown (t : Tie) (lower : Nat) : Bool :=
  match t with
  | .larger => false
  | .even => lower % 2 == 0

/-- The point of the grid `10 ^ e` that is nearest to the middle of the
interval, among the two neighbours of the middle that the interval
holds. -/
def Interval.nearest? (i : Interval) (tie : Tie) (e : Int) : Option Nat :=
  let p := powerOfTen e
  let lower := (i.mid * p.2) / (i.den * p.1)
  let lowerIn := i.holds (lower * p.1) p.2
  let upperIn := i.holds ((lower + 1) * p.1) p.2
  if lowerIn && upperIn then
    let down := i.mid * p.2 - lower * p.1 * i.den
    let up := (lower + 1) * p.1 * i.den - i.mid * p.2
    some (if down < up || (down == up && tie.isDown lower) then lower else lower + 1)
  else if lowerIn then some lower
  else if upperIn then some (lower + 1)
  else none

/-- Tries one digit more after another. -/
def searchDigits (i : Interval) (tie : Tie) (point : Int) : Nat → Nat → Nat × Int
  | 0, count => ((i.nearest? tie (point - count)).getD 0, point - count)
  | more + 1, count =>
    match i.nearest? tie (point - count) with
    | some n => (n, point - count)
    | none => searchDigits i tie point more (count + 1)

/-- The shortest decimal that rounds to `m · 2 ^ q`, for a positive
`m`. Seventeen digits always suffice. -/
def shortest (tie : Tie) (m : Nat) (q : Int) : Digits :=
  let i := Interval.ofParts m q
  let (n, unit) := searchDigits i tie (decimalExponent i.mid i.den) 16 1
  let ds := Nat.toDigits 10 n
  ⟨(ds.reverse.dropWhile (· == '0')).reverse, unit + ds.length⟩

/-- The decisions of an output format for finite numbers. -/
structure Layout where
  /-- Smallest `point` that is written positionally. -/
  least : Int
  /-- Largest `point` that is written positionally. -/
  most : Int
  /-- Does a whole number keep a `.0`? -/
  keepsPoint : Bool
  tie : Tie
deriving Repr

/-- `n` zeros. -/
def zeros (n : Nat) : List Char := List.replicate n '0'

/-- Writes digits positionally. -/
def Digits.positional (d : Digits) (keepsPoint : Bool) : List Char :=
  let n : Int := d.digits.length
  if d.point ≤ 0 then '0' :: '.' :: (zeros (-d.point).toNat ++ d.digits)
  else if n ≤ d.point then
    d.digits ++ zeros (d.point - n).toNat ++ (if keepsPoint then ['.', '0'] else [])
  else d.digits.take d.point.toNat ++ '.' :: d.digits.drop d.point.toNat

/-- Writes digits with an exponent: one digit, a point if more follow,
and the exponent with its sign. -/
def Digits.scientific (d : Digits) : List Char :=
  let e := d.point - 1
  let exponent := (if e < 0 then '-' else '+') :: Nat.toDigits 10 e.natAbs
  match d.digits with
  | [] => '0' :: 'e' :: exponent
  | [c] => c :: 'e' :: exponent
  | c :: cs => c :: '.' :: (cs ++ 'e' :: exponent)

/-- Writes a magnitude in a layout. -/
def Layout.write (l : Layout) (m : Nat) (q : Int) : List Char :=
  if m = 0 then '0' :: (if l.keepsPoint then ['.', '0'] else [])
  else
    let d := shortest l.tie m q
    if l.least ≤ d.point && d.point ≤ l.most then d.positional l.keepsPoint else d.scientific

end DeckDuel.Decimal
