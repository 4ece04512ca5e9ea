/-
DeckDuel.Random.Draw — uniform numbers, shuffles and samples.

* `Stream.below` — a uniform number below a bound, by multiplying a
  random word with the bound: the high half of the product is the
  answer, and the draw is repeated while the low half lies in the
  uneven remainder of the range.
* `Stream.shuffle` — exchanges each entry, from the last down, with a
  random one not after it.
* `Stream.sample` — distinct indices in random order, by one of three
  methods chosen from the two sizes.

A draw that keeps being refused is settled after a fixed number of
attempts by the last word drawn, so every draw ends; the answer is
below the bound in any case.
-/
import DeckDuel.Random.Stream

namespace DeckDuel.Random

/-- After this many refusals a draw takes what it gets. The chance of
one refusal is below one half. -/
def maxAttempts : Nat := 1024

/-- The largest low half that is accepted for a bound, for words of
`width` bits: the bound shifted up as far as it goes, less one. -/
def zone (width bound : Nat) : Nat := (bound <<< (width - 1 - bound.log2)) - 1

/-- The source of the words of a width. -/
def Stream.wordOf (width : Nat) (s : Stream) : Nat × Stream :=
  if width = 32 then
    let (w, s') := s.word
    (w.toNat, s')
  else
    let (w, s') := s.longWord
    (w.toNat, s')

/-- Draws words until the low half of the product is accepted. -/
def Stream.accept (width limit bound : Nat) : Nat → Stream → Nat × Stream
  | 0, s =>
    let (w, s') := s.wordOf width
    ((w * bound) >>> width, s')
  | more + 1, s =>
    let (w, s') := s.wordOf width
    if w * bound % (1 <<< width) ≤ limit then ((w * bound) >>> width, s')
    else s'.accept width limit bound more

/-- A uniform number below a positive bound, from 32-bit words. -/
def Stream.below (bound : Nat) (s : Stream) : Nat × Stream :=
  s.accept 32 (zone 32 bound) bound maxAttempts

/-- A uniform number in the range from `low` up to but not including
`high`, from 64-bit words; `low` for an empty range. -/
def Stream.inRange (low high : Nat) (s : Stream) : Nat × Stream :=
  if high ≤ low then (low, s)
  else
    let (n, s') := s.accept 64 (zone 64 (high - low)) (high - low) maxAttempts
    (low + n, s')

/-- Exchanges entry `i` with a random one not after it, for `i` from
the given index down to 1. -/
def Stream.shuffleFrom {β : Type} : Nat → Array β → Stream → Array β × Stream
  | 0, xs, s => (xs, s)
  | i + 1, xs, s =>
    let (j, s') := s.below (i + 2)
    Stream.shuffleFrom i (xs.swapIfInBounds (i + 1) j) s'

/-- Shuffles a list. -/
def Stream.shuffle {β : Type} (xs : List β) (s : Stream) : List β × Stream :=
  let (ys, s') := Stream.shuffleFrom (xs.length - 1) xs.toArray s
  (ys.toList, s')

/-! ## Samples -/

/-- Exchanges each of the first entries with a random one not before
it. -/
def Stream.sampleSwap (len : Nat) : Nat → Nat → Array Nat → Stream → Array Nat × Stream
  | 0, _, xs, s => (xs, s)
  | more + 1, i, xs, s =>
    let (n, s') := s.below (len - i)
    Stream.sampleSwap len more (i + 1) (xs.swapIfInBounds i (i + n)) s'

/-- Inserts `x` in front of the first `y`. -/
def insertBefore (x y : Nat) : List Nat → List Nat
  | [] => [x]
  | z :: zs => if z = y then x :: z :: zs else z :: insertBefore x y zs

/-- Draws `t` up to `j` for each `j` of the last `amount` indices: a
`t` already drawn makes way for `j`, which `inOrder` puts in front of
`t` and at the end otherwise. -/
def Stream.sampleFloyd (inOrder : Bool) : Nat → Nat → List Nat → Stream → List Nat × Stream
  | 0, _, drawn, s => (drawn, s)
  | more + 1, j, drawn, s =>
    let (t, s') := s.below (j + 1)
    let drawn' :=
      if drawn.contains t then (if inOrder then insertBefore j t drawn else drawn ++ [j])
      else drawn ++ [t]
    Stream.sampleFloyd inOrder more (j + 1) drawn' s'

/-- The largest low half that is accepted for a bound when many numbers
are drawn: the words are cut to a multiple of the bound. -/
def fullZone (width bound : Nat) : Nat := (1 <<< width) - 1 - ((1 <<< width) - bound) % bound

/-- Draws an index until it is a new one. -/
def Stream.freshIndex (width len : Nat) (drawn : List Nat) : Nat → Stream → Nat × Stream
  | 0, s => (((List.range len).find? fun i => !drawn.contains i).getD 0, s)
  | more + 1, s =>
    let (i, s') := s.accept width (fullZone width len) len maxAttempts
    if drawn.contains i then Stream.freshIndex width len drawn more s' else (i, s')

/-- Draws new indices one after another. -/
def Stream.sampleReject (width len : Nat) : Nat → List Nat → Stream → List Nat × Stream
  | 0, drawn, s => (drawn, s)
  | more + 1, drawn, s =>
    let (i, s') := s.freshIndex width len drawn (64 * maxAttempts)
    Stream.sampleReject width len more (drawn ++ [i]) s'

/-- The ways to draw a sample. -/
inductive Method where
  | swap
  | floyd
  /-- Indices are drawn from words of a width until they are new. -/
  | reject (width : Nat)
deriving DecidableEq, Repr

/-- Is a small sample of `amount` large enough, for its list, to be
drawn by exchanges? The bound is computed in single precision. -/
def prefersSwap (len amount : Nat) : Bool :=
  let k := Float32.ofNat amount
  let bound :=
    if len < 500000 then (10.0 + 1.6 * k) * k
    else ((70.0 : Float32) / 9.0 + (8.0 : Float32) / 45.0 * k) * k
  Float32.ofNat len < bound

/-- The method for a sample. Indices that do not fit 32 bits are drawn
from 64-bit words. -/
def Method.choose (len amount : Nat) : Method :=
  if 1 <<< 32 ≤ len then .reject 64
  else if amount < 163 then
    if 11 < amount && prefersSwap len amount then .swap else .floyd
  else
    let bound := if len < 500000 then 270 * amount * 9 else 330 * amount
    if len * 9 < bound then .swap else .reject 32

/-- Distinct indices below `len`, in random order: `amount` of them, or
all if there are fewer. -/
def Stream.sample (len amount : Nat) (s : Stream) : List Nat × Stream :=
  let amount := min amount len
  match Method.choose len amount with
  | .swap =>
    let (xs, s') := s.sampleSwap len amount 0 (Array.range len)
    (xs.toList.take amount, s')
  | .floyd =>
    let inOrder := amount < 50
    let (xs, s') := s.sampleFloyd inOrder amount (len - amount) []
    if inOrder then (xs, s') else s'.shuffle xs
  | .reject width => s.sampleReject width len amount []

end DeckDuel.Random
