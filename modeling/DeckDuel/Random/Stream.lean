/-
DeckDuel.Random.Stream — a seeded stream of random words.

* `Stream` — a seed and the number of 32-bit words drawn so far. The
  n-th word depends on the seed and on n only, so a stream is restored
  from these two.
* `Stream.word` — draws the next word; `Stream.longWord` draws two, the
  low half first.

The words are those of the ChaCha block function with eight rounds: the
key is eight words derived from the seed by a linear congruential
generator with permuted output, the block counter is 64 bits wide and
starts at zero, and the remaining two words of the block are zero.
-/

namespace DeckDuel.Random

/-! ## The key -/

/-- The next state of the key generator. -/
def keyStep (s : UInt64) : UInt64 := s * 6364136223846793005 + 11634580027462260723

/-- The output of the key generator in a state: the xor-shifted high
bits, rotated right by the topmost five. -/
def keyWord (s : UInt64) : UInt32 :=
  let x := (((s >>> 18) ^^^ s) >>> 27).toUInt32
  let r := (s >>> 59).toUInt32
  (x >>> r) ||| (x <<< ((32 - r) % 32))

/-- The first `n` outputs of the key generator after a state. -/
def keyWords : Nat → UInt64 → List UInt32
  | 0, _ => []
  | n + 1, s => let s' := keyStep s; keyWord s' :: keyWords n s'

/-! ## The block function -/

/-- Rotates a word left. -/
def rotate (x : UInt32) (n : UInt32) : UInt32 := (x <<< n) ||| (x >>> (32 - n))

/-- One quarter round on four words of a block. -/
def quarter (a b c d : UInt32) : UInt32 × UInt32 × UInt32 × UInt32 :=
  let a := a + b
  let d := rotate (d ^^^ a) 16
  let c := c + d
  let b := rotate (b ^^^ c) 12
  let a := a + b
  let d := rotate (d ^^^ a) 8
  let c := c + d
  let b := rotate (b ^^^ c) 7
  (a, b, c, d)

/-- A block as four rows of four words. -/
structure Block where
  (a0 a1 a2 a3 b0 b1 b2 b3 c0 c1 c2 c3 d0 d1 d2 d3 : UInt32)

/-- A round on the columns followed by a round on the diagonals. -/
def Block.doubleRound (x : Block) : Block :=
  let (a0, b0, c0, d0) := quarter x.a0 x.b0 x.c0 x.d0
  let (a1, b1, c1, d1) := quarter x.a1 x.b1 x.c1 x.d1
  let (a2, b2, c2, d2) := quarter x.a2 x.b2 x.c2 x.d2
  let (a3, b3, c3, d3) := quarter x.a3 x.b3 x.c3 x.d3
  let (a0, b1, c2, d3) := quarter a0 b1 c2 d3
  let (a1, b2, c3, d0) := quarter a1 b2 c3 d0
  let (a2, b3, c0, d1) := quarter a2 b3 c0 d1
  let (a3, b0, c1, d2) := quarter a3 b0 c1 d2
  ⟨a0, a1, a2, a3, b0, b1, b2, b3, c0, c1, c2, c3, d0, d1, d2, d3⟩

/-- Adds two blocks word by word and lists the result. -/
def Block.addWords (x y : Block) : List UInt32 :=
  [x.a0 + y.a0, x.a1 + y.a1, x.a2 + y.a2, x.a3 + y.a3,
   x.b0 + y.b0, x.b1 + y.b1, x.b2 + y.b2, x.b3 + y.b3,
   x.c0 + y.c0, x.c1 + y.c1, x.c2 + y.c2, x.c3 + y.c3,
   x.d0 + y.d0, x.d1 + y.d1, x.d2 + y.d2, x.d3 + y.d3]

/-- The block that enters the rounds: four constants, the key, the
block counter and two zeros. -/
def Block.start (key : List UInt32) (counter : UInt64) : Block :=
  ⟨0x61707865, 0x3320646e, 0x79622d32, 0x6b206574,
   key.getD 0 0, key.getD 1 0, key.getD 2 0, key.getD 3 0,
   key.getD 4 0, key.getD 5 0, key.getD 6 0, key.getD 7 0,
   counter.toUInt32, (counter >>> 32).toUInt32, 0, 0⟩

/-- The sixteen words of a block. -/
def blockWords (seed : UInt64) (counter : UInt64) : List UInt32 :=
  let start := Block.start (keyWords 8 seed) counter
  (start.doubleRound.doubleRound.doubleRound.doubleRound).addWords start

/-! ## The stream -/

/-- A random stream: its seed and how many words were drawn from it. -/
structure Stream where
  seed : UInt64
  position : Nat
deriving DecidableEq, Repr

/-- The number of words after which the stream starts over. -/
def period : Nat := 1 <<< 68

/-- The stream of a seed, from its start. -/
def Stream.ofSeed (seed : UInt64) : Stream := ⟨seed, 0⟩

/-- The stream of a seed from a position on. -/
def Stream.at (seed : UInt64) (position : Nat) : Stream := ⟨seed, position % period⟩

/-- The word at a position. -/
def wordAt (seed : UInt64) (position : Nat) : UInt32 :=
  (blockWords seed (UInt64.ofNat (position / 16))).getD (position % 16) 0

/-- Draws a 32-bit word. -/
def Stream.word (s : Stream) : UInt32 × Stream :=
  (wordAt s.seed s.position, ⟨s.seed, (s.position + 1) % period⟩)

/-- Draws a 64-bit word, low half first. -/
def Stream.longWord (s : Stream) : UInt64 × Stream :=
  let (low, s₁) := s.word
  let (high, s₂) := s₁.word
  ((high.toUInt64 <<< 32) ||| low.toUInt64, s₂)

end DeckDuel.Random
