/-
DeckDuel.Random.Fork — independent streams for named purposes.

`Stream.fork` derives a new seed from a stream's seed and a name, so
that the same name always gives the same stream and drawing from one
does not move the other. The new seed is the SipHash, with one round a
block and three at the end and a zero key, of the seed's eight bytes,
the name's UTF-8 bytes and a final byte `0xff`.
-/
import DeckDuel.Random.Stream

namespace DeckDuel.Random

/-- The four words of the hash state. -/
structure HashState where
  (v0 v1 v2 v3 : UInt64)

/-- Rotates a long word left. -/
def rotateLong (x n : UInt64) : UInt64 := (x <<< n) ||| (x >>> (64 - n))

/-- One hash round. -/
def HashState.round (h : HashState) : HashState :=
  let v0 := h.v0 + h.v1
  let v1 := rotateLong h.v1 13 ^^^ v0
  let v0 := rotateLong v0 32
  let v2 := h.v2 + h.v3
  let v3 := rotateLong h.v3 16 ^^^ v2
  let v0 := v0 + v3
  let v3 := rotateLong v3 21 ^^^ v0
  let v2 := v2 + v1
  let v1 := rotateLong v1 17 ^^^ v2
  let v2 := rotateLong v2 32
  ⟨v0, v1, v2, v3⟩

/-- Mixes an eight-byte word into the state. -/
def HashState.absorb (h : HashState) (m : UInt64) : HashState :=
  let h' := { h with v3 := h.v3 ^^^ m }.round
  { h' with v0 := h'.v0 ^^^ m }

/-- The little-endian number of some bytes. -/
def littleEndian (bytes : List UInt8) : UInt64 :=
  bytes.foldr (fun b n => (n <<< 8) ||| b.toUInt64) 0

/-- Mixes bytes in, eight at a time; the last block holds the bytes
left over and, in its top byte, the length of all. -/
def HashState.absorbAll (length : Nat) (h : HashState) (bytes : List UInt8) : HashState :=
  match bytes with
  | b0 :: b1 :: b2 :: b3 :: b4 :: b5 :: b6 :: b7 :: rest =>
    (h.absorb (littleEndian [b0, b1, b2, b3, b4, b5, b6, b7])).absorbAll length rest
  | short => h.absorb (littleEndian short ||| (UInt64.ofNat length <<< 56))

/-- The hash of some bytes. -/
def hashBytes (bytes : List UInt8) : UInt64 :=
  let start : HashState :=
    ⟨0x736f6d6570736575, 0x646f72616e646f6d, 0x6c7967656e657261, 0x7465646279746573⟩
  let h := start.absorbAll bytes.length bytes
  let h := { h with v2 := h.v2 ^^^ 0xff }.round.round.round
  h.v0 ^^^ h.v1 ^^^ h.v2 ^^^ h.v3

/-- The `n` low bytes of a number, lowest first. -/
def bytesOf : Nat → Nat → List UInt8
  | 0, _ => []
  | n + 1, x => UInt8.ofNat x :: bytesOf n (x / 256)

/-- The stream for a named purpose. -/
def Stream.fork (s : Stream) (name : String) : Stream :=
  Stream.ofSeed (hashBytes (bytesOf 8 s.seed.toNat ++ name.toUTF8.toList ++ [0xff]))

end DeckDuel.Random
