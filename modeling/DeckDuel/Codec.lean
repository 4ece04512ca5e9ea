/-
DeckDuel.Codec — byte formats that are read back.

* `Codec` — how values of a type are written as bytes, and how one is
  read from the front of a sequence of bytes.
* `Codec.natural`, `Codec.text`, `Codec.flag`, `Codec.listOf`, … — the
  formats of single values: numbers have a fixed width and their lowest
  byte first, and everything of varying length starts with its length in
  eight bytes.
* `Codec.pair`, `Codec.convert` — formats of records, field by field.
-/
import DeckDuel.Scalar

namespace DeckDuel

/-- A byte format for values of a type. -/
structure Codec (β : Type) where
  write : β → List UInt8
  /-- A value from the front of the bytes, and the bytes after it. -/
  read : List UInt8 → Option (β × List UInt8)

namespace Codec

variable {β γ : Type}

/-- The lowest bytes of a number, lowest first. -/
def naturalBytes : Nat → Nat → List UInt8
  | 0, _ => []
  | width + 1, n => UInt8.ofNat (n % 256) :: naturalBytes width (n / 256)

/-- The number in the first bytes, and the bytes after it. -/
def readNatural : Nat → List UInt8 → Option (Nat × List UInt8)
  | 0, bs => some (0, bs)
  | _ + 1, [] => none
  | width + 1, b :: bs =>
    (readNatural width bs).map fun r => (b.toNat + 256 * r.1, r.2)

/-- Numbers of a width, counted in bytes. -/
def natural (width : Nat) : Codec Nat := ⟨naturalBytes width, readNatural width⟩

/-- Values that are written as those of another format; reading may
refuse some. -/
def refine (c : Codec β) (forth : γ → β) (from? : β → Option γ) : Codec γ where
  write x := c.write (forth x)
  read bs := (c.read bs).bind fun r => (from? r.1).map fun y => (y, r.2)

/-- Values that are written as those of another format. -/
def convert (c : Codec β) (forth : γ → β) (back : β → γ) : Codec γ :=
  c.refine forth fun x => some (back x)

/-- One value after another. -/
def pair (c : Codec β) (d : Codec γ) : Codec (β × γ) where
  write x := c.write x.1 ++ d.write x.2
  read bs := (c.read bs).bind fun r => (d.read r.2).map fun q => ((r.1, q.1), q.2)

/-- Reads a number of values. -/
def readMany (c : Codec β) : Nat → List UInt8 → Option (List β × List UInt8)
  | 0, bs => some ([], bs)
  | n + 1, bs =>
    (c.read bs).bind fun r => (readMany c n r.2).map fun q => (r.1 :: q.1, q.2)

/-- Lists, after their length. -/
def listOf (c : Codec β) : Codec (List β) where
  write xs := naturalBytes 8 xs.length ++ xs.flatMap c.write
  read bs := (readNatural 8 bs).bind fun r => readMany c r.1 r.2

/-- One byte. -/
def byte : Codec UInt8 where
  write b := [b]
  read bs :=
    match bs with
    | [] => none
    | b :: rest => some (b, rest)

/-- Texts: their bytes, after their number. -/
def text : Codec String :=
  byte.listOf.refine (fun s => s.toUTF8.toList) fun bs => String.fromUTF8? ⟨bs.toArray⟩

/-- Truth values: a byte of one or zero. -/
def flag : Codec Bool :=
  (natural 1).refine (fun b => if b then 1 else 0) fun n =>
    if n = 1 then some true else if n = 0 then some false else none

/-- A value that may be missing: a byte of one before a value, and a
byte of zero if there is none. -/
def optional (c : Codec β) : Codec (Option β) where
  write
    | none => [0]
    | some x => 1 :: c.write x
  read bs := (flag.read bs).bind fun r =>
    if r.1 then (c.read r.2).map fun q => (some q.1, q.2) else some (none, r.2)

/-- One of a list of values: its place in four bytes. -/
def oneOf [BEq β] (xs : List β) : Codec β :=
  (natural 4).refine (fun x => xs.idxOf x) fun n => xs[n]?

/-- A word of eight bytes. -/
def word : Codec UInt64 := (natural 8).convert UInt64.toNat UInt64.ofNat

/-- Numbers of a battle: the eight bytes of their word. -/
def number [WordPattern β] : Codec β := word.convert WordPattern.toWord WordPattern.ofWord

end Codec
end DeckDuel
