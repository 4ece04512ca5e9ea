/-
DeckDuel.Json.Decode — values of a type from documents.

* `Source` — whether a document is being read from its text, or is held
  as a whole. The text tells more about what is wrong, and has a limit
  on its levels.
* `Decoder` — how a value of a type is read.
* `text`, `natural`, `number`, `flag`, `nullable`, `listOf`, `choice` —
  single values and lists.
* `Field`, `Fields` — records. The members are looked at in the order
  of the document; a name that comes twice is refused, one that is not
  known is skipped, and what is missing is found out at the end. Most
  records may also be written as lists in the order of their fields.
* `decodeText` — the value of a whole text.
-/
import DeckDuel.Json.Scan

namespace DeckDuel

/-- Where a document comes from. -/
inductive Source where
  /-- From its text, with levels left for lists and records. -/
  | reading (room : Nat)
  /-- It was read before as a whole. -/
  | held
  /-- It was put aside until the rest of its record was known. -/
  | kept
deriving DecidableEq, Repr

/-- What comes of reading a value. -/
abbrev Decoded (β : Type) := Except DocFault β

/-- How values of a type are read. -/
abbrev Decoder (α β : Type) := Source → Doc α → Decoded β

/-- The source inside a list or a record. -/
def Source.enter : Source → Decoded Source
  | .reading 0 => .error .malformed
  | .reading (room + 1) => .ok (.reading room)
  | .held => .ok .held
  | .kept => .ok .kept

/-- How something is refused that cannot stand where it stands: in a
text it is not well formed, and in a whole value it has the wrong
shape. -/
def Source.misplaced : Source → DocFault
  | .reading _ => .malformed
  | _ => .mismatched

/-- The levels of lists and records that a value may still have. -/
def Source.room : Source → Nat
  | .reading room => room
  | _ => Doc.maxLevels

namespace Decode

variable {α β γ : Type}

/-! ## Single values -/

/-- A text. -/
def text : Decoder α String
  | _, .str (some s) => .ok s
  | _, d => .error d.refusal

/-- A truth value. -/
def flag : Decoder α Bool
  | _, .bool b => .ok b
  | _, d => .error d.refusal

/-- A count below a bound. -/
def natural (bound : Nat) : Decoder α Nat
  | _, .int n => if 0 ≤ n && decide (n < bound) then .ok n.toNat else .error .mismatched
  | _, d => .error d.refusal

/-- A count that fits 32 bits. -/
def count32 : Decoder α Nat := natural (1 <<< 32)

/-- A count that fits 64 bits. -/
def count64 : Decoder α Nat := natural (1 <<< 64)

/-- An integer as a number of a battle. -/
def ofInt [Scalar α] (n : Int) : α :=
  if 0 ≤ n then Scalar.ofNat n.toNat else -(Scalar.ofNat n.natAbs)

/-- A number. -/
def number [Scalar α] : Decoder α α
  | _, .int n => .ok (ofInt n)
  | _, .real x => .ok x
  | _, d => .error d.refusal

/-- A value or null. -/
def nullable (inner : Decoder α β) : Decoder α (Option β)
  | _, .null => .ok none
  | _, .broken (.word 'n') b => .error b.wanted
  | src, d => (inner src d).map some

/-- The items of a list, one after another. -/
def items (inner : Decoder α β) (src : Source) : List (Doc α) → Decoded (List β)
  | [] => .ok []
  | d :: ds => do
    let x ← inner src d
    let xs ← items inner src ds
    .ok (x :: xs)

/-- A list. -/
def listOf (inner : Decoder α β) : Decoder α (List β)
  | src, .arr ds breach => do
    let inside ← src.enter
    let xs ← items inner inside ds
    Doc.closed breach
    .ok xs
  | _, d => .error d.refusal

/-- A whole value of any shape, with members by ascending name. -/
def any : Decoder α (Json α)
  | src, d => (d.hold src.room).map Json.canonical

/-- A value that is held as a whole before its shape is looked at. -/
def whole (inner : Doc α → Decoded β) : Decoder α β
  | .reading room, d =>
    match d.hold room with
    | .ok v => inner (.ofJson v)
    | .error f => .error f
  | _, d => inner d

/-- The value of a name, or a refusal. -/
def named (names : List (String × β)) (name : String) : Decoded β :=
  match names.lookup name with
  | some x => .ok x
  | none => .error .mismatched

/-- Null and nothing else; in a value that was put aside, also a record
without members. -/
def nothing : Decoder α Unit
  | _, .null => .ok ()
  | .kept, .obj [] none => .ok ()
  | _, d => .error d.refusal

/-- One of a list of names: the name itself, or a record with the name
as its only member, and nothing there. -/
def choice (names : List (String × β)) : Decoder α β
  | _, .str (some s) => named names s
  | _, .str none => .error .malformed
  | src, .obj [] none => .error src.misplaced
  | _, .obj [] (some b) => .error b.chosen
  | src, .obj ((name, d) :: rest) breach => do
    let inside ← src.enter
    match name with
    | none => .error .malformed
    | some name =>
      let x ← named names name
      nothing inside d
      match rest, breach with
      | [], none => .ok x
      | [], some b => .error b.chosen
      | _ :: _, _ => .error src.misplaced
  | _, .broken .text b => .error b.wanted
  | _, .broken .nothing b => .error b.wanted
  | src, _ => .error src.misplaced

/-- A value that is made from another one, or refused. -/
def refine (inner : Decoder α β) (f : β → Option γ) : Decoder α γ :=
  fun src d =>
    match inner src d with
    | .ok x =>
      match f x with
      | some y => .ok y
      | none => .error .mismatched
    | .error e => .error e

end Decode

/-! ## Records -/

/-- A field of a record: its names, and a check of its value. -/
structure Field (α : Type) where
  names : List String
  check : Decoder α Unit

/-- A field whose values have a type. -/
def Field.of {α β : Type} (names : List String) (d : Decoder α β) : Field α :=
  ⟨names, fun src doc => (d src doc).map fun _ => ()⟩

/-- The name that a field is filed under. -/
def Field.name {α : Type} (f : Field α) : String := f.names.headD ""

/-- The members of a record that belong to its fields, by field
name. -/
structure Record (α : Type) where
  source : Source
  members : List (String × Doc α)
  /-- Was it written as a list? -/
  listed : Bool

namespace Record

variable {α β : Type}

/-- The value of a field that has to be there. -/
def need (r : Record α) (name : String) (d : Decoder α β) : Decoded β :=
  match r.members.lookup name with
  | some doc => d r.source doc
  | none => .error .mismatched

/-- The value of a field, or another one if it is not there. -/
def get (r : Record α) (name : String) (d : Decoder α β) (standard : β) : Decoded β :=
  match r.members.lookup name with
  | some doc => d r.source doc
  | none => .ok standard

/-- The value of a field that may be missing, but not from a list. -/
def optional (r : Record α) (name : String) (d : Decoder α (Option β)) : Decoded (Option β) :=
  if r.listed then r.need name d else r.get name d none

end Record

namespace Decode

variable {α β : Type}

/-- The members of a record that belong to fields, and the others as
they are. -/
abbrev Sorted (α : Type) := List (String × Doc α) × List (String × Json α)

/-- Looks at the members of a record in order. Members that belong to
no field go through `other`; `seen` are the names that came before. -/
def members (fields : List (Field α)) (other : Source → Doc α → Decoded (Option (Json α)))
    (src : Source) : List String → List (Option String × Doc α) → Decoded (Sorted α)
  | _, [] => .ok ([], [])
  | _, (none, _) :: _ => .error .malformed
  | seen, (some name, d) :: rest =>
    match fields.find? fun f => f.names.contains name with
    | some f =>
      if seen.contains f.name then .error .mismatched
      else do
        f.check src d
        let r ← members fields other src (f.name :: seen) rest
        .ok ((f.name, d) :: r.1, r.2)
    | none => do
      let v ← other src d
      let r ← members fields other src seen rest
      match v with
      | some v => .ok (r.1, (name, v) :: r.2)
      | none => .ok r

/-- Members that nobody looks at. -/
def ignored : Source → Doc α → Decoded (Option (Json α))
  | _, d => d.skip.map fun _ => none

/-- Members that are kept for later. -/
def kept : Source → Doc α → Decoded (Option (Json α))
  | src, d => (d.hold src.room).map some

/-- Looks at the items of a list as the fields of a record, in
order. -/
def positions (src : Source) (breach : Option Breach) :
    List (Field α) → List (Doc α) → Decoded (List (String × Doc α))
  | _, [] => do
    Doc.closed breach
    .ok []
  | [], _ :: _ => .error src.misplaced
  | f :: fs, d :: ds => do
    f.check src d
    let r ← positions src breach fs ds
    .ok ((f.name, d) :: r)

/-- The members of a record, which may also be written as a list. -/
def record (fields : List (Field α)) (build : Record α → Decoded β) : Decoder α β
  | src, .obj ms breach => do
    let inside ← src.enter
    let r ← members fields ignored inside [] ms
    Doc.closed breach
    build ⟨inside, r.1, false⟩
  | src, .arr ds breach => do
    let inside ← src.enter
    let r ← positions inside breach fields ds
    build ⟨inside, r, true⟩
  | _, d => .error d.refusal

/-- The members of a record whose other members are looked at as a
whole afterwards. -/
def openRecord (fields : List (Field α))
    (build : Record α → List (String × Json α) → Decoded β) : Decoder α β
  | src, .obj ms breach => do
    let inside ← src.enter
    let r ← members fields kept inside [] ms
    Doc.closed breach
    build ⟨inside, r.1, false⟩ r.2
  | _, d => .error d.refusal

/-- The fields of a record inside the other members of an open one; the
members that belong to none of them are left alone. -/
def within (fields : List (Field α)) (rest : List (String × Json α))
    (build : Record α → Decoded β) : Decoded β := do
  let r ← members fields ignored .kept [] (Doc.ofMembers rest)
  build ⟨.kept, r.1, false⟩

/-- A whole value that was read before. -/
def ofHeld (d : Decoder α β) (v : Json α) : Decoded β := d .held (.ofJson v)

/-! ## Records with a tag -/

/-- Looks at the members of a record in order. The member `tag` names
one of a list, and the others are kept. -/
def tagMembers {γ : Type} (tag : String) (names : List (String × γ)) (src : Source) :
    Option γ → List (Option String × Doc α) → Decoded (Option γ × List (String × Json α))
  | found, [] => .ok (found, [])
  | _, (none, _) :: _ => .error .malformed
  | found, (some name, d) :: rest =>
    if name = tag then
      if found.isSome then .error .mismatched
      else do
        let x ← named names (← text src d)
        tagMembers tag names src (some x) rest
    else do
      let v ← d.hold src.room
      let r ← tagMembers tag names src found rest
      .ok (r.1, (name, v) :: r.2)

/-- A record whose member `tag` tells how its other members are read; it
may also be written as a list with the tag first. -/
def tagged (tag : String) (kinds : List (String × Decoder α β)) : Decoder α β
  | src, .obj ms breach => do
    let inside ← src.enter
    let r ← tagMembers tag kinds inside none ms
    Doc.closed breach
    match r.1 with
    | some d => d .kept (.obj (Doc.ofMembers r.2) none)
    | none => .error .mismatched
  | src, .arr [] breach => do
    let _ ← src.enter
    Doc.closed breach
    .error .mismatched
  | src, .arr (t :: ds) breach => do
    let inside ← src.enter
    let d ← named kinds (← text inside t)
    let vs ← Doc.holdItems inside.room ds
    Doc.closed breach
    d .kept (.arr (Doc.ofItems vs) none)
  | _, d => .error d.refusal

/-- A record that has nothing but its tag. -/
def bare (x : β) : Decoder α β
  | _, .obj _ _ => .ok x
  | _, .arr [] _ => .ok x
  | _, _ => .error .mismatched

variable [Scalar α]

/-- The value of a document and what follows it. -/
def ofWhole (d : Decoder α β) (w : Doc.Whole α) : Decoded β :=
  match d (.reading Doc.maxLevels) w.doc with
  | .error f => .error f
  | .ok x => if w.trailing then .error .malformed else .ok x

/-- The value of a whole text. -/
def decodeText (d : Decoder α β) (cs : List Char) : Decoded β := ofWhole d (Doc.scanAll cs)

end Decode
end DeckDuel
