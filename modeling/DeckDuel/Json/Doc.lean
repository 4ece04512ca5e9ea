/-
DeckDuel.Json.Doc — a document as far as its text goes.

A document is read from left to right, and the first thing that is
wrong decides how it is refused. What is wrong may be the text (it ends
early, or is not well formed) or the shape of the value. Which of them
comes first can only be told if the value is there as far as the text
allows, so a `Doc` holds the broken place where the text fails.

* `DocFault` — how a document is refused.
* `Doc` — a document with its broken places.
* `Doc.hold` — the whole value, if nothing is broken.
* `Doc.skip` — a value that nobody looks at; more is allowed in it.
-/
import DeckDuel.Json

namespace DeckDuel

/-- How a document is refused. -/
inductive DocFault where
  /-- The text ends early. -/
  | truncated
  /-- The text is not well formed. -/
  | malformed
  /-- The value has the wrong shape. -/
  | mismatched
deriving DecidableEq, Repr

/-- The name of a category. -/
def DocFault.category : DocFault → String
  | .truncated => "eof"
  | .malformed => "syntax"
  | .mismatched => "data"

/-- A broken place. -/
structure Breach where
  /-- What is wrong for a reader who wants the value. -/
  wanted : DocFault
  /-- What is wrong for a reader who skips it. -/
  skipped : DocFault
  /-- What is wrong for a reader of a choice, who takes no comma after
  its only member. -/
  chosen : DocFault := wanted
deriving DecidableEq, Repr

/-- A place that is broken for every reader. -/
def Breach.both (f : DocFault) : Breach := { wanted := f, skipped := f }

/-- How a broken value begins. -/
inductive Opening where
  /-- No value begins here. -/
  | nothing
  | text
  | number
  | word (first : Char)
deriving DecidableEq, Repr

/-- A document with its broken places. -/
inductive Doc (α : Type) where
  | null
  | bool (b : Bool)
  | int (n : Int)
  | real (x : α)
  /-- A number beyond the largest one. -/
  | tooLarge
  /-- A text; none if it has half of a surrogate pair. -/
  | str (s : Option String)
  | arr (items : List (Doc α)) (breach : Option Breach)
  | obj (members : List (Option String × Doc α)) (breach : Option Breach)
  | broken (opening : Opening) (breach : Breach)

namespace Doc

variable {α : Type}

/-- What remains after the last part: nothing, or a broken place. -/
def closed (breach : Option Breach) : Except DocFault Unit :=
  match breach with
  | none => .ok ()
  | some b => .error b.wanted

/-- The levels of lists and records that a value may have. -/
def maxLevels : Nat := 127

mutual

/-- The whole value; `room` levels are left for lists and records. -/
def hold (room : Nat) : Doc α → Except DocFault (Json α)
  | .null => .ok .null
  | .bool b => .ok (.bool b)
  | .int n => .ok (.int n)
  | .real x => .ok (.real x)
  | .tooLarge => .error .malformed
  | .str (some s) => .ok (.str s)
  | .str none => .error .malformed
  | .arr items breach =>
    if room = 0 then .error .malformed
    else do
      let vs ← holdItems (room - 1) items
      closed breach
      .ok (.arr vs)
  | .obj members breach =>
    if room = 0 then .error .malformed
    else do
      let ms ← holdMembers (room - 1) members
      closed breach
      .ok (.obj ms)
  | .broken _ b => .error b.wanted

/-- The items of a list. -/
def holdItems (room : Nat) : List (Doc α) → Except DocFault (List (Json α))
  | [] => .ok []
  | d :: ds => do
    let v ← d.hold room
    let vs ← holdItems room ds
    .ok (v :: vs)

/-- The members of a record. -/
def holdMembers (room : Nat) :
    List (Option String × Doc α) → Except DocFault (List (String × Json α))
  | [] => .ok []
  | (none, _) :: _ => .error .malformed
  | (some k, d) :: ds => do
    let v ← d.hold room
    let ms ← holdMembers room ds
    .ok ((k, v) :: ms)

end

/-- What remains after the last part that was skipped. -/
def closedSkipped (breach : Option Breach) : Except DocFault Unit :=
  match breach with
  | none => .ok ()
  | some b => .error b.skipped

mutual

/-- A value that nobody looks at. Texts may hold half surrogate pairs,
numbers may be too large, and levels are not counted. -/
def skip : Doc α → Except DocFault Unit
  | .arr items breach => do
    skipItems items
    closedSkipped breach
  | .obj members breach => do
    skipMembers members
    closedSkipped breach
  | .broken _ b => .error b.skipped
  | .null => .ok ()
  | .bool _ => .ok ()
  | .int _ => .ok ()
  | .real _ => .ok ()
  | .tooLarge => .ok ()
  | .str _ => .ok ()

/-- The items of a list that nobody looks at. -/
def skipItems : List (Doc α) → Except DocFault Unit
  | [] => .ok ()
  | d :: ds => do
    d.skip
    skipItems ds

/-- The members of a record that nobody looks at. -/
def skipMembers : List (Option String × Doc α) → Except DocFault Unit
  | [] => .ok ()
  | (_, d) :: ds => do
    d.skip
    skipMembers ds

end

mutual

/-- A whole value as a document. -/
def ofJson : Json α → Doc α
  | .null => .null
  | .bool b => .bool b
  | .int n => .int n
  | .real x => .real x
  | .str s => .str (some s)
  | .arr items => .arr (ofItems items) none
  | .obj members => .obj (ofMembers members) none

/-- The items of a list as documents. -/
def ofItems : List (Json α) → List (Doc α)
  | [] => []
  | v :: vs => ofJson v :: ofItems vs

/-- The members of a record as documents. -/
def ofMembers : List (String × Json α) → List (Option String × Doc α)
  | [] => []
  | (k, v) :: ms => (some k, ofJson v) :: ofMembers ms

end

/-- How a value is refused whose kind is not the wanted one. A text or
a number is read first; a list or a record is refused where it
begins. -/
def refusal : Doc α → DocFault
  | .tooLarge => .malformed
  | .str none => .malformed
  | .broken _ b => b.wanted
  | _ => .mismatched

end Doc
end DeckDuel
