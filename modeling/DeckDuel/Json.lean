/-
DeckDuel.Json — structured values and their text.

* `Json` — null, truth values, integers, numbers of a battle, texts,
  lists, and records with their members in order.
* `Json.ofNumber` — a number as a value; one that is not finite has no
  text, and is null.
* `Json.canonical` — members by ascending name, the last one of a name.
* `Json.print` — the text without blanks; texts are escaped only where
  they have to be.
-/
import DeckDuel.Scalar

namespace DeckDuel

/-- A structured value. -/
inductive Json (α : Type) where
  | null
  | bool (b : Bool)
  | int (n : Int)
  | real (x : α)
  | str (s : String)
  | arr (items : List (Json α))
  | obj (members : List (String × Json α))

namespace Json

variable {α : Type}

/-- A count. -/
def nat (n : Nat) : Json α := .int n

/-- A list of texts. -/
def strs (ss : List String) : Json α := .arr (ss.map .str)

/-- A value that may be missing. -/
def opt {β : Type} (f : β → Json α) : Option β → Json α
  | some x => f x
  | none => .null

/-- A number; null if it is not finite. -/
def ofNumber [Scalar α] (x : α) : Json α := if Scalar.isFinite x then .real x else .null

/-! ## Records by ascending name -/

/-- Puts a member in its place by name; it takes the place of a member
with its name. -/
def insertMember {β : Type} (k : String) (v : β) : List (String × β) → List (String × β)
  | [] => [(k, v)]
  | (k', v') :: rest =>
    if k = k' then (k, v) :: rest
    else if k < k' then (k, v) :: (k', v') :: rest
    else (k', v') :: insertMember k v rest

/-- Members by ascending name; the last one of a name counts. -/
def sortMembers {β : Type} (ms : List (String × β)) : List (String × β) :=
  ms.foldl (fun sorted m => insertMember m.1 m.2 sorted) []

mutual

/-- The value with the members of every record by ascending name. -/
def canonical : Json α → Json α
  | .arr items => .arr (canonicalItems items)
  | .obj members => .obj (sortMembers (canonicalMembers members))
  | .null => .null
  | .bool b => .bool b
  | .int n => .int n
  | .real x => .real x
  | .str s => .str s

/-- The items of a list, each with its members by ascending name. -/
def canonicalItems : List (Json α) → List (Json α)
  | [] => []
  | v :: vs => v.canonical :: canonicalItems vs

/-- The members of a record, each with its own members by ascending
name. -/
def canonicalMembers : List (String × Json α) → List (String × Json α)
  | [] => []
  | (k, v) :: ms => (k, v.canonical) :: canonicalMembers ms

end

/-! ## Text -/

/-- The lower-case hexadecimal digit of a number below sixteen. -/
def hexDigit (n : Nat) : Char := "0123456789abcdef".toList.getD n '0'

/-- A character inside quotes. -/
def escapeChar (c : Char) : List Char :=
  if c = '"' then ['\\', '"']
  else if c = '\\' then ['\\', '\\']
  else if c = '\n' then ['\\', 'n']
  else if c = '\t' then ['\\', 't']
  else if c = '\r' then ['\\', 'r']
  else if c.toNat = 8 then ['\\', 'b']
  else if c.toNat = 12 then ['\\', 'f']
  else if c.toNat < 32 then
    ['\\', 'u', '0', '0', hexDigit (c.toNat / 16), hexDigit (c.toNat % 16)]
  else [c]

/-- A text in quotes. -/
def quote (s : String) : List Char := '"' :: s.toList.flatMap escapeChar ++ ['"']

variable [Scalar α]

mutual

/-- The text of a value. -/
def write : Json α → List Char
  | .null => "null".toList
  | .bool true => "true".toList
  | .bool false => "false".toList
  | .int n => (toString n).toList
  | .real x => (Scalar.documentText x).toList
  | .str s => quote s
  | .arr items => '[' :: writeItems items
  | .obj members => '{' :: writeMembers members

/-- The text of a list after its opening bracket. -/
def writeItems : List (Json α) → List Char
  | [] => [']']
  | [v] => v.write ++ [']']
  | v :: w :: vs => v.write ++ ',' :: writeItems (w :: vs)

/-- The text of a record after its opening bracket. -/
def writeMembers : List (String × Json α) → List Char
  | [] => ['}']
  | [(k, v)] => quote k ++ ':' :: v.write ++ ['}']
  | (k, v) :: m :: ms => quote k ++ ':' :: v.write ++ ',' :: writeMembers (m :: ms)

end

/-- The text of a value. -/
def print (v : Json α) : String := String.ofList v.write

end Json
end DeckDuel
