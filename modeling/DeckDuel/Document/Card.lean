/-
DeckDuel.Document.Card — cards and relics as documents.

    card  := { uid?, id, name, cost?, effect?, type?, exhaust?, description? }
    relic := { id, name, effect, description? }
-/
import DeckDuel.Card
import DeckDuel.Fighter
import DeckDuel.Json.Decode

namespace DeckDuel.Document

open Decode

variable {α : Type} [Scalar α]

/-- The fields of a card. -/
def cardFields : List (Field α) :=
  [.of ["uid"] count32, .of ["id"] text, .of ["name"] text, .of ["cost"] number,
   .of ["effect"] text, .of ["type", "card_type"] (choice CardKind.names),
   .of ["exhaust"] flag, .of ["description"] text]

/-- Reads a card. -/
def readCard : Decoder α (Card α) :=
  record cardFields fun r => do
    .ok { uid := ← r.get "uid" count32 0
          id := ← r.need "id" text
          name := ← r.need "name" text
          cost := ← r.get "cost" number 0
          effect := ← r.get "effect" text ""
          kind := ← r.get "type" (choice CardKind.names) .attack
          exhausts := ← r.get "exhaust" flag false
          description := ← r.get "description" text "" }

/-- Writes a card. -/
def writeCard (c : Card α) : Json α :=
  .obj
    [("uid", .nat c.uid), ("id", .str c.id), ("name", .str c.name), ("cost", .ofNumber c.cost),
     ("effect", .str c.effect), ("type", .str c.kind.name), ("exhaust", .bool c.exhausts),
     ("description", .str c.description)]

/-- The fields of a relic. -/
def relicFields : List (Field α) :=
  [.of ["id"] text, .of ["name"] text, .of ["effect"] text, .of ["description"] text]

/-- Reads a relic. -/
def readRelic : Decoder α Relic :=
  record relicFields fun r => do
    .ok { id := ← r.need "id" text
          name := ← r.need "name" text
          effect := ← r.need "effect" text
          description := ← r.get "description" text "" }

/-- Writes a relic. -/
def writeRelic (r : Relic) : Json α :=
  .obj
    [("id", .str r.id), ("name", .str r.name), ("effect", .str r.effect),
     ("description", .str r.description)]

end DeckDuel.Document
