/-
DeckDuel.Document.Snapshot — snapshots as documents.

    snapshot := { player, enemy, statusDefinitions?, turn? }
    player   := { stats …, maxEnergy?, energy?, relics?, hand?, drawPile?,
                  discardPile?, exhaustPile? }
    enemy    := { stats …, actions? }
    stats    := name, maxHp, currentHp?, maxLust?, currentLust?, block?,
                statusEffects?, abilities?, lustOverflowEffect?

The stats stand among the other members of a side.
-/
import DeckDuel.Document.Card
import DeckDuel.Snapshot

namespace DeckDuel.Document

open Decode

variable {α : Type} [Scalar α]

/-! ## Parts of a side -/

/-- The fields of a stored status. -/
def statusEntryFields : List (Field α) :=
  [.of ["id"] text, .of ["stacks"] count32, .of ["name"] text,
   .of ["type"] (nullable (choice StatusKind.names))]

/-- Reads a stored status. -/
def readStatusEntry : Decoder α StatusEntry :=
  record statusEntryFields fun r => do
    .ok { id := ← r.need "id" text
          stackCount := ← r.get "stacks" count32 1
          name := ← r.get "name" text ""
          kind := ← r.get "type" (nullable (choice StatusKind.names)) none }

/-- A member that is left out if there is no value. -/
def member? {β : Type} (name : String) (write : β → Json α) : Option β → List (String × Json α)
  | some x => [(name, write x)]
  | none => []

/-- Writes a stored status. -/
def writeStatusEntry (e : StatusEntry) : Json α :=
  .obj
    ([("id", .str e.id), ("stacks", .nat e.stackCount)] ++
      (if e.name.isEmpty then [] else [("name", .str e.name)]) ++
      member? "type" (fun k => .str k.name) e.kind)

/-- The fields of a stored ability. -/
def abilityEntryFields : List (Field α) :=
  [.of ["id"] text, .of ["trigger"] text, .of ["effect"] text, .of ["description"] text]

/-- Reads a stored ability. -/
def readAbilityEntry : Decoder α AbilityEntry :=
  record abilityEntryFields fun r => do
    .ok { id := ← r.get "id" text ""
          trigger := ← r.get "trigger" text ""
          effect := ← r.need "effect" text
          description := ← r.get "description" text "" }

/-- Writes a stored ability. -/
def writeAbilityEntry (e : AbilityEntry) : Json α :=
  .obj
    [("id", .str e.id), ("trigger", .str e.trigger), ("effect", .str e.effect),
     ("description", .str e.description)]

/-! ## Stats -/

/-- The lust that a side can have where a document does not tell. -/
def standardMaxLust : α := Scalar.ofNat 100

/-- The energy of a full turn where a document does not tell. -/
def standardMaxEnergy : α := Scalar.ofNat 3

/-- The fields of the stats. -/
def statsFields : List (Field α) :=
  [.of ["name"] text, .of ["maxHp"] number, .of ["currentHp"] (nullable number),
   .of ["maxLust"] number, .of ["currentLust"] number, .of ["block"] number,
   .of ["statusEffects"] (listOf readStatusEntry),
   .of ["abilities"] (listOf readAbilityEntry),
   .of ["lustOverflowEffect", "overflowEffect"] (nullable text)]

/-- Reads the stats among the other members of a side. -/
def readStats (rest : List (String × Json α)) : Decoded (FighterEntry α) :=
  within statsFields rest fun r => do
    .ok { name := ← r.need "name" text
          maxHp := ← r.need "maxHp" number
          hp := ← r.get "currentHp" (nullable number) none
          maxLust := ← r.get "maxLust" number standardMaxLust
          lust := ← r.get "currentLust" number 0
          block := ← r.get "block" number 0
          statuses := ← r.get "statusEffects" (listOf readStatusEntry) []
          abilities := ← r.get "abilities" (listOf readAbilityEntry) []
          overflow := ← r.get "lustOverflowEffect" (nullable text) none }

/-- Writes the stats. -/
def writeStats (e : FighterEntry α) : List (String × Json α) :=
  [("name", .str e.name), ("maxHp", .ofNumber e.maxHp)] ++ member? "currentHp" .ofNumber e.hp ++
    [("maxLust", .ofNumber e.maxLust), ("currentLust", .ofNumber e.lust),
     ("block", .ofNumber e.block), ("statusEffects", .arr (e.statuses.map writeStatusEntry)),
     ("abilities", .arr (e.abilities.map writeAbilityEntry))] ++
    member? "lustOverflowEffect" .str e.overflow

/-! ## Sides -/

/-- The player's part of a snapshot. -/
structure PlayerPart (α : Type) where
  stats : FighterEntry α
  maxEnergy : α
  energy : Option α
  relics : List Relic
  hand : List (Card α)
  draw : List (Card α)
  discard : List (Card α)
  exhaust : List (Card α)

/-- The fields of the player that are no stats. -/
def playerFields : List (Field α) :=
  [.of ["maxEnergy"] number, .of ["energy"] (nullable number), .of ["relics"] (listOf readRelic),
   .of ["hand"] (listOf readCard), .of ["drawPile"] (listOf readCard),
   .of ["discardPile"] (listOf readCard), .of ["exhaustPile"] (listOf readCard)]

/-- Reads the player. -/
def readPlayer : Decoder α (PlayerPart α) :=
  openRecord playerFields fun r rest => do
    .ok { stats := ← readStats rest
          maxEnergy := ← r.get "maxEnergy" number standardMaxEnergy
          energy := ← r.get "energy" (nullable number) none
          relics := ← r.get "relics" (listOf readRelic) []
          hand := ← r.get "hand" (listOf readCard) []
          draw := ← r.get "drawPile" (listOf readCard) []
          discard := ← r.get "discardPile" (listOf readCard) []
          exhaust := ← r.get "exhaustPile" (listOf readCard) [] }

/-- Reads the enemy: its stats and its actions. -/
def readEnemy : Decoder α (FighterEntry α × List String) :=
  openRecord [.of ["actions"] (listOf text)] fun r rest => do
    .ok (← readStats rest, ← r.get "actions" (listOf text) [])

/-! ## Snapshots -/

/-- The fields of a snapshot. -/
def snapshotFields : List (Field α) :=
  [.of ["player"] readPlayer, .of ["enemy"] readEnemy, .of ["statusDefinitions"] any,
   .of ["turn"] count32]

/-- Reads a snapshot. -/
def readSnapshot : Decoder α (Snapshot α) :=
  record snapshotFields fun r => do
    let p ← r.need "player" readPlayer
    let (enemy, actions) ← r.need "enemy" readEnemy
    .ok { player := p.stats
          maxEnergy := p.maxEnergy
          energy := p.energy
          relics := p.relics
          hand := p.hand
          draw := p.draw
          discard := p.discard
          exhaust := p.exhaust
          enemy := enemy
          actions := actions
          definitions := ← r.get "statusDefinitions" any .null
          turn := ← r.get "turn" count32 0 }

/-- Writes a snapshot. -/
def writeSnapshot (s : Snapshot α) : Json α :=
  .obj
    [("player", .obj
      (writeStats s.player ++ [("maxEnergy", .ofNumber s.maxEnergy)] ++
        member? "energy" .ofNumber s.energy ++
        [("relics", .arr (s.relics.map writeRelic)), ("hand", .arr (s.hand.map writeCard)),
         ("drawPile", .arr (s.draw.map writeCard)),
         ("discardPile", .arr (s.discard.map writeCard)),
         ("exhaustPile", .arr (s.exhaust.map writeCard))])),
     ("enemy", .obj (writeStats s.enemy ++ [("actions", .strs s.actions)])),
     ("statusDefinitions", s.definitions), ("turn", .nat s.turn)]

end DeckDuel.Document
