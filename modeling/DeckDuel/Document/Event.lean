/-
DeckDuel.Document.Event — events and actions as documents.

An event names its kind under `event`, an action under `action`; the
other members belong to the kind.
-/
import DeckDuel.Agenda
import DeckDuel.Json.Decode

namespace DeckDuel.Document

open Decode

/-- The sides with their names. -/
def sideNames : List (String × Side) := Side.both.map fun s => (s.name, s)

/-- The piles with their names. -/
def pileNames : List (String × Pile) := Pile.all.map fun p => (p.name, p)

variable {α : Type} [Scalar α]

/-- Reads a side. -/
def readSide : Decoder α Side := choice sideNames

/-- A field for a side. -/
def sideField (name : String) : Field α := .of [name] readSide

/-- A field for a text. -/
def textField (name : String) : Field α := .of [name] text

/-- A field for a number. -/
def numberField (name : String) : Field α := .of [name] number

/-- A field for a count. -/
def countField (name : String) : Field α := .of [name] count32

/-! ## Events -/

/-- Reads an event about a side and nothing else. -/
def readSided (field : String) (event : Side → Event α) : Decoder α (Event α) :=
  record [sideField field] fun r => do .ok (event (← r.need field readSide))

/-- Reads an event about a side and a text. -/
def readSidedText (name : String) (event : Side → String → Event α) : Decoder α (Event α) :=
  record [sideField "side", textField name] fun r => do
    .ok (event (← r.need "side" readSide) (← r.need name text))

/-- The kinds of events. -/
def eventKinds : List (String × Decoder α (Event α)) :=
  [("attribute_changed",
    record [sideField "side", textField "attribute", numberField "before", numberField "after"]
      fun r => do
        .ok (.attributeChanged (← r.need "side" readSide) (← r.need "attribute" text)
          (← r.need "before" number) (← r.need "after" number))),
   ("damaged",
    record [sideField "side", numberField "amount", numberField "blocked"] fun r => do
      .ok (.damaged (← r.need "side" readSide) (← r.need "amount" number)
        (← r.need "blocked" number))),
   ("healed",
    record [sideField "side", numberField "amount"] fun r => do
      .ok (.healed (← r.need "side" readSide) (← r.need "amount" number))),
   ("status_applied",
    record [sideField "side", textField "status", countField "stacks"] fun r => do
      .ok (.statusApplied (← r.need "side" readSide) (← r.need "status" text)
        (← r.need "stacks" count32))),
   ("status_stacks_changed",
    record [sideField "side", textField "status", countField "before", countField "after"]
      fun r => do
        .ok (.stacksChanged (← r.need "side" readSide) (← r.need "status" text)
          (← r.need "before" count32) (← r.need "after" count32))),
   ("status_removed", readSidedText "status" .statusRemoved),
   ("ability_added", readSidedText "ability" .abilityAdded),
   ("ability_triggered",
    record [sideField "side", textField "trigger", textField "effect"] fun r => do
      .ok (.abilityTriggered (← r.need "side" readSide) (← r.need "trigger" text)
        (← r.need "effect" text))),
   ("lust_overflow", readSided "side" .lustOverflow),
   ("cards_moved",
    record [.of ["uids"] (listOf count32), .of ["to"] (choice pileNames)] fun r => do
      .ok (.cardsMoved (← r.need "uids" (listOf count32)) (← r.need "to" (choice pileNames)))),
   ("effect_skipped",
    record [textField "raw", textField "reason", .of ["origin"] (nullable text)] fun r => do
      .ok (.skipped (← r.need "raw" text) (← r.need "reason" text)
        (← r.optional "origin" (nullable text)))),
   ("game_over", readSided "winner" .gameOver)]

/-- Reads an event. -/
def readEvent : Decoder α (Event α) := tagged "event" eventKinds

/-- Writes a side. -/
def writeSide (s : Side) : Json α := .str s.name

/-- Writes an event. -/
def writeEvent : Event α → Json α
  | .attributeChanged side attr before after =>
    .obj [("event", .str "attribute_changed"), ("side", writeSide side), ("attribute", .str attr),
      ("before", .ofNumber before), ("after", .ofNumber after)]
  | .damaged side amount blocked =>
    .obj [("event", .str "damaged"), ("side", writeSide side), ("amount", .ofNumber amount),
      ("blocked", .ofNumber blocked)]
  | .healed side amount =>
    .obj [("event", .str "healed"), ("side", writeSide side), ("amount", .ofNumber amount)]
  | .statusApplied side status stackCount =>
    .obj [("event", .str "status_applied"), ("side", writeSide side), ("status", .str status),
      ("stacks", .nat stackCount)]
  | .stacksChanged side status before after =>
    .obj [("event", .str "status_stacks_changed"), ("side", writeSide side),
      ("status", .str status), ("before", .nat before), ("after", .nat after)]
  | .statusRemoved side status =>
    .obj [("event", .str "status_removed"), ("side", writeSide side), ("status", .str status)]
  | .abilityAdded side ability =>
    .obj [("event", .str "ability_added"), ("side", writeSide side), ("ability", .str ability)]
  | .abilityTriggered side trigger effect =>
    .obj [("event", .str "ability_triggered"), ("side", writeSide side),
      ("trigger", .str trigger), ("effect", .str effect)]
  | .lustOverflow side => .obj [("event", .str "lust_overflow"), ("side", writeSide side)]
  | .cardsMoved uids goal =>
    .obj [("event", .str "cards_moved"), ("uids", .arr (uids.map .nat)), ("to", .str goal.name)]
  | .skipped raw reason origin =>
    .obj [("event", .str "effect_skipped"), ("raw", .str raw), ("reason", .str reason),
      ("origin", .opt .str origin)]
  | .gameOver winner => .obj [("event", .str "game_over"), ("winner", writeSide winner)]

/-! ## Actions -/

/-- The kinds of actions. -/
def actionKinds : List (String × Decoder α Action) :=
  [("play_card", record [countField "uid"] fun r => do .ok (.playCard (← r.need "uid" count32))),
   ("end_turn", bare .endTurn),
   ("effect",
    record [textField "text", .of ["source_is_player"] flag] fun r => do
      .ok (.effect (← r.need "text" text) (.ofIsPlayer (← r.need "source_is_player" flag))))]

/-- Reads an action. -/
def readAction : Decoder α Action := tagged "action" actionKinds

/-- Writes an action. -/
def writeAction : Action → Json α
  | .playCard uid => .obj [("action", .str "play_card"), ("uid", .nat uid)]
  | .endTurn => .obj [("action", .str "end_turn")]
  | .effect text me =>
    .obj [("action", .str "effect"), ("text", .str text), ("source_is_player", .bool me.isPlayer)]

end DeckDuel.Document
