/-
DeckDuel.Document.Rules — the rules of a battle as a document.

Every field may be missing; the standard rules hold then.
-/
import DeckDuel.Json.Decode
import DeckDuel.Rules

namespace DeckDuel.Document

open Decode

variable {α : Type} [Scalar α]

/-- The fields of rules. -/
def rulesFields : List (Field α) :=
  [.of ["seed"] count64, .of ["draw_per_turn"] count64, .of ["starting_draw"] count64,
   .of ["hand_limit"] count64, .of ["default_max_stacks"] count32,
   .of ["max_nesting_depth"] count32, .of ["reset_block_each_turn"] flag,
   .of ["enemy_action_order"] (choice ActionOrder.names)]

/-- Reads rules. -/
def readRules : Decoder α Rules :=
  record rulesFields fun r => do
    let s := Rules.standard
    .ok { seed := .ofNat (← r.get "seed" count64 s.seed.toNat)
          drawPerTurn := ← r.get "draw_per_turn" count64 s.drawPerTurn
          startingDraw := ← r.get "starting_draw" count64 s.startingDraw
          handLimit := ← r.get "hand_limit" count64 s.handLimit
          defaultMaxStacks := ← r.get "default_max_stacks" count32 s.defaultMaxStacks
          maxNesting := ← r.get "max_nesting_depth" count32 s.maxNesting
          resetsBlock := ← r.get "reset_block_each_turn" flag s.resetsBlock
          actionOrder := ← r.get "enemy_action_order" (choice ActionOrder.names) s.actionOrder }

/-- Writes rules. -/
def writeRules (s : Rules) : Json α :=
  .obj
    [("seed", .nat s.seed.toNat), ("draw_per_turn", .nat s.drawPerTurn),
     ("starting_draw", .nat s.startingDraw), ("hand_limit", .nat s.handLimit),
     ("default_max_stacks", .nat s.defaultMaxStacks), ("max_nesting_depth", .nat s.maxNesting),
     ("reset_block_each_turn", .bool s.resetsBlock),
     ("enemy_action_order", .str s.actionOrder.name)]

end DeckDuel.Document
