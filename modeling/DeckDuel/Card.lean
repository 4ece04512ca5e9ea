/-
DeckDuel.Card — cards as they exist in a battle.

A card is authored data (name, cost, effect text) and a number, its
`uid`, that tells copies of the same card apart. A uid of zero means
that none has been given yet.
-/
import DeckDuel.Scalar

namespace DeckDuel

/-- The broad category of a card. -/
inductive CardKind where
  | attack | skill | power | curse | status
deriving DecidableEq, Repr, Inhabited

/-- The categories with their names. -/
def CardKind.names : List (String × CardKind) :=
  [("attack", .attack), ("skill", .skill), ("power", .power), ("curse", .curse),
   ("status", .status)]

/-- The name of a category. -/
def CardKind.name : CardKind → String
  | .attack => "attack"
  | .skill => "skill"
  | .power => "power"
  | .curse => "curse"
  | .status => "status"

/-- A card. -/
structure Card (α : Type) where
  uid : Nat
  id : String
  name : String
  cost : α
  effect : String
  kind : CardKind
  /-- Does a played copy leave for the exhaust pile? -/
  exhausts : Bool
  description : String
deriving Repr

/-- A card without uid, of the first category and with no
description. -/
def Card.plain {α : Type} (id name : String) (cost : α) (effect : String) : Card α :=
  ⟨0, id, name, cost, effect, .attack, false, ""⟩

end DeckDuel
