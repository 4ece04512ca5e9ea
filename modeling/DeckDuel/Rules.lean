/-
DeckDuel.Rules — what a host may set for a battle.
-/

namespace DeckDuel

/-- How the enemy chooses its action. -/
inductive ActionOrder where
  /-- In the order of its list, starting over at the end. -/
  | sequential
  /-- Any of them, each turn anew. -/
  | random
deriving DecidableEq, Repr

/-- The name of an order. -/
def ActionOrder.name : ActionOrder → String
  | .sequential => "sequential"
  | .random => "random"

/-- The orders with their names. -/
def ActionOrder.names : List (String × ActionOrder) :=
  [("sequential", .sequential), ("random", .random)]

/-- The rules of a battle. -/
structure Rules where
  /-- The seed of the random stream. -/
  seed : UInt64
  /-- Cards drawn at the start of each turn after the first. -/
  drawPerTurn : Nat
  /-- Cards drawn at the start of the first turn. -/
  startingDraw : Nat
  /-- The most cards that the hand takes; cards drawn past it are
  burned. -/
  handLimit : Nat
  /-- The stack cap of statuses that set none. -/
  defaultMaxStacks : Nat
  /-- How deep effects may run inside effects. -/
  maxNesting : Nat
  /-- Is block lost at the start of a side's turn? -/
  resetsBlock : Bool
  actionOrder : ActionOrder
deriving DecidableEq, Repr

/-- The rules that hold where a host sets nothing. -/
def Rules.standard : Rules := ⟨42, 5, 5, 10, 999, 32, true, .sequential⟩

end DeckDuel
