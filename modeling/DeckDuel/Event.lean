/-
DeckDuel.Event — what can be observed of a battle.

An event reports a change after it was made, with the values that were
stored. `Event.side?` names the side that an event is about.
-/
import DeckDuel.Pile
import DeckDuel.Side

namespace DeckDuel

/-- Something that happened. -/
inductive Event (α : Type) where
  /-- A stored number changed. -/
  | attributeChanged (side : Side) (attr : String) (before after : α)
  /-- Hit points were lost; `blocked` more were absorbed by block. -/
  | damaged (side : Side) (amount blocked : α)
  | healed (side : Side) (amount : α)
  | statusApplied (side : Side) (status : String) (stackCount : Nat)
  | stacksChanged (side : Side) (status : String) (before after : Nat)
  | statusRemoved (side : Side) (status : String)
  | abilityAdded (side : Side) (ability : String)
  | abilityTriggered (side : Side) (trigger effect : String)
  /-- The lust of a side reached its maximum. -/
  | lustOverflow (side : Side)
  | cardsMoved (uids : List Nat) (goal : Pile)
  /-- A unit was left out, and why; `origin` names what ran it. -/
  | skipped (raw reason : String) (origin : Option String)
  | gameOver (winner : Side)
deriving DecidableEq, Repr

/-- The side that an event is about. -/
def Event.side? {α : Type} : Event α → Option Side
  | .attributeChanged side .. => some side
  | .damaged side .. => some side
  | .healed side _ => some side
  | .statusApplied side .. => some side
  | .stacksChanged side .. => some side
  | .statusRemoved side _ => some side
  | .abilityAdded side _ => some side
  | .abilityTriggered side .. => some side
  | .lustOverflow side => some side
  | .cardsMoved .. => none
  | .skipped .. => none
  | .gameOver winner => some winner

/-- The trigger of an ability that ran. -/
def Event.trigger? {α : Type} : Event α → Option String
  | .abilityTriggered _ trigger _ => some trigger
  | _ => none

end DeckDuel
