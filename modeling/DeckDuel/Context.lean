/-
DeckDuel.Context — where a running effect comes from.

A context travels with an effect text. An effect that is set off from
inside another gets the `child` of its context: the card in play and
the energy before it was paid go on, everything about the trigger
starts anew.
-/
import DeckDuel.Effect.Clause
import DeckDuel.Side

namespace DeckDuel

/-- The status whose text is running. -/
structure StatusSource where
  id : String
  holder : Side
  /-- The stacks that were put into its text. -/
  stackCount : Nat
deriving DecidableEq, Repr

/-- Where a running effect comes from. -/
structure Context (α : Type) where
  /-- The target of units that name none. -/
  target : Option Target
  /-- The moment that set the effect off. -/
  trigger : Option String
  /-- The uid of the card in play. -/
  card : Option Nat
  status : Option StatusSource
  /-- The id of the ability that runs. -/
  ability : Option String
  relic : Bool
  /-- The energy before the card in play was paid. -/
  energyBefore : Option α
deriving DecidableEq, Repr

namespace Context

variable {α : Type}

/-- The context of an effect that nothing set off. -/
def plain : Context α := ⟨none, none, none, none, none, false, none⟩

/-- The context for effects set off from inside this one. -/
def child (c : Context α) : Context α :=
  { (plain : Context α) with card := c.card, energyBefore := c.energyBefore }

/-- The child context for a text of a moment. -/
def onTrigger (c : Context α) (trigger : String) : Context α :=
  { c.child with trigger := some trigger }

/-- The source of the effect, as messages name it. -/
def source (c : Context α) : Option String :=
  match c.status, c.ability, c.relic with
  | some s, _, _ => some ("status " ++ s.id ++ " (" ++ s.holder.name ++ ")")
  | none, some id, _ => some ("ability " ++ id)
  | none, none, true => some "relic"
  | none, none, false => c.card.map fun uid => "card " ++ toString uid

/-- The source of the effect and the moment that set it off; none for
an effect that nothing set off. -/
def origin (c : Context α) : Option String :=
  match c.source, c.trigger with
  | some source, some trigger => some (source ++ " on " ++ trigger)
  | source, none => source
  | none, some trigger => some trigger

end Context
end DeckDuel
