/-
DeckDuel.Engine.Ability — gaining and losing abilities.

* `Live.addAbility?` — attaches a text that is wrapped in the keyword
  of a trigger. Each attempt uses up an id.
* `Live.removeAbilities` — removes abilities by keyword or by id.
* `runAbility` — units of abilities. A unit that names no side acts on
  the side that runs it.
-/
import DeckDuel.Engine.Reaction
import DeckDuel.Engine.Stat

namespace DeckDuel

variable {α : Type} [Scalar α]

namespace Live

/-- Attaches an ability; its id, and nothing if the text is not wrapped
in a keyword. -/
def addAbility? (l : Live α) (side : Side) (effect : String) : Option String × Live α :=
  let made := l.abilitiesMade + 1
  let id := "ability_" ++ toString made
  let l := { l with abilitiesMade := made }
  match (Ability.ofEffect? id effect).filter fun a => Trigger.isKeyword a.trigger with
  | none => (none, l)
  | some a =>
    (some id, (l.mapFighter side fun f => { f with abilities := f.abilities ++ [a] }).emit
      (.abilityAdded side effect))

/-- Is an ability meant by a key? A key that is the keyword of a trigger
means every ability of the trigger, any other key an id. -/
def meantBy (key : String) (a : Ability) : Bool :=
  if Trigger.isKeyword key then a.trigger == key else a.id == key

/-- Removes the abilities that a key means; how many they were. -/
def removeAbilities (l : Live α) (side : Side) (key : String) : Nat × Live α :=
  let before := (l.fighter side).abilities
  let kept := before.filter fun a => !meantBy key a
  (before.length - kept.length, l.mapFighter side fun f => { f with abilities := kept })

end Live

/-- Attaches an ability; its id. -/
def addAbility (side : Side) (effect : String) : Attempt α String := do
  match ← modifyGet fun l => l.addAbility? side effect with
  | some id => pure id
  | none => throw (.invalidValue effect)

/-- The side that a unit of abilities acts on. -/
def abilitySide (c : Clause α) (me : Side) (ctx : Context α) : Except Refusal Side :=
  match c.target.or ctx.target with
  | some .all => .error (.unexpandedAll c.raw)
  | some .op => .ok me.opponent
  | some .me => .ok me
  | none => .ok me

/-- Runs a unit of abilities. -/
def runAbility (c : Clause α) (me : Side) (ctx : Context α) : Attempt α Unit := do
  let side ← abilitySide c me ctx
  match c.form with
  | .grant _ text =>
    let _ ← addAbility side text
    pure ()
  | .revoke key => modify fun l => (l.removeAbilities side key).2
  | .passive _ => throw (.unsupportedOperator "ability" "")
  | _ => throw (.invalidValue c.raw)

end DeckDuel
