/-
DeckDuel.Trigger — moments of a battle, and abilities bound to them.

* `Trigger` — the moments that effects can be bound to, and the passive
  state.
* `unwrap` — splits a text `name(inner)` into its name and its inner
  text.
* `Ability` — an effect text wrapped in the name of a moment. The text
  is read anew each time the moment comes, so it alone decides what
  happens.
-/
import DeckDuel.Effect.Split
import DeckDuel.Text.Word

namespace DeckDuel

open DeckDuel.Text

/-- The moments that effects can be bound to. -/
inductive Trigger where
  | battleStart | turnStart | turnEnd | cardPlayed
  | takeDamage | dealDamage | takeHeal
  | gainBlock | loseBlock
  | gainBuff | gainDebuff
  | lustIncrease | lustOverflow
  /-- Never comes: read for the modifiers it holds. -/
  | passive
deriving DecidableEq, Repr

namespace Trigger

/-- Every trigger. -/
def all : List Trigger :=
  [battleStart, turnStart, turnEnd, cardPlayed, takeDamage, dealDamage, takeHeal, gainBlock,
   loseBlock, gainBuff, gainDebuff, lustIncrease, lustOverflow, passive]

/-- The keyword of a trigger in effect texts. -/
def keyword : Trigger → String
  | battleStart => "battle_start"
  | turnStart => "turn_start"
  | turnEnd => "turn_end"
  | cardPlayed => "card_played"
  | takeDamage => "take_damage"
  | dealDamage => "deal_damage"
  | takeHeal => "take_heal"
  | gainBlock => "gain_block"
  | loseBlock => "lose_block"
  | gainBuff => "gain_buff"
  | gainDebuff => "gain_debuff"
  | lustIncrease => "lust_increase"
  | lustOverflow => "lust_overflow"
  | passive => "passive"

/-- The trigger of a keyword. -/
def ofKeyword? (s : String) : Option Trigger := all.find? fun t => t.keyword == s

/-- Is the text the keyword of a trigger? -/
def isKeyword (s : String) : Bool := (ofKeyword? s).isSome

end Trigger

/-- Splits `name(inner)` into the name and the trimmed inner text. The
name is one word; blanks may surround the whole, and the last closing
parenthesis ends the inner text. -/
def unwrap (cs : List Char) : Option (List Char × List Char) :=
  (word? (trim cs)).bind fun r =>
    match r.2 with
    | '(' :: rest => (dropLast? ')' rest).map fun inner => (r.1, trim inner)
    | _ => none

/-- The segments of a text that are wrapped in the passive keyword. -/
def passiveSegments (cs : List Char) : List (List Char) :=
  ((Effect.split cs).filterMap unwrap).filterMap fun (name, inner) =>
    if String.ofList name = Trigger.passive.keyword then some inner else none

/-- An ability held by one side. -/
structure Ability where
  id : String
  /-- The name its text was wrapped in when it was made. -/
  trigger : String
  /-- The whole wrapped text. -/
  effect : String
  description : String
deriving DecidableEq, Repr

namespace Ability

/-- The ability of a wrapped text; any word may be the name. -/
def ofEffect? (id effect : String) : Option Ability :=
  (unwrap effect.toList).map fun (name, _) => ⟨id, String.ofList name, effect, ""⟩

/-- The inner text of an ability, if its text is wrapped in `name`. -/
def innerFor? (a : Ability) (name : String) : Option String :=
  (unwrap a.effect.toList).bind fun (n, inner) =>
    if String.ofList n = name then some (String.ofList inner) else none

end Ability
end DeckDuel
