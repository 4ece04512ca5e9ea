/-
DeckDuel.Report — how a battle went, in numbers and in words.

* `FighterReport`, `Report` — the summary of a battle at any moment.
* `Report.narrative` — the same as a text of three sentences: who won,
  and how each side came out of it.
-/
import DeckDuel.Battle

namespace DeckDuel

/-- A held status in a report. -/
structure StatusReport where
  id : String
  name : String
  stackCount : Nat
deriving DecidableEq, Repr

/-- The stats of one side in a report. -/
structure FighterReport (α : Type) where
  name : String
  hp : α
  maxHp : α
  lust : α
  maxLust : α
  block : α
  statuses : List StatusReport
  /-- The wrapped texts of its abilities. -/
  abilities : List String
deriving DecidableEq, Repr

/-- The summary of a battle. -/
structure Report (α : Type) where
  /-- None while the battle goes on. -/
  outcome : Option Outcome
  turns : Nat
  player : FighterReport α
  enemy : FighterReport α
deriving DecidableEq, Repr

variable {α : Type}

/-- The report of a fighter. -/
def Fighter.report (f : Fighter α) : FighterReport α :=
  ⟨f.name, f.hp, f.maxHp, f.lust, f.maxLust, f.block,
    f.statuses.map fun s => ⟨s.id, s.name, s.stackCount⟩, f.abilities.map Ability.effect⟩

/-- The report of a battle. -/
def Battle.report (b : Battle α) : Report α :=
  ⟨b.outcome, b.turn, b.player.fighter.report, b.enemy.fighter.report⟩

/-- Did the player win? -/
def Report.isVictory (r : Report α) : Bool := r.outcome == some .victory

variable [Scalar α]

/-- How a side came out of the battle. -/
def FighterReport.describe (f : FighterReport α) : String :=
  let stats := f.name ++ " ended with " ++ Scalar.text f.hp ++ "/" ++ Scalar.text f.maxHp ++
    " HP and " ++ Scalar.text f.lust ++ "/" ++ Scalar.text f.maxLust ++ " lust"
  let statuses := f.statuses.map fun s => s.name ++ " x" ++ toString s.stackCount
  if statuses.isEmpty then stats ++ "."
  else stats ++ ", affected by " ++ String.intercalate ", " statuses ++ "."

/-- Who won, and in how many turns. -/
def Report.headline (r : Report α) : String :=
  let turns := if r.turns = 1 then "1 turn" else toString r.turns ++ " turns"
  match r.outcome with
  | some .victory => r.player.name ++ " defeated " ++ r.enemy.name ++ " in " ++ turns ++ "."
  | some .defeat =>
    r.player.name ++ " was defeated by " ++ r.enemy.name ++ " after " ++ turns ++ "."
  | none =>
    r.player.name ++ " and " ++ r.enemy.name ++ " are still fighting after " ++ turns ++ "."

/-- The report in words. -/
def Report.narrative (r : Report α) : String :=
  r.headline ++ " " ++ r.player.describe ++ " " ++ r.enemy.describe

end DeckDuel
