/-
DeckDuel.Battle — everything that an effect can read or change.

* `Player` — a fighter with energy, relics and piles.
* `Enemy` — a fighter with a list of actions.
* `Battle` — both, with the turn number, the outcome, the sides that
  fell in the running batch, and the random stream.
-/
import DeckDuel.Fighter
import DeckDuel.Pile
import DeckDuel.Side

namespace DeckDuel

/-- How a battle ended, as the player sees it. -/
inductive Outcome where
  | victory | defeat
deriving DecidableEq, Repr

namespace Outcome

/-- The outcome when a side wins. -/
def ofWinner : Side → Outcome
  | .player => victory
  | .enemy => defeat

/-- The side that won. -/
def winner : Outcome → Side
  | victory => .player
  | defeat => .enemy

/-- The name of an outcome. -/
def name : Outcome → String
  | victory => "victory"
  | defeat => "defeat"

end Outcome

/-- The player's side. -/
structure Player (α : Type) where
  fighter : Fighter α
  energy : α
  maxEnergy : α
  relics : List Relic
  piles : Piles α
deriving Repr

/-- A player with full energy. -/
def Player.fresh {α : Type} [Scalar α] (fighter : Fighter α) (maxEnergy : α) : Player α :=
  let maxEnergy := Scalar.atLeast 1 maxEnergy
  ⟨fighter, maxEnergy, maxEnergy, [], .empty⟩

/-- The enemy's side. -/
structure Enemy (α : Type) where
  fighter : Fighter α
  /-- The effect texts it acts with. -/
  actions : List String
  /-- Which of them comes next, when they come in order. -/
  nextAction : Nat
deriving Repr

/-- The state of a battle. -/
structure Battle (α : Type) where
  player : Player α
  enemy : Enemy α
  /-- The number of the player's turn; zero before the first. -/
  turn : Nat
  outcome : Option Outcome
  /-- The sides whose hit points reached zero during the outermost
  batch. -/
  fallen : Both Bool
  stream : Random.Stream
deriving Repr

namespace Battle

variable {α : Type}

/-- A battle before its first turn. -/
def start (player : Player α) (enemy : Enemy α) (seed : UInt64) : Battle α :=
  ⟨player, enemy, 0, none, .same false, .ofSeed seed⟩

/-- The fighter of a side. -/
def fighter (b : Battle α) : Side → Fighter α
  | .player => b.player.fighter
  | .enemy => b.enemy.fighter

/-- The battle with another fighter on one side. -/
def setFighter (b : Battle α) (s : Side) (f : Fighter α) : Battle α :=
  match s with
  | .player => { b with player := { b.player with fighter := f } }
  | .enemy => { b with enemy := { b.enemy with fighter := f } }

/-- The battle with the fighter of one side changed. -/
def mapFighter (b : Battle α) (s : Side) (f : Fighter α → Fighter α) : Battle α :=
  b.setFighter s (f (b.fighter s))

/-- The player's piles. -/
def piles (b : Battle α) : Piles α := b.player.piles

/-- The battle with other piles. -/
def setPiles (b : Battle α) (ps : Piles α) : Battle α :=
  { b with player := { b.player with piles := ps } }

/-- The battle with other energy. -/
def setEnergy (b : Battle α) (x : α) : Battle α :=
  { b with player := { b.player with energy := x } }

/-- Is the battle decided? -/
def isOver (b : Battle α) : Bool := b.outcome.isSome

@[simp] theorem fighter_setFighter_self (b : Battle α) (s : Side) (f : Fighter α) :
    (b.setFighter s f).fighter s = f := by
  cases s <;> rfl

@[simp] theorem fighter_setFighter_opponent (b : Battle α) (s : Side) (f : Fighter α) :
    (b.setFighter s f).fighter s.opponent = b.fighter s.opponent := by
  cases s <;> rfl

end Battle
end DeckDuel
