/-
DeckDuel.Fighter — the stats and attachments common to both sides.

* `Relic` — an effect text that the player carries.
* `Fighter` — hit points, lust, block, held statuses, abilities, stored
  modifiers and the overflow effect.
* `Fighter.settle` — brings stats from outside into their bounds.
-/
import DeckDuel.Status.Definition
import DeckDuel.Trigger

namespace DeckDuel

/-- An item of the player with effects bound to triggers. -/
structure Relic where
  id : String
  name : String
  effect : String
  description : String
deriving DecidableEq, Repr

/-- One side of a battle. -/
structure Fighter (α : Type) where
  name : String
  hp : α
  maxHp : α
  lust : α
  maxLust : α
  block : α
  statuses : List HeldStatus
  abilities : List Ability
  /-- Directly stored modifier values, by modifier name. -/
  modifiers : List (String × α)
  /-- The effect that runs when the opponent's lust overflows. -/
  overflow : Option String
deriving DecidableEq, Repr

namespace Fighter

variable {α : Type}

/-- The held status of an id. -/
def status? (f : Fighter α) (id : String) : Option HeldStatus :=
  f.statuses.find? fun s => s.id == id

/-- The place of a held status. -/
def statusIndex? (f : Fighter α) (id : String) : Option Nat :=
  f.statuses.findIdx? fun s => s.id == id

/-- The stacks of a status; zero if it is not held. -/
def stacksOf (f : Fighter α) (id : String) : Nat :=
  match f.status? id with
  | some s => s.stackCount
  | none => 0

/-- The fighter with other stacks for the first held status of an
id. -/
def setStacks (f : Fighter α) (id : String) (stackCount : Nat) : Fighter α :=
  match f.statusIndex? id with
  | some i =>
    { f with statuses := f.statuses.modify i fun s => { s with stackCount := stackCount } }
  | none => f

/-- The fighter without the first held status of an id. -/
def dropStatus (f : Fighter α) (id : String) : Fighter α :=
  { f with statuses := f.statuses.eraseP fun s => s.id == id }

/-- The stored value of a modifier. -/
def modifier? (f : Fighter α) (name : String) : Option α := f.modifiers.lookup name

/-- Puts a value in the place of a name's value, or at the end. -/
def store (name : String) (x : α) : List (String × α) → List (String × α)
  | [] => [(name, x)]
  | (k, v) :: rest => if k = name then (k, x) :: rest else (k, v) :: store name x rest

/-- The fighter with a stored modifier. -/
def storeModifier (f : Fighter α) (name : String) (x : α) : Fighter α :=
  { f with modifiers := store name x f.modifiers }

/-- The fighter without a stored modifier. -/
def clearModifier (f : Fighter α) (name : String) : Fighter α :=
  { f with modifiers := f.modifiers.filter fun m => m.1 ≠ name }

variable [Scalar α]

/-- A fighter at full hit points without lust and block. -/
def fresh (name : String) (maxHp maxLust : α) : Fighter α :=
  let maxHp := Scalar.atLeast 1 maxHp
  ⟨name, maxHp, maxHp, 0, Scalar.atLeast 1 maxLust, 0, [], [], [], none⟩

/-- Has the fighter no hit points left? -/
def isDead (f : Fighter α) : Bool := decide (f.hp ≤ 0)

/-- Brings every stat into its bounds, rounds it to one decimal place,
and drops statuses without stacks. -/
def settle (f : Fighter α) : Fighter α :=
  let maxHp := Scalar.roundTenth (Scalar.atLeast 1 f.maxHp)
  let maxLust := Scalar.roundTenth (Scalar.atLeast 1 f.maxLust)
  { f with
    maxHp := maxHp
    maxLust := maxLust
    hp := Scalar.roundTenth (Scalar.clamp 0 maxHp f.hp)
    lust := Scalar.roundTenth (Scalar.clamp 0 maxLust f.lust)
    block := Scalar.roundTenth (Scalar.atLeast 0 f.block)
    statuses := f.statuses.filter fun s => decide (0 < s.stackCount) }

end Fighter
end DeckDuel
