/-
DeckDuel.Side — the two sides of a battle.

* `Side` — the player and the enemy.
* `Both` — a value for each side.
-/

namespace DeckDuel

/-- One of the two sides. -/
inductive Side where
  | player
  | enemy
deriving DecidableEq, Repr, Inhabited

namespace Side

/-- The two sides, player first. -/
def both : List Side := [player, enemy]

/-- The other side. -/
def opponent : Side → Side
  | player => enemy
  | enemy => player

/-- Is it the player? -/
def isPlayer : Side → Bool
  | player => true
  | enemy => false

/-- The side that a "player acts" mark names. -/
def ofIsPlayer (b : Bool) : Side := if b then player else enemy

/-- The position of a side in a pair. -/
def index : Side → Nat
  | player => 0
  | enemy => 1

/-- The name of a side in messages and documents. -/
def name : Side → String
  | player => "player"
  | enemy => "enemy"

@[simp] theorem opponent_opponent (s : Side) : s.opponent.opponent = s := by
  cases s <;> rfl

@[simp] theorem opponent_ne (s : Side) : s.opponent ≠ s := by
  cases s <;> simp [opponent]

@[simp] theorem ofIsPlayer_isPlayer (s : Side) : ofIsPlayer s.isPlayer = s := by
  cases s <;> rfl

end Side

/-- A value for each side. -/
structure Both (β : Type) where
  player : β
  enemy : β
deriving DecidableEq, Repr

namespace Both

variable {β : Type}

/-- The value of a side. -/
def get (b : Both β) : Side → β
  | .player => b.player
  | .enemy => b.enemy

/-- The pair with another value for one side. -/
def set (b : Both β) (s : Side) (x : β) : Both β :=
  match s with
  | .player => { b with player := x }
  | .enemy => { b with enemy := x }

/-- The same value for both sides. -/
def same (x : β) : Both β := ⟨x, x⟩

@[simp] theorem get_set_self (b : Both β) (s : Side) (x : β) : (b.set s x).get s = x := by
  cases s <;> rfl

@[simp] theorem get_set_opponent (b : Both β) (s : Side) (x : β) :
    (b.set s x).get s.opponent = b.get s.opponent := by
  cases s <;> rfl

@[simp] theorem get_same (x : β) (s : Side) : (same x).get s = x := by
  cases s <;> rfl

end Both
end DeckDuel
