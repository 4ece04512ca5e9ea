/-
DeckDuel.Engine.Phase — the start and the end of a side's turn.

At the end the `tick` texts of held statuses run first, then the moment
comes, and then the statuses decay. Once the battle is decided, the
phases after that are left out.
-/
import DeckDuel.Engine.Run

namespace DeckDuel.Setting

variable {α : Type} [Scalar α]

/-- The start of a side's turn. -/
def startTurn (s : Setting α) (side : Side) : Play α Unit :=
  s.scene.fire side .turnStart .plain

/-- The end of a side's turn. -/
def endTurn (s : Setting α) (side : Side) : Play α Unit := do
  s.scene.tick side .plain ((← get).fighter side).statuses
  if (← get).battle.isOver then pure ()
  else
    s.scene.fire side .turnEnd .plain
    if (← get).battle.isOver then pure ()
    else s.scene.decay side .plain ((← get).fighter side).statuses

end DeckDuel.Setting
