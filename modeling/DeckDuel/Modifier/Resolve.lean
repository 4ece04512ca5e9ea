/-
DeckDuel.Modifier.Resolve — the modifier of a side at a moment.

The sources are read in order: the passive segments of the player's
relics, the `hold` texts of every held status with its stacks put in,
and the directly stored value, which counts as a last addition.
-/
import DeckDuel.Battle
import DeckDuel.Modifier.Term
import DeckDuel.Status.Codex

namespace DeckDuel

variable {α : Type} [Scalar α]

/-- The texts of a side that may hold modifier terms, in order. -/
def modifierTexts (codex : Codex α) (b : Battle α) (side : Side) : List (List Char) :=
  let relics :=
    match side with
    | .player => b.player.relics.flatMap fun r => passiveSegments r.effect.toList
    | .enemy => []
  let holds := (b.fighter side).statuses.flatMap fun s =>
    match codex.get? s.id with
    | some d => d.triggers.hold.map fun t => substituteStacks s.stackCount t.toList
    | none => []
  relics ++ holds

/-- The adjustment of one kind for a side. -/
def Battle.adjustment (b : Battle α) (codex : Codex α) (side : Side) (kind : Modifier) :
    Adjustment α :=
  let a := (modifierTexts codex b side).foldl (fun a t => a.scan kind t) .identity
  match (b.fighter side).modifier? kind.name with
  | some x => { a with sum := a.sum + x }
  | none => a

end DeckDuel
