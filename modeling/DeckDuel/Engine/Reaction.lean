/-
DeckDuel.Engine.Reaction — what a moment sets off.

When a moment comes for a side, the texts bound to it run in this
order:

1. the side's abilities wrapped in its keyword,
2. the texts that its held statuses list under the keyword,
3. for the player, the segments of relics wrapped in the keyword.

* `Scene.react` — runs them all and counts them.
* `Scene.runStatusTexts` — runs texts of a status with its stacks put
  in.

Each of the three lists is read once, before its first text runs. A
text that is refused as a whole ends alone.
-/
import DeckDuel.Engine.Live

namespace DeckDuel

variable {α : Type} [Scalar α]

/-- Reports an event. -/
def emit (e : Event α) : Play α Unit := modify fun l => l.emit e

namespace Scene

/-! ## Abilities -/

/-- Runs the inner texts of those abilities that are wrapped in a
trigger, until the battle is decided. -/
def runAbilities (sc : Scene α) (side : Side) (t : Trigger) (ctx : Context α) :
    List Ability → Play α Nat
  | [] => pure 0
  | a :: rest => do
    if (← get).battle.isOver then pure 0
    else
      match a.innerFor? t.keyword with
      | none => runAbilities sc side t ctx rest
      | some inner =>
        emit (.abilityTriggered side t.keyword inner)
        sc.runLoose inner side { ctx.onTrigger t.keyword with ability := some a.id }
        let n ← runAbilities sc side t ctx rest
        pure (n + 1)

/-! ## Statuses -/

/-- Runs texts of a status for its holder. The stacks are put into the
texts, and are those that a trigger was called with: they need not be
the stacks held. -/
def runStatusTexts (sc : Scene α) (holder : Side) (id moment : String) (stackCount : Nat)
    (ctx : Context α) : List String → Play α Unit
  | [] => pure ()
  | text :: rest => do
    sc.runLoose (String.ofList (substituteStacks stackCount text.toList)) holder
      { ctx.onTrigger moment with status := some ⟨id, holder, stackCount⟩ }
    runStatusTexts sc holder id moment stackCount ctx rest

/-- Runs the texts that held statuses list under a trigger; those that
are gone by then are left out. -/
def runStatusEvents (sc : Scene α) (side : Side) (t : Trigger) (ctx : Context α) :
    List HeldStatus → Play α Nat
  | [] => pure 0
  | s :: rest => do
    let stackCount := ((← get).fighter side).stacksOf s.id
    let texts :=
      if stackCount = 0 then []
      else
        match sc.codex.get? s.id with
        | some d => (d.triggers.forEvent? t.keyword).getD []
        | none => []
    sc.runStatusTexts side s.id t.keyword stackCount ctx texts
    let n ← runStatusEvents sc side t ctx rest
    pure (n + texts.length)

/-! ## Relics -/

/-- The segments of a relic that are wrapped in a trigger and not
empty. -/
def relicSegments (t : Trigger) (r : Relic) : List String :=
  ((Effect.split r.effect.toList).filterMap unwrap).filterMap fun (name, inner) =>
    if String.ofList name = t.keyword && !inner.isEmpty then some (String.ofList inner)
    else none

/-- Runs segments of relics. -/
def runRelics (sc : Scene α) (t : Trigger) (ctx : Context α) : List String → Play α Nat
  | [] => pure 0
  | inner :: rest => do
    emit (.abilityTriggered .player t.keyword inner)
    sc.runLoose inner .player { ctx.onTrigger t.keyword with relic := true }
    let n ← runRelics sc t ctx rest
    pure (n + 1)

/-! ## Moments -/

/-- Lets a moment come for a side; the number of texts that ran. The
passive state never comes. -/
def react (sc : Scene α) (side : Side) (t : Trigger) (ctx : Context α) : Play α Nat := do
  if t = .passive then pure 0
  else
    modify fun l => l.write (.fired side t)
    let abilities ← sc.runAbilities side t ctx ((← get).fighter side).abilities
    let statuses ← sc.runStatusEvents side t ctx ((← get).fighter side).statuses
    let relics ←
      match side with
      | .player => sc.runRelics t ctx ((← get).battle.player.relics.flatMap (relicSegments t))
      | .enemy => pure 0
    pure (abilities + statuses + relics)

/-- Lets a moment come for a side. -/
def fire (sc : Scene α) (side : Side) (t : Trigger) (ctx : Context α) : Play α Unit := do
  let _ ← sc.react side t ctx
  pure ()

end Scene
end DeckDuel
