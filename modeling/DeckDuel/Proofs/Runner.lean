/-
DeckDuel.Proofs.Runner — hosts that run texts in a way of their own.

Everything between two texts of a battle is done the same whatever way
texts are run, so the way can be exchanged.

* `Runner` — a way to run texts in a setting with some levels left. The
  one of the engine is `Setting.runWithin`.
* `Runner.startTurn`, …, `Runner.request` — the phases of a turn and the
  requests of a session, with the texts left to a runner.
* `Runner.request_runWithin` — with the engine's runner they are the
  requests of a session as they stand.
-/
import DeckDuel.Proofs.Call
import DeckDuel.Proofs.Lockstep

namespace DeckDuel

/-- A way to run a text in a setting, with a number of levels left. -/
abbrev Runner (α : Type) :=
  Setting α → Nat → String → Side → Context α → Attempt α Unit

namespace Runner

variable {α : Type} [Scalar α] (run : Runner α)

/-! ## Phases -/

section

variable (s : Setting α)

/-- The setting with all levels for what is run in it. -/
def scene : Scene α := s.running (run s s.rules.maxNesting)

/-- Runs a text where the battle is now. -/
def execute (text : String) (me : Side) (ctx : Context α) : Attempt α Unit := do
  let l ← get
  run s (s.rules.maxNesting - l.depth) text me ctx

/-- The start of a side's turn. -/
def startTurn (side : Side) : Play α Unit := (run.scene s).fire side .turnStart .plain

/-- The end of a side's turn. -/
def endTurn (side : Side) : Play α Unit := do
  (run.scene s).tick side .plain ((← get).fighter side).statuses
  if (← get).battle.isOver then pure ()
  else
    (run.scene s).fire side .turnEnd .plain
    if (← get).battle.isOver then pure ()
    else (run.scene s).decay side .plain ((← get).fighter side).statuses

/-- Begins the player's next turn. -/
def beginPlayerTurn : Play α Bool := do
  modify fun l => l.mapBattle fun b => b.nextTurn s.rules.resetsBlock
  let _ ← (s.drawCards (s.turnDraw (← get).battle.turn)).run
  run.startTurn s .player
  pure (!s.isStunned (← get).battle .player)

/-- Runs the enemy's action, unless the enemy is stunned. -/
def enemyAction : Play α Unit := do
  if s.isStunned (← get).battle .enemy then pure ()
  else
    let action ← modifyGet fun l =>
      let (a, b) := l.battle.nextAction s.rules.actionOrder
      (a, l.mapBattle fun _ => b)
    match action with
    | some text =>
      let _ ← (run.execute s text .enemy .plain).run
      pure ()
    | none => pure ()

/-- The enemy's turn. -/
def enemyTurn : Play α Unit := do
  if s.rules.resetsBlock then
    modify fun l => l.mapFighter .enemy fun f => { f with block := 0 }
  run.startTurn s .enemy
  if (← get).battle.isOver then pure ()
  else
    run.enemyAction s
    if (← get).battle.isOver then pure () else run.endTurn s .enemy

/-- Ends the player's turn. -/
def finishPlayerTurn : Play α Unit := do
  modify fun l =>
    let uids := l.battle.piles.hand.map Card.uid
    (l.mapBattle fun b => b.setPiles b.piles.discardHand).reportMoved uids .discard
  run.endTurn s .player
  if (← get).battle.isOver then pure () else run.enemyTurn s

/-- Begins player turns until the player can act or the battle is
decided. -/
def playerTurns : Nat → Play α Unit
  | 0 => pure ()
  | more + 1 => do
    let canAct ← run.beginPlayerTurn s
    if (← get).battle.isOver || canAct || more = 0 then pure ()
    else
      run.finishPlayerTurn s
      if (← get).battle.isOver then pure () else playerTurns more

/-- Lets the battle start for sides one after another. -/
def battleStarts : List Side → Play α Unit
  | [] => pure ()
  | side :: rest => do
    (run.scene s).fire side .battleStart .plain
    if (← get).battle.isOver then pure () else battleStarts rest

end

/-! ## Requests -/

open Session

/-- Begins the player's next turn. -/
def startPlayerTurn : Request α Unit := do
  ensureRunning
  play fun s => run.playerTurns s maxSkippedTurns

/-- Starts the battle. -/
def start : Request α Unit := do
  ensureRunning
  if (← get).started then pure ()
  else
    modify fun s => { s with started := true }
    play fun s => run.battleStarts s Side.both
    if (← get).live.battle.isOver then pure () else run.startPlayerTurn

/-- Plays a card of the hand. -/
def playCard (uid : Nat) : Request α Unit := do
  ensureRunning
  let card ← ((← get).playable? uid : Except (SessionError α) (Card α))
  let energy := (← get).live.battle.player.energy
  let goal := if card.exhausts then Pile.exhaust else Pile.discard
  modify fun s => { s with
    live := (s.live.mapBattle fun b =>
      (b.setEnergy (energy - card.cost)).setPiles (b.piles.move uid goal)).emit
        (.cardsMoved [uid] goal) }
  let ctx : Context α := { (.plain : Context α) with card := some uid, energyBefore := some energy }
  attempt fun s => run.execute s card.effect .player ctx
  if (← get).live.battle.isOver then pure ()
  else play fun s => (run.scene s).fire .player .cardPlayed ctx

/-- Ends the player's turn. -/
def endPlayerTurn : Request α Unit := do
  ensureRunning
  play fun s => run.finishPlayerTurn s
  if (← get).live.battle.isOver then pure () else run.startPlayerTurn

/-- Runs an effect text that no card or trigger has set off. -/
def runEffect (text : String) (me : Side) : Request α Unit := do
  ensureRunning
  attempt fun s => run.execute s text me .plain

/-- The request that a call stands for. -/
def request : Call α → Request α Unit
  | .start => run.start
  | .startPlayerTurn => run.startPlayerTurn
  | .playCard uid => run.playCard uid
  | .endPlayerTurn => run.endPlayerTurn
  | .runEffect text me => run.runEffect text me
  | .execute text me ctx => attempt fun s => run.execute s text me ctx
  | .fire side t => play fun s => (run.scene s).fire side t .plain
  | .startTurn side => play fun s => run.startTurn s side
  | .endTurn side => play fun s => run.endTurn s side
  | .applyStatus side id n => attempt fun s => (run.scene s).applyStatus side id n .plain
  | .removeStatus side id n => attempt fun s => (run.scene s).removeStatus side id n .plain
  | .setStacks side id n => attempt fun s => (run.scene s).setStacks side id n .plain
  | .addAbility side effect => attempt fun _ => do
    let _ ← DeckDuel.addAbility side effect
  | .removeAbilities side key => play fun _ =>
    modify fun l => (l.removeAbilities side key).2
  | .drawCards count => attempt fun s => do
    let _ ← s.drawCards count

end Runner

/-! ## The runner of the engine -/

namespace Runner

variable {α : Type} [Scalar α]

theorem playerTurns_runWithin (s : Setting α) (more : Nat) :
    playerTurns Setting.runWithin s more = s.playerTurns more := by
  induction more with
  | zero => rfl
  | succ more ih =>
    unfold playerTurns Setting.playerTurns
    rw [ih]
    rfl

theorem battleStarts_runWithin (s : Setting α) (sides : List Side) :
    battleStarts Setting.runWithin s sides = s.battleStarts sides := by
  induction sides with
  | nil => rfl
  | cons side rest ih =>
    unfold battleStarts Setting.battleStarts
    rw [ih]
    rfl

theorem startPlayerTurn_runWithin :
    startPlayerTurn (Setting.runWithin (α := α)) = Session.startPlayerTurn := by
  unfold startPlayerTurn Session.startPlayerTurn
  simp only [playerTurns_runWithin]

/-- With the runner of the engine, a request is what it is. -/
theorem request_runWithin (c : Call α) : request Setting.runWithin c = c.request := by
  cases c with
  | start =>
    show start Setting.runWithin = Session.start
    unfold start Session.start
    simp only [startPlayerTurn_runWithin, battleStarts_runWithin]
  | startPlayerTurn => exact startPlayerTurn_runWithin
  | endPlayerTurn =>
    show endPlayerTurn Setting.runWithin = Session.endPlayerTurn
    unfold endPlayerTurn
    rw [startPlayerTurn_runWithin]
    rfl
  | _ => rfl

end Runner
end DeckDuel
