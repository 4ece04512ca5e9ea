/-
DeckDuel.Session — the turns of a battle.

* `Session` — a setting, a running battle, and whether it was started.
* `Session.start`, `Session.playCard`, `Session.endPlayerTurn`,
  `Session.runEffect` — what the host can do; each answers with an
  error if the battle does not allow it.
* `Setting.beginPlayerTurn`, `Setting.finishPlayerTurn`,
  `Setting.enemyTurn` — the phases that these are made of.

A player who is stunned loses the turn at once, and the enemy acts,
until the player can act again or the battle is decided.
-/
import DeckDuel.Engine.Phase

namespace DeckDuel

/-- Why the host's request was turned down. -/
inductive SessionError (α : Type) where
  | battleOver
  | cardNotInHand (uid : Nat)
  | notEnoughEnergy (cost available : α)
  | stunned (side : Side)
  /-- The request came from inside another one. -/
  | busy
  /-- The effect was refused as a whole. -/
  | effect (r : Refusal)
deriving DecidableEq, Repr

/-- The wording of an error. -/
def SessionError.message {α : Type} [Scalar α] : SessionError α → String
  | .battleOver => "the battle is already over"
  | .cardNotInHand uid => "card " ++ toString uid ++ " is not in hand"
  | .notEnoughEnergy cost available =>
    "card costs " ++ Scalar.text cost ++ " energy but only " ++ Scalar.text available ++
      " is available"
  | .stunned side => "the " ++ side.name ++ " is stunned"
  | .busy => "an action is already being processed"
  | .effect r => r.message

/-- How many turns in a row a stunned player can lose. -/
def maxSkippedTurns : Nat := 100

variable {α : Type} [Scalar α]

/-! ## Phases -/

namespace Battle

/-- The battle at the start of the player's next turn, before cards are
drawn. -/
def nextTurn (b : Battle α) (resetsBlock : Bool) : Battle α :=
  let b := { b with turn := b.turn + 1 }
  let b := if resetsBlock then b.mapFighter .player fun f => { f with block := 0 } else b
  b.setEnergy b.player.maxEnergy

/-- The enemy's action for this turn, if it has any. -/
def nextAction (b : Battle α) : ActionOrder → Option String × Battle α
  | .sequential =>
    if b.enemy.actions.isEmpty then (none, b)
    else
      let i := b.enemy.nextAction % b.enemy.actions.length
      (b.enemy.actions[i]?, { b with enemy := { b.enemy with nextAction := i + 1 } })
  | .random =>
    if b.enemy.actions.isEmpty then (none, b)
    else
      let (i, s) := b.stream.inRange 0 b.enemy.actions.length
      (b.enemy.actions[i]?, { b with stream := s })

end Battle

namespace Setting

/-- The number of cards drawn at the start of a turn. -/
def turnDraw (s : Setting α) (turn : Nat) : Nat :=
  if turn = 1 then s.rules.startingDraw else s.rules.drawPerTurn

/-- Begins the player's next turn: block goes, energy is full, cards are
drawn, and the moment comes. Tells whether the player can act. -/
def beginPlayerTurn (s : Setting α) : Play α Bool := do
  modify fun l => l.mapBattle fun b => b.nextTurn s.rules.resetsBlock
  let _ ← (s.drawCards (s.turnDraw (← get).battle.turn)).run
  s.startTurn .player
  pure (!s.isStunned (← get).battle .player)

/-- Runs the enemy's action, unless the enemy is stunned. -/
def enemyAction (s : Setting α) : Play α Unit := do
  if s.isStunned (← get).battle .enemy then pure ()
  else
    let action ← modifyGet fun l =>
      let (a, b) := l.battle.nextAction s.rules.actionOrder
      (a, l.mapBattle fun _ => b)
    match action with
    | some text =>
      let _ ← (s.execute text .enemy .plain).run
      pure ()
    | none => pure ()

/-- The enemy's turn. -/
def enemyTurn (s : Setting α) : Play α Unit := do
  if s.rules.resetsBlock then
    modify fun l => l.mapFighter .enemy fun f => { f with block := 0 }
  s.startTurn .enemy
  if (← get).battle.isOver then pure ()
  else
    s.enemyAction
    if (← get).battle.isOver then pure () else s.endTurn .enemy

/-- Ends the player's turn: the hand is discarded, the turn ends, and
the enemy's turn follows. -/
def finishPlayerTurn (s : Setting α) : Play α Unit := do
  modify fun l =>
    let uids := l.battle.piles.hand.map Card.uid
    (l.mapBattle fun b => b.setPiles b.piles.discardHand).reportMoved uids .discard
  s.endTurn .player
  if (← get).battle.isOver then pure () else s.enemyTurn

/-- Begins player turns until the player can act or the battle is
decided; `more` turns may still be lost. -/
def playerTurns (s : Setting α) : Nat → Play α Unit
  | 0 => pure ()
  | more + 1 => do
    let canAct ← s.beginPlayerTurn
    if (← get).battle.isOver || canAct || more = 0 then pure ()
    else
      s.finishPlayerTurn
      if (← get).battle.isOver then pure () else s.playerTurns more

/-- Lets the battle start for sides one after another, until it is
decided. -/
def battleStarts (s : Setting α) : List Side → Play α Unit
  | [] => pure ()
  | side :: rest => do
    s.scene.fire side .battleStart .plain
    if (← get).battle.isOver then pure () else s.battleStarts rest

end Setting

/-! ## Sessions -/

/-- A battle with everything it needs. -/
structure Session (α : Type) extends Setting α where
  started : Bool
  live : Live α

/-- A request of the host: its answer, and the session after it. -/
abbrev Request (α β : Type) := ExceptT (SessionError α) (StateM (Session α)) β

namespace Session

/-- A session of a battle in which nothing has happened. -/
def new (b : Battle α) (codex : Codex α) (rules : Rules) (chooser : Chooser α) : Session α :=
  ⟨⟨codex, .standard, rules, chooser⟩, false, .start b⟩

/-- The session with another battle. -/
def setBattle (s : Session α) (b : Battle α) : Session α :=
  { s with live := s.live.mapBattle fun _ => b }

/-- Lets something happen in the battle. -/
def play {β : Type} (step : Setting α → Play α β) : Request α β := do
  let s ← get
  let (x, live) := (step s.toSetting).run s.live
  set { s with live := live }
  pure x

/-- Attempts something in the battle. A refusal is an error. -/
def attempt {β : Type} (step : Setting α → Attempt α β) : Request α β := do
  match ← play fun s => (step s).run with
  | .ok x => pure x
  | .error r => throw (.effect r)

/-- Goes on only if the battle is not decided. -/
def ensureRunning : Request α Unit := do
  if (← get).live.battle.isOver then throw .battleOver else pure ()

/-- Begins the player's next turn. -/
def startPlayerTurn : Request α Unit := do
  ensureRunning
  play fun s => s.playerTurns maxSkippedTurns

/-- Starts the battle. A second start is nothing. -/
def start : Request α Unit := do
  ensureRunning
  if (← get).started then pure ()
  else
    modify fun s => { s with started := true }
    play fun s => s.battleStarts Side.both
    if (← get).live.battle.isOver then pure () else startPlayerTurn

/-- The card of the hand with a uid, if the player can pay for it now
and can act. -/
def playable? (s : Session α) (uid : Nat) : Except (SessionError α) (Card α) :=
  let b := s.live.battle
  if s.isStunned b .player then .error (.stunned .player)
  else
    match b.piles.hand.find? fun c => c.uid == uid with
    | none => .error (.cardNotInHand uid)
    | some c => if b.player.energy < c.cost then .error (.notEnoughEnergy c.cost b.player.energy)
      else .ok c

/-- Plays a card of the hand. It is paid for and put away before its
effect runs; what reacts to a played card comes after the effect. -/
def playCard (uid : Nat) : Request α Unit := do
  ensureRunning
  let card ← ((← get).playable? uid : Except (SessionError α) (Card α))
  let energy := (← get).live.battle.player.energy
  let goal := if card.exhausts then Pile.exhaust else Pile.discard
  modify fun s => { s with
    live := (s.live.mapBattle fun b =>
      (b.setEnergy (energy - card.cost)).setPiles (b.piles.move uid goal)).emit
        (.cardsMoved [uid] goal) }
  let ctx : Context α := { (.plain : Context α) with card := some uid, energyBefore := some energy }
  attempt fun s => s.execute card.effect .player ctx
  if (← get).live.battle.isOver then pure ()
  else play fun s => s.scene.fire .player .cardPlayed ctx

/-- Ends the player's turn, lets the enemy act, and begins the player's
next turn. -/
def endPlayerTurn : Request α Unit := do
  ensureRunning
  play fun s => s.finishPlayerTurn
  if (← get).live.battle.isOver then pure () else startPlayerTurn

/-- Runs an effect text that no card or trigger has set off. -/
def runEffect (text : String) (me : Side) : Request α Unit := do
  ensureRunning
  attempt fun s => s.execute text me .plain

end Session
end DeckDuel
