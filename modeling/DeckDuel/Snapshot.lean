/-
DeckDuel.Snapshot — a battle as a host keeps it.

* `Snapshot` — what a host stores of a battle: both sides, the status
  definitions as an open value, and the turn.
* `Snapshot.load` — the battle and the definitions that a snapshot
  describes. Stats are brought into their bounds; held statuses without
  definition and abilities that are not wrapped in a word are dropped.
* `Session.snapshot` — the snapshot of a running battle.

What a snapshot does not tell starts anew: stored modifiers, the
outcome, the place in the enemy's list of actions, and the random
stream.
-/
import DeckDuel.Document.Status
import DeckDuel.Session

namespace DeckDuel

/-- A held status as a host stores it. -/
structure StatusEntry where
  id : String
  stackCount : Nat
  name : String
  kind : Option StatusKind
deriving DecidableEq, Repr

/-- An ability as a host stores it. Its trigger is told for reading
only: the text decides. -/
structure AbilityEntry where
  id : String
  trigger : String
  effect : String
  description : String
deriving DecidableEq, Repr

/-- The stats of one side as a host stores them. -/
structure FighterEntry (α : Type) where
  name : String
  maxHp : α
  /-- None for full hit points. -/
  hp : Option α
  maxLust : α
  lust : α
  block : α
  statuses : List StatusEntry
  abilities : List AbilityEntry
  overflow : Option String
deriving DecidableEq, Repr

/-- A battle as a host stores it. -/
structure Snapshot (α : Type) where
  player : FighterEntry α
  maxEnergy : α
  /-- None for full energy. -/
  energy : Option α
  relics : List Relic
  hand : List (Card α)
  draw : List (Card α)
  discard : List (Card α)
  exhaust : List (Card α)
  enemy : FighterEntry α
  actions : List String
  /-- The status definitions, possibly nested in lists. -/
  definitions : Json α
  turn : Nat

variable {α : Type}

/-! ## Loading -/

/-- Adds a stored status to those that are held. One that has no
definition, no stacks, or an id that is held already is dropped. -/
def loadStatus (codex : Codex α) (maxStacks : Nat) (held : List HeldStatus) (e : StatusEntry) :
    List HeldStatus :=
  match codex.get? e.id with
  | none => held
  | some d =>
    if e.stackCount = 0 || held.any fun s => s.id == e.id then held
    else held ++ [.ofDefinition d (min e.stackCount (d.stackCap maxStacks))]

/-- The abilities that are stored from a place in a list on. An ability
without id is named after its place. -/
def loadAbilities (place : Nat) : List AbilityEntry → List Ability
  | [] => []
  | e :: rest =>
    let id := if e.id.isEmpty then "loaded_" ++ toString place else e.id
    let ability := (Ability.ofEffect? id e.effect).map fun a =>
      { a with description := e.description }
    ability.toList ++ loadAbilities (place + 1) rest

variable [Scalar α]

/-- The fighter that is stored. -/
def FighterEntry.load (e : FighterEntry α) (codex : Codex α) (maxStacks : Nat) : Fighter α :=
  let f := Fighter.fresh e.name e.maxHp e.maxLust
  { f with
    hp := e.hp.getD f.maxHp
    lust := e.lust
    block := e.block
    overflow := e.overflow.filter fun t => !Text.isBlankText t.toList
    statuses := e.statuses.foldl (loadStatus codex maxStacks) []
    abilities := loadAbilities 0 e.abilities : Fighter α }.settle

/-- The definitions that are stored. -/
def Snapshot.codex (s : Snapshot α) : Codex α := (Document.loadCodex .empty s.definitions).2

/-- The piles that are stored, with a uid for every card. -/
def Snapshot.piles (s : Snapshot α) : Piles α :=
  Piles.assignUids ⟨s.hand, s.draw, s.discard, s.exhaust, 0⟩

/-- The battle that is stored. -/
def Snapshot.load (s : Snapshot α) (rules : Rules) : Battle α :=
  let codex := s.codex
  let player := Player.fresh (s.player.load codex rules.defaultMaxStacks) s.maxEnergy
  let player := { player with
    energy := Scalar.atLeast 0 (s.energy.getD player.maxEnergy)
    relics := s.relics
    piles := s.piles }
  let enemy : Enemy α := ⟨s.enemy.load codex rules.defaultMaxStacks, s.actions, 0⟩
  { Battle.start player enemy rules.seed with turn := s.turn }

/-! ## Capturing -/

/-- An ability to be stored. -/
def Ability.entry (a : Ability) : AbilityEntry :=
  let trigger :=
    match unwrap a.effect.toList with
    | some (name, _) => String.ofList name
    | none => a.trigger
  ⟨a.id, trigger, a.effect, a.description⟩

/-- A fighter to be stored. -/
def Fighter.entry (f : Fighter α) : FighterEntry α :=
  ⟨f.name, f.maxHp, some f.hp, f.maxLust, f.lust, f.block,
    f.statuses.map fun s => ⟨s.id, s.stackCount, s.name, some s.kind⟩,
    f.abilities.map Ability.entry, f.overflow⟩

/-- A battle to be stored. -/
def Battle.snapshot (b : Battle α) (codex : Codex α) : Snapshot α :=
  let p := b.player
  ⟨p.fighter.entry, p.maxEnergy, some p.energy, p.relics, p.piles.hand, p.piles.draw,
    p.piles.discard, p.piles.exhaust, b.enemy.fighter.entry, b.enemy.actions,
    Document.writeCodex codex, b.turn⟩

/-- The snapshot of a running battle. -/
def Session.snapshot (s : Session α) : Snapshot α := s.live.battle.snapshot s.codex

/-- A session of a stored battle. -/
def Session.load (s : Snapshot α) (rules : Rules) (chooser : Chooser α) : Session α :=
  .new (s.load rules) s.codex rules chooser

end DeckDuel
