/-
DeckDuel.Variable.Scope — what names mean at a moment of a battle.

* `Scope` — the battle and the side that runs the effect (`me`), the
  side that bare names read (`bare`), and the energy before the card in
  play was paid.
* `Scope.lookup` — the value of a name on a side.
* `Scope.resolve` — the value of a path: a bare name, `ME.name`,
  `OP.name`, or the stacks `ME.stacks.id`, `OP.stacks.id`,
  `ALL.stacks.id`.
* `Scope.substitute` — puts numbers in the place of paths, in three
  passes: stacks, qualified names, bare names. A path without value
  stays, and makes the formula it stands in worthless.
-/
import DeckDuel.Modifier.Resolve

namespace DeckDuel

open DeckDuel.Text DeckDuel.Variable

/-- Names that only the player has; they are zero on the enemy. -/
def playerOnlyNames : List String :=
  ["energy", "max_energy", "hand_size", "draw_pile_size", "deck_size", "discard_pile_size",
   "discard_size", "exhaust_pile_size", "energy_before_card_play"]

/-- What names mean at a moment. -/
structure Scope (α : Type) where
  battle : Battle α
  codex : Codex α
  /-- The side that runs the effect. -/
  me : Side
  /-- The side that bare names read. -/
  bare : Side
  /-- The energy before the card in play was paid. -/
  energyBefore : Option α

namespace Scope

variable {α : Type} [Scalar α]

/-- The value of a name on a side. -/
def lookup (sc : Scope α) (side : Side) (name : String) : Option α :=
  if side = .enemy && playerOnlyNames.contains name then some 0
  else
    let f := sc.battle.fighter side
    let p := sc.battle.player
    match name with
    | "hp" => some f.hp
    | "current_hp" => some f.hp
    | "max_hp" => some f.maxHp
    | "lust" => some f.lust
    | "current_lust" => some f.lust
    | "max_lust" => some f.maxLust
    | "block" => some f.block
    | "energy" => some p.energy
    | "max_energy" => some p.maxEnergy
    | "hand_size" => some (Scalar.ofNat p.piles.hand.length)
    | "draw_pile_size" => some (Scalar.ofNat p.piles.draw.length)
    | "deck_size" => some (Scalar.ofNat p.piles.draw.length)
    | "discard_pile_size" => some (Scalar.ofNat p.piles.discard.length)
    | "discard_size" => some (Scalar.ofNat p.piles.discard.length)
    | "exhaust_pile_size" => some (Scalar.ofNat p.piles.exhaust.length)
    | "energy_before_card_play" => some (sc.energyBefore.getD p.energy)
    | "turn" => some (Scalar.ofNat sc.battle.turn)
    | "status_count" => some (Scalar.ofNat f.statuses.length)
    | other =>
      (Modifier.ofName? other).map fun kind =>
        (sc.battle.adjustment sc.codex side kind).sum

/-- Does a held status count for a stacks key? -/
def counts (key : String) (s : HeldStatus) : Bool :=
  match key with
  | "buffs" => s.kind == .buff
  | "debuffs" => s.kind == .debuff
  | "all_buffs" => true
  | id => s.id == id

/-- The stacks of a key on a side: a status id, `buffs`, `debuffs` or
`all_buffs`. -/
def stackCount (sc : Scope α) (side : Side) (key : String) : α :=
  Scalar.ofNat ((((sc.battle.fighter side).statuses.filter (counts key)).map
    HeldStatus.stackCount).foldl (· + ·) 0)

/-- Cuts a text at every point. -/
def points (cs : List Char) : List (List Char) :=
  match cs with
  | [] => [[]]
  | c :: rest =>
    if c = '.' then [] :: points rest
    else
      match points rest with
      | [] => [[c]]
      | p :: ps => (c :: p) :: ps

/-- The value of a stacks path. -/
def stacksPath (sc : Scope α) (path : List Char) : Option α :=
  match points path with
  | [side, word, key] =>
    if word = "stacks".toList then
      let key := String.ofList key
      if side = "ME".toList then some (sc.stackCount sc.me key)
      else if side = "OP".toList then some (sc.stackCount sc.me.opponent key)
      else if side = "ALL".toList then some (sc.stackCount .player key + sc.stackCount .enemy key)
      else none
    else none
  | _ => none

/-- The value of a qualified path. -/
def qualifiedPath (sc : Scope α) (path : List Char) : Option α :=
  (cutAt? (· == '.') path).bind fun (side, name) =>
    let name := String.ofList name
    if side = "ME".toList then sc.lookup sc.me name
    else if side = "OP".toList then sc.lookup sc.me.opponent name
    else none

/-- The value of a bare name. -/
def barePath (sc : Scope α) (path : List Char) : Option α :=
  if path.contains '.' then none else sc.lookup sc.bare (String.ofList path)

/-- The value of a path. -/
def resolve (sc : Scope α) (path : List Char) : Option α :=
  if path.contains '.' then (sc.stacksPath path).orElse fun _ => sc.qualifiedPath path
  else sc.lookup sc.bare (String.ofList path)

/-- The text that stands for a value inside a formula. -/
def spell (x : α) : List Char := (Scalar.formulaText x).toList

/-- Puts numbers in the place of paths. -/
def substitute (sc : Scope α) (cs : List Char) : List Char :=
  let stacksDone := mapPaths (fun p => (sc.stacksPath p).map spell) cs
  let qualifiedDone := mapPaths (fun p => (sc.qualifiedPath p).map spell) stacksDone
  mapPaths (fun p => (sc.barePath p).map spell) qualifiedDone

/-- The value of arithmetic over variables, rounded down; zero if it
has none. -/
def evaluate (sc : Scope α) (cs : List Char) : α := Formula.amount (sc.substitute cs)

/-- The truth of a condition over variables; false if it has none. -/
def condition (sc : Scope α) (cs : List Char) : Bool := Formula.holds α (sc.substitute cs)

end Scope
end DeckDuel
