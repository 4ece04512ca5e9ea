/-
DeckDuel.Checkpoint — a battle as bytes.

* `Checkpoint.battle` — the format of a whole battle, the position of its
  random stream included: fields one after another, with the codecs of
  `DeckDuel.Codec`.
* `Battle.checkpoint`, `Battle.restore?` — writing one and reading it
  back. Bytes that follow a checkpoint are ignored.
-/
import DeckDuel.Battle
import DeckDuel.Codec

namespace DeckDuel

open Codec

variable {α : Type} [WordPattern α]

namespace Checkpoint

/-- Counts that fit four bytes. -/
def count : Codec Nat := natural 4

/-- Relics. -/
def relic : Codec Relic :=
  (text.pair (text.pair (text.pair text))).convert
    (fun r => (r.id, r.name, r.effect, r.description))
    fun (id, name, effect, description) => ⟨id, name, effect, description⟩

/-- Cards. -/
def card : Codec (Card α) :=
  (count.pair (text.pair (text.pair (number.pair (text.pair
    ((oneOf (CardKind.names.map Prod.snd)).pair (flag.pair text))))))).convert
    (fun c => (c.uid, c.id, c.name, c.cost, c.effect, c.kind, c.exhausts, c.description))
    fun (uid, id, name, cost, effect, kind, exhausts, description) =>
      ⟨uid, id, name, cost, effect, kind, exhausts, description⟩

/-- Piles. -/
def piles : Codec (Piles α) :=
  (card.listOf.pair (card.listOf.pair (card.listOf.pair (card.listOf.pair count)))).convert
    (fun p => (p.hand, p.draw, p.discard, p.exhaust, p.lastUid))
    fun (hand, draw, discard, exhaust, lastUid) => ⟨hand, draw, discard, exhaust, lastUid⟩

/-- Held statuses. -/
def status : Codec HeldStatus :=
  (text.pair (text.pair ((oneOf (StatusKind.names.map Prod.snd)).pair
    (count.pair (text.pair text))))).convert
    (fun s => (s.id, s.name, s.kind, s.stackCount, s.emoji, s.description))
    fun (id, name, kind, stackCount, emoji, description) =>
      ⟨id, name, kind, stackCount, emoji, description⟩

/-- Abilities. -/
def ability : Codec Ability :=
  (text.pair (text.pair (text.pair text))).convert
    (fun a => (a.id, a.trigger, a.effect, a.description))
    fun (id, trigger, effect, description) => ⟨id, trigger, effect, description⟩

/-- Stored modifiers; the last value of a name counts. -/
def modifiers : Codec (List (String × α)) :=
  (text.pair number).listOf.convert id fun xs =>
    xs.foldl (fun ms m => Fighter.store m.1 m.2 ms) []

/-- Fighters. -/
def fighter : Codec (Fighter α) :=
  (text.pair (number.pair (number.pair (number.pair (number.pair (number.pair
    (status.listOf.pair (ability.listOf.pair (modifiers.pair text.optional))))))))).convert
    (fun f => (f.name, f.hp, f.maxHp, f.lust, f.maxLust, f.block, f.statuses, f.abilities,
      f.modifiers, f.overflow))
    fun (name, hp, maxHp, lust, maxLust, block, statuses, abilities, modifiers, overflow) =>
      ⟨name, hp, maxHp, lust, maxLust, block, statuses, abilities, modifiers, overflow⟩

/-- The player. -/
def player : Codec (Player α) :=
  (fighter.pair (number.pair (number.pair (relic.listOf.pair piles)))).convert
    (fun p => (p.fighter, p.energy, p.maxEnergy, p.relics, p.piles))
    fun (fighter, energy, maxEnergy, relics, piles) =>
      ⟨fighter, energy, maxEnergy, relics, piles⟩

/-- The enemy. -/
def enemy : Codec (Enemy α) :=
  (fighter.pair (text.listOf.pair (natural 8))).convert
    (fun e => (e.fighter, e.actions, e.nextAction))
    fun (fighter, actions, nextAction) => ⟨fighter, actions, nextAction⟩

/-- Outcomes. -/
def outcome : Codec Outcome := oneOf [.victory, .defeat]

/-- A mark for each side. -/
def marks : Codec (Both Bool) :=
  (flag.pair flag).convert (fun b => (b.player, b.enemy)) fun (player, enemy) => ⟨player, enemy⟩

/-- Random streams: the seed, and the position in sixteen bytes. -/
def stream : Codec Random.Stream :=
  (word.pair (natural 16)).convert (fun s => (s.seed, s.position))
    fun (seed, position) => .at seed position

/-- Battles. -/
def battle : Codec (Battle α) :=
  (player.pair (enemy.pair (count.pair (outcome.optional.pair (marks.pair stream))))).convert
    (fun b => (b.player, b.enemy, b.turn, b.outcome, b.fallen, b.stream))
    fun (player, enemy, turn, outcome, fallen, stream) =>
      ⟨player, enemy, turn, outcome, fallen, stream⟩

end Checkpoint

/-- The bytes of a battle. -/
def Battle.checkpoint (b : Battle α) : List UInt8 := Checkpoint.battle.write b

/-- The battle at the front of some bytes. -/
def Battle.restore? (bytes : List UInt8) : Option (Battle α) :=
  (Checkpoint.battle.read bytes).map Prod.fst

end DeckDuel
