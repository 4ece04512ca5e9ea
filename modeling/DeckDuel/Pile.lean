/-
DeckDuel.Pile — the player's four piles and how cards move.

* `Pile` — hand, draw pile, discard pile and exhaust pile.
* `Piles` — the cards of each, in order, and the last uid given out.
  The first card of the hand is the leftmost; the first card of the
  draw pile is its top.
* `Piles.find?` — where a uid lies; piles are searched in the order
  hand, draw, discard, exhaust.
* `Piles.move`, `Piles.drawOne`, `Piles.reshuffle`, `Piles.discardHand`
  — the moves. A moved card always arrives at the end of a pile.
* `Piles.assignUids` — gives every card without uid a fresh one.
-/
import DeckDuel.Card
import DeckDuel.Random.Draw

namespace DeckDuel

/-- One of the player's piles. -/
inductive Pile where
  | hand | draw | discard | exhaust
deriving DecidableEq, Repr, Inhabited

namespace Pile

/-- The piles, in search order. -/
def all : List Pile := [hand, draw, discard, exhaust]

/-- The name of a pile in effects, messages and documents. -/
def name : Pile → String
  | hand => "hand"
  | draw => "draw"
  | discard => "discard"
  | exhaust => "exhaust"

theorem mem_all (p : Pile) : p ∈ all := by
  cases p <;> decide

/-- The pile of a name. -/
def ofName? (s : String) : Option Pile := all.find? fun p => p.name == s

end Pile

/-- What came of drawing a card. -/
inductive DrawResult where
  /-- The card went to the hand. -/
  | drawn (uid : Nat)
  /-- The hand was full and the card went to the discard pile. -/
  | burned (uid : Nat)
  /-- There was no card to draw. -/
  | empty
deriving DecidableEq, Repr

/-- The player's piles. -/
structure Piles (α : Type) where
  hand : List (Card α)
  draw : List (Card α)
  discard : List (Card α)
  exhaust : List (Card α)
  /-- The last uid that was given out. -/
  lastUid : Nat
deriving Repr

namespace Piles

variable {α : Type}

/-- Four empty piles. -/
def empty : Piles α := ⟨[], [], [], [], 0⟩

/-- The cards of a pile. -/
def get (ps : Piles α) : Pile → List (Card α)
  | .hand => ps.hand
  | .draw => ps.draw
  | .discard => ps.discard
  | .exhaust => ps.exhaust

/-- The piles with other cards in one of them. -/
def set (ps : Piles α) (p : Pile) (cards : List (Card α)) : Piles α :=
  match p with
  | .hand => { ps with hand := cards }
  | .draw => { ps with draw := cards }
  | .discard => { ps with discard := cards }
  | .exhaust => { ps with exhaust := cards }

/-- All cards, pile by pile in search order. -/
def cards (ps : Piles α) : List (Card α) := Pile.all.flatMap ps.get

theorem mem_cards {ps : Piles α} {c : Card α} : c ∈ ps.cards ↔ ∃ p, c ∈ ps.get p := by
  simp only [cards, List.mem_flatMap, Pile.mem_all, true_and]

/-- The number of cards in a pile. -/
def size (ps : Piles α) (p : Pile) : Nat := (ps.get p).length

/-- Where the first card with a uid lies. -/
def find? (ps : Piles α) (uid : Nat) : Option (Pile × Nat) :=
  Pile.all.findSome? fun p => ((ps.get p).findIdx? fun c => c.uid == uid).map fun i => (p, i)

/-- The first card with a uid. -/
def card? (ps : Piles α) (uid : Nat) : Option (Card α) :=
  (ps.find? uid).bind fun at_ => (ps.get at_.1)[at_.2]?

/-- Puts another card in the place of the first one with a uid. -/
def replace (ps : Piles α) (uid : Nat) (c : Card α) : Piles α :=
  match ps.find? uid with
  | none => ps
  | some (p, i) => ps.set p ((ps.get p).set i c)

/-- Takes the first card with a uid out of its pile. -/
def take? (ps : Piles α) (uid : Nat) : Option (Card α × Piles α) :=
  (ps.find? uid).bind fun (p, i) =>
    ((ps.get p)[i]?).map fun c => (c, ps.set p ((ps.get p).eraseIdx i))

/-- Puts a card at the end of a pile. -/
def push (ps : Piles α) (p : Pile) (c : Card α) : Piles α := ps.set p (ps.get p ++ [c])

/-- Moves the first card with a uid to the end of a pile; the pile it
came from, and the piles after the move. -/
def move? (ps : Piles α) (uid : Nat) (goal : Pile) : Option (Pile × Piles α) :=
  (ps.find? uid).bind fun (p, i) =>
    ((ps.get p)[i]?).map fun c => (p, (ps.set p ((ps.get p).eraseIdx i)).push goal c)

/-- Moves the first card with a uid, if there is one. -/
def move (ps : Piles α) (uid : Nat) (goal : Pile) : Piles α :=
  match ps.move? uid goal with
  | some (_, ps') => ps'
  | none => ps

/-- Adds a card at the end of a pile, with a fresh uid if it has
none. -/
def add (ps : Piles α) (p : Pile) (c : Card α) : Nat × Piles α :=
  if c.uid = 0 then
    let uid := ps.lastUid + 1
    (uid, { ps with lastUid := uid }.push p { c with uid := uid })
  else (c.uid, ps.push p c)

/-! ## Uids -/

/-- Gives the cards of a list that have no uid the numbers after
`last`, in order; the last number given, and the cards. -/
def numberFrom (last : Nat) : List (Card α) → Nat × List (Card α)
  | [] => (last, [])
  | c :: cs =>
    if c.uid = 0 then
      let r := numberFrom (last + 1) cs
      (r.1, { c with uid := last + 1 } :: r.2)
    else
      let r := numberFrom last cs
      (r.1, c :: r.2)

/-- The highest uid among the cards. -/
def highestUid (ps : Piles α) : Nat := ps.cards.foldl (fun n c => max n c.uid) 0

/-- Gives every card without uid a fresh one, above all uids present
and all given out before. -/
def assignUids (ps : Piles α) : Piles α :=
  let last := max ps.lastUid ps.highestUid
  let h := numberFrom last ps.hand
  let d := numberFrom h.1 ps.draw
  let g := numberFrom d.1 ps.discard
  let e := numberFrom g.1 ps.exhaust
  ⟨h.2, d.2, g.2, e.2, e.1⟩

/-! ## Drawing -/

/-- Shuffles the discard pile and puts it under the draw pile. -/
def reshuffle (ps : Piles α) (s : Random.Stream) : Piles α × Random.Stream :=
  let (cards, s') := s.shuffle ps.discard
  ({ ps with draw := ps.draw ++ cards, discard := [] }, s')

/-- Draws the top card, reshuffling first if the draw pile is empty. A
card that finds the hand at its limit is burned: it goes to the discard
pile. -/
def drawOne (ps : Piles α) (limit : Nat) (s : Random.Stream) :
    DrawResult × Piles α × Random.Stream :=
  let (ps, s) := if ps.draw.isEmpty then ps.reshuffle s else (ps, s)
  match ps.draw with
  | [] => (.empty, ps, s)
  | c :: rest =>
    if limit ≤ ps.hand.length then
      (.burned c.uid, { ps with draw := rest, discard := ps.discard ++ [c] }, s)
    else (.drawn c.uid, { ps with draw := rest, hand := ps.hand ++ [c] }, s)

/-- Moves the whole hand to the discard pile. -/
def discardHand (ps : Piles α) : Piles α :=
  { ps with hand := [], discard := ps.discard ++ ps.hand }

end Piles
end DeckDuel
