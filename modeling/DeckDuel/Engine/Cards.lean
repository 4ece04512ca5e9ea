/-
DeckDuel.Engine.Cards — units that move cards or change their costs.

* `drawCards` — draws from the draw pile, up to a number of cards.
* `Setting.runCards` — the units `draw`, `discard`, `exhaust` and
  `cost`.

These units act on the player's piles, whoever runs them. A card drawn
past the hand limit is burned: it goes to the discard pile.
-/
import DeckDuel.Engine.Stat

namespace DeckDuel

variable {α : Type} [Scalar α]

/-- Reports cards that arrived in a pile, if there are any. -/
def Live.reportMoved (l : Live α) (uids : List Nat) (goal : Pile) : Live α :=
  if uids.isEmpty then l else l.emit (.cardsMoved uids goal)

/-- The cards of one draw. -/
structure Drawn where
  toHand : List Nat
  burned : List Nat

/-- Reports the cards of a draw. -/
def Live.reportDrawn (l : Live α) (d : Drawn) : Live α :=
  (l.reportMoved d.toHand .hand).reportMoved d.burned .discard

/-! ## Drawing -/

/-- Draws until a number of cards is reached or none is left. -/
def Battle.drawUpTo (b : Battle α) (limit : Nat) : Nat → Drawn × Battle α
  | 0 => (⟨[], []⟩, b)
  | n + 1 =>
    let (r, ps, s) := b.piles.drawOne limit b.stream
    let b := { b.setPiles ps with stream := s }
    match r with
    | .empty => (⟨[], []⟩, b)
    | .drawn uid =>
      let (d, b) := b.drawUpTo limit n
      (⟨uid :: d.toHand, d.burned⟩, b)
    | .burned uid =>
      let (d, b) := b.drawUpTo limit n
      (⟨d.toHand, uid :: d.burned⟩, b)

/-- Draws cards; the number that reached the hand. A draw that finds no
card at all is refused. -/
def Setting.drawCards (s : Setting α) (count : Nat) : Attempt α Nat := do
  let (d, b) := (← get).battle.drawUpTo s.rules.handLimit count
  modify fun l => l.mapBattle fun _ => b
  if 0 < count && d.toHand.isEmpty && d.burned.isEmpty then throw (.emptyPile .draw)
  else
    modify fun l => l.reportDrawn d
    pure d.toHand.length

/-- Moves cards to the hand while it has room, and to the discard pile
then. -/
def Piles.takeIn (ps : Piles α) (limit : Nat) : List Nat → Drawn × Piles α
  | [] => (⟨[], []⟩, ps)
  | uid :: uids =>
    if ps.hand.length < limit then
      let (d, ps) := (ps.move uid .hand).takeIn limit uids
      (⟨uid :: d.toHand, d.burned⟩, ps)
    else
      let (d, ps) := (ps.move uid .discard).takeIn limit uids
      (⟨d.toHand, uid :: d.burned⟩, ps)

/-! ## Moving and repricing -/

/-- Moves cards to the end of a pile; those that were there to move. -/
def Piles.moveAll (ps : Piles α) (goal : Pile) : List Nat → List Nat × Piles α
  | [] => ([], ps)
  | uid :: uids =>
    match ps.move? uid goal with
    | some (_, ps) =>
      let (moved, ps) := ps.moveAll goal uids
      (uid :: moved, ps)
    | none => ps.moveAll goal uids

/-- Changes the costs of cards, one after another, and stops at the
first that the operation has no result for. A cost is never negative
and has one decimal place. -/
def Piles.changeCosts (ps : Piles α) (op : Arith) (x : α) :
    List Nat → Option Refusal × Piles α
  | [] => (none, ps)
  | uid :: uids =>
    match ps.card? uid with
    | none => ps.changeCosts op x uids
    | some card =>
      match op.result card.cost x with
      | .error r => (some r, ps)
      | .ok cost =>
        (ps.replace uid { card with
          cost := Scalar.roundTenth (Scalar.atLeast 0 cost) }).changeCosts op x uids

/-! ## Selecting -/

namespace Setting

/-- The cards that a selector picks. -/
def select (s : Setting α) (selector : Selector) (home : Pile) (ctx : Context α) :
    Play α (List Nat) :=
  modifyGet fun l =>
    let (uids, ch) := (⟨l.battle.piles, home, ctx.card, s.chooser⟩ : Table α).select selector
      ⟨l.battle.stream, l.questions⟩
    (uids, { l.mapBattle (fun b => { b with stream := ch.stream }) with
      questions := ch.questions })

/-- The value of a unit of cards, now. -/
def cardValue (s : Setting α) (c : Clause α) (me : Side) (ctx : Context α) : Attempt α α := do
  let l ← get
  (c.value (l.scope s me .player ctx) : Except Refusal α)

/-- The number of cards of a unit that names none: it has to be
`+ value`. -/
def countOf (s : Setting α) (c : Clause α) (me : Side) (ctx : Context α) : Attempt α Nat := do
  if c.form.arith? = some .increase then
    let x ← s.cardValue c me ctx
    pure (Scalar.toCount (Scalar.floor x))
  else throw (unsupported c)

/-! ## Units -/

/-- A `draw` unit. -/
def runDraw (s : Setting α) (c : Clause α) (me : Side) (ctx : Context α) :
    Attempt α Unit := do
  match c.form.selector? with
  | some selector =>
    let uids ← s.select selector .draw ctx
    modify fun l =>
      let (d, ps) := l.battle.piles.takeIn s.rules.handLimit uids
      (l.mapBattle fun b => b.setPiles ps).reportDrawn d
  | none =>
    let n ← s.countOf c me ctx
    let _ ← s.drawCards n
    pure ()

/-- A unit that moves cards from the hand, or picked ones, to a pile. A
count means random cards of the hand. -/
def runMove (s : Setting α) (c : Clause α) (me : Side) (ctx : Context α) (goal : Pile) :
    Attempt α Unit := do
  let selector ←
    match c.form.selector? with
    | some selector => pure selector
    | none => pure (Selector.randomFrom .hand (← s.countOf c me ctx))
  let uids ← s.select selector .hand ctx
  modify fun l =>
    let (moved, ps) := l.battle.piles.moveAll goal uids
    (l.mapBattle fun b => b.setPiles ps).reportMoved moved goal

/-- A unit that changes the costs of picked cards, or of the whole
hand. -/
def runCost (s : Setting α) (c : Clause α) (me : Side) (ctx : Context α) :
    Attempt α Unit := do
  match c.form.arith? with
  | none => throw (unsupported c)
  | some op =>
    let x ← s.cardValue c me ctx
    let uids ← s.select (c.form.selector?.getD .everything) .hand ctx
    let (refusal, ps) := (← get).battle.piles.changeCosts op x uids
    modify fun l => l.mapBattle fun b => b.setPiles ps
    match refusal with
    | some r => throw r
    | none => pure ()

/-- Runs a unit of cards. -/
def runCards (s : Setting α) (c : Clause α) (me : Side) (ctx : Context α) :
    Attempt α Unit :=
  match c.attr with
  | "draw" => s.runDraw c me ctx
  | "discard" => s.runMove c me ctx .discard
  | "exhaust" => s.runMove c me ctx .exhaust
  | "cost" => s.runCost c me ctx
  | other => throw (.unknownAttribute other)

end Setting
end DeckDuel
