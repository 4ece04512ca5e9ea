/-
DeckDuel.Engine.Stat — units that change numbers of a fighter.

* `Live.commitHp`, `Live.strike`, … — the changes themselves: a number
  is brought into its bounds, rounded to one decimal place and stored,
  and the change is reported.
* `Scene.runStat` — the units of hit points, lust, block, energy and
  the maxima. What reacts to a change runs after it was stored.
* `runModifier` — units that store a modifier.

Damage goes through the modifiers of both sides and then through block;
lust and block that are gained go through theirs.
-/
import DeckDuel.Engine.Reaction

namespace DeckDuel

variable {α : Type} [Scalar α]

/-- The refusal of a unit whose operation its attribute does not
have. -/
def unsupported (c : Clause α) : Refusal := .unsupportedOperator c.attr c.form.operationText

/-- An ordinary number, or the refusal of any other. -/
def ordinary (x : α) : Except Refusal α :=
  if Scalar.isFinite x then .ok x else .error (.invalidValue (Scalar.text x))

/-- The result of an operation, or its refusal. -/
def Arith.result (op : Arith) (current x : α) : Except Refusal α :=
  match op.apply current x with
  | some y => .ok y
  | none => .error (noResult op.text x)

/-! ## Stored changes -/

/-- A maximum: at least one, to one decimal place. -/
def maximum (x : α) : α := Scalar.roundTenth (Scalar.atLeast 1 x)

namespace Live

/-- Marks a side as fallen if it has no hit points left. -/
def markFallen (l : Live α) (side : Side) : Live α :=
  if (l.fighter side).isDead then
    l.mapBattle fun b => { b with fallen := b.fallen.set side true }
  else l

/-- Stores hit points. An undefined number changes nothing. -/
def commitHp (l : Live α) (side : Side) (next : α) : Live α :=
  if next == next then
    let before := (l.fighter side).hp
    let l := l.mapFighter side fun f =>
      { f with hp := Scalar.roundTenth (Scalar.clamp 0 f.maxHp next) }
    (l.reportChange side "hp" before (l.fighter side).hp).markFallen side
  else l

/-- Stores lust. -/
def commitLust (l : Live α) (side : Side) (next : α) : Live α :=
  let before := (l.fighter side).lust
  let l := l.mapFighter side fun f =>
    { f with lust := Scalar.roundTenth (Scalar.clamp 0 f.maxLust next) }
  l.reportChange side "lust" before (l.fighter side).lust

/-- Stores block. -/
def commitBlock (l : Live α) (side : Side) (next : α) : Live α :=
  let before := (l.fighter side).block
  let l := l.mapFighter side fun f =>
    { f with block := Scalar.roundTenth (Scalar.atLeast 0 next) }
  l.reportChange side "block" before (l.fighter side).block

/-- Stores energy. -/
def commitEnergy (l : Live α) (next : α) : Live α :=
  let before := l.battle.player.energy
  let l := l.mapBattle fun b => b.setEnergy (Scalar.roundTenth (Scalar.atLeast 0 next))
  l.reportChange .player "energy" before l.battle.player.energy

/-- Brings the stats of a side into their bounds and reports hit points
and lust. -/
def settle (l : Live α) (side : Side) : Live α :=
  let before := l.fighter side
  let l := l.mapFighter side Fighter.settle
  let l := l.reportChange side "hp" before.hp (l.fighter side).hp
  l.reportChange side "lust" before.lust (l.fighter side).lust

/-- Stores the most hit points, and brings the stats of the side into
their bounds. -/
def commitMaxHp (l : Live α) (side : Side) (next : α) : Live α :=
  let before := (l.fighter side).maxHp
  let l := l.mapFighter side fun f => { f with maxHp := maximum next }
  (l.reportChange side "max_hp" before (l.fighter side).maxHp).settle side

/-- Stores the most lust, and brings the stats of the side into their
bounds. -/
def commitMaxLust (l : Live α) (side : Side) (next : α) : Live α :=
  let before := (l.fighter side).maxLust
  let l := l.mapFighter side fun f => { f with maxLust := maximum next }
  (l.reportChange side "max_lust" before (l.fighter side).maxLust).settle side

/-- Stores the energy of a full turn. -/
def commitMaxEnergy (l : Live α) (next : α) : Live α :=
  let before := l.battle.player.maxEnergy
  let l := l.mapBattle fun b => { b with player := { b.player with maxEnergy := maximum next } }
  l.reportChange .player "max_energy" before l.battle.player.maxEnergy

/-- Marks the overflow of a side as being settled, or as settled. -/
def markOverflow (l : Live α) (side : Side) (begun : Bool) : Live α :=
  { l with overflowing := l.overflowing.set side begun }

/-- Sets lust back to zero. -/
def clearLust (l : Live α) (side : Side) : Live α :=
  let before := (l.fighter side).lust
  (l.mapFighter side fun f => { f with lust := 0 }).reportChange side "lust" before 0

end Live

/-- What a hit came to. -/
structure Hit (α : Type) where
  /-- The part that block absorbed. -/
  blocked : α
  /-- The hit points that were lost. -/
  lost : α

/-- Takes damage from block first and from hit points then. -/
def Live.strike (l : Live α) (target : Side) (amount : α) : Hit α × Live α :=
  let f := l.fighter target
  let blocked := Scalar.least f.block amount
  let l := l.commitBlock target (f.block - blocked)
  let l := l.commitHp target (f.hp - (amount - blocked))
  let lost := Scalar.roundTenth (f.hp - (l.fighter target).hp)
  (⟨blocked, lost⟩, l.emit (.damaged target lost (Scalar.roundTenth blocked)))

namespace Scene

/-- The adjustment of a kind for a side, now. -/
def adjustment (sc : Scene α) (side : Side) (kind : Modifier) : Play α (Adjustment α) := do
  pure ((← get).battle.adjustment sc.codex side kind)

/-- The gain of a side after an adjustment; it is never negative. -/
def adjusted (sc : Scene α) (side : Side) (kind : Modifier) (x : α) : Play α α := do
  pure (Scalar.atLeast 0 ((← sc.adjustment side kind).apply x))

/-! ## Hit points -/

/-- Deals damage that the modifiers have already gone into. -/
def damage (sc : Scene α) (source target : Side) (amount : α) (ctx : Context α) :
    Play α Unit := do
  let hit ← modifyGet fun l => l.strike target amount
  if 0 < hit.blocked then sc.fire target .loseBlock ctx
  if 0 < hit.lost then sc.fire target .takeDamage ctx
  if source ≠ target && decide (0 < amount) then sc.fire source .dealDamage ctx

/-- Gives hit points. -/
def heal (sc : Scene α) (target : Side) (amount : α) (ctx : Context α) : Play α Unit := do
  let before := ((← get).fighter target).hp
  modify fun l => l.commitHp target (before + amount)
  let gained := Scalar.roundTenth (((← get).fighter target).hp - before)
  if 0 < gained then
    emit (.healed target gained)
    sc.fire target .takeHeal ctx

/-- Changes hit points in a way that is neither damage nor healing: no
modifier and no block takes part. -/
def computeHp (sc : Scene α) (target : Side) (op : Arith) (x : α) (ctx : Context α) :
    Attempt α Unit := do
  let before := ((← get).fighter target).hp
  let next ← op.result before x
  modify fun l => l.commitHp target next
  let after := ((← get).fighter target).hp
  if after < before then
    emit (.damaged target (Scalar.roundTenth (before - after)) 0)
    sc.fire target .takeDamage ctx
  else if before < after then
    emit (.healed target (Scalar.roundTenth (after - before)))
    sc.fire target .takeHeal ctx

/-- A unit of hit points. -/
def changeHp (sc : Scene α) (me target : Side) (op : Arith) (x : α) (ctx : Context α) :
    Attempt α Unit := do
  if op = .decrease && decide (0 < x) then
    let dealt := (← sc.adjustment me .damage).apply x
    let amount ← ordinary (← sc.adjusted target .damageTaken dealt)
    sc.damage me target amount ctx
  else if op = .increase && decide (0 < x) then sc.heal target x ctx
  else sc.computeHp target op x ctx

/-! ## Lust -/

/-- What a lust overflow comes to: the opponent's overflow effect runs,
the moment comes for the side, and its lust starts anew. -/
def spillLust (sc : Scene α) (side : Side) (ctx : Context α) : Play α Unit := do
  emit (.lustOverflow side)
  match ((← get).fighter side.opponent).overflow with
  | some text =>
    sc.runLoose text side.opponent (ctx.onTrigger Trigger.lustOverflow.keyword)
  | none => pure ()
  sc.fire side .lustOverflow ctx
  modify fun l => l.clearLust side

/-- Settles a lust overflow. An overflow of a side whose overflow is
being settled is nothing. -/
def overflowLust (sc : Scene α) (side : Side) (ctx : Context α) : Play α Unit := do
  if (← get).overflowing.get side then pure ()
  else
    modify fun l => l.markOverflow side true
    sc.spillLust side ctx
    modify fun l => (l.markOverflow side false).write (.overflowEnded side)

/-- Has a side all the lust it can have? -/
def isFull (f : Fighter α) : Bool := decide (f.maxLust ≤ f.lust)

/-- The lust that a unit leads to, before it is brought into its
bounds. -/
def nextLust (sc : Scene α) (me target : Side) (op : Arith) (x : α) : Attempt α α := do
  let before := ((← get).fighter target).lust
  if op = .increase && decide (0 < x) then
    let dealt := (← sc.adjustment me .lustDamage).apply x
    ordinary (before + (← sc.adjusted target .lustDamageTaken dealt))
  else ordinary (← op.result before x)

/-- A unit of lust. The overflow is settled if the maximum was reached
and what reacted to the gain left it so. -/
def changeLust (sc : Scene α) (me target : Side) (op : Arith) (x : α) (ctx : Context α) :
    Attempt α Unit := do
  let before := ((← get).fighter target).lust
  let next ← sc.nextLust me target op x
  modify fun l => l.commitLust target next
  let f := (← get).fighter target
  if before < f.lust then sc.fire target .lustIncrease ctx
  if isFull f && isFull ((← get).fighter target) then sc.overflowLust target ctx

/-! ## Block, energy and maxima -/

/-- The block that a unit leads to, before it is brought into its
bounds. -/
def nextBlock (sc : Scene α) (target : Side) (op : Arith) (x : α) : Attempt α α := do
  let before := ((← get).fighter target).block
  if op = .increase && decide (0 < x) then ordinary (before + (← sc.adjusted target .block x))
  else ordinary (← op.result before x)

/-- A unit of block. -/
def changeBlock (sc : Scene α) (target : Side) (op : Arith) (x : α) (ctx : Context α) :
    Attempt α Unit := do
  let before := ((← get).fighter target).block
  let next ← sc.nextBlock target op x
  modify fun l => l.commitBlock target next
  let after := ((← get).fighter target).block
  if before < after then sc.fire target .gainBlock ctx
  else if after < before then sc.fire target .loseBlock ctx

end Scene

/-- A unit of energy. -/
def changeEnergy (op : Arith) (x : α) : Attempt α Unit := do
  let next ← op.result (← get).battle.player.energy x
  modify fun l => l.commitEnergy next

/-- A unit of the most hit points. -/
def changeMaxHp (target : Side) (op : Arith) (x : α) : Attempt α Unit := do
  let next ← op.result ((← get).fighter target).maxHp x
  modify fun l => l.commitMaxHp target next

/-- A unit of the most lust. -/
def changeMaxLust (target : Side) (op : Arith) (x : α) : Attempt α Unit := do
  let next ← op.result ((← get).fighter target).maxLust x
  modify fun l => l.commitMaxLust target next

/-- A unit of the energy of a full turn. -/
def changeMaxEnergy (op : Arith) (x : α) : Attempt α Unit := do
  let next ← op.result (← get).battle.player.maxEnergy x
  modify fun l => l.commitMaxEnergy next

/-! ## Units -/

/-- The value of a unit, now. -/
def Scene.value (sc : Scene α) (c : Clause α) (me target : Side) (ctx : Context α) :
    Attempt α α := do
  let l ← get
  (c.value (l.scope sc.toSetting me target ctx) : Except Refusal α)

/-- Runs a unit that changes a number of a fighter. -/
def Scene.runStat (sc : Scene α) (c : Clause α) (me : Side) (ctx : Context α) :
    Attempt α Unit := do
  let target ← c.side me ctx
  match c.form.arith? with
  | none => throw (unsupported c)
  | some op =>
    let x ← ordinary (← sc.value c me target ctx)
    match c.attr with
    | "hp" => sc.changeHp me target op x ctx
    | "lust" => sc.changeLust me target op x ctx
    | "block" => sc.changeBlock target op x ctx
    | "energy" => changeEnergy op x
    | "max_hp" => changeMaxHp target op x
    | "max_lust" => changeMaxLust target op x
    | "max_energy" => changeMaxEnergy op x
    | other => throw (.unknownAttribute other)

/-- Runs a unit that stores a modifier. The change is reported even if
the value stays. -/
def Scene.runModifier (sc : Scene α) (c : Clause α) (me : Side) (ctx : Context α) :
    Attempt α Unit := do
  let target ← c.side me ctx
  match c.form.operation? with
  | none => throw (.invalidValue c.raw)
  | some op =>
    let x ← sc.value c me target ctx
    let before := (((← get).fighter target).modifier? c.attr).getD 0
    match op with
    | .verb v => throw (noResult v.name x)
    | .arith a =>
      let after ← a.result before x
      modify fun l =>
        (l.mapFighter target fun f => f.storeModifier c.attr after).emit
          (.attributeChanged target c.attr before after)

end DeckDuel
