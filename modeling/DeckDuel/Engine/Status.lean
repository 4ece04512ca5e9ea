/-
DeckDuel.Engine.Status — the life of a status on a fighter.

* `Scene.applyStatus` — a status that is not held yet is added and its
  `apply` texts run; one that is held runs its `stack` texts, or gains
  stacks if it has none.
* `Scene.setStacks`, `Scene.removeStatus` — other stacks. At zero the
  `remove` texts run with the stacks held before, the status goes, and
  with it the stored modifiers that its texts mention.
* `Scene.tick`, `Scene.decay` — the end of a turn.
* `Scene.isStunned` — does a held status stun its holder?
* `Scene.runStatus` — units of statuses and of stacks.

Texts run in the middle of all this and may change the same status, so
what is held is looked up again after each of them.
-/
import DeckDuel.Engine.Stat

namespace DeckDuel

open DeckDuel.Text

variable {α : Type} [Scalar α]

/-- The stored modifiers that go with a status: those that its `hold`,
`apply` or `tick` texts mention. -/
def StatusDefinition.mentionedModifiers (d : StatusDefinition α) : List String :=
  (Modifier.all.map Modifier.name).filter fun name =>
    (d.triggers.hold ++ d.triggers.apply ++ d.triggers.tick).any fun text => mentions text name

/-- Does a status of this definition stun its holder? -/
def StatusDefinition.stuns (d : StatusDefinition α) : Bool :=
  d.triggers.hold.any fun text => mentions text "stun"

/-- The most stacks of an id. -/
def Setting.stackCap (s : Setting α) (id : String) : Nat :=
  match s.codex.get? id with
  | some d => d.stackCap s.rules.defaultMaxStacks
  | none => s.rules.defaultMaxStacks

/-- Does a status that the side holds stun it? -/
def Setting.isStunned (s : Setting α) (b : Battle α) (side : Side) : Bool :=
  (b.fighter side).statuses.any fun h => (s.codex.get? h.id).any StatusDefinition.stuns

namespace Live

/-- Adds a status that is not held. -/
def gainStatus (l : Live α) (holder : Side) (d : StatusDefinition α) (stackCount : Nat) : Live α :=
  (l.mapFighter holder fun f =>
    { f with statuses := f.statuses ++ [.ofDefinition d stackCount] }).emit
      (.statusApplied holder d.id stackCount)

/-- Drops a status, if it is held, together with the stored modifiers
that its texts mention. -/
def loseStatus (l : Live α) (holder : Side) (id : String) (d : Option (StatusDefinition α)) :
    Live α :=
  if ((l.fighter holder).statusIndex? id).isSome then
    let mentioned := (d.map StatusDefinition.mentionedModifiers).getD []
    (l.mapFighter holder fun f =>
      mentioned.foldl Fighter.clearModifier (f.dropStatus id)).emit (.statusRemoved holder id)
  else l

/-- Stores other stacks of a held status. -/
def commitStacks (l : Live α) (holder : Side) (id : String) (stackCount : Nat) : Live α :=
  let before := (l.fighter holder).stacksOf id
  if before = stackCount then l
  else (l.mapFighter holder fun f => f.setStacks id stackCount).emit
    (.stacksChanged holder id before stackCount)

end Live

namespace Scene

/-- Runs the texts of a point in the life of a status. -/
def runLifecycle (sc : Scene α) (holder : Side) (d : StatusDefinition α) (p : Lifecycle)
    (stackCount : Nat) (ctx : Context α) : Play α Unit :=
  sc.runStatusTexts holder d.id p.name stackCount ctx (d.triggers.get p)

/-- Ends a status: its last texts run, and then it goes, unless they
have removed it already. -/
def endStatus (sc : Scene α) (holder : Side) (id : String) (ctx : Context α) :
    Play α Unit := do
  let stackCount := ((← get).fighter holder).stacksOf id
  match sc.codex.get? id with
  | some d =>
    sc.runLifecycle holder d .remove stackCount ctx
    modify fun l => l.loseStatus holder id (some d)
  | none => modify fun l => l.loseStatus holder id none

/-- Sets the stacks of a held status, up to its cap; at zero it
ends. -/
def setStacks (sc : Scene α) (holder : Side) (id : String) (stackCount : Nat) (ctx : Context α) :
    Attempt α Unit := do
  if (((← get).fighter holder).statusIndex? id).isNone then throw (.statusNotHeld id holder)
  else if stackCount = 0 then sc.endStatus holder id ctx
  else modify fun l => l.commitStacks holder id (min stackCount (sc.stackCap id))

/-- The moment that comes when a status of a kind is gained. -/
def gainTrigger? : StatusKind → Option Trigger
  | .buff => some .gainBuff
  | .debuff => some .gainDebuff
  | .neutral => none

/-- Applies stacks of a status. -/
def applyStatus (sc : Scene α) (holder : Side) (id : String) (stackCount : Nat) (ctx : Context α) :
    Attempt α Unit := do
  match sc.codex.get? id with
  | none => throw (.unknownStatus id)
  | some d =>
    let gained := min stackCount (sc.stackCap id)
    if gained = 0 then pure ()
    else
      let held := ((← get).fighter holder).stacksOf id
      if 0 < held then
        if d.triggers.stack.isEmpty then
          sc.setStacks holder id (min Scalar.maxCount32 (held + gained)) ctx
        else sc.runLifecycle holder d .stack gained ctx
      else
        modify fun l => l.gainStatus holder d gained
        sc.runLifecycle holder d .apply gained ctx
        match gainTrigger? d.kind with
        | some t => sc.fire holder t ctx
        | none => pure ()

/-- Removes a held status, or takes some of its stacks. -/
def removeStatus (sc : Scene α) (holder : Side) (id : String) (amount : Option Nat)
    (ctx : Context α) : Attempt α Unit := do
  let held := ((← get).fighter holder).stacksOf id
  if held = 0 then throw (.statusNotHeld id holder)
  else
    match amount with
    | none => sc.endStatus holder id ctx
    | some n => sc.setStacks holder id (held - n) ctx

/-! ## The end of a turn -/

/-- Runs the `tick` texts of statuses that are still held. -/
def tick (sc : Scene α) (side : Side) (ctx : Context α) : List HeldStatus → Play α Unit
  | [] => pure ()
  | s :: rest => do
    let stackCount := ((← get).fighter side).stacksOf s.id
    if 0 < stackCount then
      match sc.codex.get? s.id with
      | some d => sc.runLifecycle side d .tick stackCount ctx
      | none => pure ()
    tick sc side ctx rest

/-- Lets statuses that are still held decay. -/
def decay (sc : Scene α) (side : Side) (ctx : Context α) : List HeldStatus → Play α Unit
  | [] => pure ()
  | s :: rest => do
    let stackCount := ((← get).fighter side).stacksOf s.id
    match sc.codex.get? s.id with
    | some d =>
      let next := d.decay.apply stackCount
      if 0 < stackCount && next ≠ stackCount then
        let _ ← (sc.setStacks side s.id next ctx).run
        pure ()
    | none => pure ()
    decay sc side ctx rest

/-! ## Units -/

/-- The side that a unit names, if it names one. -/
def explicitSide? (c : Clause α) (me : Side) : Except Refusal (Option Side) :=
  match c.target with
  | none => .ok none
  | some .me => .ok (some me)
  | some .op => .ok (some me.opponent)
  | some .all => .error (.unexpandedAll c.raw)

/-- The side that a kind of status is meant for, when a unit names
none. -/
def homeSide (me : Side) : StatusKind → Side
  | .debuff => me.opponent
  | _ => me

/-- The amount of a status unit as a stack count, if it gives one. -/
def amountOf (sc : Scene α) (c : Clause α) (me holder : Side) (ctx : Context α) :
    Attempt α (Option Nat) := do
  match c.form.operand? with
  | none => pure none
  | some _ => pure (some (Scalar.toStacks (← sc.value c me holder ctx)))

/-- A unit that does arithmetic on stacks. -/
def changeStacks (sc : Scene α) (c : Clause α) (id : String) (op : Arith) (me holder : Side)
    (ctx : Context α) : Attempt α Unit := do
  let held := ((← get).fighter holder).stacksOf id
  let x ← sc.value c me holder ctx
  let next := Scalar.toStacks (← op.result (Scalar.ofNat held) x)
  if held = 0 then
    if next = 0 then throw (.statusNotHeld id holder)
    else sc.applyStatus holder id next ctx
  else sc.setStacks holder id next ctx

/-- Runs a unit of statuses or stacks. -/
def runStatus (sc : Scene α) (c : Clause α) (me : Side) (ctx : Context α) :
    Attempt α Unit := do
  match c.form.statusId? with
  | none => throw (.invalidValue c.raw)
  | some id =>
    let explicit ← explicitSide? c me
    match c.attr, c.form.operation? with
    | "status", some (.verb .apply) =>
      match sc.codex.get? id with
      | none => throw (.unknownStatus id)
      | some d =>
        let holder := explicit.getD (homeSide me d.kind)
        let amount ← sc.amountOf c me holder ctx
        sc.applyStatus holder id (amount.getD 1) ctx
    | "status", some (.verb .remove) =>
      let holder := explicit.getD me
      let amount ← sc.amountOf c me holder ctx
      sc.removeStatus holder id amount ctx
    | "stacks", some (.arith op) => sc.changeStacks c id op me (explicit.getD me) ctx
    | _, _ => throw (unsupported c)

end Scene
end DeckDuel
