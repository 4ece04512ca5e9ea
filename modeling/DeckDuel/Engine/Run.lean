/-
DeckDuel.Engine.Run — running effect texts.

* `plan` — the units of a text in the order in which they run: a unit
  on both sides is one on each, lower priorities go first, and units of
  one priority keep their order.
* `Scene.runClause` — one unit, by the domain of its attribute.
* `Setting.runWithin` — a text, with a number of levels left for the
  texts that it sets off. A text without a level is refused as a whole,
  which also ends the text it is a branch of.
* `Setting.execute` — a text at the level where the battle is now.

When a text ends that runs inside no other, the battle is decided if a
side fell. A unit that is refused is left out, and the others go on.
-/
import DeckDuel.Engine.Ability
import DeckDuel.Engine.Cards
import DeckDuel.Engine.Status

namespace DeckDuel

variable {α : Type} [Scalar α]

/-! ## The plan of a text -/

/-- A unit on both sides as one on each; any other unit as it is. -/
def Clause.expand (c : Clause α) : List (Clause α) :=
  if c.target = some .all then [c.aim .me, c.aim .op] else [c]

/-- Puts a unit before the first one that runs strictly later. -/
def insertByPriority (catalog : Catalog) (c : Clause α) : List (Clause α) → List (Clause α)
  | [] => [c]
  | d :: rest =>
    if catalog.priority c ≤ catalog.priority d then c :: d :: rest
    else d :: insertByPriority catalog c rest

/-- Sorts units by priority; units of one priority keep their order. -/
def sortByPriority (catalog : Catalog) (cs : List (Clause α)) : List (Clause α) :=
  cs.foldr (insertByPriority catalog) []

/-- The units of a text, in the order in which they run. -/
def plan (catalog : Catalog) (units : List (Reading α)) : List (Clause α) :=
  sortByPriority catalog ((units.filterMap Reading.clause?).flatMap Clause.expand)

/-! ## Units -/

/-- Reports a unit that was left out. -/
def reportSkipped (raw reason : String) (ctx : Context α) : Play α Unit :=
  emit (.skipped raw reason ctx.origin)

/-- Reports the units that could not be read. -/
def reportFaults (ctx : Context α) : List (Reading α) → Play α Unit
  | [] => pure ()
  | .clause _ :: rest => reportFaults ctx rest
  | .fault raw f :: rest => do
    reportSkipped raw f.message ctx
    reportFaults ctx rest

namespace Scene

/-- Runs a branch: one of its two texts, unless it is blank. -/
def runBranch (sc : Scene α) (condition effect : String) (otherwise : Option String)
    (me : Side) (ctx : Context α) : Attempt α Unit := do
  let l ← get
  let holds := (l.scope sc.toSetting me me ctx).condition condition.toList
  match if holds then some effect else otherwise with
  | some text => if Text.isBlankText text.toList then pure () else sc.run text me ctx
  | none => pure ()

/-- Runs a unit. -/
def runClause (sc : Scene α) (c : Clause α) (me : Side) (ctx : Context α) :
    Attempt α Unit := do
  match c.form with
  | .branch condition effect otherwise => sc.runBranch condition effect otherwise me ctx
  | _ =>
    match sc.catalog.get? c.attr with
    | none => throw (.unknownAttribute c.attr)
    | some a =>
      match a.domain with
      | .stat => sc.runStat c me ctx
      | .modifier => sc.runModifier c me ctx
      | .status => sc.runStatus c me ctx
      | .ability => runAbility c me ctx
      | .card => sc.toSetting.runCards c me ctx
      | .special => pure ()

/-- Runs units in order. A refused unit is left out and reported; the
nesting limit ends the run. -/
def runClauses (sc : Scene α) (me : Side) (ctx : Context α) :
    List (Clause α) → Attempt α Unit
  | [] => pure ()
  | c :: rest => do
    match ← caught (sc.runClause c me ctx) with
    | .ok () => runClauses sc me ctx rest
    | .error r =>
      modify fun l => l.write (.refused c r)
      if r.isFatal then throw r
      else
        reportSkipped c.raw r.message ctx
        runClauses sc me ctx rest

/-- Reads a text and runs its units. -/
def runUnits (sc : Scene α) (text : String) (me : Side) (ctx : Context α) :
    Attempt α Unit := do
  let units ← modifyGet fun l =>
    let (units, memo) := l.memo.parse sc.catalog text
    (units, { l with memo := memo })
  reportFaults ctx units
  sc.runClauses me ctx (plan sc.catalog units)

end Scene

/-! ## Texts -/

namespace Live

/-- Enters a text. The marks of fallen sides start anew with a text that
runs inside no other. -/
def enter (l : Live α) (text : String) (me : Side) : Live α :=
  let l := if l.depth = 0 then l.mapBattle fun b => { b with fallen := .same false } else l
  { l with depth := l.depth + 1 }.write (.entered text me)

/-- Did a side fall during the running text, or has it no hit points? -/
def hasFallen (b : Battle α) (s : Side) : Bool := b.fallen.get s || (b.fighter s).isDead

/-- The winner, if a side fell; the player if both did. -/
def winner? (b : Battle α) : Option Side :=
  if hasFallen b .enemy then some .player
  else if hasFallen b .player then some .enemy
  else none

/-- Decides the battle for a side, and reports it. -/
def conclude (l : Live α) (winner : Side) : Live α :=
  (l.mapBattle fun b =>
    { b with fallen := .same false, outcome := some (.ofWinner winner) }).emit (.gameOver winner)

/-- Decides the battle if a side fell and it was not decided before. -/
def decideFallen (l : Live α) : Live α :=
  if l.battle.isOver then l.mapBattle fun b => { b with fallen := .same false }
  else
    match winner? l.battle with
    | none => l
    | some s => l.conclude s

/-- Leaves a text. -/
def leave (l : Live α) : Live α :=
  let l := { l with depth := l.depth - 1 }
  if l.depth = 0 then l.decideFallen else l

end Live

namespace Setting

/-- Runs a text with a number of levels left, its own among them. -/
def runWithin (s : Setting α) : Nat → String → Side → Context α → Attempt α Unit
  | 0, _, _, _ => throw (.nestingLimit s.rules.maxNesting)
  | levels + 1, text, me, ctx => do
    modify fun l => l.enter text me
    let result ← caught ((⟨s, s.runWithin levels⟩ : Scene α).runUnits text me ctx)
    modify Live.leave
    (result : Except Refusal Unit)

/-- Runs a text where the battle is now. -/
def execute (s : Setting α) (text : String) (me : Side) (ctx : Context α) :
    Attempt α Unit := do
  let l ← get
  s.runWithin (s.rules.maxNesting - l.depth) text me ctx

/-- The setting with all levels for what is run in it. -/
def scene (s : Setting α) : Scene α := ⟨s, s.runWithin s.rules.maxNesting⟩

end Setting
end DeckDuel
