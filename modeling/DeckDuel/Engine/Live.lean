/-
DeckDuel.Engine.Live — a running battle.

* `Setting` — what stays the same while effects run: definitions,
  attributes, rules, and the host's choices.
* `Live` — what changes: the battle, how deep effects run inside
  effects, which lust overflows are being settled, counters, the memo
  of effect texts and the journal.
* `Journal` — everything that happened, newest entry first. An entry
  keeps its depth and the battle as it was written, so that what a
  listener could see at that moment can be told later. The events are
  what the outside hears; the other notes tell which effects were
  entered, which moments came, and which units were refused.
* `Play`, `Attempt` — steps of a running battle. An attempt may be
  refused; what it did until then stays done.
-/
import DeckDuel.Context
import DeckDuel.Effect.Memo
import DeckDuel.Event
import DeckDuel.Refusal
import DeckDuel.Rules
import DeckDuel.Variable.Scope

namespace DeckDuel

/-- What stays the same while effects run. -/
structure Setting (α : Type) where
  codex : Codex α
  catalog : Catalog
  rules : Rules
  chooser : Chooser α

/-- What an entry of the journal tells. -/
inductive Note (α : Type) where
  /-- An event for the outside. -/
  | event (e : Event α)
  /-- An effect text starts to run for a side. -/
  | entered (text : String) (me : Side)
  /-- A moment came for a side. -/
  | fired (side : Side) (trigger : Trigger)
  /-- A unit was refused. -/
  | refused (clause : Clause α) (cause : Refusal)
  /-- A lust overflow was settled. -/
  | overflowEnded (side : Side)
deriving DecidableEq, Repr

/-- An entry of the journal: a note, how many effects were running, and
the battle at that moment. -/
structure Entry (α : Type) where
  note : Note α
  depth : Nat
  battle : Battle α

/-- The event of an entry. -/
def Entry.event? {α : Type} (e : Entry α) : Option (Event α) :=
  match e.note with
  | .event ev => some ev
  | _ => none

/-- A running battle. -/
structure Live (α : Type) where
  battle : Battle α
  /-- How many effects are running inside each other. -/
  depth : Nat
  /-- The sides whose lust overflow is being settled. -/
  overflowing : Both Bool
  /-- How many ability ids were given out. -/
  abilitiesMade : Nat
  /-- How many choices the host was asked for. -/
  questions : Nat
  memo : Memo α
  /-- Everything that happened, newest first. -/
  journal : List (Entry α)

/-- A step of a running battle. -/
abbrev Play (α β : Type) := StateM (Live α) β

/-- A step that may be refused. -/
abbrev Attempt (α β : Type) := ExceptT Refusal (StateM (Live α)) β

/-- Takes an attempt and hands on what came of it, refused or not. -/
def caught {α β : Type} (x : Attempt α β) : Attempt α (Except Refusal β) := ExceptT.lift x.run

namespace Live

variable {α : Type}

/-- A battle in which nothing has run yet. -/
def start (b : Battle α) : Live α := ⟨b, 0, .same false, 0, 0, .empty, []⟩

/-- The events so far, oldest first. -/
def events (l : Live α) : List (Event α) := (l.journal.filterMap Entry.event?).reverse

/-- The events after the first entries of the journal, oldest first. -/
def eventsSince (l : Live α) (entries : Nat) : List (Event α) :=
  ((l.journal.take (l.journal.length - entries)).filterMap Entry.event?).reverse

/-- Writes a note into the journal. -/
def write (l : Live α) (n : Note α) : Live α :=
  { l with journal := ⟨n, l.depth, l.battle⟩ :: l.journal }

/-- Reports an event. -/
def emit (l : Live α) (e : Event α) : Live α := l.write (.event e)

/-- Changes the battle. -/
def mapBattle (l : Live α) (f : Battle α → Battle α) : Live α := { l with battle := f l.battle }

/-- Changes the fighter of a side. -/
def mapFighter (l : Live α) (s : Side) (f : Fighter α → Fighter α) : Live α :=
  l.mapBattle fun b => b.mapFighter s f

/-- The fighter of a side. -/
def fighter (l : Live α) (s : Side) : Fighter α := l.battle.fighter s

/-- Reports that a stored number changed, if it did. -/
def reportChange [Scalar α] (l : Live α) (side : Side) (attr : String) (before after : α) :
    Live α :=
  if before == after then l else l.emit (.attributeChanged side attr before after)

/-- The meaning of names for an effect of one side that acts on
another. -/
def scope (l : Live α) (s : Setting α) (me target : Side) (ctx : Context α) : Scope α :=
  ⟨l.battle, s.codex, me, target, ctx.energyBefore⟩

end Live

/-- A setting together with the way to run an effect text inside the
running one. Everything that reacts to a change gets it, and can run
texts without knowing how they are run. -/
structure Scene (α : Type) extends Setting α where
  run : String → Side → Context α → Attempt α Unit

namespace Scene

variable {α : Type}

/-- Runs a text that nobody waits for: a refusal ends the text and
nothing else. -/
def runLoose (sc : Scene α) (text : String) (me : Side) (ctx : Context α) : Play α Unit := do
  let _ ← (sc.run text me ctx).run
  pure ()

end Scene

/-! ## Targets and values of units -/

namespace Clause

variable {α : Type}

/-- The side that a unit acts on. -/
def side (c : Clause α) (me : Side) (ctx : Context α) : Except Refusal Side :=
  if c.target = some .all then .error (.unexpandedAll c.raw)
  else if isPlayerOnly c.attr then .ok .player
  else
    match c.target.or ctx.target with
    | some .me => .ok me
    | some .op => .ok me.opponent
    | _ => .error (.missingTarget c.attr)

variable [Scalar α]

/-- The number on the right-hand side of a unit. -/
def value (c : Clause α) (sc : Scope α) : Except Refusal α :=
  match c.form.operand? with
  | some (.literal x) => .ok x
  | some (.path p) =>
    match sc.resolve p.toList with
    | some x => .ok x
    | none => .error (.invalidValue p)
  | some (.formula f) => .ok (sc.evaluate f.toList)
  | some (.payload t) => .error (.invalidValue t)
  | none => .error (.invalidValue c.raw)

end Clause

/-- The refusal of an operation that has no result. -/
def noResult {α : Type} [Scalar α] (op : String) (value : α) : Refusal :=
  .invalidValue (op ++ Scalar.text value)

end DeckDuel
