/-
DeckDuel.Status.Definition — what a status is.

* `StatusKind`, `StatusOrigin` — buff, debuff or neither; and whether
  the definition was written by hand or generated.
* `Lifecycle` — the five points of a status's life.
* `StatusTriggers` — effect texts for those points and for the named
  moments of a battle, keyed by name in ascending order.
* `StatusDefinition` — a definition, and `stackCap`, the most stacks it
  allows.
-/
import DeckDuel.Status.Decay

namespace DeckDuel

/-- Is a status good or bad for its holder? -/
inductive StatusKind where
  | buff | debuff | neutral
deriving DecidableEq, Repr, Inhabited

/-- The name of a kind. -/
def StatusKind.name : StatusKind → String
  | .buff => "buff"
  | .debuff => "debuff"
  | .neutral => "neutral"

/-- The kinds with their names. -/
def StatusKind.names : List (String × StatusKind) :=
  [("buff", .buff), ("debuff", .debuff), ("neutral", .neutral)]

/-- Who wrote a definition. -/
inductive StatusOrigin where
  | ai | system
deriving DecidableEq, Repr, Inhabited

/-- The name of an origin. -/
def StatusOrigin.name : StatusOrigin → String
  | .ai => "ai"
  | .system => "system"

/-- The origins with their names. -/
def StatusOrigin.names : List (String × StatusOrigin) := [("ai", .ai), ("system", .system)]

/-- The points of a status's life. -/
inductive Lifecycle where
  /-- When it is first applied. -/
  | apply
  /-- At each end of its holder's turn, before it decays. -/
  | tick
  /-- Just before it is removed. -/
  | remove
  /-- When it is applied while it is held. -/
  | stack
  /-- Never comes: read for modifiers and stuns. -/
  | hold
deriving DecidableEq, Repr

namespace Lifecycle

/-- The points, in the order of documents. -/
def all : List Lifecycle := [apply, tick, remove, stack, hold]

/-- The name of a point. -/
def name : Lifecycle → String
  | apply => "apply"
  | tick => "tick"
  | remove => "remove"
  | stack => "stack"
  | hold => "hold"

/-- The point of a name. -/
def ofName? (s : String) : Option Lifecycle := all.find? fun p => p.name == s

end Lifecycle

/-- The effect texts of a status. -/
structure StatusTriggers where
  apply : List String
  tick : List String
  remove : List String
  stack : List String
  hold : List String
  /-- Texts for named moments, by ascending name. -/
  events : List (String × List String)
deriving DecidableEq, Repr

namespace StatusTriggers

/-- No texts at all. -/
def empty : StatusTriggers := ⟨[], [], [], [], [], []⟩

/-- The texts of a point of life. -/
def get (t : StatusTriggers) : Lifecycle → List String
  | .apply => t.apply
  | .tick => t.tick
  | .remove => t.remove
  | .stack => t.stack
  | .hold => t.hold

/-- The texts of a named moment, if the name is listed. -/
def forEvent? (t : StatusTriggers) (name : String) : Option (List String) := t.events.lookup name

/-- The triggers with one more text for a point of life. -/
def add (t : StatusTriggers) (p : Lifecycle) (text : String) : StatusTriggers :=
  match p with
  | .apply => { t with apply := t.apply ++ [text] }
  | .tick => { t with tick := t.tick ++ [text] }
  | .remove => { t with remove := t.remove ++ [text] }
  | .stack => { t with stack := t.stack ++ [text] }
  | .hold => { t with hold := t.hold ++ [text] }

/-- Changes the entry of a name in a list that is in ascending order,
or puts a new one in its place. -/
def upsert {β : Type} (name : String) (f : Option β → β) :
    List (String × β) → List (String × β)
  | [] => [(name, f none)]
  | (k, v) :: rest =>
    if name = k then (k, f (some v)) :: rest
    else if name < k then (name, f none) :: (k, v) :: rest
    else (k, v) :: upsert name f rest

/-- The triggers with one more text for a named moment. -/
def addEvent (t : StatusTriggers) (name text : String) : StatusTriggers :=
  { t with events := upsert name (fun old => old.getD [] ++ [text]) t.events }

end StatusTriggers

/-- The definition of a status. -/
structure StatusDefinition (α : Type) where
  id : String
  name : String
  emoji : String
  description : String
  kind : StatusKind
  decay : Decay α
  maxStacks : Option Nat
  triggers : StatusTriggers
  origin : StatusOrigin
  createdAt : Nat
deriving DecidableEq, Repr

/-- A definition without texts. -/
def StatusDefinition.plain {α : Type} (id name : String) (kind : StatusKind) :
    StatusDefinition α :=
  ⟨id, name, "", "", kind, .none, none, .empty, .system, 0⟩

/-- The most stacks of a status, with a default for definitions that
set none. -/
def StatusDefinition.stackCap {α : Type} (d : StatusDefinition α) (standard : Nat) : Nat :=
  d.maxStacks.getD standard

/-- A status held by one side. -/
structure HeldStatus where
  id : String
  name : String
  kind : StatusKind
  stackCount : Nat
  emoji : String
  description : String
deriving DecidableEq, Repr

/-- The status of a definition, held with some stacks. -/
def HeldStatus.ofDefinition {α : Type} (d : StatusDefinition α) (stackCount : Nat) : HeldStatus :=
  ⟨d.id, d.name, d.kind, stackCount, d.emoji, d.description⟩

end DeckDuel
