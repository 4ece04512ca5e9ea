/-
DeckDuel.Effect.Catalog — the attributes that units may name.

* `Attribute` — a name with the kind of state it touches, a title and a
  priority.
* `Catalog` — the attributes known to a battle; `Catalog.standard` is
  the built-in list.
* `Catalog.priority` — when a unit runs within its effect text: lower
  first, conditionals after everything else.
-/
import DeckDuel.Effect.Clause

namespace DeckDuel

/-- The kinds of state that attributes touch. -/
inductive Domain where
  /-- Numbers of a fighter or of the player. -/
  | stat
  /-- Stored modifier values. -/
  | modifier
  /-- Statuses and their stacks. -/
  | status
  /-- Abilities. -/
  | ability
  /-- Piles and card costs. -/
  | card
  /-- Conditionals and passive text. -/
  | special
deriving DecidableEq, Repr

/-- The domains with the names that hosts register them under. -/
def Domain.name : Domain → String
  | .stat => "basic"
  | .modifier => "modifier"
  | .status => "status"
  | .ability => "ability"
  | .card => "card"
  | .special => "special"

/-- The domain of a name; any other name stands for the special one. -/
def Domain.ofName (s : String) : Domain :=
  ([stat, modifier, status, ability, card].find? fun d => d.name == s).getD special

/-- An attribute. -/
structure Attribute where
  name : String
  domain : Domain
  /-- The name shown to people. -/
  title : String
  /-- Units with a lower priority run first. -/
  priority : Nat
deriving DecidableEq, Repr

/-- The priority of conditionals, after everything else. -/
def branchPriority : Nat := (1 <<< 32) - 1

/-- The priority of units whose attribute is not known. -/
def unknownPriority : Nat := (1 <<< 32) - 2

/-- Names that stand for another attribute. -/
def attributeAliases : List (String × String) := [("current_hp", "hp"), ("current_lust", "lust")]

/-- The name that an attribute is known under. -/
def canonicalName (name : String) : String := (attributeAliases.lookup name).getD name

/-- The attributes that act on the player, whoever runs the unit. -/
def playerOnlyAttributes : List String :=
  ["energy", "max_energy", "draw", "discard", "exhaust", "cost"]

/-- Does the attribute act on the player, whoever runs the unit? -/
def isPlayerOnly (name : String) : Bool := playerOnlyAttributes.contains name

/-- The attributes known to a battle. -/
structure Catalog where
  attributes : List Attribute
deriving DecidableEq, Repr

namespace Catalog

/-- The catalog without attributes. -/
def empty : Catalog := ⟨[]⟩

/-- The built-in attributes. -/
def standard : Catalog :=
  ⟨[⟨"damage_modifier", .modifier, "Damage Modifier", 5⟩,
    ⟨"damage_taken_modifier", .modifier, "Damage Taken Modifier", 5⟩,
    ⟨"lust_damage_modifier", .modifier, "Lust Damage Modifier", 5⟩,
    ⟨"lust_damage_taken_modifier", .modifier, "Lust Damage Taken Modifier", 5⟩,
    ⟨"block_modifier", .modifier, "Block Modifier", 5⟩,
    ⟨"max_hp", .stat, "Max HP", 10⟩,
    ⟨"max_lust", .stat, "Max Lust", 10⟩,
    ⟨"max_energy", .stat, "Max Energy", 10⟩,
    ⟨"block", .stat, "Block", 20⟩,
    ⟨"hp", .stat, "HP", 30⟩,
    ⟨"lust", .stat, "Lust", 30⟩,
    ⟨"energy", .stat, "Energy", 40⟩,
    ⟨"status", .status, "Status", 50⟩,
    ⟨"stacks", .status, "Stacks", 50⟩,
    ⟨"ability", .ability, "Ability", 60⟩,
    ⟨"draw", .card, "Draw", 70⟩,
    ⟨"discard", .card, "Discard", 70⟩,
    ⟨"exhaust", .card, "Exhaust", 70⟩,
    ⟨"cost", .card, "Cost", 70⟩,
    ⟨"passive", .special, "Passive", 90⟩,
    ⟨"if", .special, "Condition", branchPriority⟩]⟩

/-- The catalog with an attribute added, or put in the place of the one
with its name. -/
def register (c : Catalog) (a : Attribute) : Catalog :=
  if c.attributes.any fun b => b.name == a.name then
    ⟨c.attributes.map fun b => if b.name = a.name then a else b⟩
  else ⟨c.attributes ++ [a]⟩

/-- The attribute of a name. -/
def get? (c : Catalog) (name : String) : Option Attribute :=
  c.attributes.find? fun a => a.name == canonicalName name

/-- Every built-in attribute is found under its name. -/
theorem get?_standard {a : Attribute} (ha : a ∈ standard.attributes) :
    standard.get? a.name = some a := by
  revert a
  decide

/-- Is the name known? -/
def contains (c : Catalog) (name : String) : Bool := (c.get? name).isSome

/-- The number of attributes. -/
def size (c : Catalog) : Nat := c.attributes.length

/-- The title of a name; the name itself if it is not known. -/
def title (c : Catalog) (name : String) : String :=
  match c.get? name with
  | some a => a.title
  | none => name

/-- The priority of a unit that is no conditional. -/
def priorityOf (c : Catalog) (name : String) : Nat :=
  match c.get? name with
  | some a => a.priority
  | none => unknownPriority

/-- The priority of a unit. -/
def priority {α : Type} (c : Catalog) (clause : Clause α) : Nat :=
  if clause.form.isBranch then branchPriority else c.priorityOf clause.attr

end Catalog
end DeckDuel
