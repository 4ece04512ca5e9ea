/-
DeckDuel.Modifier — what changes an amount at its point of use.

* `Modifier` — the five kinds of modifiers.
* `Adjustment` — a sum and a product; an amount becomes
  `(amount + sum) · product`.
* `substituteStacks` — puts a stack count in the place of the bare name
  `stacks`, and the prefix `ME.` before bare modifier names.
-/
import DeckDuel.Scalar
import DeckDuel.Variable.Path

namespace DeckDuel

/-- The kinds of modifiers. -/
inductive Modifier where
  | damage | damageTaken | lustDamage | lustDamageTaken | block
deriving DecidableEq, Repr

namespace Modifier

/-- The kinds, in order. -/
def all : List Modifier := [damage, damageTaken, lustDamage, lustDamageTaken, block]

/-- The name of a kind in effect texts. -/
def name : Modifier → String
  | damage => "damage_modifier"
  | damageTaken => "damage_taken_modifier"
  | lustDamage => "lust_damage_modifier"
  | lustDamageTaken => "lust_damage_taken_modifier"
  | block => "block_modifier"

/-- The kind of a name. -/
def ofName? (s : String) : Option Modifier := all.find? fun m => m.name == s

end Modifier

/-- Is the text the name of a modifier? -/
def isModifierName (s : String) : Bool := (Modifier.ofName? s).isSome

/-- The composed parts of a modifier. -/
structure Adjustment (α : Type) where
  sum : α
  product : α
deriving DecidableEq, Repr

namespace Adjustment

variable {α : Type} [Scalar α]

/-- The adjustment that changes nothing. -/
def identity : Adjustment α := ⟨0, 1⟩

/-- The adjusted amount. -/
def apply (a : Adjustment α) (amount : α) : α := (amount + a.sum) * a.product

/-- Does it change nothing? -/
def isIdentity (a : Adjustment α) : Bool := a.sum == 0 && a.product == 1

end Adjustment

/-- Puts a stack count in the place of the name `stacks` and qualifies
bare modifier names; longer paths stay as they are. -/
def substituteStacks (stackCount : Nat) (cs : List Char) : List Char :=
  Variable.mapPaths
    (fun path =>
      if path = "stacks".toList then some (toString stackCount).toList
      else if isModifierName (String.ofList path) then some ("ME.".toList ++ path)
      else none)
    cs

end DeckDuel
