/-
DeckDuel.Refusal — why a unit had no effect.

* `Refusal` — the causes; every one but the nesting limit concerns its
  own unit only, and the rest of the effect goes on.
* `Refusal.message` — the wording.
-/
import DeckDuel.Effect.Fault
import DeckDuel.Side

namespace DeckDuel

/-- Why a unit had no effect. -/
inductive Refusal where
  | unknownAttribute (attr : String)
  | missingTarget (attr : String)
  /-- The target `ALL` was not replaced by the two sides. -/
  | unexpandedAll (raw : String)
  | unknownStatus (id : String)
  | statusNotHeld (id : String) (side : Side)
  | invalidValue (value : String)
  | unsupportedOperator (attr op : String)
  | emptyPile (pile : Pile)
  /-- Too many effects run inside effects. -/
  | nestingLimit (limit : Nat)
deriving DecidableEq, Repr

namespace Refusal

/-- Does the cause end the whole batch? -/
def isFatal : Refusal → Bool
  | nestingLimit _ => true
  | _ => false

/-- The wording of a cause. -/
def message : Refusal → String
  | unknownAttribute attr => "unknown attribute " ++ quoted attr
  | missingTarget attr => "effect on " ++ quoted attr ++ " names no target (ME/OP/ALL)"
  | unexpandedAll raw => "ALL target reached the target resolver for " ++ quoted raw
  | unknownStatus id => "status definition " ++ quoted id ++ " not found"
  | statusNotHeld id side => "status " ++ quoted id ++ " is not held by the " ++ side.name
  | invalidValue value => "invalid value " ++ quoted value
  | unsupportedOperator attr op =>
    "operator " ++ quoted op ++ " is not supported for attribute " ++ quoted attr
  | emptyPile pile => "the " ++ pile.name ++ " pile is empty"
  | nestingLimit limit => "effect nesting exceeded " ++ toString limit ++ " levels"

end Refusal
end DeckDuel
