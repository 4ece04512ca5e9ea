/-
DeckDuel.Status.Decay — how stacks change at the end of a turn.

* `Decay` — not at all, by an amount, or by a factor.
* `Decay.read` — the written form: a number, `x` and a factor, or
  nothing.
* `Decay.apply` — one step: the new count is rounded down, and a count
  that is not positive is zero.
-/
import DeckDuel.Scalar
import DeckDuel.Text.Blank

namespace DeckDuel

open DeckDuel.Text

/-- A rule for the stacks of a status at the end of its holder's
turn. -/
inductive Decay (α : Type) where
  | none
  | amount (d : α)
  | factor (f : α)
deriving DecidableEq, Repr

/-- Why a text is no decay rule. -/
inductive DecayFault where
  | badFactor (text : List Char)
  | badAmount (text : List Char)
deriving DecidableEq, Repr

/-- The message of a fault. -/
def DecayFault.message : DecayFault → String
  | .badFactor t => "invalid stacks factor '" ++ String.ofList t ++ "'"
  | .badAmount t => "invalid stacks_change '" ++ String.ofList t ++ "'"

namespace Decay

variable {α : Type} [Scalar α]

/-- Reads a decay rule: blanks for none, `x`, `X` or `*` before a
factor, and otherwise an amount. -/
def read (text : List Char) : Except DecayFault (Decay α) :=
  let cs := trim text
  match cs with
  | [] => .ok .none
  | c :: rest =>
    if c = 'x' || c = 'X' || c = '*' then
      match Scalar.ofText (trim rest) with
      | some f => .ok (.factor f)
      | Option.none => .error (.badFactor cs)
    else
      match Scalar.ofText cs with
      | some d => .ok (.amount d)
      | Option.none => .error (.badAmount cs)

/-- The stacks after one step. -/
def apply (d : Decay α) (stackCount : Nat) : Nat :=
  match d with
  | .none => stackCount
  | .amount d => Scalar.toStacks (Scalar.ofNat stackCount + d)
  | .factor f => Scalar.toStacks (Scalar.ofNat stackCount * f)

end Decay
end DeckDuel
