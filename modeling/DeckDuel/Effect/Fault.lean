/-
DeckDuel.Effect.Fault — why a unit could not be read.

A fault names its cause; `ClauseFault.message` is the wording shown to
authors. Faults stay with the unit they were found in: the other units
of the text are read and run all the same.
-/
import DeckDuel.Effect.Clause

namespace DeckDuel

/-- Why a unit could not be read. -/
inductive ClauseFault where
  | noAttribute
  | unknownAttribute (name : String)
  | noStacksId
  | noStatusId
  | needsBrackets (attr : String)
  | noOpening
  | unbalanced
  | afterClosing (rest : String)
  | unbalancedBranch
  | afterBranch (rest : String)
  | branchParts
  | emptyCondition
  | notKeyword (name : String)
  | noVerb
  | noVerbName
  | unknownVerb (name : String)
  | statusVerb (v : Verb)
  | badStatusId (id : String)
  | badDuration (d : String)
  | extraPayload (rest : String)
  | notWrapped (payload : String)
  | noAbilityKey
  | abilityVerb (v : Verb)
  | badSelector (f : SelectorFault)
  | noSelectorOrValue (attr : String)
  | costNeedsValue
  | noOperator
  | unknownOperator (c : Char)
  | noValue (c : Char)
  | badValue (value : String)
deriving DecidableEq, Repr

/-- A text between quotes. -/
def quoted (s : String) : String := "'" ++ s ++ "'"

/-- The wording of a fault. -/
def ClauseFault.message : ClauseFault → String
  | .noAttribute => "expected an attribute name"
  | .unknownAttribute name => "unknown attribute " ++ quoted name
  | .noStacksId => "expected 'stacks.<status id>'"
  | .noStatusId => "expected a status id"
  | .needsBrackets attr => quoted attr ++ " needs its bracketed form"
  | .noOpening => "expected '('"
  | .unbalanced => "unbalanced parentheses"
  | .afterClosing rest => "unexpected " ++ quoted rest ++ " after ')'"
  | .unbalancedBranch => "unbalanced '[' in conditional"
  | .afterBranch rest => "unexpected " ++ quoted rest ++ " after conditional"
  | .branchParts => "conditional needs [condition][effect] or [condition][effect][else]"
  | .emptyCondition => "empty condition"
  | .notKeyword name => quoted name ++ " is not a trigger keyword"
  | .noVerb => "expected '.<verb>(...)'"
  | .noVerbName => "expected a verb"
  | .unknownVerb name => "unknown verb " ++ quoted name
  | .statusVerb v => "status does not support " ++ quoted v.name
  | .badStatusId id => "invalid status id " ++ quoted id
  | .badDuration d => "invalid status duration " ++ quoted d
  | .extraPayload rest => "unexpected " ++ quoted rest ++ " in status payload"
  | .notWrapped payload => "ability " ++ quoted payload ++ " is not of the form trigger(...)"
  | .noAbilityKey => "ability.remove needs a trigger or ability id"
  | .abilityVerb v => "ability does not support " ++ quoted v.name
  | .badSelector f => f.message
  | .noSelectorOrValue attr => quoted attr ++ " needs a selector or a value"
  | .costNeedsValue => "cost needs an operator and value"
  | .noOperator => "expected an operator"
  | .unknownOperator c => "unknown operator " ++ quoted (String.ofList [c])
  | .noValue c => "missing value after " ++ quoted (String.ofList [c])
  | .badValue value => "invalid value " ++ quoted value

/-- A unit text as it was read: a clause, or a fault. -/
inductive Reading (α : Type) where
  | clause (c : Clause α)
  | fault (raw : String) (f : ClauseFault)
deriving DecidableEq, Repr

/-- The clause of a reading without fault. -/
def Reading.clause? {α : Type} : Reading α → Option (Clause α)
  | .clause c => some c
  | .fault .. => none

end DeckDuel
