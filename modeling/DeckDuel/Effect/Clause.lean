/-
DeckDuel.Effect.Clause — one unit of an effect text.

* `Target` — whom a unit acts on, relative to the side that runs it.
* `Arith`, `Verb` — what a unit does: arithmetic on a stored number, or
  a named action.
* `Operand` — the right-hand side of a unit, classified once when it is
  read.
* `Form` — the forms a unit can take.
* `Clause` — a unit that was read, and `Clause.describe`, its summary.
-/
import DeckDuel.Selector

namespace DeckDuel

/-- Whom a unit acts on. -/
inductive Target where
  /-- The side that runs the effect. -/
  | me
  /-- Its opponent. -/
  | op
  /-- Both, first `me` and then `op`. -/
  | all
deriving DecidableEq, Repr

/-- The spelling of a target. -/
def Target.name : Target → String
  | .me => "ME"
  | .op => "OP"
  | .all => "ALL"

/-- Arithmetic on a stored number. -/
inductive Arith where
  | increase | decrease | multiply | divide | set
deriving DecidableEq, Repr

namespace Arith

/-- The symbol of an operation. -/
def symbol : Arith → Char
  | increase => '+'
  | decrease => '-'
  | multiply => '*'
  | divide => '/'
  | set => '='

/-- The operation of a symbol. -/
def ofSymbol? (c : Char) : Option Arith :=
  [increase, decrease, multiply, divide, set].find? fun a => a.symbol == c

/-- The symbol as a text. -/
def text (a : Arith) : String := String.ofList [a.symbol]

variable {α : Type} [Scalar α]

/-- The result on a current number, if it is an ordinary number; there
is none for a division by zero. -/
def apply (a : Arith) (current value : α) : Option α :=
  match a with
  | increase => Scalar.finite? (current + value)
  | decrease => Scalar.finite? (current - value)
  | multiply => Scalar.finite? (current * value)
  | divide => if value == 0 then none else Scalar.finite? (current / value)
  | set => Scalar.finite? value

end Arith

/-- Named actions. -/
inductive Verb where
  | apply | remove | add
deriving DecidableEq, Repr

namespace Verb

/-- The name of an action. -/
def name : Verb → String
  | apply => "apply"
  | remove => "remove"
  | add => "add"

/-- The action of a name. -/
def ofName? (s : String) : Option Verb := [apply, remove, add].find? fun v => v.name == s

end Verb

/-- What a unit does. -/
inductive Operation where
  | arith (a : Arith)
  | verb (v : Verb)
deriving DecidableEq, Repr

/-- The spelling of an operation. -/
def Operation.text : Operation → String
  | .arith a => a.text
  | .verb v => v.name

/-- The right-hand side of a unit. -/
inductive Operand (α : Type) where
  /-- A plain number. -/
  | literal (x : α)
  /-- A single variable path. -/
  | path (name : String)
  /-- Arithmetic over numbers and variable paths. -/
  | formula (content : String)
  /-- The text that a verb takes. -/
  | payload (content : String)
deriving DecidableEq, Repr

/-- The spelling of an operand. -/
def Operand.spelling {α : Type} [Scalar α] : Operand α → String
  | .literal x => Scalar.text x
  | .path name => name
  | .formula f => f
  | .payload p => p

/-- The forms of a unit. -/
inductive Form (α : Type) where
  /-- `attribute op value` -/
  | change (op : Arith) (value : Operand α)
  /-- `stacks.id op value` -/
  | stackChange (id : String) (op : Arith) (value : Operand α)
  /-- `status.apply(id amount duration)` -/
  | apply (id : String) (amount : Option (Operand α)) (duration : Option Nat)
  /-- `status.remove(id amount duration)` -/
  | remove (id : String) (amount : Option (Operand α)) (duration : Option Nat)
  /-- `ability.add(trigger(...))`, or `trigger(...)` alone -/
  | grant (trigger text : String)
  /-- `ability.remove(key)` -/
  | revoke (key : String)
  /-- `passive(...)` -/
  | passive (inner : String)
  /-- `attribute.selector op value`, either part of which may miss -/
  | cards (selector : Option Selector) (change : Option (Arith × Operand α))
  /-- `if[condition][effect][else]` -/
  | branch (condition effect : String) (otherwise : Option String)
deriving DecidableEq, Repr

namespace Form

variable {α : Type}

/-- What a unit of this form does. -/
def operation? : Form α → Option Operation
  | change op _ => some (.arith op)
  | stackChange _ op _ => some (.arith op)
  | apply .. => some (.verb .apply)
  | remove .. => some (.verb .remove)
  | grant .. => some (.verb .add)
  | revoke _ => some (.verb .remove)
  | passive _ => none
  | cards _ c => c.map fun r => .arith r.1
  | branch .. => none

/-- The spelling of the operation; empty if there is none. -/
def operationText (f : Form α) : String :=
  match f.operation? with
  | some o => o.text
  | none => ""

/-- The right-hand side. -/
def operand? : Form α → Option (Operand α)
  | change _ value => some value
  | stackChange _ _ value => some value
  | apply _ amount _ => amount
  | remove _ amount _ => amount
  | grant _ t => some (.payload t)
  | revoke key => some (.payload key)
  | passive inner => some (.payload inner)
  | cards _ c => c.map Prod.snd
  | branch .. => none

/-- The arithmetic operation. -/
def arith? (f : Form α) : Option Arith :=
  match f.operation? with
  | some (.arith a) => some a
  | _ => none

/-- The selector. -/
def selector? : Form α → Option Selector
  | cards selector _ => selector
  | _ => none

/-- The status that the unit is about. -/
def statusId? : Form α → Option String
  | stackChange id _ _ => some id
  | apply id _ _ => some id
  | remove id _ _ => some id
  | _ => none

/-- Is it a conditional? -/
def isBranch : Form α → Bool
  | branch .. => true
  | _ => false

end Form

/-- A unit that was read. -/
structure Clause (α : Type) where
  /-- The text of the unit. -/
  raw : String
  target : Option Target
  /-- The canonical name of its attribute. -/
  attr : String
  form : Form α
  /-- A summary for logs. -/
  description : String
deriving DecidableEq, Repr

namespace Clause

variable {α : Type}

/-- The clause with another target. -/
def aim (c : Clause α) (t : Target) : Clause α := { c with target := some t }

/-- The summary of a unit whose attribute is shown as `title`. -/
def describe [Scalar α] (target : Option Target) (title : String) (form : Form α) : String :=
  let who := match target with
    | some t => t.name ++ " "
    | none => ""
  let value := match form.operand? with
    | some v => v.spelling
    | none => ""
  match form with
  | .branch condition effect (some otherwise) =>
    "if " ++ condition ++ ": " ++ effect ++ "; otherwise " ++ otherwise
  | .branch condition effect none => "if " ++ condition ++ ": " ++ effect
  | .apply id none _ => who ++ "apply " ++ id
  | .apply id (some _) _ => who ++ "apply " ++ value ++ " " ++ id
  | .remove id _ _ => who ++ "remove " ++ id
  | .stackChange id _ _ => who ++ id ++ " stacks " ++ form.operationText ++ value
  | .grant _ _ => who ++ "gain ability " ++ value
  | .revoke _ => who ++ "lose ability " ++ value
  | .change _ _ => who ++ title ++ " " ++ form.operationText ++ value
  | .cards _ (some _) => who ++ title ++ " " ++ form.operationText ++ value
  | .cards _ none => String.ofList (Text.trimEnd (who ++ title ++ " " ++ value).toList)
  | .passive _ => String.ofList (Text.trimEnd (who ++ title ++ " " ++ value).toList)

end Clause
end DeckDuel
