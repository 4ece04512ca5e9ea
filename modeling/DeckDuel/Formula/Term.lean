/-
DeckDuel.Formula.Term — formulas as trees, and what they are worth.

* `Term` — numbers, signs and negations, binary operators, and
  parenthesised groups. Groups are kept, so that a tree determines the
  tokens it was read from.
* `Term.tokens` — those tokens.
* `Term.value` — the number or truth value of a tree; `none` where an
  operand has the wrong kind or a divisor is zero.
* `Term.Within` — the trees that may stand where only operators
  binding tighter than a given power are allowed: the grammar.
-/
import DeckDuel.Formula.Token

namespace DeckDuel.Formula

/-- What stands before an operand. -/
inductive Sign where
  | plus | minus | not
deriving DecidableEq, Repr

/-- A formula. -/
inductive Term (α : Type) where
  | number (x : α)
  | signed (s : Sign) (t : Term α)
  | binary (o : Operator) (l r : Term α)
  | group (t : Term α)
deriving DecidableEq, Repr

variable {α : Type}

/-- The token of a sign. -/
def Sign.token : Sign → Token α
  | .plus => .operator .plus
  | .minus => .operator .minus
  | .not => .not

/-- The tokens a tree is written with. -/
def Term.tokens : Term α → List (Token α)
  | .number x => [.number x]
  | .signed s t => s.token :: t.tokens
  | .binary o l r => l.tokens ++ .operator o :: r.tokens
  | .group t => .opening :: (t.tokens ++ [.closing])

/-- A tree all of whose binary operators outside groups bind tighter
than `power`. The operators of one power group to the left: a left
operand may hold its own power again, a right operand may not. -/
inductive Term.Within : Nat → Term α → Prop where
  | number {p : Nat} (x : α) : Within p (.number x)
  | signed {p : Nat} (s : Sign) {t : Term α} : Within signPower t → Within p (.signed s t)
  | binary {p : Nat} {o : Operator} {l r : Term α} :
      p < o.power → Within (o.power - 1) l → Within o.power r → Within p (.binary o l r)
  | group {p : Nat} {t : Term α} : Within 0 t → Within p (.group t)

/-- What a formula is worth. -/
inductive Value (α : Type) where
  | number (x : α)
  | truth (b : Bool)
deriving DecidableEq, Repr

/-- The number of a value, if it is one. -/
def Value.number? : Value α → Option α
  | .number x => some x
  | .truth _ => none

/-- The truth of a value, if it is one. -/
def Value.truth? : Value α → Option Bool
  | .truth b => some b
  | .number _ => none

variable [Scalar α]

/-- Are two values equal? Values of different kinds are not. -/
def Value.same : Value α → Value α → Bool
  | .number x, .number y => x == y
  | .truth a, .truth b => a == b
  | _, _ => false

/-- A binary operation on two numbers. -/
def onNumbers (f : α → α → Value α) (l r : Value α) : Option (Value α) :=
  l.number?.bind fun x => r.number?.map fun y => f x y

/-- Applies a sign. -/
def Sign.apply : Sign → Value α → Option (Value α)
  | .plus, v => v.number?.map Value.number
  | .minus, v => v.number?.map fun x => .number (-x)
  | .not, v => v.truth?.map fun b => .truth !b

/-- Applies an operator. The right operand of `and` and `or` is asked
for its truth only when the left one does not decide. -/
def Operator.apply (o : Operator) (l r : Value α) : Option (Value α) :=
  match o with
  | .plus => onNumbers (fun x y => .number (x + y)) l r
  | .minus => onNumbers (fun x y => .number (x - y)) l r
  | .times => onNumbers (fun x y => .number (x * y)) l r
  | .dividedBy =>
    r.number?.bind fun y =>
      if y == 0 then none else l.number?.map fun x => .number (x / y)
  | .less => onNumbers (fun x y => .truth (decide (x < y))) l r
  | .lessEq => onNumbers (fun x y => .truth (decide (x ≤ y))) l r
  | .greater => onNumbers (fun x y => .truth (decide (y < x))) l r
  | .greaterEq => onNumbers (fun x y => .truth (decide (y ≤ x))) l r
  | .equal => some (.truth (l.same r))
  | .unequal => some (.truth !(l.same r))
  | .and => l.truth?.bind fun a => if a then r.truth?.map Value.truth else some (.truth false)
  | .or => l.truth?.bind fun a => if a then some (.truth true) else r.truth?.map Value.truth

/-- What a tree is worth. -/
def Term.value : Term α → Option (Value α)
  | .number x => some (.number x)
  | .signed s t => t.value.bind s.apply
  | .binary o l r => l.value.bind fun a => r.value.bind fun b => o.apply a b
  | .group t => t.value

end DeckDuel.Formula
