/-
DeckDuel.Proofs.Comparable — numbers among which not all compare.

* `Scalar.IsNumber` — a value that equals itself. What is not a number
  does not, and compares with nothing.
* `Scalar.Comparable` — the laws of such numbers: those that are numbers
  are totally ordered, and rounding leads from numbers to numbers.
* `Scalar.isNumber_clamp` — bounds lead from numbers to numbers as well,
  whatever the upper bound is.

Double-precision numbers are comparable in this sense
(`DeckDuel.Proofs.Double`).
-/
import DeckDuel.Scalar

namespace DeckDuel.Scalar

/-- A value that is a number. -/
def IsNumber {α : Type} [Scalar α] (x : α) : Prop := (x == x) = true

instance {α : Type} [Scalar α] (x : α) : Decidable (IsNumber x) :=
  inferInstanceAs (Decidable ((x == x) = true))

/-- Numbers that compare, among values that need not. -/
class Comparable (α : Type) [Scalar α] : Prop where
  isNumber_zero : IsNumber (0 : α)
  isNumber_of_lt : ∀ {x y : α}, x < y → IsNumber x ∧ IsNumber y
  lt_of_not_le : ∀ {x y : α}, IsNumber x → IsNumber y → ¬ x ≤ y → y < x
  isNumber_roundTenth : ∀ {x : α}, IsNumber x → IsNumber (roundTenth x)

variable {α : Type} [Scalar α] [Comparable α]

theorem isNumber_clamp {low x : α} (hlow : IsNumber low) (hx : IsNumber x) (high : α) :
    IsNumber (clamp low high x) := by
  have hraised : IsNumber (if x < low then low else x) := by
    split
    · exact hlow
    · exact hx
  unfold clamp
  by_cases hcut : high < if x < low then low else x
  · rw [if_pos hcut]
    exact (Comparable.isNumber_of_lt hcut).1
  · rw [if_neg hcut]
    exact hraised

end DeckDuel.Scalar
