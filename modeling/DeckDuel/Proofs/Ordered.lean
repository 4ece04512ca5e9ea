/-
DeckDuel.Proofs.Ordered — numbers whose bounds can be trusted.

* `Scalar.Ordered` — the laws of numbers that are totally ordered, and
  of rounding to one decimal place: it is monotone, changes nothing
  twice, and keeps zero and one.
* `Scalar.le_atLeast`, `Scalar.le_clamp`, `Scalar.clamp_le` — bounds
  hold after they were imposed.
* `Scalar.roundTenth_le` — rounding does not step over a bound that is
  rounded itself. It may step over any other.

Double-precision numbers are not ordered in this sense, since what is
not a number compares with nothing; exact ones are
(`DeckDuel.Proofs.Exact`).
-/
import DeckDuel.Engine.Stat

namespace DeckDuel.Scalar

/-- Numbers that are totally ordered, with a rounding that respects the
order. -/
class Ordered (α : Type) [Scalar α] : Prop where
  le_refl : ∀ x : α, x ≤ x
  le_trans : ∀ {x y z : α}, x ≤ y → y ≤ z → x ≤ z
  le_total : ∀ x y : α, x ≤ y ∨ y ≤ x
  not_le : ∀ {x y : α}, ¬ x ≤ y ↔ y < x
  zero_le_one : (0 : α) ≤ 1
  sub_nonneg : ∀ {x y : α}, x ≤ y → 0 ≤ y - x
  roundTenth_mono : ∀ {x y : α}, x ≤ y → roundTenth x ≤ roundTenth y
  roundTenth_roundTenth : ∀ x : α, roundTenth (roundTenth x) = roundTenth x
  roundTenth_zero : roundTenth (0 : α) = 0
  roundTenth_one : roundTenth (1 : α) = 1

variable {α : Type} [Scalar α] [Ordered α]

theorem le_of_lt {x y : α} (h : x < y) : x ≤ y := by
  rcases Ordered.le_total x y with hle | hle
  · exact hle
  · exact absurd hle (Ordered.not_le.mpr h)

theorem le_of_not_lt {x y : α} (h : ¬ x < y) : y ≤ x := by
  by_cases hle : y ≤ x
  · exact hle
  · exact absurd (Ordered.not_le.mp hle) h

/-! ## Bounds -/

theorem le_atLeast (bound x : α) : bound ≤ atLeast bound x := by
  unfold atLeast
  split
  · next h => exact le_of_lt h
  · exact Ordered.le_refl bound

theorem le_clamp {low high : α} (h : low ≤ high) (x : α) : low ≤ clamp low high x := by
  have hraised : low ≤ if x < low then low else x := by
    split
    · exact Ordered.le_refl low
    · next hx => exact le_of_not_lt hx
  unfold clamp
  by_cases hcut : high < if x < low then low else x
  · rw [if_pos hcut]
    exact h
  · rw [if_neg hcut]
    exact hraised

theorem clamp_le (low high x : α) : clamp low high x ≤ high := by
  unfold clamp
  by_cases hcut : high < if x < low then low else x
  · rw [if_pos hcut]
    exact Ordered.le_refl high
  · rw [if_neg hcut]
    exact le_of_not_lt hcut

/-! ## Rounding -/

/-- A bound from below that is rounded itself survives rounding. -/
theorem le_roundTenth {m x : α} (hm : roundTenth m = m) (h : m ≤ x) : m ≤ roundTenth x := by
  rw [← hm]
  exact Ordered.roundTenth_mono h

/-- A bound from above that is rounded itself survives rounding. -/
theorem roundTenth_le {m x : α} (hm : roundTenth m = m) (h : x ≤ m) : roundTenth x ≤ m := by
  rw [← hm]
  exact Ordered.roundTenth_mono h

theorem roundTenth_nonneg {x : α} (h : 0 ≤ x) : 0 ≤ roundTenth x :=
  le_roundTenth Ordered.roundTenth_zero h

/-- A value that was held between zero and a rounded maximum, and then
rounded, is still between them. -/
theorem roundTenth_clamp_bounds {m : α} (hm : roundTenth m = m) (hpos : 0 ≤ m) (x : α) :
    0 ≤ roundTenth (clamp 0 m x) ∧ roundTenth (clamp 0 m x) ≤ m :=
  ⟨roundTenth_nonneg (le_clamp hpos x), roundTenth_le hm (clamp_le 0 m x)⟩

theorem one_le_maximum (x : α) : 1 ≤ maximum x :=
  le_roundTenth Ordered.roundTenth_one (le_atLeast 1 x)

theorem roundTenth_maximum (x : α) : roundTenth (maximum x) = maximum x :=
  Ordered.roundTenth_roundTenth _

end DeckDuel.Scalar
