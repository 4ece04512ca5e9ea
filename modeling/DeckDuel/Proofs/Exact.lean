/-
DeckDuel.Proofs.Exact — the laws of exact numbers.

* `Exact.nearest_mono`, `Exact.nearest_intCast` — rounding to an integer
  is monotone and keeps integers.
* `Scalar.Ordered Exact` — so rounding to one decimal place respects the
  order, and bounds can be trusted.
-/
import DeckDuel.Proofs.Ordered
import DeckDuel.Scalar.Exact
import Mathlib.Tactic.Linarith
import Mathlib.Tactic.NormNum

namespace DeckDuel.Exact

open Scalar

theorem nearest_mono {x y : ℚ} (h : x ≤ y) : nearest x ≤ nearest y := by
  unfold nearest
  by_cases hx : 0 ≤ x
  · rw [if_pos hx, if_pos (hx.trans h)]
    exact Int.floor_mono (by linarith)
  · rw [if_neg hx]
    have hneg : 0 ≤ ⌊-x + 1 / 2⌋ := Int.floor_nonneg.mpr (by linarith)
    by_cases hy : 0 ≤ y
    · rw [if_pos hy]
      have hpos : 0 ≤ ⌊y + 1 / 2⌋ := Int.floor_nonneg.mpr (by linarith)
      omega
    · rw [if_neg hy]
      exact neg_le_neg (Int.floor_mono (by linarith))

theorem nearest_intCast (n : ℤ) : nearest n = n := by
  have hhalf : ⌊(1 / 2 : ℚ)⌋ = 0 := by norm_num
  unfold nearest
  split
  · rw [Int.floor_intCast_add, hhalf, add_zero]
  · rw [← Int.cast_neg, Int.floor_intCast_add, hhalf, add_zero, neg_neg]

theorem value_zero : (0 : Exact).value = 0 := rfl

theorem value_one : (1 : Exact).value = 1 := rfl

theorem value_roundTenth (x : Exact) : (roundTenth x).value = nearest (x.value * 10) / 10 := rfl

theorem ext {x y : Exact} (h : x.value = y.value) : x = y := by
  cases x; cases y; exact congrArg mk h

theorem roundTenth_eq_self {x : Exact} {n : ℤ} (h : x.value * 10 = n) : roundTenth x = x := by
  apply ext
  rw [value_roundTenth, h, nearest_intCast, ← h]
  exact mul_div_cancel_right₀ _ (by norm_num)

instance : Ordered Exact where
  le_refl x := le_refl x.value
  le_trans h k := le_trans (α := ℚ) h k
  le_total x y := le_total x.value y.value
  not_le := not_le (α := ℚ)
  zero_le_one := zero_le_one (α := ℚ)
  sub_nonneg h := sub_nonneg (α := ℚ).mpr h
  roundTenth_mono {x y} h := by
    have hscaled : x.value * 10 ≤ y.value * 10 := mul_le_mul_of_nonneg_right h (by norm_num)
    have hrounded : (nearest (x.value * 10) : ℚ) ≤ nearest (y.value * 10) :=
      Int.cast_le.mpr (nearest_mono hscaled)
    show (roundTenth x).value ≤ (roundTenth y).value
    rw [value_roundTenth, value_roundTenth]
    exact div_le_div_of_nonneg_right hrounded (by norm_num)
  roundTenth_roundTenth x := by
    refine roundTenth_eq_self (n := nearest (x.value * 10)) ?_
    rw [value_roundTenth]
    exact div_mul_cancel₀ _ (by norm_num)
  roundTenth_zero := roundTenth_eq_self (n := 0) (by simp [value_zero])
  roundTenth_one := roundTenth_eq_self (n := 10) (by simp [value_one])

end DeckDuel.Exact
