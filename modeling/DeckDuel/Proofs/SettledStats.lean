/-
DeckDuel.Proofs.SettledStats — stats that were brought into their bounds.

* `maximum_maximum`, `roundTenth_clamp_again`,
  `roundTenth_atLeast_zero_again` — a finite stat that was brought into
  its bounds and rounded is what it becomes by doing so again.
* `maximum_eq_of_isFinite`, `roundTenth_clamp_eq`,
  `roundTenth_atLeast_eq` — the same where it is known of the result only
  that it is finite.
-/
import DeckDuel.Engine.Stat
import DeckDuel.Proofs.SpentNumbers

namespace DeckDuel

open Scalar Settling Spending

variable {α : Type} [Scalar α]

/-! ## Finite stats -/

section

variable [Settling α] {m x : α}

theorem isFinite_maximum (hx : isFinite x = true) : isFinite (maximum x) = true :=
  isFinite_roundTenth (isFinite_atLeast isFinite_one hx)

/-- A maximum is its own maximum. -/
theorem maximum_maximum (hx : isFinite x = true) : maximum (maximum x) = maximum x := by
  have hbound : atLeast 1 (maximum x) = maximum x := atLeast_one_roundTenth hx
  rw [maximum, hbound]
  exact roundTenth_roundTenth (isFinite_atLeast isFinite_one hx)

theorem not_maximum_lt_one (hx : isFinite x = true) : ¬ maximum x < 1 := by
  have hbound : atLeast 1 (maximum x) = maximum x := atLeast_one_roundTenth hx
  rw [← hbound]
  exact not_atLeast_lt 1 _

theorem roundTenth_maximum_of_isFinite (hx : isFinite x = true) :
    roundTenth (maximum x) = maximum x :=
  roundTenth_roundTenth (isFinite_atLeast isFinite_one hx)

/-- A value that was held between zero and a maximum, and rounded, is
what it becomes by doing so again. -/
theorem roundTenth_clamp_again (hm : isFinite m = true) (hone : ¬ m < 1)
    (hround : roundTenth m = m) (hx : isFinite x = true) :
    roundTenth (clamp 0 m (roundTenth (clamp 0 m x))) = roundTenth (clamp 0 m x) := by
  rw [clamp_roundTenth hm hone hround hx]
  exact roundTenth_roundTenth (isFinite_clamp isFinite_zero hm hx)

theorem roundTenth_atLeast_zero_again (hx : isFinite x = true) :
    roundTenth (atLeast 0 (roundTenth (atLeast 0 x))) = roundTenth (atLeast 0 x) := by
  rw [atLeast_zero_roundTenth hx]
  exact roundTenth_roundTenth (isFinite_atLeast isFinite_zero hx)

end

/-! ## Finite results -/

section

variable [Spending α] {m x : α}

theorem maximum_eq_of_isFinite (h : isFinite (maximum x) = true) :
    maximum (maximum x) = maximum x := by
  have hx : isFinite (atLeast 1 x) = true := isFinite_of_roundTenth h
  have hsame : maximum (atLeast 1 x) = maximum x := by
    rw [maximum, atLeast_atLeast]
    rfl
  rw [← hsame]
  exact maximum_maximum hx

theorem atLeast_one_maximum (h : isFinite (maximum x) = true) :
    atLeast 1 (maximum x) = maximum x := by
  have hx : isFinite (atLeast 1 x) = true := isFinite_of_roundTenth h
  have hbound := atLeast_one_roundTenth hx
  rwa [atLeast_atLeast] at hbound

/-- A value that was held between zero and a maximum, and rounded, is
held there again. -/
theorem roundTenth_clamp_eq (hm : isFinite m = true) (hmax : maximum m = m)
    (h : isFinite (roundTenth (clamp 0 m x)) = true) :
    roundTenth (clamp 0 m (roundTenth (clamp 0 m x))) = roundTenth (clamp 0 m x) := by
  have hone : ¬ m < 1 := hmax ▸ not_maximum_lt_one hm
  have hround : roundTenth m = m := by
    have hagain := roundTenth_maximum_of_isFinite hm
    rwa [hmax] at hagain
  have hx : isFinite (clamp 0 m x) = true := isFinite_of_roundTenth h
  have hsame : clamp 0 m (clamp 0 m x) = clamp 0 m x :=
    clamp_eq_self (not_clamp_lt (not_lt_zero_of_not_lt_one hone) x) (not_lt_clamp 0 m x)
  have hagain := roundTenth_clamp_again hm hone hround hx
  rwa [hsame] at hagain

theorem roundTenth_clamp_zero (hm : isFinite m = true) (hmax : maximum m = m) :
    roundTenth (clamp 0 m 0) = 0 := by
  have hone : ¬ m < 1 := hmax ▸ not_maximum_lt_one hm
  rw [clamp_eq_self (not_lt_self 0) (not_lt_zero_of_not_lt_one hone), roundTenth_zero]

theorem roundTenth_atLeast_eq (h : isFinite (roundTenth (atLeast 0 x)) = true) :
    roundTenth (atLeast 0 (roundTenth (atLeast 0 x))) = roundTenth (atLeast 0 x) := by
  have hagain := roundTenth_atLeast_zero_again (isFinite_of_roundTenth h)
  rwa [atLeast_atLeast] at hagain

end

end DeckDuel
