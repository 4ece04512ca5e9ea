/-
DeckDuel.Proofs.SpentNumbers — numbers that something is taken from.

* `Scalar.IsAmount` — a number that is positive or the zero without
  sign, as an amount is that was brought into its bounds.
* `Scalar.Spending` — what is left of an amount after a cost that it
  affords is an amount; and an operation that has a finite result had
  finite operands.
* `Spending Double` — so it is for double-precision numbers, infinite
  ones and those that are not numbers among the operands.
-/
import DeckDuel.Proofs.StoredNumbers

namespace DeckDuel

namespace Scalar

/-- A positive number, or the zero without sign. -/
def IsAmount {α : Type} [Scalar α] (x : α) : Prop := 0 < x ∨ x = 0

/-- Numbers that amounts can be spent in. -/
class Spending (α : Type) [Scalar α] : Prop extends Settling α where
  isFinite_of_roundTenth : ∀ {x : α}, isFinite (roundTenth x) = true → isFinite x = true
  isFinite_of_sub : ∀ {x y : α}, isFinite (x - y) = true → isFinite x = true ∧ isFinite y = true
  isAmount_sub : ∀ {x y : α}, isFinite x = true → isFinite y = true → IsAmount x → ¬ x < y →
    IsAmount (x - y)

variable {α : Type} [Scalar α] {x : α}

theorem isAmount_atLeast (x : α) : IsAmount (atLeast 0 x) := by
  unfold atLeast
  split
  · next h => exact .inl h
  · exact .inr rfl

/-- An amount need not be brought to zero at least. -/
theorem IsAmount.atLeast_eq [Settling α] (h : IsAmount x) : atLeast 0 x = x := by
  rcases h with h | rfl
  · exact if_pos h
  · exact if_neg (not_lt_self 0)

theorem IsAmount.roundTenth [Settling α] (h : IsAmount x) (hx : isFinite x = true) :
    IsAmount (Scalar.roundTenth x) := by
  rcases h with h | rfl
  · exact Settling.roundTenth_pos hx h
  · exact .inr Settling.roundTenth_zero

/-- A number that is at least one is an amount. -/
theorem isAmount_of_atLeast_one [Settling α] (hx : isFinite x = true) (h : atLeast 1 x = x) :
    IsAmount x := by
  have hone : ¬ x < 1 := h ▸ not_atLeast_lt 1 x
  exact .inl ((Settling.lt_or_lt x hx Settling.zero_lt_one).resolve_right hone)

end Scalar

/-! ## Words -/

namespace Binary64

theorem isSome_parts?_iff (bits : ℕ) : (parts? bits).isSome = true ↔ bits / 2 ^ 52 % 2048 ≠ 2047 := by
  rw [← Nat.shiftRight_eq_div_pow]
  unfold parts?
  dsimp only
  by_cases h : (bits >>> 52) % 2048 = 2047
  · simp [h]
  · rw [if_neg h]
    split <;> simp [h]

theorem field_of_isNaN {bits : ℕ} (h : isNaN bits = true) : bits / 2 ^ 52 % 2048 = 2047 := by
  have hinfinity : infinity = 2047 * 2 ^ 52 := by decide
  have hsign : signBit = 2048 * 2 ^ 52 := by decide
  have hlt : infinity < bits % signBit := of_decide_eq_true h
  rw [hinfinity, hsign] at hlt
  omega

theorem field_quiet (bits : ℕ) : quiet bits / 2 ^ 52 = bits / 2 ^ 52 := by
  have hquiet : (1 <<< 51) >>> 52 = 0 := by decide
  rw [← Nat.shiftRight_eq_div_pow, ← Nat.shiftRight_eq_div_pow, quiet, Nat.shiftRight_or_distrib,
    hquiet, Nat.or_zero]

theorem field_negate (bits : ℕ) : negate bits / 2 ^ 52 % 2048 = bits / 2 ^ 52 % 2048 := by
  have hsign : signBit = 2048 * 2 ^ 52 := by decide
  unfold negate
  split <;> omega

theorem field_signed_infinity (negative : Bool) :
    signed negative infinity / 2 ^ 52 % 2048 = 2047 := by
  cases negative <;> decide

/-- An operation without finite result on numbers has none on words. -/
theorem field_onNumbers {f : ℕ → ℕ → ℕ} {a b : ℕ} (hf : f a b / 2 ^ 52 % 2048 = 2047) :
    onNumbers f a b / 2 ^ 52 % 2048 = 2047 := by
  unfold onNumbers
  split
  · next ha =>
    rw [field_quiet]
    exact field_of_isNaN ha
  · split
    · next hb =>
      rw [field_quiet]
      exact field_of_isNaN hb
    · exact hf

theorem parts?_eq_none {bits : ℕ} (h : bits / 2 ^ 52 % 2048 = 2047) : parts? bits = none := by
  rw [← Option.not_isSome_iff_eq_none, isSome_parts?_iff]
  exact fun hne => hne h

/-- A sum with a word that is not finite is not finite. -/
theorem field_addNumbers {a b : ℕ} (h : a / 2 ^ 52 % 2048 = 2047 ∨ b / 2 ^ 52 % 2048 = 2047) :
    addNumbers a b / 2 ^ 52 % 2048 = 2047 := by
  have hinvalid : invalid / 2 ^ 52 % 2048 = 2047 := by decide
  have hfield {bits : ℕ} (hnone : parts? bits = none) : bits / 2 ^ 52 % 2048 = 2047 := by
    by_contra hne
    have hsome := (isSome_parts?_iff bits).mpr hne
    rw [hnone] at hsome
    cases hsome
  unfold addNumbers
  cases ha : parts? a with
  | none =>
    cases hb : parts? b with
    | none =>
      dsimp only
      split
      · exact hfield ha
      · exact hinvalid
    | some q => exact hfield ha
  | some p =>
    cases hb : parts? b with
    | none => exact hfield hb
    | some q =>
      rcases h with h | h
      · rw [parts?_eq_none h] at ha
        cases ha
      · rw [parts?_eq_none h] at hb
        cases hb

/-! ## Differences -/

/-- The magnitude of a finite word in units that divide it. -/
theorem units_signed (negative : Bool) (m : ℕ) {e : ℕ} (he : e ≤ grade m) :
    (⟨negative, lead m, (grade m : ℤ) - 1074⟩ : Parts).units ((e : ℤ) - 1074) =
      if negative then -((lead m * 2 ^ (grade m - e) : ℕ) : ℤ)
      else (lead m * 2 ^ (grade m - e) : ℕ) := by
  have hshift : (((grade m : ℤ) - 1074) - ((e : ℤ) - 1074)).toNat = grade m - e := by omega
  simp only [Parts.units, hshift, Nat.shiftLeft_eq]

/-- Magnitudes compare as their units do. -/
theorem mul_two_pow_le {m n e : ℕ} (hm : e ≤ grade m) (hn : e ≤ grade n) (h : n ≤ m) :
    lead n * 2 ^ (grade n - e) ≤ lead m * 2 ^ (grade m - e) := by
  have hunits := units_mono h
  have hsplit (k : ℕ) (hk : e ≤ grade k) : units k = lead k * 2 ^ (grade k - e) * 2 ^ e := by
    rw [units, Nat.mul_assoc, ← Nat.pow_add, Nat.sub_add_cancel hk]
  rw [hsplit n hn, hsplit m hm] at hunits
  exact Nat.le_of_mul_le_mul_right hunits (Nat.two_pow_pos e)

/-- A sum of finite words, taken apart. -/
theorem add_signed_eq {s t : Bool} {m n : ℕ} (hm : m < infinity) (hn : n < infinity) :
    add (signed s m) (signed t n) =
      Parts.add ⟨s, lead m, (grade m : ℤ) - 1074⟩ ⟨t, lead n, (grade n : ℤ) - 1074⟩ := by
  simp only [add, onNumbers, isNaN_signed _ hm.le, isNaN_signed _ hn.le, addNumbers,
    parts?_signed _ hm, parts?_signed _ hn, Bool.false_eq_true, if_false]

/-- What is left of a magnitude after a word that is not above it. -/
theorem add_signed_of_le {m n : ℕ} (hm : m < infinity) (hn : n < infinity) {negative : Bool}
    (h : negative = true → n ≤ m) :
    ∃ k, k ≤ infinity ∧ add (signed false m) (signed negative n) = signed false k := by
  obtain ⟨e, he⟩ : ∃ e, e = min (grade m) (grade n) := ⟨_, rfl⟩
  have hmin : min ((grade m : ℤ) - 1074) ((grade n : ℤ) - 1074) = (e : ℤ) - 1074 := by omega
  have hsum : 0 ≤ (⟨false, lead m, (grade m : ℤ) - 1074⟩ : Parts).units ((e : ℤ) - 1074) +
      (⟨negative, lead n, (grade n : ℤ) - 1074⟩ : Parts).units ((e : ℤ) - 1074) := by
    rw [units_signed false m (by omega), units_signed negative n (by omega)]
    cases negative with
    | false => exact Int.add_nonneg (Int.natCast_nonneg _) (Int.natCast_nonneg _)
    | true =>
      have hle := mul_two_pow_le (m := m) (n := n) (e := e) (by omega) (by omega) (h rfl)
      simp only [if_true, Bool.false_eq_true, if_false]
      omega
  rw [add_signed_eq hm hn, Parts.add]
  simp only [hmin]
  split
  · exact ⟨0, Nat.zero_le _, by rw [Bool.false_and]⟩
  · next hne =>
    rw [decide_eq_false (by omega)]
    refine ⟨_, ?_, rfl⟩
    unfold ofScaled
    split <;> exact ofRatio_le_infinity _ _

end Binary64

/-! ## Numbers -/

namespace Double

open Scalar Binary64

theorem isFinite_ofBits (n : ℕ) : isFinite (ofBits n) = true ↔ n / 2 ^ 52 % 2048 ≠ 2047 := by
  have hbits : (ofBits n).bits = n % 2 ^ 64 := UInt64.toNat_ofNat'
  have hfield : n % 2 ^ 64 / 2 ^ 52 % 2048 = n / 2 ^ 52 % 2048 := by omega
  show (parts? (ofBits n).bits).isSome = true ↔ _
  rw [isSome_parts?_iff, hbits, hfield]

theorem not_isFinite_iff (x : Double) : ¬ isFinite x = true ↔ x.bits / 2 ^ 52 % 2048 = 2047 := by
  show ¬ (parts? x.bits).isSome = true ↔ _
  rw [isSome_parts?_iff, not_not]

/-- What is not finite is not made so by scaling it. -/
theorem isFinite_of_mul_ten {x : Double} (h : isFinite (x * ofNat 10) = true) :
    isFinite x = true := by
  by_contra hx
  rw [not_isFinite_iff] at hx
  have hproduct : mul x.bits (ofNat 10 : Double).bits / 2 ^ 52 % 2048 = 2047 := by
    refine field_onNumbers ?_
    simp only [mulNumbers, parts?_eq_none hx, parts?_ofNat_ten]
    rw [if_neg (by decide)]
    exact field_signed_infinity _
  exact (isFinite_ofBits _).mp h hproduct

/-- A difference is the sum with the other sign. -/
theorem sub_ofSigned {s t : Bool} {m n : ℕ} (hm : m ≤ infinity) (hn : n ≤ infinity) :
    ofSigned s m - ofSigned t n = ofSigned s m + ofSigned (!t) n := by
  show ofBits (sub (ofSigned s m).bits (ofSigned t n).bits) =
    ofBits (add (ofSigned s m).bits (ofSigned (!t) n).bits)
  simp only [sub, add, onNumbers, bits_ofSigned hm, bits_ofSigned hn, isNaN_signed _ hm,
    isNaN_signed _ hn, negate_signed _ hn, Bool.false_eq_true, if_false]

instance : Spending Double where
  isFinite_of_roundTenth {x} h := by
    by_contra hx
    have hscaled : isFinite (x * ofNat 10) ≠ true := fun h => hx (isFinite_of_mul_ten h)
    rw [roundTenth] at h
    simp only [hscaled] at h
    exact hx h
  isFinite_of_sub {x y} h := by
    have hfield := (isFinite_ofBits _).mp h
    by_contra hne
    refine hfield (field_onNumbers (field_addNumbers ?_))
    rw [field_negate, ← not_isFinite_iff, ← not_isFinite_iff]
    tauto
  isAmount_sub {x y} hx hy hamount hafforded := by
    obtain ⟨negative, m, hm, rfl⟩ := exists_ofSigned hx
    obtain ⟨negative', n, hn, rfl⟩ := exists_ofSigned hy
    obtain rfl : negative = false := by
      rcases hamount with hpos | hzero
      · rw [zero_eq, lt_iff (Nat.zero_le _) hm.le] at hpos
        cases negative with
        | false => rfl
        | true =>
          simp only [if_true, Bool.false_eq_true, if_false] at hpos
          omega
      · have hsign := isNegative_signed negative hm.le
        rw [← bits_ofSigned hm.le, hzero] at hsign
        exact hsign.symm.trans (by decide)
    rw [lt_iff hm.le hn.le] at hafforded
    have hle : (!negative') = true → n ≤ m := by
      cases negative' with
      | false =>
        intro _
        simp only [Bool.false_eq_true, if_false] at hafforded
        omega
      | true => simp
    obtain ⟨k, hk, heq⟩ := add_signed_of_le hm hn hle
    have hsub : ofSigned false m - ofSigned negative' n = ofSigned false k := by
      rw [sub_ofSigned hm.le hn.le]
      show ofBits (add (ofSigned false m).bits (ofSigned (!negative') n).bits) = _
      rw [bits_ofSigned hm.le, bits_ofSigned hn.le, heq, ofSigned]
    rw [hsub]
    rcases Nat.eq_zero_or_pos k with rfl | hpos
    · exact .inr rfl
    · refine .inl ?_
      rw [zero_eq, lt_iff (Nat.zero_le _) hk]
      simp only [Bool.false_eq_true, if_false]
      omega

end Double
end DeckDuel
