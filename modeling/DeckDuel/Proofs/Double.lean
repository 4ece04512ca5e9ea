/-
DeckDuel.Proofs.Double — which double-precision results are numbers.

* `Binary64.ofRatio_le_infinity`, `Binary64.isNaN_signed` — a magnitude
  that was rounded is a number, with either sign.
* `Binary64.round_eq`, `Binary64.div_eq` — integers nearest to finite
  words are such magnitudes, and quotients of a number by a finite word
  that is not zero.
* `Binary64.add_comm` — numbers can be added in either order.
* `Scalar.Comparable Double` — numbers compare, and rounding to one
  decimal place leads from numbers to numbers.
-/
import DeckDuel.Proofs.Comparable
import DeckDuel.Scalar.Double

namespace DeckDuel

namespace Binary64

theorem infinity_lt_signBit : infinity < signBit := by decide

theorem ofRatio_le_infinity (num den : Nat) : ofRatio num den ≤ infinity := by
  unfold ofRatio
  split
  · exact Nat.zero_le _
  · exact Nat.min_le_left _ _

theorem isNaN_signed (negative : Bool) {m : Nat} (h : m ≤ infinity) :
    isNaN (signed negative m) = false := by
  have hlt : m < signBit := Nat.lt_of_le_of_lt h infinity_lt_signBit
  have hmod : signed negative m % signBit = m := by
    cases negative with
    | false => exact Nat.mod_eq_of_lt hlt
    | true => exact (Nat.add_mod_left signBit m).trans (Nat.mod_eq_of_lt hlt)
  simp only [isNaN, hmod, decide_eq_false_iff_not]
  omega

theorem signed_lt (negative : Bool) {m : Nat} (h : m ≤ infinity) : signed negative m < UInt64.size := by
  have hlt : m < signBit := Nat.lt_of_le_of_lt h infinity_lt_signBit
  have hword : signBit + signBit = UInt64.size := by decide
  cases negative <;> simp only [signed] <;> split <;> omega

theorem round_eq {bits : Nat} {p : Parts} (h : parts? bits = some p) :
    ∃ whole, round bits = signed p.negative (ofRatio whole 1) := by
  simp only [round, h]
  exact ⟨_, rfl⟩

theorem quotient_le_infinity (p q : Parts) : p.quotient q ≤ infinity := by
  simp only [Parts.quotient]
  split <;> exact ofRatio_le_infinity _ _

theorem div_eq {a b : Nat} {q : Parts} (ha : isNaN a = false) (hb : isNaN b = false)
    (hq : parts? b = some q) (hpos : q.significand ≠ 0) :
    ∃ negative m, m ≤ infinity ∧ div a b = signed negative m := by
  have hnumbers : div a b = divNumbers a b := by simp [div, onNumbers, ha, hb]
  rw [hnumbers]
  cases hp : parts? a with
  | none =>
    refine ⟨isNegative a != isNegative b, infinity, Nat.le_refl _, ?_⟩
    simp only [divNumbers, hp, hq]
  | some p =>
    refine ⟨isNegative a != isNegative b, p.quotient q, quotient_le_infinity p q, ?_⟩
    simp only [divNumbers, hp, hq, if_neg hpos]

theorem Parts.add_comm (p q : Parts) : p.add q = q.add p := by
  have hsum (e : Int) : p.units e + q.units e = q.units e + p.units e := Int.add_comm _ _
  simp only [Parts.add, hsum, Int.min_comm p.exponent, Bool.and_comm p.negative]

theorem addNumbers_comm (a b : Nat) : addNumbers a b = addNumbers b a := by
  unfold addNumbers
  cases hp : parts? a with
  | none =>
    cases hq : parts? b with
    | none =>
      by_cases h : a = b
      · simp [h]
      · simp [h, Ne.symm h]
    | some q => rfl
  | some p =>
    cases hq : parts? b with
    | none => rfl
    | some q => exact p.add_comm q

/-- Numbers can be added in either order. -/
theorem add_comm {a b : Nat} (ha : isNaN a = false) (hb : isNaN b = false) : add a b = add b a := by
  simp only [add, onNumbers, ha, hb, Bool.false_eq_true, if_false]
  exact addNumbers_comm a b

end Binary64

namespace Double

open Scalar

theorem bits_ofBits {n : Nat} (h : n < UInt64.size) : (ofBits n).bits = n :=
  UInt64.toNat_ofNat_of_lt' h

theorem rank?_eq_some {bits : Nat} (h : Binary64.isNaN bits = false) :
    ∃ r, Binary64.rank? bits = some r := by
  simp only [Binary64.rank?, h]
  split
  · exact absurd ‹_› (by simp)
  · split <;> exact ⟨_, rfl⟩

theorem rank?_eq_none {bits : Nat} (h : Binary64.isNaN bits = true) :
    Binary64.rank? bits = none := by
  simp only [Binary64.rank?, h, if_true]

/-- A comparison that holds is one of two numbers. -/
theorem isNaN_of_holds {p : Int → Int → Bool} {x y : Double} (h : holds p x y = true) :
    Binary64.isNaN x.bits = false ∧ Binary64.isNaN y.bits = false := by
  cases hx : Binary64.isNaN x.bits with
  | true => simp [holds, Binary64.compare, rank?_eq_none hx] at h
  | false =>
    cases hy : Binary64.isNaN y.bits with
    | true => simp [holds, Binary64.compare, rank?_eq_none hy] at h
    | false => exact ⟨rfl, rfl⟩

theorem isNumber_iff (x : Double) : IsNumber x ↔ Binary64.isNaN x.bits = false := by
  constructor
  · intro h
    exact (isNaN_of_holds h).1
  · intro h
    obtain ⟨r, hr⟩ := rank?_eq_some h
    show Binary64.compare _ _ _ = true
    simp [Binary64.compare, hr]

theorem isNumber_ofBits_signed (negative : Bool) {m : Nat} (h : m ≤ Binary64.infinity) :
    IsNumber (ofBits (Binary64.signed negative m)) := by
  rw [isNumber_iff, bits_ofBits (Binary64.signed_lt negative h)]
  exact Binary64.isNaN_signed negative h

theorem isNumber_ofNat (n : Nat) : IsNumber (ofNat n : Double) :=
  isNumber_ofBits_signed false (Binary64.ofRatio_le_infinity n 1)

theorem add_comm {x y : Double} (hx : IsNumber x) (hy : IsNumber y) : x + y = y + x :=
  congrArg ofBits (Binary64.add_comm ((isNumber_iff x).mp hx) ((isNumber_iff y).mp hy))

/-- The word of ten is a finite word that is not zero. -/
theorem parts?_ten : Binary64.parts? (ofNat 10 : Double).bits =
    some ⟨false, 0x14000000000000, -49⟩ := by
  decide

theorem isNumber_div_ten {x : Double} (h : IsNumber x) : IsNumber (x / ofNat 10) := by
  have hten : Binary64.isNaN (ofNat 10 : Double).bits = false := by decide
  obtain ⟨negative, m, hm, heq⟩ :=
    Binary64.div_eq ((isNumber_iff x).mp h) hten parts?_ten (by decide)
  show IsNumber (ofBits (Binary64.div x.bits (ofNat 10 : Double).bits))
  rw [heq]
  exact isNumber_ofBits_signed negative hm

theorem isNumber_round {x : Double} (h : isFinite x = true) : IsNumber (round x) := by
  obtain ⟨p, hp⟩ := Option.isSome_iff_exists.mp h
  obtain ⟨whole, heq⟩ := Binary64.round_eq hp
  show IsNumber (ofBits (Binary64.round x.bits))
  rw [heq]
  exact isNumber_ofBits_signed p.negative (Binary64.ofRatio_le_infinity _ _)

instance : Comparable Double where
  isNumber_zero := by decide
  isNumber_of_lt {x y} h := by
    obtain ⟨hx, hy⟩ := isNaN_of_holds h
    exact ⟨(isNumber_iff x).mpr hx, (isNumber_iff y).mpr hy⟩
  lt_of_not_le {x y} hx hy h := by
    obtain ⟨r, hr⟩ := rank?_eq_some ((isNumber_iff x).mp hx)
    obtain ⟨q, hq⟩ := rank?_eq_some ((isNumber_iff y).mp hy)
    have hle : ¬ r ≤ q := by
      intro hrq
      refine h ?_
      show Binary64.compare _ _ _ = true
      simp [Binary64.compare, hr, hq, hrq]
    show Binary64.compare _ _ _ = true
    simp only [Binary64.compare, hr, hq, decide_eq_true_eq]
    omega
  isNumber_roundTenth {x} hx := by
    simp only [roundTenth]
    split
    · next hfinite => exact isNumber_div_ten (isNumber_round hfinite)
    · exact hx

end Double
end DeckDuel
