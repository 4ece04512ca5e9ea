/-
DeckDuel.Proofs.ZeroSign — the sign of a zero shows in nothing else.

* `Scalar.Same` — two numbers that are equal, but for the sign of a
  zero.
* `Scalar.SignlessZero` — numbers of which no operation tells zeros
  apart, except that its result may be a zero of the other sign, too.
  Division is asked only where the divisor is not zero.
* `Binary64.SameWord` — the same for words; `Binary64.SameWord.add` and
  its like go through the operations, of which the sign of a zero
  operand can only reach a zero result.

Double-precision and exact numbers are of this kind.
-/
import DeckDuel.Proofs.Double
import DeckDuel.Scalar.Exact

namespace DeckDuel

namespace Scalar

variable {α : Type} [Scalar α]

/-- The numbers are equal, but for the sign of a zero. -/
def Same (x y : α) : Prop := x = y ∨ ((x == 0) = true ∧ (y == 0) = true)

theorem Same.refl (x : α) : Same x x := .inl rfl

theorem Same.trans {x y z : α} (hxy : Same x y) (hyz : Same y z) : Same x z := by
  rcases hxy with rfl | ⟨hx, hy⟩
  · exact hyz
  · rcases hyz with rfl | ⟨-, hz⟩
    · exact .inr ⟨hx, hy⟩
    · exact .inr ⟨hx, hz⟩

/-- Numbers of which the sign of a zero shows in nothing but the sign of
a zero. -/
class SignlessZero (α : Type) [Scalar α] : Prop where
  neg : ∀ {x x' : α}, Same x x' → Same (-x) (-x')
  add : ∀ {x x' y y' : α}, Same x x' → Same y y' → Same (x + y) (x' + y')
  sub : ∀ {x x' y y' : α}, Same x x' → Same y y' → Same (x - y) (x' - y')
  mul : ∀ {x x' y y' : α}, Same x x' → Same y y' → Same (x * y) (x' * y')
  div : ∀ {x x' y y' : α}, (y == 0) = false → Same x x' → Same y y' → Same (x / y) (x' / y')
  lt_iff : ∀ {x x' y y' : α}, Same x x' → Same y y' → (x < y ↔ x' < y')
  le_iff : ∀ {x x' y y' : α}, Same x x' → Same y y' → (x ≤ y ↔ x' ≤ y')
  beq : ∀ {x x' y y' : α}, Same x x' → Same y y' → (x == y) = (x' == y')
  isFinite : ∀ {x x' : α}, Same x x' → Scalar.isFinite x = Scalar.isFinite x'
  floor : ∀ {x x' : α}, Same x x' → Same (Scalar.floor x) (Scalar.floor x')

end Scalar

namespace Binary64

/-- The word of a zero. -/
def IsZero (a : Nat) : Prop := a = 0 ∨ a = signBit

/-- The words are equal, or both of them zeros. -/
def SameWord (a b : Nat) : Prop := a = b ∨ (IsZero a ∧ IsZero b)

theorem isZero_signed (negative : Bool) : IsZero (signed negative 0) := by
  cases negative
  · exact .inl rfl
  · exact .inr rfl

theorem IsZero.isNaN {a : Nat} (h : IsZero a) : isNaN a = false := by
  rcases h with rfl | rfl <;> decide

theorem IsZero.parts? {a : Nat} (h : IsZero a) :
    ∃ negative, parts? a = some ⟨negative, 0, -1074⟩ := by
  rcases h with rfl | rfl
  · exact ⟨false, by decide⟩
  · exact ⟨true, by decide⟩

theorem IsZero.rank? {a : Nat} (h : IsZero a) : rank? a = some 0 := by
  rcases h with rfl | rfl <;> decide

theorem isZero_of_rank? {a : Nat} (ha : a < UInt64.size) (h : Binary64.rank? a = some 0) :
    IsZero a := by
  have hword : UInt64.size = 2 ^ 63 + 2 ^ 63 := by decide
  have hbit : signBit = 2 ^ 63 := by decide
  unfold Binary64.rank? at h
  unfold IsZero
  rw [hbit] at h ⊢
  split at h
  · cases h
  · split at h
    · have := Option.some.inj h
      omega
    · have := Option.some.inj h
      omega

theorem IsZero.negate {a : Nat} (h : IsZero a) : IsZero (negate a) := by
  rcases h with rfl | rfl
  · exact .inr (by decide)
  · exact .inl (by decide)

theorem IsZero.floor {a : Nat} (h : IsZero a) : IsZero (floor a) := by
  rcases h with rfl | rfl
  · exact .inl (by decide)
  · exact .inr (by decide)

theorem SameWord.refl (a : Nat) : SameWord a a := .inl rfl

theorem SameWord.trans {a b c : Nat} (hab : SameWord a b) (hbc : SameWord b c) :
    SameWord a c := by
  rcases hab with rfl | ⟨ha, hb⟩
  · exact hbc
  · rcases hbc with rfl | ⟨-, hc⟩
    · exact .inr ⟨ha, hb⟩
    · exact .inr ⟨ha, hc⟩

theorem SameWord.negate {a a' : Nat} (h : SameWord a a') : SameWord (negate a) (negate a') := by
  rcases h with rfl | ⟨ha, ha'⟩
  · exact .refl _
  · exact .inr ⟨ha.negate, ha'.negate⟩

theorem SameWord.floor {a a' : Nat} (h : SameWord a a') : SameWord (floor a) (floor a') := by
  rcases h with rfl | ⟨ha, ha'⟩
  · exact .refl _
  · exact .inr ⟨ha.floor, ha'.floor⟩

theorem SameWord.rank? {a a' : Nat} (h : SameWord a a') : rank? a = rank? a' := by
  rcases h with rfl | ⟨ha, ha'⟩
  · rfl
  · rw [ha.rank?, ha'.rank?]

/-- Words at one place in the order are the same. -/
theorem sameWord_of_rank? {a b : Nat} (ha : a < UInt64.size) (hb : b < UInt64.size) {r : Int}
    (har : Binary64.rank? a = some r) (hbr : Binary64.rank? b = some r) : SameWord a b := by
  have hword : UInt64.size = 2 ^ 63 + 2 ^ 63 := by decide
  have hbit : signBit = 2 ^ 63 := by decide
  by_cases hr : r = 0
  · subst hr
    exact .inr ⟨isZero_of_rank? ha har, isZero_of_rank? hb hbr⟩
  · refine .inl ?_
    have hplace {c : Nat} (hc : Binary64.rank? c = some r) :
        c < signBit ∧ r = c ∨ ¬ c < signBit ∧ r = -((c % signBit : Nat) : Int) := by
      unfold Binary64.rank? at hc
      split at hc
      · cases hc
      · split at hc
        · next hlt => exact .inl ⟨hlt, (Option.some.inj hc).symm⟩
        · next hlt => exact .inr ⟨hlt, (Option.some.inj hc).symm⟩
    have hpa := hplace har
    have hpb := hplace hbr
    rw [hbit] at hpa hpb
    omega

theorem SameWord.isSome_parts? {a a' : Nat} (h : SameWord a a') :
    (parts? a).isSome = (parts? a').isSome := by
  rcases h with rfl | ⟨ha, ha'⟩
  · rfl
  · obtain ⟨_, hp⟩ := ha.parts?
    obtain ⟨_, hp'⟩ := ha'.parts?
    rw [hp, hp']
    rfl

/-! ## Zero operands -/

@[simp] theorem ofRatio_zero (den : Nat) : ofRatio 0 den = 0 := rfl

@[simp] theorem ofScaled_zero (exponent : Int) : ofScaled 0 exponent = 0 := by
  simp [ofScaled]

@[simp] theorem units_zero (negative : Bool) (e exponent : Int) :
    Parts.units ⟨negative, 0, e⟩ exponent = 0 := by
  simp [Parts.units]

/-- A zero adds nothing to a sum, except for its sign to a zero sum. -/
theorem sameWord_add_parts (s s' : Bool) (q : Parts) :
    SameWord (Parts.add ⟨s, 0, -1074⟩ q) (Parts.add ⟨s', 0, -1074⟩ q) := by
  simp only [Parts.add, units_zero, Int.zero_add]
  split
  · exact .inr ⟨isZero_signed _, isZero_signed _⟩
  · exact .refl _

theorem sameWord_addNumbers_left {a a' : Nat} (ha : IsZero a) (ha' : IsZero a') (b : Nat) :
    SameWord (addNumbers a b) (addNumbers a' b) := by
  obtain ⟨s, hp⟩ := ha.parts?
  obtain ⟨s', hp'⟩ := ha'.parts?
  unfold addNumbers
  rw [hp, hp']
  cases parts? b with
  | none => exact .refl b
  | some q => exact sameWord_add_parts s s' q

/-- What holds of a zero on the left holds on the right as well, if the
sides may be exchanged. -/
theorem SameWord.of_comm {f : Nat → Nat → Nat} (hcomm : ∀ a b, f a b = f b a)
    (hzero : ∀ {a a' : Nat}, IsZero a → IsZero a' → ∀ b, SameWord (f a b) (f a' b))
    {a a' b b' : Nat} (ha : SameWord a a') (hb : SameWord b b') : SameWord (f a b) (f a' b') := by
  have hleft {c c' : Nat} (hc : SameWord c c') (d : Nat) : SameWord (f c d) (f c' d) := by
    rcases hc with rfl | ⟨hc, hc'⟩
    · exact .refl _
    · exact hzero hc hc' d
  have hright : SameWord (f a' b) (f a' b') := by
    rw [hcomm a' b, hcomm a' b']
    exact hleft hb a'
  exact (hleft ha b).trans hright

theorem mulNumbers_comm (a b : Nat) : mulNumbers a b = mulNumbers b a := by
  have hsign : (isNegative a != isNegative b) = (isNegative b != isNegative a) := bne_comm
  unfold mulNumbers
  cases parts? a <;> cases parts? b <;> simp only [hsign, Nat.mul_comm, Int.add_comm]

theorem sameWord_mulNumbers_left {a a' : Nat} (ha : IsZero a) (ha' : IsZero a') (b : Nat) :
    SameWord (mulNumbers a b) (mulNumbers a' b) := by
  obtain ⟨s, hp⟩ := ha.parts?
  obtain ⟨s', hp'⟩ := ha'.parts?
  unfold mulNumbers
  rw [hp, hp']
  cases parts? b with
  | none => exact .refl invalid
  | some q =>
    simp only [Nat.zero_mul, ofScaled_zero]
    exact .inr ⟨isZero_signed _, isZero_signed _⟩

/-- The divisor is the same: two zeros would be divisors of different
sign. -/
theorem SameWord.divNumbers {a a' : Nat} (ha : SameWord a a') (b : Nat) :
    SameWord (divNumbers a b) (divNumbers a' b) := by
  rcases ha with rfl | ⟨ha, ha'⟩
  · exact .refl _
  · obtain ⟨s, hp⟩ := ha.parts?
    obtain ⟨s', hp'⟩ := ha'.parts?
    unfold Binary64.divNumbers
    rw [hp, hp']
    cases parts? b with
    | none => exact .inr ⟨isZero_signed _, isZero_signed _⟩
    | some q =>
      simp only [Parts.quotient, Nat.zero_shiftLeft, ofRatio_zero, ite_self, if_true]
      split
      · exact .refl invalid
      · exact .inr ⟨isZero_signed _, isZero_signed _⟩

/-! ## Operations -/

theorem SameWord.onNumbers {f : Nat → Nat → Nat} {a a' b b' : Nat} (ha : SameWord a a')
    (hb : SameWord b b') (hf : SameWord (f a b) (f a' b')) :
    SameWord (onNumbers f a b) (onNumbers f a' b') := by
  have hnan {c c' : Nat} (hc : SameWord c c') : c = c' ∨ (isNaN c = false ∧ isNaN c' = false) :=
    hc.imp_right fun h => ⟨h.1.isNaN, h.2.isNaN⟩
  unfold Binary64.onNumbers
  rcases hnan ha with rfl | ⟨hna, hna'⟩
  · split
    · exact .refl _
    · rcases hnan hb with rfl | ⟨hnb, hnb'⟩
      · split
        · exact .refl _
        · exact hf
      · simpa [hnb, hnb'] using hf
  · rcases hnan hb with rfl | ⟨hnb, hnb'⟩
    · simp only [hna, hna', Bool.false_eq_true, if_false]
      split
      · exact .refl _
      · exact hf
    · simpa [hna, hna', hnb, hnb'] using hf

theorem SameWord.add {a a' b b' : Nat} (ha : SameWord a a') (hb : SameWord b b') :
    SameWord (add a b) (add a' b') :=
  ha.onNumbers hb (.of_comm addNumbers_comm sameWord_addNumbers_left ha hb)

theorem SameWord.sub {a a' b b' : Nat} (ha : SameWord a a') (hb : SameWord b b') :
    SameWord (sub a b) (sub a' b') :=
  ha.onNumbers hb (.of_comm addNumbers_comm sameWord_addNumbers_left ha hb.negate)

theorem SameWord.mul {a a' b b' : Nat} (ha : SameWord a a') (hb : SameWord b b') :
    SameWord (mul a b) (mul a' b') :=
  ha.onNumbers hb (.of_comm mulNumbers_comm sameWord_mulNumbers_left ha hb)

theorem SameWord.div {a a' : Nat} (ha : SameWord a a') (b : Nat) :
    SameWord (div a b) (div a' b) :=
  ha.onNumbers (.refl b) (ha.divNumbers b)

end Binary64

namespace Double

open Scalar Binary64

theorem beq_zero_iff (x : Double) : (x == 0) = true ↔ IsZero x.bits := by
  have hzero : rank? (0 : Double).bits = some 0 := by decide
  show Binary64.compare (fun a b => a == b) x.bits (0 : Double).bits = true ↔ _
  rw [Binary64.compare, hzero]
  constructor
  · intro h
    split at h
    · next r _ hx hr =>
      cases hr
      rw [beq_iff_eq.mp h] at hx
      exact isZero_of_rank? x.word.toNat_lt hx
    · cases h
  · intro h
    rw [h.rank?]
    rfl

theorem same_iff (x y : Double) : Same x y ↔ SameWord x.bits y.bits := by
  unfold Same SameWord
  rw [beq_zero_iff, beq_zero_iff]
  refine or_congr_left ⟨congrArg bits, fun h => ?_⟩
  cases x
  cases y
  exact congrArg mk (UInt64.toNat_inj.mp h)

theorem bits_ofBits_zero {a : Nat} (h : IsZero a) : IsZero (ofBits a).bits := by
  rcases h with rfl | rfl
  · exact .inl (by decide)
  · exact .inr (by decide)

/-- The numbers of words that are the same. -/
theorem same_ofBits {a b : Nat} (h : SameWord a b) : Same (ofBits a) (ofBits b) := by
  rcases h with rfl | ⟨ha, hb⟩
  · exact .refl _
  · exact (same_iff _ _).mpr (.inr ⟨bits_ofBits_zero ha, bits_ofBits_zero hb⟩)

/-- Numbers that are equal are the same, but for the sign of a zero. -/
theorem same_of_beq {x y : Double} (h : (x == y) = true) : Same x y := by
  obtain ⟨hx, hy⟩ := isNaN_of_holds (p := fun a b => a == b) h
  obtain ⟨a, ha⟩ := rank?_eq_some hx
  obtain ⟨b, hb⟩ := rank?_eq_some hy
  have hab : (a == b) = true := by
    have hcompare : Binary64.compare (fun a b => a == b) x.bits y.bits = true := h
    rwa [Binary64.compare, ha, hb] at hcompare
  rw [← beq_iff_eq.mp hab] at hb
  exact (same_iff x y).mpr (sameWord_of_rank? x.word.toNat_lt y.word.toNat_lt ha hb)

/-- A comparison of numbers that are the same. -/
theorem holds_congr {x x' y y' : Double} (hx : Same x x') (hy : Same y y')
    (p : Int → Int → Bool) : holds p x y = holds p x' y' := by
  unfold holds Binary64.compare
  rw [((same_iff x x').mp hx).rank?, ((same_iff y y').mp hy).rank?]

instance : SignlessZero Double where
  neg hx := same_ofBits ((same_iff _ _).mp hx).negate
  add hx hy := same_ofBits (((same_iff _ _).mp hx).add ((same_iff _ _).mp hy))
  sub hx hy := same_ofBits (((same_iff _ _).mp hx).sub ((same_iff _ _).mp hy))
  mul hx hy := same_ofBits (((same_iff _ _).mp hx).mul ((same_iff _ _).mp hy))
  div {x x' y y'} hne hx hy := by
    rcases hy with rfl | ⟨hzero, -⟩
    · exact same_ofBits (((same_iff _ _).mp hx).div y.bits)
    · exact absurd hzero (by simp [hne])
  lt_iff hx hy := Bool.eq_iff_iff.mp (holds_congr hx hy _)
  le_iff hx hy := Bool.eq_iff_iff.mp (holds_congr hx hy _)
  beq hx hy := holds_congr hx hy _
  isFinite hx := ((same_iff _ _).mp hx).isSome_parts?
  floor hx := same_ofBits ((same_iff _ _).mp hx).floor

end Double

namespace Exact

open Scalar

/-- An exact zero has no sign. -/
theorem same_iff (x y : Exact) : Same x y ↔ x = y := by
  refine ⟨?_, .inl⟩
  rintro (rfl | ⟨hx, hy⟩)
  · rfl
  · have hx' : x.value = 0 := beq_iff_eq.mp hx
    have hy' : y.value = 0 := beq_iff_eq.mp hy
    cases x
    cases y
    exact congrArg mk (hx'.trans hy'.symm)

instance : SignlessZero Exact := by
  constructor <;> simp only [same_iff] <;> grind

end Exact
end DeckDuel
