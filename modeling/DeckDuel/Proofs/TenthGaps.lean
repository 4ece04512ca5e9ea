/-
DeckDuel.Proofs.TenthGaps — numbers to one decimal place lie apart.

* `Scalar.IsTenth` — a finite number that rounding to one decimal place
  leaves as it is.
* `Scalar.Graduated` — laws of numbers among which these lie so far
  apart that a difference of two is not rounded away; and sums,
  differences and bounds that stay on their side of an operand.
* `Binary64.Places` — the signed magnitude nearest to a signed number of
  units. A sum of two words is nearest to the sum of their units
  (`Binary64.places_add`), so it follows the order of exact sums.
* `Binary64.unity_le_of_tenth` — two magnitudes to one decimal place lie
  a sixteenth apart at least. Below the grade of sixteenths they are
  within a sixty-fourth of multiples of a tenth; from that grade on all
  magnitudes are multiples of a sixteenth.
* `Graduated Double` — so it is for double-precision numbers.
-/
import DeckDuel.Proofs.SpentNumbers

namespace DeckDuel

namespace Scalar

/-- A finite number to one decimal place. -/
structure IsTenth {α : Type} [Scalar α] (x : α) : Prop where
  finite : isFinite x = true
  rounded : roundTenth x = x

/-- Numbers that are told apart after rounding to one decimal place. -/
class Graduated (α : Type) [Scalar α] : Prop extends Settling α, Comparable α where
  isNumber_of_isFinite : ∀ {x : α}, isFinite x = true → IsNumber x
  /-- A number, be it infinite, is not on both sides of a gap. -/
  lt_or_lt_of_isNumber : ∀ {x y z : α}, IsNumber y → x < z → x < y ∨ y < z
  isFinite_of_between : ∀ {low x high : α}, isFinite low = true → IsNumber x →
    isFinite high = true → ¬ x < low → ¬ high < x → isFinite x = true
  /-- Rounding keeps the order of numbers of either sign. -/
  not_roundTenth_lt : ∀ {x y : α}, IsNumber x → IsNumber y → ¬ y < x →
    ¬ roundTenth y < roundTenth x
  isNumber_sub : ∀ {x y : α}, isFinite x = true → isFinite y = true → IsNumber (x - y)
  not_lt_sub : ∀ {x y : α}, isFinite x = true → IsNumber y → ¬ y < 0 → ¬ x < x - y
  not_sub_lt : ∀ {x y : α}, isFinite x = true → isFinite y = true → ¬ 0 < y → ¬ x - y < x
  not_sub_lt_zero : ∀ {x y : α}, isFinite x = true → isFinite y = true → ¬ x < y → ¬ x - y < 0
  not_add_lt : ∀ {x y : α}, isFinite x = true → isFinite y = true → ¬ y < 0 → ¬ x + y < x
  /-- The difference of two tenths does not vanish in rounding. -/
  pos_roundTenth_sub : ∀ {x y : α}, IsTenth x → IsTenth y → (0 < roundTenth (y - x) ↔ x < y)

section

variable {α : Type} [Scalar α] [Graduated α] {m x y : α}

open Graduated Comparable Settling

theorem not_lt_trans {x y z : α} (hy : IsNumber y) (h : ¬ y < x) (h' : ¬ z < y) : ¬ z < x :=
  fun hlt => (lt_or_lt_of_isNumber hy hlt).elim h' h

/-- The smaller of two finite values is one of them. -/
theorem least_of_isFinite (hx : isFinite x = true) (y : α) :
    least x y = if y < x then y else x :=
  if_pos (isNumber_of_isFinite hx)

/-! ### Bounds of numbers -/

omit [Graduated α] in
theorem isNumber_atLeast {bound : α} (hbound : IsNumber bound) (hx : IsNumber x) :
    IsNumber (atLeast bound x) := by
  unfold atLeast
  split
  · exact hx
  · exact hbound

/-- What is held between finite bounds is finite, even an infinite
number. -/
theorem isFinite_clamp_of_isNumber (hm : isFinite m = true) (hx : IsNumber x) :
    isFinite (clamp 0 m x) = true := by
  by_cases hcut : m < if x < 0 then 0 else x
  · rw [clamp, if_pos hcut]
    exact hm
  · rw [clamp, if_neg hcut]
    split
    · exact isFinite_zero
    · next hlow =>
      rw [if_neg hlow] at hcut
      exact isFinite_of_between isFinite_zero hx hm hlow hcut

theorem isTenth_roundTenth_clamp (hm : isFinite m = true) (hx : IsNumber x) :
    IsTenth (roundTenth (clamp 0 m x)) :=
  ⟨isFinite_roundTenth (isFinite_clamp_of_isNumber hm hx),
    roundTenth_roundTenth (isFinite_clamp_of_isNumber hm hx)⟩

/-- Less than a stored value is stored as no more than it. -/
theorem IsTenth.not_lt_roundTenth (hx : IsTenth x) (hy : IsNumber y) (h : ¬ x < y) :
    ¬ x < roundTenth y := by
  have hround := not_roundTenth_lt hy (isNumber_of_isFinite hx.finite) h
  rwa [hx.rounded] at hround

/-- More than a stored value is stored as no less than it. -/
theorem IsTenth.not_roundTenth_lt (hx : IsTenth x) (hy : IsNumber y) (h : ¬ y < x) :
    ¬ roundTenth y < x := by
  have hround := Graduated.not_roundTenth_lt (isNumber_of_isFinite hx.finite) hy h
  rwa [hx.rounded] at hround

theorem not_lt_clamp_of_not_lt (hy : IsNumber y) (hx : ¬ x < 0) (h : ¬ x < y) :
    ¬ x < clamp 0 m y := by
  have hraised : IsNumber (if y < 0 then 0 else y) ∧ ¬ x < if y < 0 then 0 else y := by
    split
    · exact ⟨isNumber_zero, hx⟩
    · exact ⟨hy, h⟩
  by_cases hcut : m < if y < 0 then 0 else y
  · rw [clamp, if_pos hcut]
    exact not_lt_trans hraised.1 (lt_asymm hcut) hraised.2
  · rw [clamp, if_neg hcut]
    exact hraised.2

theorem not_clamp_lt_of_not_lt (hx : isFinite x = true) (hm : ¬ m < x) (h : ¬ y < x) :
    ¬ clamp 0 m y < x := by
  by_cases hcut : m < if y < 0 then 0 else y
  · rw [clamp, if_pos hcut]
    exact hm
  · rw [clamp, if_neg hcut]
    split
    · next hneg =>
      intro hpos
      rcases lt_or_lt x hx hneg with hlt | hlt
      · exact h hlt
      · exact lt_asymm hpos hlt
    · exact h

omit [Graduated α] in
theorem not_lt_atLeast_of_not_lt (hx : ¬ x < 0) (h : ¬ x < y) : ¬ x < atLeast 0 y := by
  unfold atLeast
  split
  · exact h
  · exact hx

theorem not_atLeast_lt_of_not_lt (hy : IsNumber y) (h : ¬ y < x) : ¬ atLeast 0 y < x := by
  unfold atLeast
  split
  · exact h
  · next hpos => exact not_lt_trans hy h hpos

end

end Scalar

/-! ## Signed magnitudes -/

namespace Binary64

variable {s t : Bool} {m n : ℕ} {v w : ℚ}

/-- The units of a signed magnitude. -/
def signedUnits (negative : Bool) (m : ℕ) : ℤ := if negative then -(units m : ℤ) else units m

theorem units_magnitude_zero : units 0 = 0 := by simp [units, lead]

@[simp] theorem signedUnits_zero (negative : Bool) : signedUnits negative 0 = 0 := by
  cases negative <;> simp [signedUnits, units_magnitude_zero]

theorem signedUnits_not (negative : Bool) (m : ℕ) :
    signedUnits (!negative) m = -signedUnits negative m := by
  cases negative <;> simp [signedUnits]

theorem signedUnits_mono (h : (if s then -(m : ℤ) else m) ≤ if t then -(n : ℤ) else n) :
    signedUnits s m ≤ signedUnits t n := by
  unfold signedUnits
  cases s <;> cases t <;> simp only [Bool.false_eq_true, if_true, if_false] at h ⊢
  · exact_mod_cast units_mono (show m ≤ n by omega)
  · obtain ⟨rfl, rfl⟩ : m = 0 ∧ n = 0 := by omega
    simp [units_magnitude_zero]
  · omega
  · exact Int.neg_le_neg (by exact_mod_cast units_mono (show n ≤ m by omega))

/-- The magnitude with a sign is nearest to `v` units; a zero has either
sign. -/
structure Places (v : ℚ) (negative : Bool) (m : ℕ) : Prop where
  rounds : Rounds |v| m
  sign : if negative then v ≤ 0 else 0 ≤ v

/-- More units have no lower place. -/
theorem Places.mono (hv : Places v s m) (hw : Places w t n) (h : v ≤ w) :
    (if s then -(m : ℤ) else m) ≤ if t then -(n : ℤ) else n := by
  obtain ⟨hm, hs⟩ := hv
  obtain ⟨hn, ht⟩ := hw
  cases s <;> cases t <;> simp only [Bool.false_eq_true, if_true, if_false] at hs ht ⊢
  · exact_mod_cast hm.mono hn (abs_le_abs_of_nonneg hs h)
  · -- between a number that is not negative and one that is not positive, all are zero
    have hzero : Rounds 0 0 := by
      have hunits := Rounds.of_units (Nat.zero_le infinity)
      rwa [units_magnitude_zero, Nat.cast_zero] at hunits
    obtain rfl : v = 0 := le_antisymm (h.trans ht) hs
    obtain rfl : w = 0 := le_antisymm ht h
    rw [abs_zero] at hm hn
    rw [hm.unique hzero, hn.unique hzero]
    decide
  · omega
  · have hle := hn.mono hm (abs_le_abs_of_nonpos ht h)
    omega

theorem places_signedUnits (s : Bool) (h : m ≤ infinity) : Places (signedUnits s m) s m := by
  cases s with
  | false => exact ⟨by simpa [signedUnits] using Rounds.of_units h, by simp [signedUnits]⟩
  | true => exact ⟨by simpa [signedUnits] using Rounds.of_units h, by simp [signedUnits]⟩

/-- The units of a finite word, from units that divide it. -/
theorem signedUnits_eq (s : Bool) (m : ℕ) {e : ℕ} (he : e ≤ grade m) :
    signedUnits s m =
      (⟨s, lead m, (grade m : ℤ) - 1074⟩ : Parts).units ((e : ℤ) - 1074) * 2 ^ e := by
  have hsplit : units m = lead m * 2 ^ (grade m - e) * 2 ^ e := by
    rw [units, Nat.mul_assoc, ← Nat.pow_add, Nat.sub_add_cancel he]
  rw [units_signed s m he, signedUnits, hsplit]
  cases s <;> simp

/-- A sum of two words is nearest to the sum of their units. -/
theorem places_add (s t : Bool) (hm : m < infinity) (hn : n < infinity) :
    ∃ r k, k ≤ infinity ∧ add (signed s m) (signed t n) = signed r k ∧
      Places (signedUnits s m + signedUnits t n) r k := by
  obtain ⟨e, he⟩ : ∃ e, e = min (grade m) (grade n) := ⟨_, rfl⟩
  have hmin : min ((grade m : ℤ) - 1074) ((grade n : ℤ) - 1074) = (e : ℤ) - 1074 := by omega
  obtain ⟨sum, hsum⟩ : ∃ sum : ℤ, (⟨s, lead m, (grade m : ℤ) - 1074⟩ : Parts).units ((e : ℤ) - 1074) +
      (⟨t, lead n, (grade n : ℤ) - 1074⟩ : Parts).units ((e : ℤ) - 1074) = sum := ⟨_, rfl⟩
  have hunits : ((signedUnits s m : ℚ) + signedUnits t n) = sum * 2 ^ e := by
    rw [signedUnits_eq s m (e := e) (by omega), signedUnits_eq t n (e := e) (by omega), ← hsum]
    push_cast
    ring
  rw [add_signed_eq hm hn, Parts.add]
  simp only [hmin, hsum]
  split
  · next hzero =>
    refine ⟨s && t, 0, Nat.zero_le _, rfl, ?_⟩
    have hplace := places_signedUnits (s && t) (Nat.zero_le infinity)
    rw [signedUnits_zero] at hplace
    rw [hunits, hzero, Int.cast_zero, zero_mul]
    exact_mod_cast hplace
  · next hne =>
    have hscaled : |(sum : ℚ) * 2 ^ e| = (sum.natAbs : ℚ) * 2 ^ ((e : ℤ) - 1074) * unity := by
      rw [abs_mul, abs_of_pos (show (0 : ℚ) < 2 ^ e by positivity), unity_eq, mul_assoc,
        ← zpow_add₀ two_ne_zero, sub_add_cancel, zpow_natCast, Nat.cast_natAbs, Int.cast_abs]
    refine ⟨decide (sum < 0), _, ?_, rfl, ?_, ?_⟩
    · unfold ofScaled
      split <;> exact ofRatio_le_infinity _ _
    · rw [hunits, hscaled]
      exact rounds_ofScaled _ _
    · have hpos : (0 : ℚ) < 2 ^ e := by positivity
      rw [hunits]
      simp only [decide_eq_true_eq]
      split
      · next hneg => exact (mul_neg_of_neg_of_pos (by exact_mod_cast hneg) hpos).le
      · next hneg => exact mul_nonneg (by exact_mod_cast not_lt.mp hneg) hpos.le

/-! ## Gaps -/

/-- Below the grade of sixteenths, rounding moves by a sixty-fourth at
most. -/
theorem Rounds.near (h : Rounds v m) (hm : m < infinity) (hgrade : grade m < 1070) :
    64 * |(units m : ℚ) - v| ≤ unity := by
  obtain ⟨g, s, hvs, hword, hunits⟩ := h.exists_of_lt hm
  have hg : g ≤ 1069 := by
    rcases Nat.eq_zero_or_pos g with rfl | hpos
    · exact Nat.zero_le _
    · have hlead := hvs.le_lead hpos.ne'
      unfold wordAt at hword
      unfold grade at hgrade
      omega
  have hpow : 32 * (2 : ℚ) ^ g ≤ unity := by
    have hsplit : (unity : ℚ) = 2 ^ 5 * 2 ^ 1069 := unity_split (by decide)
    have hle : (2 : ℚ) ^ g ≤ 2 ^ 1069 := pow_le_pow_right₀ (by norm_num) hg
    generalize (2 : ℚ) ^ 1069 = p at hsplit hle
    linarith only [hsplit, hle]
  have hpos : (0 : ℚ) < 2 ^ g := by positivity
  have hv : v = v / 2 ^ g * 2 ^ g := (div_mul_cancel₀ v hpos.ne').symm
  have hnear : |(s : ℚ) - v / 2 ^ g| ≤ 1 / 2 := by
    have hhigh := hvs.near.le_high
    have hlow := hvs.near.low_le
    exact abs_le.mpr ⟨by linarith, by linarith⟩
  calc 64 * |(units m : ℚ) - v| = 64 * (|(s : ℚ) - v / 2 ^ g| * 2 ^ g) := by
        rw [hunits, ← abs_of_pos hpos, ← abs_mul, abs_of_pos hpos, sub_mul, ← hv]
        push_cast
        rfl
    _ ≤ 64 * (1 / 2 * 2 ^ g) := by gcongr
    _ ≤ unity := by linarith only [hpow]

/-- Magnitudes that are near to different multiples of a tenth lie a
sixteenth apart. -/
theorem unity_le_of_rounds {a b : ℕ} (hm : Rounds (a * unity / 10) m)
    (hn : Rounds (b * unity / 10) n) (hlt : m < n)
    (hm' : 64 * |(units m : ℚ) - a * unity / 10| ≤ unity)
    (hn' : 64 * |(units n : ℚ) - b * unity / 10| ≤ unity) :
    16 * units m + unity ≤ 16 * units n := by
  have hpos : (0 : ℚ) < unity := by exact_mod_cast unity_pos
  have hab : (a : ℚ) * unity + unity ≤ b * unity := by
    have hlt' : (a : ℚ) * unity < b * unity := by
      have h := hm.lt_of_lt hn hlt
      linarith
    have hstep : (a : ℚ) + 1 ≤ b := by exact_mod_cast lt_of_mul_lt_mul_right hlt' hpos.le
    calc (a : ℚ) * unity + unity = (a + 1) * unity := by ring
      _ ≤ b * unity := mul_le_mul_of_nonneg_right hstep hpos.le
  have hhigh := le_abs_self ((units m : ℚ) - a * unity / 10)
  have hlow := neg_abs_le ((units n : ℚ) - b * unity / 10)
  have hgap : (16 * units m + unity : ℚ) ≤ 16 * units n := by linarith
  exact_mod_cast hgap

/-- A small magnitude to one decimal place is what a multiple of a tenth
is rounded to. -/
theorem exists_rounds_of_tenth (h : tenth m = m) (hgrade : grade m < 1070) :
    ∃ a : ℕ, Rounds (a * unity / 10) m := by
  have hle : m ≤ 1071 <<< 52 := by
    unfold grade at hgrade
    rw [Nat.shiftLeft_eq]
    omega
  have hup : scaleUp m < infinity := (scaleUp_mono hle).trans_lt (by decide +kernel)
  have hdown := rounds_scaleDown (ofRatio (whole (scaleUp m)) 1)
  rw [(units_ofRatio_whole hup).1] at hdown
  rw [tenth, if_pos hup] at h
  refine ⟨whole (scaleUp m), ?_⟩
  rw [h] at hdown
  exact_mod_cast hdown

theorem unity_eq_sixteen {g : ℕ} (hg : g = 1070) : unity = 16 * 2 ^ g := by
  subst hg
  decide +kernel

/-- From the grade of sixteenths on, magnitudes are multiples of a
sixteenth. -/
theorem exists_units_sixteenths (h : 1070 ≤ grade m) : ∃ a, 16 * units m = a * unity := by
  obtain ⟨g, hg⟩ : ∃ g, g = 1070 := ⟨_, rfl⟩
  rw [← hg] at h
  obtain ⟨d, hd⟩ := Nat.exists_eq_add_of_le h
  refine ⟨lead m * 2 ^ d, ?_⟩
  rw [units, hd, Nat.pow_add, unity_eq_sixteen hg]
  ring

/-- The first magnitude of the grade of sixteenths is a multiple of a
tenth. -/
theorem units_first_sixteenth :
    units (1071 <<< 52) = 2 ^ 48 * unity ∧ grade (1071 <<< 52) = 1070 := by
  have hword : (1071 <<< 52 : ℕ) = wordAt 1070 (2 ^ 52) := by decide
  rw [hword]
  refine ⟨?_, (grade_wordAt (by norm_num) (.inr le_rfl)).1⟩
  have hpow : (2 ^ 52 : ℕ) = 2 ^ 48 * 16 := by norm_num
  rw [units_wordAt (by norm_num) (.inr le_rfl), unity_eq_sixteen rfl, ← Nat.mul_assoc, hpow]

/-- Two magnitudes to one decimal place lie a sixteenth apart at
least. -/
theorem unity_le_of_tenth (hm : tenth m = m) (hn : tenth n = n) (hlt : m < n)
    (hfinite : n < infinity) : 16 * units m + unity ≤ 16 * units n := by
  obtain ⟨hunits, hgrade⟩ := units_first_sixteenth
  rcases Nat.lt_or_ge (grade m) 1070 with hsmall | hlarge
  · obtain ⟨a, ha⟩ := exists_rounds_of_tenth hm hsmall
    have ha' := ha.near (hlt.trans hfinite) hsmall
    rcases Nat.lt_or_ge (grade n) 1070 with hsmall' | hlarge'
    · obtain ⟨b, hb⟩ := exists_rounds_of_tenth hn hsmall'
      exact unity_le_of_rounds ha hb hlt ha' (hb.near hfinite hsmall')
    · -- the first magnitude of the grade is in between, and lies on a tenth
      have hbetween : m < 1071 <<< 52 ∧ 1071 <<< 52 ≤ n := by
        unfold grade at hsmall hlarge'
        rw [Nat.shiftLeft_eq]
        omega
      have hexact : (units (1071 <<< 52) : ℚ) = ((10 * 2 ^ 48 : ℕ) : ℚ) * unity / 10 := by
        rw [hunits]
        push_cast
        ring
      have hrounds : Rounds (((10 * 2 ^ 48 : ℕ) : ℚ) * unity / 10) (1071 <<< 52) :=
        hexact ▸ Rounds.of_units (by decide)
      have hgap := unity_le_of_rounds ha hrounds hbetween.1 ha' (by
        rw [hexact, sub_self, abs_zero, mul_zero]
        exact Nat.cast_nonneg _)
      exact hgap.trans (Nat.mul_le_mul_left _ (units_mono hbetween.2))
  · have hgrades : grade m ≤ grade n := Nat.sub_le_sub_right (Nat.div_le_div_right hlt.le) 1
    obtain ⟨a, ha⟩ := exists_units_sixteenths hlarge
    obtain ⟨b, hb⟩ := exists_units_sixteenths (hlarge.trans hgrades)
    have hunits_lt : units m < units n :=
      lt_of_le_of_ne (units_mono hlt.le) fun heq => hlt.ne (units_inj heq)
    have hab : a < b := by
      have hmul : a * unity < b * unity := by omega
      exact Nat.lt_of_mul_lt_mul_right hmul
    rw [ha, hb, ← Nat.succ_mul]
    exact Nat.mul_le_mul_right _ hab

/-- The same with signs. -/
theorem unity_le_of_signed (hm : tenth m = m) (hn : tenth n = n) (hm' : m < infinity)
    (hn' : n < infinity) (h : (if s then -(m : ℤ) else m) < if t then -(n : ℤ) else n) :
    (unity : ℤ) ≤ 16 * (signedUnits t n - signedUnits s m) := by
  have hzero : tenth 0 = 0 := Double.tenth_zero
  have hfromZero {k : ℕ} (hk : tenth k = k) (hpos : 0 < k) (hk' : k < infinity) :
      unity ≤ 16 * units k := by
    have hgap := unity_le_of_tenth hzero hk hpos hk'
    rwa [units_magnitude_zero, Nat.mul_zero, Nat.zero_add] at hgap
  unfold signedUnits
  cases s <;> cases t <;> simp only [Bool.false_eq_true, if_true, if_false] at h ⊢
  · have hgap := unity_le_of_tenth hm hn (by omega) hn'
    omega
  · omega
  · rcases Nat.eq_zero_or_pos n with rfl | hpos
    · have hgap := hfromZero hm (by omega) hm'
      omega
    · have hgap := hfromZero hn hpos hn'
      omega
  · have hgap := unity_le_of_tenth hn hm (by omega) hm'
    omega

end Binary64

/-! ## Numbers -/

namespace Double

open Scalar Binary64

variable {s t : Bool} {m n : ℕ}

theorem exists_ofSigned_of_isNumber {x : Double} (h : IsNumber x) :
    ∃ negative m, m ≤ infinity ∧ x = ofSigned negative m := by
  have hmagnitude : x.bits % signBit ≤ infinity := by
    simpa [isNaN] using (isNumber_iff x).mp h
  have hsign : signBit = 2 ^ 63 := by decide
  have hbits : x.bits < 2 ^ 64 := x.word.toNat_lt
  refine ⟨decide (signBit ≤ x.bits), x.bits % signBit, hmagnitude, ?_⟩
  have heq : signed (decide (signBit ≤ x.bits)) (x.bits % signBit) = x.bits := by
    simp only [signed, hsign, decide_eq_true_eq]
    split <;> omega
  rw [ofSigned, heq]
  exact congrArg mk UInt64.ofNat_toNat.symm

theorem isNumber_ofSigned (h : m ≤ infinity) : IsNumber (ofSigned s m) :=
  isNumber_ofBits_signed s h

theorem exists_add (s t : Bool) (hm : m < infinity) (hn : n < infinity) :
    ∃ r k, k ≤ infinity ∧ ofSigned s m + ofSigned t n = ofSigned r k ∧
      Places (signedUnits s m + signedUnits t n) r k := by
  obtain ⟨r, k, hk, heq, hplaces⟩ := places_add s t hm hn
  refine ⟨r, k, hk, ?_, hplaces⟩
  show ofBits (add (ofSigned s m).bits (ofSigned t n).bits) = _
  rw [bits_ofSigned hm.le, bits_ofSigned hn.le, heq, ofSigned]

theorem exists_sub (s t : Bool) (hm : m < infinity) (hn : n < infinity) :
    ∃ r k, k ≤ infinity ∧ ofSigned s m - ofSigned t n = ofSigned r k ∧
      Places (signedUnits s m - signedUnits t n) r k := by
  obtain ⟨r, k, hk, heq, hplaces⟩ := exists_add s (!t) hm hn
  refine ⟨r, k, hk, ?_, ?_⟩
  · rw [sub_ofSigned hm.le hn.le]
    exact heq
  · rw [signedUnits_not, Int.cast_neg, ← sub_eq_add_neg] at hplaces
    exact hplaces

theorem sub_ofSigned_infinity (hm : m < infinity) :
    ofSigned s m - ofSigned false infinity = ofSigned true infinity := by
  rw [sub_ofSigned hm.le le_rfl]
  show ofBits (add (ofSigned s m).bits (ofSigned true infinity).bits) = _
  simp only [add, onNumbers, bits_ofSigned hm.le, bits_ofSigned le_rfl, isNaN_signed _ hm.le,
    isNaN_signed _ le_rfl, addNumbers, parts?_signed _ hm, parts?_infinity, Bool.false_eq_true,
    if_false]
  rfl

/-- Rounding to one decimal place, of infinite numbers too. -/
theorem roundTenth_ofSigned_of_le (h : m ≤ infinity) :
    roundTenth (ofSigned s m) = ofSigned s (tenth m) := by
  rcases Nat.lt_or_eq_of_le h with hlt | rfl
  · exact roundTenth_ofSigned hlt
  · cases s <;> decide +kernel

theorem tenth_le_infinity (h : m ≤ infinity) : tenth m ≤ infinity := by
  have hinfinity : tenth infinity = infinity := by decide +kernel
  have hmono := tenth_mono h le_rfl
  rwa [hinfinity] at hmono

/-- Rounding keeps the order of places. -/
theorem tenth_signed_mono (hm : m ≤ infinity) (hn : n ≤ infinity)
    (h : (if s then -(m : ℤ) else m) ≤ if t then -(n : ℤ) else n) :
    (if s then -(tenth m : ℤ) else tenth m) ≤ if t then -(tenth n : ℤ) else tenth n := by
  cases s <;> cases t <;> simp only [Bool.false_eq_true, if_true, if_false] at h ⊢
  · exact_mod_cast tenth_mono (show m ≤ n by omega) hn
  · obtain ⟨rfl, rfl⟩ : m = 0 ∧ n = 0 := by omega
    simp [tenth_zero]
  · omega
  · have hmono := tenth_mono (show n ≤ m by omega) hm
    omega

theorem IsTenth.exists_ofSigned {x : Double} (h : IsTenth x) :
    ∃ negative m, m < infinity ∧ tenth m = m ∧ x = ofSigned negative m := by
  obtain ⟨negative, m, hm, rfl⟩ := Double.exists_ofSigned h.finite
  refine ⟨negative, m, hm, ?_, rfl⟩
  have hround := h.rounded
  rw [roundTenth_ofSigned hm] at hround
  have hbits := congrArg bits hround
  rw [bits_ofSigned (tenth_lt_infinity hm).le, bits_ofSigned hm.le] at hbits
  unfold signed at hbits
  split at hbits <;> omega

/-! ### Order and units -/

theorem signedUnits_le_of_not_lt (hm : m ≤ infinity) (hn : n ≤ infinity)
    (h : ¬ ofSigned t n < ofSigned s m) : (signedUnits s m : ℚ) ≤ signedUnits t n := by
  rw [lt_iff hn hm] at h
  exact_mod_cast signedUnits_mono (not_lt.mp h)

theorem not_lt_of_places {v w : ℚ} (hm : m ≤ infinity) (hn : n ≤ infinity) (hv : Places v s m)
    (hw : Places w t n) (h : v ≤ w) : ¬ ofSigned t n < ofSigned s m := by
  rw [lt_iff hn hm]
  exact not_lt.mpr (hv.mono hw h)

theorem places_zero : Places 0 false 0 := by
  have hplaces := places_signedUnits false (Nat.zero_le infinity)
  rw [signedUnits_zero] at hplaces
  exact_mod_cast hplaces

theorem signedUnits_nonneg (hn : n ≤ infinity) (h : ¬ ofSigned t n < 0) :
    (0 : ℚ) ≤ signedUnits t n := by
  simpa using signedUnits_le_of_not_lt (s := false) (m := 0) (Nat.zero_le _) hn h

theorem signedUnits_nonpos (hn : n ≤ infinity) (h : ¬ 0 < ofSigned t n) :
    (signedUnits t n : ℚ) ≤ 0 := by
  simpa using signedUnits_le_of_not_lt (t := false) (n := 0) hn (Nat.zero_le _) h

/-- A difference of two tenths that is positive is a sixteenth at least,
and so is not rounded away. -/
theorem pos_roundTenth_sub_iff {x y : Double} (hx : IsTenth x) (hy : IsTenth y) :
    0 < roundTenth (y - x) ↔ x < y := by
  obtain ⟨s, m, hm, hm', rfl⟩ := IsTenth.exists_ofSigned hx
  obtain ⟨t, n, hn, hn', rfl⟩ := IsTenth.exists_ofSigned hy
  obtain ⟨r, k, hk, hsub, hplaces⟩ := exists_sub t s hn hm
  rw [hsub, roundTenth_ofSigned_of_le hk]
  constructor
  · intro hpos
    by_contra hle
    have hunits := signedUnits_le_of_not_lt hn.le hm.le hle
    have hplace := hplaces.mono places_zero (sub_nonpos.mpr hunits)
    have htenth := tenth_signed_mono hk (Nat.zero_le infinity) hplace
    rw [zero_eq, lt_iff (Nat.zero_le _) (tenth_le_infinity hk)] at hpos
    rw [tenth_zero] at htenth
    omega
  · intro hlt
    rw [lt_iff hm.le hn.le] at hlt
    have hgap := unity_le_of_signed hm' hn' hm hn hlt
    -- the word of a sixteenth is not rounded to zero
    have hword : units (1019 <<< 52) * 16 = unity := by decide +kernel
    have hdiff : (signedUnits false (1019 <<< 52) : ℚ) ≤ signedUnits t n - signedUnits s m := by
      have hsixteenth : signedUnits false (1019 <<< 52) * 16 = unity := by
        simp only [signedUnits, Bool.false_eq_true, if_false]
        exact_mod_cast hword
      have hle : signedUnits false (1019 <<< 52) ≤ signedUnits t n - signedUnits s m := by omega
      exact_mod_cast hle
    have hplace := (places_signedUnits false (by decide)).mono hplaces hdiff
    have htenth := tenth_signed_mono (by decide) hk hplace
    have hpos : 0 < tenth (1019 <<< 52) := by decide +kernel
    rw [zero_eq, lt_iff (Nat.zero_le _) (tenth_le_infinity hk)]
    simp only [Bool.false_eq_true, if_false] at htenth ⊢
    omega

instance : Graduated Double where
  isNumber_of_isFinite {x} h := by
    obtain ⟨s, m, hm, rfl⟩ := exists_ofSigned h
    exact isNumber_ofSigned hm.le
  lt_or_lt_of_isNumber {x y z} hy h := by
    obtain ⟨s, m, hm, rfl⟩ := exists_ofSigned_of_isNumber hy
    obtain ⟨hx, hz⟩ := isNaN_of_holds h
    obtain ⟨a, ha⟩ := rank?_eq_some hx
    obtain ⟨c, hc⟩ := rank?_eq_some hz
    have hb : rank? (ofSigned s m).bits = _ := rank?_ofSigned hm
    rw [lt_iff_rank ha hc] at h
    rw [lt_iff_rank ha hb, lt_iff_rank hb hc]
    omega
  isFinite_of_between {low x high} hlow hx hhigh h h' := by
    obtain ⟨s, m, hm, rfl⟩ := exists_ofSigned hlow
    obtain ⟨r, k, hk, rfl⟩ := exists_ofSigned_of_isNumber hx
    obtain ⟨t, n, hn, rfl⟩ := exists_ofSigned hhigh
    rw [lt_iff hk hm.le] at h
    rw [lt_iff hn.le hk] at h'
    rw [isFinite_ofSigned hk, decide_eq_true_eq]
    cases r <;> cases s <;> cases t <;>
      simp only [Bool.false_eq_true, if_true, if_false] at h h' <;> omega
  not_roundTenth_lt {x y} hx hy h := by
    obtain ⟨s, m, hm, rfl⟩ := exists_ofSigned_of_isNumber hx
    obtain ⟨t, n, hn, rfl⟩ := exists_ofSigned_of_isNumber hy
    rw [lt_iff hn hm] at h
    rw [roundTenth_ofSigned_of_le hm, roundTenth_ofSigned_of_le hn,
      lt_iff (tenth_le_infinity hn) (tenth_le_infinity hm)]
    exact not_lt.mpr (tenth_signed_mono hm hn (not_lt.mp h))
  isNumber_sub {x y} hx hy := by
    obtain ⟨s, m, hm, rfl⟩ := exists_ofSigned hx
    obtain ⟨t, n, hn, rfl⟩ := exists_ofSigned hy
    obtain ⟨r, k, hk, hsub, -⟩ := exists_sub s t hm hn
    rw [hsub]
    exact isNumber_ofSigned hk
  not_lt_sub {x y} hx hy h := by
    obtain ⟨s, m, hm, rfl⟩ := exists_ofSigned hx
    obtain ⟨t, n, hn, rfl⟩ := exists_ofSigned_of_isNumber hy
    rcases Nat.lt_or_eq_of_le hn with hlt | rfl
    · obtain ⟨r, k, hk, hsub, hplaces⟩ := exists_sub s t hm hlt
      rw [hsub]
      exact not_lt_of_places hk hm.le hplaces (places_signedUnits s hm.le)
        (sub_le_self _ (signedUnits_nonneg hn h))
    · -- less an infinite number, nothing finite is left
      have hplace := rank_of_not_lt_zero hn h
      obtain rfl : t = false := by
        cases t with
        | false => rfl
        | true => exact absurd hplace (by decide)
      rw [sub_ofSigned_infinity hm, lt_iff hm.le le_rfl]
      cases s <;> simp only [Bool.false_eq_true, if_true, if_false] <;> omega
  not_sub_lt {x y} hx hy h := by
    obtain ⟨s, m, hm, rfl⟩ := exists_ofSigned hx
    obtain ⟨t, n, hn, rfl⟩ := exists_ofSigned hy
    obtain ⟨r, k, hk, hsub, hplaces⟩ := exists_sub s t hm hn
    have hmore := sub_nonneg.mpr (signedUnits_nonpos hn.le h)
    rw [hsub]
    exact not_lt_of_places hm.le hk (places_signedUnits s hm.le) hplaces (by linarith only [hmore])
  not_sub_lt_zero {x y} hx hy h := by
    obtain ⟨s, m, hm, rfl⟩ := exists_ofSigned hx
    obtain ⟨t, n, hn, rfl⟩ := exists_ofSigned hy
    obtain ⟨r, k, hk, hsub, hplaces⟩ := exists_sub s t hm hn
    rw [hsub]
    exact not_lt_of_places (Nat.zero_le _) hk places_zero hplaces
      (sub_nonneg.mpr (signedUnits_le_of_not_lt hn.le hm.le h))
  not_add_lt {x y} hx hy h := by
    obtain ⟨s, m, hm, rfl⟩ := exists_ofSigned hx
    obtain ⟨t, n, hn, rfl⟩ := exists_ofSigned hy
    obtain ⟨r, k, hk, hadd, hplaces⟩ := exists_add s t hm hn
    rw [hadd]
    exact not_lt_of_places hm.le hk (places_signedUnits s hm.le) hplaces
      (le_add_of_nonneg_right (signedUnits_nonneg hn.le h))
  pos_roundTenth_sub := pos_roundTenth_sub_iff

end Double
end DeckDuel
