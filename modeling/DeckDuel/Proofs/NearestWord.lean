/-
DeckDuel.Proofs.NearestWord — which magnitude a ratio is rounded to.

Magnitudes are counted in units of the smallest one, `2 ^ -1074`. One
with the grade `g` and the lead `s` is `s · 2 ^ g` units: below the
smallest grade the lead has 53 bits, so grade and lead are told from the
word.

* `RoundsTo v g s` — the lead `s` at the grade `g` is nearest to `v`
  units, a tie to the even lead. There is one such pair
  (`RoundsTo.word_eq`), and nearer to the top for more units
  (`RoundsTo.word_le`).
* `ofRatio_eq` — the word of a ratio is told by what its units are
  rounded to.
-/
import DeckDuel.Decimal.Binary64
import Mathlib.Algebra.Order.Field.Power
import Mathlib.Data.Rat.Cast.Order
import Mathlib.Tactic.FieldSimp
import Mathlib.Tactic.GCongr
import Mathlib.Tactic.Linarith
import Mathlib.Tactic.NormNum
import Mathlib.Tactic.Positivity
import Mathlib.Tactic.Ring

namespace DeckDuel.Binary64

/-! ## Rounding to an integer -/

/-- `s` is nearest to `x`, a tie to the even one. -/
structure IsNearest (x : ℚ) (s : ℕ) : Prop where
  le_high : 2 * x ≤ 2 * s + 1
  low_le : 2 * (s : ℚ) - 1 ≤ 2 * x
  even_high : 2 * x = 2 * s + 1 → s % 2 = 0
  even_low : 2 * (s : ℚ) - 1 = 2 * x → s % 2 = 0

namespace IsNearest

variable {x y : ℚ} {s t : ℕ}

/-- Nothing in between is nearest to two numbers. -/
theorem mono (hx : IsNearest x s) (hy : IsNearest y t) (h : x ≤ y) : s ≤ t := by
  by_contra hlt
  have hstep : (t : ℚ) + 1 ≤ s := by exact_mod_cast not_le.mp hlt
  have hhigh := hy.le_high
  have hlow := hx.low_le
  have heq : (s : ℚ) = t + 1 := by linarith
  have hs : s % 2 = 0 := hx.even_low (by linarith)
  have ht : t % 2 = 0 := hy.even_high (by linarith)
  have hst : s = t + 1 := by exact_mod_cast heq
  omega

theorem unique (hs : IsNearest x s) (ht : IsNearest x t) : s = t :=
  Nat.le_antisymm (hs.mono ht le_rfl) (ht.mono hs le_rfl)

/-- Nearer than halfway. -/
theorem of_lt (hhigh : 2 * x < 2 * s + 1) (hlow : 2 * (s : ℚ) - 1 < 2 * x) : IsNearest x s :=
  ⟨hhigh.le, hlow.le, fun h => absurd h hhigh.ne, fun h => absurd h hlow.ne⟩

theorem natCast (s : ℕ) : IsNearest s s := of_lt (by linarith) (by linarith)

end IsNearest

theorem isNearest_divEven (a : ℕ) {b : ℕ} (hb : 0 < b) :
    IsNearest ((a : ℚ) / b) (divEven a b) := by
  have hbq : (0 : ℚ) < b := by exact_mod_cast hb
  have ha : (a : ℚ) / b = (a / b : ℕ) + ((a % b : ℕ) : ℚ) / b := by
    have hdiv : (a : ℚ) = b * (a / b : ℕ) + (a % b : ℕ) := by
      exact_mod_cast (Nat.div_add_mod a b).symm
    rw [hdiv]
    field_simp
  have hpart : (0 : ℚ) ≤ ((a % b : ℕ) : ℚ) / b := by positivity
  have hone : ((a % b : ℕ) : ℚ) / b < 1 := by
    rw [div_lt_one hbq]
    exact_mod_cast Nat.mod_lt a hb
  rw [ha]
  unfold divEven
  dsimp only
  split
  · next h =>
    have hhalf : 2 * (((a % b : ℕ) : ℚ) / b) < 1 := by
      rw [← mul_div_assoc, div_lt_one hbq]
      exact_mod_cast h
    exact .of_lt (by linarith) (by linarith)
  · next h =>
    split
    · next h' =>
      have hhalf : 1 < 2 * (((a % b : ℕ) : ℚ) / b) := by
        rw [← mul_div_assoc, one_lt_div hbq]
        exact_mod_cast h'
      exact .of_lt (by push_cast; linarith) (by push_cast; linarith)
    · next h' =>
      have hhalf : 2 * (((a % b : ℕ) : ℚ) / b) = 1 := by
        have heq : 2 * (a % b) = b := by omega
        rw [← mul_div_assoc, div_eq_one_iff_eq hbq.ne']
        exact_mod_cast heq
      split
      · next heven => exact ⟨by linarith, by linarith, fun _ => heven, fun _ => heven⟩
      · next hodd =>
        have heven : (a / b + 1) % 2 = 0 := by omega
        exact ⟨by push_cast; linarith, by push_cast; linarith, fun _ => heven, fun _ => heven⟩

/-! ## Rounding to a word -/

/-- The lead `s` at the grade `g` is nearest to `v` units. -/
structure RoundsTo (v : ℚ) (g s : ℕ) : Prop where
  lower : g = 0 ∨ 2 ^ 52 * 2 ^ g ≤ v
  upper : v < 2 ^ 53 * 2 ^ g
  near : IsNearest (v / 2 ^ g) s

/-- The word of a lead at a grade, if there is no infinity before it. -/
def wordAt (g s : ℕ) : ℕ := g * 2 ^ 52 + s

namespace RoundsTo

variable {v w : ℚ} {g s h t : ℕ}

theorem lead_le (hv : RoundsTo v g s) : s ≤ 2 ^ 53 := by
  have hlow := hv.near.low_le
  have hupper : v / 2 ^ g < 2 ^ 53 := by
    rw [div_lt_iff₀ (by positivity)]
    exact hv.upper
  have hs : (s : ℚ) < 2 ^ 53 + 1 := by linarith
  exact Nat.lt_succ_iff.mp (by exact_mod_cast hs)

theorem le_lead (hv : RoundsTo v g s) (hg : g ≠ 0) : 2 ^ 52 ≤ s := by
  have hhigh := hv.near.le_high
  have hlower : (2 : ℚ) ^ 52 ≤ v / 2 ^ g := by
    rw [le_div_iff₀ (by positivity)]
    exact hv.lower.resolve_left hg
  have hs : (2 : ℚ) ^ 52 < s + 1 := by linarith
  exact Nat.lt_succ_iff.mp (by exact_mod_cast hs)

/-- More units are rounded to a word that is not below. -/
theorem word_le (hv : RoundsTo v g s) (hw : RoundsTo w h t) (hle : v ≤ w) :
    wordAt g s ≤ wordAt h t := by
  unfold wordAt
  rcases Nat.lt_trichotomy g h with hlt | rfl | hgt
  · -- the grades differ: the lead of the smaller one does not reach the next
    have hs := hv.lead_le
    have ht := hw.le_lead (by omega)
    have hgrade : (g + 1) * 2 ^ 52 ≤ h * 2 ^ 52 := Nat.mul_le_mul_right _ hlt
    omega
  · have hdiv : v / 2 ^ g ≤ w / 2 ^ g := div_le_div_of_nonneg_right hle (by positivity)
    exact Nat.add_le_add_left (hv.near.mono hw.near hdiv) _
  · exfalso
    have hlower := hv.lower.resolve_left (by omega)
    have hpow : (2 : ℚ) ^ (h + 1) ≤ 2 ^ g := pow_le_pow_right₀ (by norm_num) hgt
    have hupper := hw.upper
    rw [pow_succ] at hpow
    linarith

theorem word_eq (hv : RoundsTo v g s) (hw : RoundsTo v h t) : wordAt g s = wordAt h t :=
  Nat.le_antisymm (hv.word_le hw le_rfl) (hw.word_le hv le_rfl)

/-! Where the units are `a / c · 2 ^ g`, all of this is told without
fractions. -/

variable {a c : ℕ}

theorem grade_eq (hv : RoundsTo v g s) (hc : 0 < c) (hvalue : v * c = a * 2 ^ h)
    (hlower : 2 ^ 52 * c ≤ a) (hupper : a < 2 ^ 53 * c) : g = h := by
  have hcq : (0 : ℚ) < c := by exact_mod_cast hc
  rcases Nat.lt_trichotomy g h with hlt | heq | hgt
  · exfalso
    have hpow : (2 : ℚ) ^ (g + 1) ≤ 2 ^ h := pow_le_pow_right₀ (by norm_num) hlt
    have hbelow : v * c < 2 ^ 53 * 2 ^ g * c := mul_lt_mul_of_pos_right hv.upper hcq
    have habove : (2 ^ 52 * c : ℚ) * 2 ^ (g + 1) ≤ a * 2 ^ h :=
      mul_le_mul (by exact_mod_cast hlower) hpow (by positivity) (by positivity)
    rw [pow_succ 2 g] at habove
    linarith
  · exact heq
  · exfalso
    have hpow : (2 : ℚ) ^ (h + 1) ≤ 2 ^ g := pow_le_pow_right₀ (by norm_num) hgt
    have hbelow : (a : ℚ) * 2 ^ h < 2 ^ 53 * c * 2 ^ h :=
      mul_lt_mul_of_pos_right (by exact_mod_cast hupper) (by positivity)
    have habove : (2 : ℚ) ^ 52 * 2 ^ g * c ≤ v * c :=
      mul_le_mul_of_nonneg_right (hv.lower.resolve_left (by omega)) hcq.le
    have hstep : (2 : ℚ) ^ 52 * 2 ^ (h + 1) * c ≤ 2 ^ 52 * 2 ^ g * c := by gcongr
    rw [pow_succ 2 h] at hstep
    linarith

theorem bounds (hv : RoundsTo v g s) (hc : 0 < c) (hvalue : v * c = a * 2 ^ g) :
    2 * a ≤ c * (2 * s + 1) ∧ c * (2 * s) ≤ 2 * a + c := by
  have hcq : (0 : ℚ) < c := by exact_mod_cast hc
  have hratio : v / 2 ^ g = a / c := by
    rw [div_eq_div_iff (by positivity) hcq.ne', hvalue]
  have hhigh := hv.near.le_high
  have hlow := hv.near.low_le
  rw [hratio, ← mul_div_assoc] at hhigh hlow
  rw [div_le_iff₀ hcq] at hhigh
  rw [le_div_iff₀ hcq] at hlow
  constructor
  · have : (2 * a : ℚ) ≤ c * (2 * s + 1) := by linarith
    exact_mod_cast this
  · have : (c * (2 * s) : ℚ) ≤ 2 * a + c := by linarith
    exact_mod_cast this

theorem of_bounds (hc : 0 < c) (hvalue : v * c = a * 2 ^ g) (hlower : 2 ^ 52 * c ≤ a)
    (hupper : a < 2 ^ 53 * c) (hhigh : 2 * a ≤ c * (2 * s + 1)) (hlow : c * (2 * s) ≤ 2 * a + c)
    (heven : 2 * a = c * (2 * s + 1) ∨ c * (2 * s) = 2 * a + c → s % 2 = 0) : RoundsTo v g s := by
  have hcq : (0 : ℚ) < c := by exact_mod_cast hc
  have hvalue' : v = a / c * 2 ^ g := by
    rw [div_mul_eq_mul_div, eq_div_iff hcq.ne', hvalue]
  have hratio : v / 2 ^ g = a / c := by
    rw [hvalue']
    exact mul_div_cancel_right₀ _ (by positivity)
  refine ⟨.inr ?_, ?_, ?_⟩
  · rw [hvalue']
    refine mul_le_mul_of_nonneg_right ?_ (by positivity)
    rw [le_div_iff₀ hcq]
    exact_mod_cast hlower
  · rw [hvalue']
    refine mul_lt_mul_of_pos_right ?_ (by positivity)
    rw [div_lt_iff₀ hcq]
    exact_mod_cast hupper
  · have hhigh' : (2 * a : ℚ) ≤ c * (2 * s + 1) := by exact_mod_cast hhigh
    have hlow' : (c * (2 * s) : ℚ) ≤ 2 * a + c := by exact_mod_cast hlow
    rw [hratio]
    refine ⟨?_, ?_, fun heq => heven (.inl ?_), fun heq => heven (.inr ?_)⟩
    · rw [← mul_div_assoc, div_le_iff₀ hcq]
      linarith
    · rw [← mul_div_assoc, le_div_iff₀ hcq]
      linarith
    · rw [← mul_div_assoc, div_eq_iff hcq.ne'] at heq
      have : (2 * a : ℚ) = c * (2 * s + 1) := by linarith
      exact_mod_cast this
    · rw [← mul_div_assoc, eq_div_iff hcq.ne'] at heq
      have : (c * (2 * s) : ℚ) = 2 * a + c := by linarith
      exact_mod_cast this

end RoundsTo

/-! ## Ratios -/

theorem two_zpow_log2_le {n : ℕ} (hn : n ≠ 0) : (2 : ℚ) ^ (n.log2 : ℤ) ≤ n := by
  rw [zpow_natCast]
  exact_mod_cast Nat.log2_self_le hn

theorem lt_two_zpow_log2 (n : ℕ) : (n : ℚ) < 2 ^ ((n.log2 : ℤ) + 1) := by
  have hlt : n < 2 ^ (n.log2 + 1) := Nat.lt_log2_self
  exact_mod_cast hlt

/-- A ratio is compared with a power of two without fractions. -/
theorem two_zpow_le_ratio {num den : ℕ} (hden : den ≠ 0) (e : ℤ) :
    (2 : ℚ) ^ e ≤ (num : ℚ) / den ↔
      (if 0 ≤ e then den <<< e.toNat ≤ num else den ≤ num <<< (-e).toNat) := by
  have hpos : (0 : ℚ) < den := by exact_mod_cast Nat.pos_of_ne_zero hden
  rw [le_div_iff₀ hpos]
  split
  · next he =>
    obtain ⟨k, rfl⟩ := Int.eq_ofNat_of_zero_le he
    rw [Int.toNat_natCast, zpow_natCast, Nat.shiftLeft_eq, mul_comm]
    exact_mod_cast Iff.rfl
  · next he =>
    obtain ⟨k, hk⟩ := Int.eq_ofNat_of_zero_le (show 0 ≤ -e by omega)
    rw [hk, Int.toNat_natCast, Nat.shiftLeft_eq, ← neg_neg e, hk, zpow_neg, zpow_natCast,
      inv_mul_le_iff₀ (by positivity), mul_comm]
    exact_mod_cast Iff.rfl

/-- The exponent is that of the leading bit. -/
theorem binaryExponent_spec {num den : ℕ} (hnum : num ≠ 0) (hden : den ≠ 0) :
    (2 : ℚ) ^ binaryExponent num den ≤ (num : ℚ) / den ∧
      (num : ℚ) / den < 2 ^ (binaryExponent num den + 1) := by
  have hpos : (0 : ℚ) < den := by exact_mod_cast Nat.pos_of_ne_zero hden
  -- the difference of the leading bits is the exponent or one too much
  have hhigh : (num : ℚ) / den < 2 ^ ((num.log2 : ℤ) - den.log2 + 1) := by
    rw [div_lt_iff₀ hpos]
    calc (num : ℚ) < 2 ^ ((num.log2 : ℤ) + 1) := lt_two_zpow_log2 num
      _ = 2 ^ ((num.log2 : ℤ) - den.log2 + 1) * 2 ^ (den.log2 : ℤ) := by
        rw [← zpow_add₀ two_ne_zero]
        congr 1
        omega
      _ ≤ 2 ^ ((num.log2 : ℤ) - den.log2 + 1) * den :=
        mul_le_mul_of_nonneg_left (two_zpow_log2_le hden) (by positivity)
  have hlow : (2 : ℚ) ^ ((num.log2 : ℤ) - den.log2 - 1) ≤ (num : ℚ) / den := by
    rw [le_div_iff₀ hpos]
    calc (2 : ℚ) ^ ((num.log2 : ℤ) - den.log2 - 1) * den
        ≤ 2 ^ ((num.log2 : ℤ) - den.log2 - 1) * 2 ^ ((den.log2 : ℤ) + 1) :=
        mul_le_mul_of_nonneg_left (lt_two_zpow_log2 den).le (by positivity)
      _ = 2 ^ (num.log2 : ℤ) := by
        rw [← zpow_add₀ two_ne_zero]
        congr 1
        omega
      _ ≤ num := two_zpow_log2_le hnum
  have hfits := @two_zpow_le_ratio num den hden ((num.log2 : ℤ) - den.log2)
  have hexponent : binaryExponent num den =
      if (2 : ℚ) ^ ((num.log2 : ℤ) - den.log2) ≤ (num : ℚ) / den then (num.log2 : ℤ) - den.log2
      else (num.log2 : ℤ) - den.log2 - 1 := by
    unfold binaryExponent
    by_cases h : 0 ≤ (num.log2 : ℤ) - den.log2
    · simp only [h, if_true, decide_eq_true_eq] at hfits ⊢
      simp only [hfits]
    · simp only [h, if_false, decide_eq_true_eq] at hfits ⊢
      simp only [hfits]
  rw [hexponent]
  split
  · next hle => exact ⟨hle, hhigh⟩
  · next hlt =>
    rw [sub_add_cancel]
    exact ⟨hlow, not_le.mp hlt⟩

/-- The units of the number one. -/
def unity : ℕ := 1 <<< 1074

theorem natCast_one_shiftLeft (k : ℕ) : ((1 <<< k : ℕ) : ℚ) = 2 ^ k := by
  rw [Nat.one_shiftLeft, Nat.cast_pow, Nat.cast_ofNat]

theorem unity_pos : 0 < unity := by decide

theorem two_pow_add_grades (k : ℕ) : (2 : ℚ) ^ (k + 1074) = 2 ^ k * unity := by
  rw [pow_add, ← natCast_one_shiftLeft 1074]
  rfl

theorem unity_eq : (unity : ℚ) = 2 ^ (1074 : ℤ) := by
  have h := two_pow_add_grades 0
  rw [pow_zero, one_mul, zero_add, ← zpow_natCast] at h
  exact h.symm

theorem unity_split {k : ℕ} (h : k ≤ 1074) : (unity : ℚ) = 2 ^ k * 2 ^ (1074 - k) := by
  rw [← pow_add, Nat.add_sub_cancel' h, ← natCast_one_shiftLeft]
  rfl

/-- The units of a ratio. -/
def unitsOf (num den : ℕ) : ℚ := (num : ℚ) / den * unity

/-- The lead at an exponent, found without fractions. -/
theorem isNearest_lead (num : ℕ) {den : ℕ} (hden : den ≠ 0) {e : ℤ} (he : -1074 ≤ e) :
    IsNearest (unitsOf num den / 2 ^ (e + 1074).toNat)
      (if 0 ≤ e then divEven num (den <<< e.toNat) else divEven (num <<< (-e).toNat) den) := by
  have hpos : (den : ℚ) ≠ 0 := by exact_mod_cast hden
  have hden' : 0 < den := Nat.pos_of_ne_zero hden
  split
  · next hnonneg =>
    obtain ⟨k, rfl⟩ := Int.eq_ofNat_of_zero_le hnonneg
    have hsum : ((k : ℤ) + 1074).toNat = k + 1074 := by omega
    have hunity : (unity : ℚ) ≠ 0 := by exact_mod_cast unity_pos.ne'
    have hvalue : unitsOf num den / 2 ^ (k + 1074) = (num : ℚ) / (den <<< k : ℕ) := by
      rw [unitsOf, Nat.shiftLeft_eq, two_pow_add_grades]
      push_cast
      field_simp
    rw [hsum, hvalue, Int.toNat_natCast]
    exact isNearest_divEven num (by rw [Nat.shiftLeft_eq]; positivity)
  · next hneg =>
    obtain ⟨k, hk⟩ := Int.eq_ofNat_of_zero_le (show 0 ≤ -e by omega)
    have hdiff : (e + 1074).toNat = 1074 - k := by omega
    have hvalue : unitsOf num den / 2 ^ (1074 - k) = ((num <<< k : ℕ) : ℚ) / den := by
      rw [unitsOf, unity_split (show k ≤ 1074 by omega), Nat.shiftLeft_eq]
      push_cast
      field_simp
    rw [hdiff, hvalue, hk, Int.toNat_natCast]
    exact isNearest_divEven _ hden'

/-- The word of a ratio is that of what its units are rounded to, unless
it is too large. -/
theorem exists_roundsTo {num den : ℕ} (hnum : num ≠ 0) (hden : den ≠ 0) :
    ∃ g s, RoundsTo (unitsOf num den) g s ∧ ofRatio num den = min infinity (wordAt g s) := by
  obtain ⟨hlow, hhigh⟩ := binaryExponent_spec hnum hden
  have hscaled (e : ℤ) : (2 : ℚ) ^ e * unity = 2 ^ (e + 1074) := by
    rw [unity_eq, ← zpow_add₀ two_ne_zero]
  have hmove (k : ℕ) (q : ℤ) : (2 : ℚ) ^ k * 2 ^ (q + 1074).toNat = 2 ^ (k + (q + 1074).toNat : ℤ) := by
    rw [zpow_add₀ two_ne_zero, zpow_natCast, zpow_natCast]
  refine ⟨(max (binaryExponent num den - 52) (-1074) + 1074).toNat,
    if 0 ≤ max (binaryExponent num den - 52) (-1074) then
      divEven num (den <<< (max (binaryExponent num den - 52) (-1074)).toNat)
    else divEven (num <<< (-max (binaryExponent num den - 52) (-1074)).toNat) den, ⟨?_, ?_, ?_⟩, ?_⟩
  · rw [or_iff_not_imp_left]
    intro hg
    rw [hmove, unitsOf]
    calc (2 : ℚ) ^ ((52 : ℕ) + (max (binaryExponent num den - 52) (-1074) + 1074).toNat : ℤ)
        = 2 ^ (binaryExponent num den + 1074) := by
          congr 1
          omega
      _ = 2 ^ binaryExponent num den * unity := (hscaled _).symm
      _ ≤ (num : ℚ) / den * unity := mul_le_mul_of_nonneg_right hlow (Nat.cast_nonneg _)
  · rw [hmove, unitsOf]
    calc (num : ℚ) / den * unity < 2 ^ (binaryExponent num den + 1) * unity :=
          mul_lt_mul_of_pos_right hhigh (by exact_mod_cast unity_pos)
      _ = 2 ^ (binaryExponent num den + 1 + 1074) := hscaled _
      _ ≤ 2 ^ ((53 : ℕ) + (max (binaryExponent num den - 52) (-1074) + 1074).toNat : ℤ) :=
          zpow_le_zpow_right₀ (by norm_num) (by omega)
  · exact isNearest_lead num hden (le_max_right _ _)
  · rw [ofRatio, if_neg hnum]
    simp only [wordAt, Nat.shiftLeft_eq]

/-! ## Magnitudes -/

/-- The grade of a magnitude: its exponent above the smallest one. -/
def grade (m : ℕ) : ℕ := m / 2 ^ 52 - 1

/-- The lead of a magnitude: its significand. -/
def lead (m : ℕ) : ℕ := m - grade m * 2 ^ 52

/-- A magnitude in units of the smallest one. -/
def units (m : ℕ) : ℕ := lead m * 2 ^ grade m

theorem wordAt_grade_lead (m : ℕ) : wordAt (grade m) (lead m) = m := by
  unfold wordAt lead grade
  omega

theorem lead_lt (m : ℕ) : lead m < 2 ^ 53 := by
  unfold lead grade
  omega

theorem le_lead_of_grade {m : ℕ} (h : grade m ≠ 0) : 2 ^ 52 ≤ lead m := by
  unfold lead
  unfold grade at h ⊢
  omega

theorem grade_wordAt {g s : ℕ} (hs : s < 2 ^ 53) (hg : g = 0 ∨ 2 ^ 52 ≤ s) :
    grade (wordAt g s) = g ∧ lead (wordAt g s) = s := by
  unfold lead grade wordAt
  omega

/-- A lead of one bit more stands for the next grade. -/
theorem units_wordAt {g s : ℕ} (hs : s ≤ 2 ^ 53) (hg : g = 0 ∨ 2 ^ 52 ≤ s) :
    units (wordAt g s) = s * 2 ^ g := by
  rcases Nat.lt_or_ge s (2 ^ 53) with hlt | hge
  · obtain ⟨hgrade, hlead⟩ := grade_wordAt hlt hg
    rw [units, hgrade, hlead]
  · obtain rfl := Nat.le_antisymm hs hge
    have hword : wordAt g (2 ^ 53) = wordAt (g + 1) (2 ^ 52) := by
      unfold wordAt
      omega
    obtain ⟨hgrade, hlead⟩ := grade_wordAt (g := g + 1) (s := 2 ^ 52) (by norm_num) (.inr le_rfl)
    rw [units, hword, hgrade, hlead]
    ring

/-- A magnitude is what its units are rounded to. -/
theorem roundsTo_units (m : ℕ) : RoundsTo (units m) (grade m) (lead m) where
  lower := by
    refine or_iff_not_imp_left.mpr fun hg => ?_
    rw [units]
    push_cast
    exact mul_le_mul_of_nonneg_right (by exact_mod_cast le_lead_of_grade hg) (by positivity)
  upper := by
    rw [units]
    push_cast
    exact mul_lt_mul_of_pos_right (by exact_mod_cast lead_lt m) (by positivity)
  near := by
    have hdiv : (units m : ℚ) / 2 ^ grade m = lead m := by
      rw [units]
      push_cast
      exact mul_div_cancel_right₀ _ (by positivity)
    rw [hdiv]
    exact .natCast _

/-- `m` is nearest to `v` units; everything too large is infinity. -/
def Rounds (v : ℚ) (m : ℕ) : Prop := ∃ g s, RoundsTo v g s ∧ m = min infinity (wordAt g s)

namespace Rounds

variable {v w : ℚ} {m n : ℕ}

theorem mono (hv : Rounds v m) (hw : Rounds w n) (h : v ≤ w) : m ≤ n := by
  obtain ⟨g, s, hvs, rfl⟩ := hv
  obtain ⟨g', s', hws, rfl⟩ := hw
  exact min_le_min_left _ (hvs.word_le hws h)

theorem unique (hm : Rounds v m) (hn : Rounds v n) : m = n :=
  Nat.le_antisymm (hm.mono hn le_rfl) (hn.mono hm le_rfl)

theorem lt_of_lt (hv : Rounds v m) (hw : Rounds w n) (h : m < n) : v < w :=
  not_le.mp fun hle => absurd (hw.mono hv hle) (by omega)

theorem of_units (h : m ≤ infinity) : Rounds (units m) m :=
  ⟨grade m, lead m, roundsTo_units m, by rw [wordAt_grade_lead, min_eq_right h]⟩

/-- A finite magnitude has the grade and the lead of what is rounded to
it, or those of the next grade. -/
theorem exists_of_lt (h : Rounds v m) (hm : m < infinity) :
    ∃ g s, RoundsTo v g s ∧ m = wordAt g s ∧ units m = s * 2 ^ g := by
  obtain ⟨g, s, hvs, rfl⟩ := h
  have hword : min infinity (wordAt g s) = wordAt g s := min_eq_right (by omega)
  refine ⟨g, s, hvs, hword, ?_⟩
  rw [hword]
  exact units_wordAt hvs.lead_le (or_iff_not_imp_left.mpr fun hg => hvs.le_lead hg)

end Rounds

theorem rounds_ofRatio (num : ℕ) {den : ℕ} (hden : den ≠ 0) :
    Rounds (unitsOf num den) (ofRatio num den) := by
  by_cases hnum : num = 0
  · subst hnum
    have hzero : unitsOf 0 den = units 0 := by
      rw [unitsOf]
      simp [units, lead, grade]
    rw [hzero]
    exact .of_units (Nat.zero_le _)
  · exact exists_roundsTo hnum hden

theorem units_mono {m n : ℕ} (h : m ≤ n) : units m ≤ units n := by
  by_contra hlt
  have hle : wordAt (grade n) (lead n) ≤ wordAt (grade m) (lead m) :=
    (roundsTo_units n).word_le (roundsTo_units m) (by exact_mod_cast (not_le.mp hlt).le)
  rw [wordAt_grade_lead, wordAt_grade_lead] at hle
  exact hlt (Nat.le_antisymm h hle ▸ le_rfl)

theorem units_inj {m n : ℕ} (h : units m = units n) : m = n := by
  have heq : wordAt (grade m) (lead m) = wordAt (grade n) (lead n) := by
    refine (roundsTo_units m).word_eq ?_
    rw [h]
    exact roundsTo_units n
  rwa [wordAt_grade_lead, wordAt_grade_lead] at heq

end DeckDuel.Binary64
