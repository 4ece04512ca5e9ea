/-
DeckDuel.Proofs.ShortestDecimals — the shortest decimal of a number is
read as that number.

* `Binary64.rounds_of_holds` — what the interval of a magnitude holds is
  rounded to that magnitude.
* `Decimal.le_decimalExponent` — the exponent of a ratio is not too
  large, so the first of seventeen digits is not a zero.
* `Decimal.isSome_nearest?` — the interval holds a decimal of seventeen
  digits, and so the search for the fewest digits ends with one that it
  holds.
* `Binary64.rounds_ofDecimal` — a decimal stands for the nearest
  magnitude, however large its exponent.
* `Double.ofText_text` — the text of a number is read as that number,
  with its sign, for zeros and infinities too.
-/
import DeckDuel.Proofs.StoredNumbers
import DeckDuel.Proofs.WrittenText

namespace DeckDuel

open Binary64

/-! ## What an interval holds -/

namespace Decimal

/-- The lower end of an interval, in quarters of the last place. -/
def lowEnd (m : ℕ) (q : ℤ) : ℕ := if m = hiddenBit && q ≠ -1074 then 4 * m - 1 else 4 * m - 2

theorem le_lowEnd (m : ℕ) (q : ℤ) : (4 * m : ℚ) ≤ lowEnd m q + 2 := by
  have hend : 4 * m ≤ lowEnd m q + 2 := by
    unfold lowEnd
    split <;> omega
  exact_mod_cast hend

/-- An interval counts in quarters of the last place. -/
theorem exists_quarter (m : ℕ) (q : ℤ) : ∃ k den : ℕ, 0 < k ∧ 0 < den ∧
    (k : ℚ) / den = 2 ^ (q - 2) ∧
    Interval.ofParts m q =
      ⟨lowEnd m q * k, 4 * m * k, (4 * m + 2) * k, den, decide (m % 2 = 0)⟩ := by
  unfold Interval.ofParts
  dsimp only
  split
  · next hq =>
    obtain ⟨k, hk⟩ := Int.eq_ofNat_of_zero_le (show 0 ≤ q - 2 by omega)
    refine ⟨2 ^ k, 1, by positivity, one_pos, ?_, ?_⟩
    · rw [hk, zpow_natCast]
      push_cast
      rw [div_one]
    · rw [hk, Int.toNat_natCast]
      simp only [Nat.shiftLeft_eq, lowEnd]
  · next hq =>
    obtain ⟨k, hk⟩ := Int.eq_ofNat_of_zero_le (show 0 ≤ 2 - q by omega)
    refine ⟨1, 2 ^ k, one_pos, by positivity, ?_, ?_⟩
    · rw [show q - 2 = -(k : ℤ) by omega, zpow_neg, zpow_natCast]
      push_cast
      rw [one_div]
    · rw [hk, Int.toNat_natCast]
      simp only [Nat.shiftLeft_eq, one_mul, mul_one, lowEnd]

/-- A ratio that an interval holds, in quarters of the last place. At the
ends it is held only for an even significand. -/
theorem quarters_of_holds {m : ℕ} {q : ℤ} {num den : ℕ} (hden : 0 < den)
    (h : (Interval.ofParts m q).holds num den = true) :
    (lowEnd m q : ℚ) * 2 ^ (q - 2) ≤ num / den ∧ (num : ℚ) / den ≤ (4 * m + 2) * 2 ^ (q - 2) ∧
      (m % 2 ≠ 0 → (lowEnd m q : ℚ) * 2 ^ (q - 2) < num / den ∧
        (num : ℚ) / den < (4 * m + 2) * 2 ^ (q - 2)) := by
  obtain ⟨k, d, hk, hd, hquarter, hparts⟩ := exists_quarter m q
  have hdenq : (0 : ℚ) < den := by exact_mod_cast hden
  have hdq : (0 : ℚ) < d := by exact_mod_cast hd
  have hle (a : ℕ) : (a : ℚ) * 2 ^ (q - 2) ≤ num / den ↔ a * k * den ≤ num * d := by
    rw [← hquarter, ← mul_div_assoc, div_le_div_iff₀ hdq hdenq]
    exact_mod_cast Iff.rfl
  have hge (a : ℕ) : (num : ℚ) / den ≤ a * 2 ^ (q - 2) ↔ num * d ≤ a * k * den := by
    rw [← hquarter, ← mul_div_assoc, div_le_div_iff₀ hdenq hdq]
    exact_mod_cast Iff.rfl
  have hhigh : ((4 * m + 2 : ℕ) : ℚ) = 4 * m + 2 := by push_cast; rfl
  rw [← hhigh, ← not_le, ← not_le, hle, hge, hle, hge]
  rw [hparts] at h
  by_cases heven : m % 2 = 0
  · simp only [Interval.holds, heven, decide_true, if_true, Bool.and_eq_true,
      decide_eq_true_eq] at h
    exact ⟨h.1, h.2, fun hodd => absurd heven hodd⟩
  · simp only [Interval.holds, heven, decide_false, Bool.false_eq_true, if_false,
      Bool.and_eq_true, decide_eq_true_eq] at h
    exact ⟨h.1.le, h.2.le, fun _ => ⟨not_le.mpr h.1, not_le.mpr h.2⟩⟩

end Decimal

namespace Binary64

/-- A number in the last place of a magnitude that the interval of the
magnitude holds. -/
structure Held (m : ℕ) (x : ℚ) : Prop where
  low : (Decimal.lowEnd (lead m) ((grade m : ℤ) - 1074) : ℚ) ≤ 4 * x
  high : 4 * x ≤ 4 * lead m + 2
  inner : lead m % 2 ≠ 0 →
    (Decimal.lowEnd (lead m) ((grade m : ℤ) - 1074) : ℚ) < 4 * x ∧ 4 * x < 4 * lead m + 2

theorem held_of_holds {m num den : ℕ} (hden : 0 < den)
    (h : (Decimal.Interval.ofParts (lead m) ((grade m : ℤ) - 1074)).holds num den = true) :
    Held m (unitsOf num den / 2 ^ grade m) := by
  obtain ⟨hlow, hhigh, hinner⟩ := Decimal.quarters_of_holds hden h
  have hplace : (0 : ℚ) < 2 ^ ((grade m : ℤ) - 1074 - 2) := by positivity
  have hunity : (unity : ℚ) ≠ 0 := by exact_mod_cast unity_pos.ne'
  have hscale : (2 : ℚ) ^ grade m = 4 * 2 ^ ((grade m : ℤ) - 1074 - 2) * unity := by
    rw [unity_eq, show (4 : ℚ) = 2 ^ (2 : ℤ) by norm_num, ← zpow_add₀ two_ne_zero,
      ← zpow_add₀ two_ne_zero, ← zpow_natCast]
    congr 1
    omega
  have hvalue : (num : ℚ) / den =
      4 * (unitsOf num den / 2 ^ grade m) * 2 ^ ((grade m : ℤ) - 1074 - 2) := by
    rw [hscale, unitsOf]
    field_simp
  rw [hvalue] at hlow hhigh hinner
  exact ⟨le_of_mul_le_mul_right hlow hplace, le_of_mul_le_mul_right hhigh hplace,
    fun hodd => ⟨lt_of_mul_lt_mul_right (hinner hodd).1 hplace.le,
      lt_of_mul_lt_mul_right (hinner hodd).2 hplace.le⟩⟩

namespace Held

variable {m : ℕ} {x : ℚ}

theorem isNearest (h : Held m x) : IsNearest x (lead m) where
  le_high := by linarith [h.high]
  low_le := by linarith [h.low, Decimal.le_lowEnd (lead m) ((grade m : ℤ) - 1074)]
  even_high heq := by
    by_contra hodd
    linarith [(h.inner hodd).2]
  even_low heq := by
    by_contra hodd
    linarith [(h.inner hodd).1, Decimal.le_lowEnd (lead m) ((grade m : ℤ) - 1074)]

/-- Below a power of two there is half a place only, and the nearest
leads are those of the next smaller grade. -/
theorem of_lt (h : Held m x) (hgrade : grade m ≠ 0) (hx : x < 2 ^ 52) :
    lead m = 2 ^ 52 ∧ 2 ^ 54 - 1 ≤ 4 * x := by
  have hlead : lead m = 2 ^ 52 := by
    have hle := le_lead_of_grade hgrade
    have hlt : (lead m : ℚ) < 2 ^ 52 + 1 := by linarith [h.isNearest.low_le]
    have hlt' : lead m < 2 ^ 52 + 1 := by exact_mod_cast hlt
    omega
  refine ⟨hlead, ?_⟩
  have hend : Decimal.lowEnd (lead m) ((grade m : ℤ) - 1074) = 2 ^ 54 - 1 := by
    have hexponent : (grade m : ℤ) - 1074 ≠ -1074 := by omega
    have hhidden : hiddenBit = 2 ^ 52 := by decide
    simp [Decimal.lowEnd, hlead, hhidden, hexponent]
  have hlow := h.low
  rw [hend] at hlow
  exact_mod_cast hlow

/-- What the interval of a magnitude holds is rounded to that
magnitude. -/
theorem rounds (h : Held m x) (hm : m < infinity) : Rounds (x * 2 ^ grade m) m := by
  have hlead : (lead m : ℚ) + 1 ≤ 2 ^ 53 := by exact_mod_cast lead_lt m
  by_cases hgrade : grade m = 0 ∨ (2 : ℚ) ^ 52 ≤ x
  · refine ⟨grade m, lead m, ⟨hgrade.imp_right fun hle => ?_, ?_, ?_⟩, ?_⟩
    · exact mul_le_mul_of_nonneg_right hle (by positivity)
    · exact mul_lt_mul_of_pos_right (by linarith [h.high]) (by positivity)
    · rw [mul_div_cancel_right₀ _ (by positivity)]
      exact h.isNearest
    · rw [wordAt_grade_lead, min_eq_right hm.le]
  · obtain ⟨hne, hlt⟩ := not_or.mp hgrade
    obtain ⟨hpower, hlow⟩ := h.of_lt hne (not_le.mp hlt)
    obtain ⟨g, hg⟩ := Nat.exists_eq_succ_of_ne_zero hne
    have hunits : x * 2 ^ grade m = 2 * x * 2 ^ g := by
      rw [hg, pow_succ]
      ring
    refine ⟨g, 2 ^ 53, ⟨.inr ?_, ?_, ?_⟩, ?_⟩
    · rw [hunits]
      exact mul_le_mul_of_nonneg_right (by linarith) (by positivity)
    · rw [hunits]
      exact mul_lt_mul_of_pos_right (by linarith) (by positivity)
    · rw [hunits, mul_div_cancel_right₀ _ (by positivity)]
      have heven : 2 ^ 53 % 2 = 0 := by norm_num
      refine ⟨?_, ?_, fun _ => heven, fun _ => heven⟩ <;> push_cast <;> linarith
    · have hword : wordAt g (2 ^ 53) = m := by
        rw [← wordAt_grade_lead m, hpower, hg, wordAt, wordAt]
        omega
      rw [hword, min_eq_right hm.le]

end Held

theorem rounds_of_holds {m num den : ℕ} (hm : m < infinity) (hden : 0 < den)
    (h : (Decimal.Interval.ofParts (lead m) ((grade m : ℤ) - 1074)).holds num den = true) :
    Rounds (unitsOf num den) m := by
  have hrounds := (held_of_holds hden h).rounds hm
  rwa [div_mul_cancel₀ _ (by positivity)] at hrounds

end Binary64

/-! ## The search for the fewest digits -/

namespace Decimal

variable {num den : ℕ}

theorem powerOfTen_pos (e : ℤ) : 0 < (powerOfTen e).1 ∧ 0 < (powerOfTen e).2 := by
  unfold powerOfTen
  split
  · exact ⟨Nat.pow_pos (by decide), one_pos⟩
  · exact ⟨one_pos, Nat.pow_pos (by decide)⟩

theorem powerOfTen_eq (e : ℤ) : ((powerOfTen e).1 : ℚ) / (powerOfTen e).2 = 10 ^ e := by
  unfold powerOfTen
  split
  · next he =>
    obtain ⟨k, rfl⟩ := Int.eq_ofNat_of_zero_le he
    simp
  · next he =>
    obtain ⟨k, hk⟩ := Int.eq_ofNat_of_zero_le (show 0 ≤ -e by omega)
    rw [hk, ← neg_neg e, hk, zpow_neg]
    simp

/-- A ratio is compared with a power of ten without fractions. -/
theorem ratio_lt_iff (hden : 0 < den) (e : ℤ) :
    (num : ℚ) / den < 10 ^ e ↔ num * (powerOfTen e).2 < den * (powerOfTen e).1 := by
  have hdenq : (0 : ℚ) < den := by exact_mod_cast hden
  have hpower : (0 : ℚ) < (powerOfTen e).2 := by exact_mod_cast (powerOfTen_pos e).2
  rw [← powerOfTen_eq, div_lt_div_iff₀ hdenq hpower, mul_comm ((powerOfTen e).1 : ℚ)]
  exact_mod_cast Iff.rfl

/-- `1233 / 4096` is a little less than the logarithm of two. -/
theorem ten_zpow_lt_two_zpow :
    (10 : ℚ) ^ (1233 : ℤ) ≤ 2 ^ (4096 : ℤ) ∧ (2 : ℚ) ^ (4095 : ℤ) ≤ 10 ^ (1233 : ℤ) := by
  have hbelow : (10 : ℕ) ^ 1233 ≤ 2 ^ 4096 := by decide +kernel
  have habove : (2 : ℕ) ^ 4095 ≤ 10 ^ 1233 := by decide +kernel
  exact ⟨by exact_mod_cast hbelow, by exact_mod_cast habove⟩

theorem ten_zpow_mul_le {k : ℤ} (hk : -4096 ≤ k) :
    (10 : ℚ) ^ (1233 * k) ≤ 2 ^ (4096 * (k + 1)) := by
  obtain ⟨hbelow, habove⟩ := ten_zpow_lt_two_zpow
  rcases Int.le_total 0 k with hpos | hneg
  · obtain ⟨n, rfl⟩ := Int.eq_ofNat_of_zero_le hpos
    calc (10 : ℚ) ^ (1233 * (n : ℤ)) = (10 ^ (1233 : ℤ)) ^ n := by rw [zpow_mul, zpow_natCast]
      _ ≤ (2 ^ (4096 : ℤ)) ^ n := pow_le_pow_left₀ (by positivity) hbelow n
      _ = 2 ^ (4096 * (n : ℤ)) := by rw [zpow_mul, zpow_natCast]
      _ ≤ 2 ^ (4096 * ((n : ℤ) + 1)) := zpow_le_zpow_right₀ (by norm_num) (by omega)
  · obtain ⟨n, hn⟩ := Int.eq_ofNat_of_zero_le (show 0 ≤ -k by omega)
    obtain rfl : k = -n := by omega
    calc (10 : ℚ) ^ (1233 * -(n : ℤ)) = ((10 ^ (1233 : ℤ)) ^ n)⁻¹ := by
          rw [mul_neg, zpow_neg, zpow_mul, zpow_natCast]
      _ ≤ ((2 ^ (4095 : ℤ)) ^ n)⁻¹ :=
          inv_anti₀ (by positivity) (pow_le_pow_left₀ (by positivity) habove n)
      _ = 2 ^ (4095 * -(n : ℤ)) := by rw [mul_neg, zpow_neg, zpow_mul, zpow_natCast]
      _ ≤ 2 ^ (4096 * (-(n : ℤ) + 1)) := zpow_le_zpow_right₀ (by norm_num) (by omega)

/-- The estimate from the bit lengths is not too large. -/
theorem ten_zpow_le {k e : ℤ} (hk : -4096 ≤ k) (he : 4096 * e ≤ 1233 * k) :
    (10 : ℚ) ^ e ≤ 2 ^ (k + 1) := by
  refine le_of_pow_le_pow_left₀ (n := 4096) (by norm_num) (by positivity) ?_
  calc ((10 : ℚ) ^ e) ^ 4096 = 10 ^ (4096 * e) := by rw [← zpow_natCast, ← zpow_mul, mul_comm]; rfl
    _ ≤ 10 ^ (1233 * k) := zpow_le_zpow_right₀ (by norm_num) he
    _ ≤ 2 ^ (4096 * (k + 1)) := ten_zpow_mul_le hk
    _ = (2 ^ (k + 1)) ^ 4096 := by rw [← zpow_natCast, ← zpow_mul, mul_comm]; rfl

/-- The first estimate of an exponent, and one more less, is below the
ratio. -/
theorem ten_zpow_estimate_le (hnum : num ≠ 0) (hden : den ≠ 0)
    (hk : -4096 ≤ (num.log2 : ℤ) - den.log2) :
    (10 : ℚ) ^ ((((num.log2 : ℤ) - den.log2) * 1233).fdiv 4096 - 1 - 1) ≤ (num : ℚ) / den := by
  have hestimate : 4096 * (((num.log2 : ℤ) - den.log2) * 1233).fdiv 4096 ≤
      1233 * ((num.log2 : ℤ) - den.log2) := by
    rw [Int.fdiv_eq_ediv_of_nonneg _ (by decide)]
    omega
  have hbinary : (num.log2 : ℤ) - den.log2 - 1 ≤ binaryExponent num den := by
    unfold binaryExponent
    dsimp only
    split <;> omega
  calc (10 : ℚ) ^ ((((num.log2 : ℤ) - den.log2) * 1233).fdiv 4096 - 1 - 1)
      = 10 ^ (((num.log2 : ℤ) - den.log2) * 1233).fdiv 4096 / 10 / 10 := by
        rw [zpow_sub_one₀ (by norm_num), zpow_sub_one₀ (by norm_num), div_eq_mul_inv,
          div_eq_mul_inv]
    _ ≤ 2 ^ ((num.log2 : ℤ) - den.log2 + 1) / 10 / 10 := by
        gcongr
        exact ten_zpow_le hk hestimate
    _ ≤ 2 ^ ((num.log2 : ℤ) - den.log2 - 1) := by
        rw [zpow_add_one₀ two_ne_zero, zpow_sub_one₀ two_ne_zero]
        have : (0 : ℚ) < 2 ^ ((num.log2 : ℤ) - den.log2) := by positivity
        linarith
    _ ≤ 2 ^ binaryExponent num den := zpow_le_zpow_right₀ (by norm_num) hbinary
    _ ≤ (num : ℚ) / den := (binaryExponent_spec hnum hden).1

/-- The exponent of a ratio is not too large. -/
theorem le_decimalExponent (hnum : num ≠ 0) (hden : den ≠ 0)
    (hk : -4096 ≤ (num.log2 : ℤ) - den.log2) :
    (10 : ℚ) ^ (decimalExponent num den - 1) ≤ (num : ℚ) / den := by
  have hle {e : ℤ} (h : ¬ num * (powerOfTen e).2 < den * (powerOfTen e).1) :
      (10 : ℚ) ^ e ≤ (num : ℚ) / den :=
    not_lt.mp fun hlt => h ((ratio_lt_iff (Nat.pos_of_ne_zero hden) e).mp hlt)
  unfold decimalExponent
  dsimp only
  -- every later answer comes after a comparison that failed one place before it
  split
  · exact ten_zpow_estimate_le hnum hden hk
  · next h0 =>
    split
    · exact hle (by simpa using h0)
    · next h1 =>
      split
      · rw [add_sub_cancel_right]
        exact hle (by simpa using h1)
      · next h2 =>
        split
        · rw [show ∀ e : ℤ, e + 2 - 1 = e + 1 by intro e; ring]
          exact hle (by simpa using h2)
        · next h3 =>
          rw [show ∀ e : ℤ, e + 3 - 1 = e + 2 by intro e; ring]
          exact hle (by simpa using h3)

/-- The search answers with what the interval holds. -/
theorem holds_of_nearest? {i : Interval} {tie : Tie} {e : ℤ} {n : ℕ}
    (h : i.nearest? tie e = some n) :
    i.holds (n * (powerOfTen e).1) (powerOfTen e).2 = true := by
  unfold Interval.nearest? at h
  dsimp only at h
  split at h
  · next hboth =>
    rw [Bool.and_eq_true] at hboth
    cases h
    split
    · exact hboth.1
    · exact hboth.2
  · split at h
    · next hlower =>
      cases h
      exact hlower
    · split at h
      · next hupper =>
        cases h
        exact hupper
      · cases h

theorem holds_of_lt {i : Interval} (hlow : i.low * den < num * i.den)
    (hhigh : num * i.den < i.high * den) : i.holds num den = true := by
  unfold Interval.holds
  split <;> simp [hlow, hhigh, hlow.le, hhigh.le]

/-- A step of at most a ten-quadrillionth of the middle is less than the
interval is long. -/
theorem step_lt {m : ℕ} {q : ℤ} (hm : 0 < m) (hlt : m < 2 ^ 53) {step c : ℕ} (hc : 0 < c)
    (hfine : step * 10 ^ 16 ≤ 4 * m * c) : step + lowEnd m q * c < (4 * m + 2) * c := by
  unfold lowEnd
  split
  · next hpower =>
    obtain ⟨hpower, -⟩ : m = hiddenBit ∧ _ := by simpa using hpower
    have hhidden : hiddenBit = 2 ^ 52 := by decide
    rw [hpower, hhidden] at hfine ⊢
    omega
  · have hmost : m * c ≤ (2 ^ 53 - 1) * c := Nat.mul_le_mul_right c (by omega)
    have hlow : (4 * m - 2) * c + 2 * c = 4 * (m * c) := by
      rw [← Nat.add_mul, Nat.sub_add_cancel (by omega), Nat.mul_assoc]
    have hhigh : (4 * m + 2) * c = 4 * (m * c) + 2 * c := by ring
    rw [Nat.mul_assoc] at hfine
    omega

theorem lowEnd_le (m : ℕ) (q : ℤ) : lowEnd m q ≤ 4 * m := by
  unfold lowEnd
  split <;> omega

/-- On a grid with such steps one of the middle's neighbours is in the
interval. -/
theorem isSome_nearest? {m : ℕ} {q : ℤ} (hm : 0 < m) (hlt : m < 2 ^ 53) (tie : Tie) {e : ℤ}
    (hfine : (Interval.ofParts m q).den * (powerOfTen e).1 * 10 ^ 16 ≤
      (Interval.ofParts m q).mid * (powerOfTen e).2) :
    ((Interval.ofParts m q).nearest? tie e).isSome := by
  obtain ⟨k, d, hk, hd, -, hparts⟩ := exists_quarter m q
  obtain ⟨hp, hp'⟩ := powerOfTen_pos e
  unfold Interval.nearest?
  rw [hparts] at hfine ⊢
  dsimp only at hfine ⊢
  generalize (powerOfTen e).1 = p at *
  generalize (powerOfTen e).2 = p' at *
  generalize hlower : 4 * m * k * p' / (d * p) = lower
  have hc : 0 < k * p' := Nat.mul_pos hk hp'
  have hstep := step_lt (q := q) hm hlt hc (by rwa [← Nat.mul_assoc])
  have hbelow : lower * (d * p) ≤ 4 * m * k * p' := hlower ▸ Nat.div_mul_le_self _ _
  have habove : 4 * m * k * p' < lower * (d * p) + d * p := by
    have hnext := Nat.lt_mul_div_succ (4 * m * k * p') (Nat.mul_pos hd hp)
    rwa [hlower, Nat.mul_add, Nat.mul_one, Nat.mul_comm _ lower] at hnext
  have hlow : lowEnd m q * (k * p') ≤ 4 * m * k * p' := by
    rw [Nat.mul_assoc (4 * m)]
    exact Nat.mul_le_mul_right _ (lowEnd_le m q)
  have hhigh : 4 * m * k * p' < (4 * m + 2) * (k * p') := by
    rw [Nat.mul_assoc (4 * m)]
    exact Nat.mul_lt_mul_of_pos_right (by omega) hc
  have hin {n : ℕ} (hn : lowEnd m q * (k * p') < n * (d * p))
      (hn' : n * (d * p) < (4 * m + 2) * (k * p')) :
      Interval.holds ⟨lowEnd m q * k, 4 * m * k, (4 * m + 2) * k, d, decide (m % 2 = 0)⟩
        (n * p) p' = true := by
    refine holds_of_lt ?_ ?_
    · rwa [Nat.mul_assoc, Nat.mul_assoc n, Nat.mul_comm p]
    · rwa [Nat.mul_assoc n, Nat.mul_comm p, Nat.mul_assoc (4 * m + 2)]
  by_cases hupper : lower * (d * p) + d * p < (4 * m + 2) * (k * p')
  · rw [hin (n := lower + 1) (by rw [Nat.succ_mul]; omega) (by rwa [Nat.succ_mul])]
    split
    · rfl
    · split <;> rfl
  · rw [hin (n := lower) (by omega) (by omega)]
    split <;> rfl

/-- The search ends when its last length has an answer. -/
theorem searchDigits_of_isSome {i : Interval} {tie : Tie} {point : ℤ} (more count : ℕ)
    (h : (i.nearest? tie (point - (count + more : ℕ))).isSome) :
    ∃ n e, searchDigits i tie point more count = (n, e) ∧ i.nearest? tie e = some n := by
  induction more generalizing count with
  | zero =>
    obtain ⟨n, hn⟩ := Option.isSome_iff_exists.mp h
    rw [Nat.add_zero] at hn
    exact ⟨n, _, by rw [searchDigits, hn]; rfl, hn⟩
  | succ more ih =>
    rw [searchDigits]
    cases hn : i.nearest? tie (point - count) with
    | some n => exact ⟨n, _, rfl, hn⟩
    | none => exact ih (count + 1) (by rwa [Nat.add_right_comm])

/-- Sixteen places behind the first digit of a ratio. -/
theorem fine_of_le (hden : 0 < den) {point : ℤ} (h : (10 : ℚ) ^ (point - 1) ≤ (num : ℚ) / den) :
    den * (powerOfTen (point - 17)).1 * 10 ^ 16 ≤ num * (powerOfTen (point - 17)).2 := by
  have hscale : (10 : ℚ) ^ (point - 1) = 10 ^ (point - 17) * 10 ^ 16 := by
    rw [← zpow_natCast, ← zpow_add₀ (by norm_num)]
    congr 1
    push_cast
    ring
  have hdenq : (0 : ℚ) < den := by exact_mod_cast hden
  have hpower : (0 : ℚ) < (powerOfTen (point - 17)).2 := by exact_mod_cast (powerOfTen_pos _).2
  rw [hscale, ← powerOfTen_eq, div_mul_eq_mul_div, div_le_div_iff₀ hpower hdenq] at h
  rw [Nat.mul_right_comm, Nat.mul_comm, ← Nat.mul_assoc, Nat.mul_right_comm]
  exact_mod_cast h

/-- Seventeen digits suffice, and the search ends with a decimal that the
interval holds. -/
theorem exists_searchDigits {m : ℕ} {q : ℤ} (hm : 0 < m) (hlt : m < 2 ^ 53) (hlow : -1074 ≤ q)
    (hhigh : q ≤ 971) (tie : Tie) :
    ∃ n e, searchDigits (Interval.ofParts m q) tie
        (decimalExponent (Interval.ofParts m q).mid (Interval.ofParts m q).den) 16 1 = (n, e) ∧
      (Interval.ofParts m q).holds (n * (powerOfTen e).1) (powerOfTen e).2 = true := by
  obtain ⟨-, hmidLog, hdenLog⟩ := interval_bounds hlt hlow hhigh
  obtain ⟨hmid, hden⟩ : 0 < (Interval.ofParts m q).mid ∧ 0 < (Interval.ofParts m q).den := by
    obtain ⟨k, d, hk, hd, -, hparts⟩ := exists_quarter m q
    rw [hparts]
    exact ⟨by positivity, hd⟩
  have hfine := fine_of_le hden (le_decimalExponent hmid.ne' hden.ne' (by omega))
  obtain ⟨n, e, hsearch, hn⟩ := searchDigits_of_isSome 16 1 (isSome_nearest? hm hlt tie hfine)
  exact ⟨n, e, hsearch, holds_of_nearest? hn⟩

/-! ## The magnitude of a decimal -/

theorem length_toDigits_bounds {n : ℕ} (hn : n ≠ 0) :
    (10 : ℚ) ^ (((Nat.toDigits 10 n).length : ℤ) - 1) ≤ n ∧
      (n : ℚ) < 10 ^ ((Nat.toDigits 10 n).length : ℤ) := by
  have hlength : 0 < (Nat.toDigits 10 n).length := List.length_pos_of_ne_nil Nat.toDigits_ne_nil
  have hupper : n < 10 ^ (Nat.toDigits 10 n).length :=
    (Nat.length_toDigits_le_iff (by decide) hlength).mp le_rfl
  have hlower : 10 ^ ((Nat.toDigits 10 n).length - 1) ≤ n := by
    rcases Nat.eq_or_lt_of_le (Nat.succ_le_of_lt hlength) with hone | hmore
    · rw [← hone]
      exact Nat.one_le_iff_ne_zero.mpr hn
    · rw [← not_lt, ← Nat.length_toDigits_le_iff (by decide) (by omega)]
      omega
  constructor
  · rw [show ((Nat.toDigits 10 n).length : ℤ) - 1 = ((Nat.toDigits 10 n).length - 1 : ℕ) by omega,
      zpow_natCast]
    exact_mod_cast hlower
  · rw [zpow_natCast]
    exact_mod_cast hupper

end Decimal

namespace Binary64

open Decimal

theorem rounds_ofRatio_powerOfTen (digits : ℕ) (e : ℤ) :
    Rounds ((digits : ℚ) * 10 ^ e * unity)
      (ofRatio (digits * (powerOfTen e).1) (powerOfTen e).2) := by
  have hvalue : (digits : ℚ) * 10 ^ e * unity =
      unitsOf (digits * (powerOfTen e).1) (powerOfTen e).2 := by
    rw [unitsOf, ← powerOfTen_eq, Nat.cast_mul, mul_div_assoc]
  rw [hvalue]
  exact rounds_ofRatio _ (powerOfTen_pos e).2.ne'

/-- Beyond `10 ^ 320` there is nothing but infinity, and before
`10 ^ -340` nothing but zero. -/
theorem rounds_far : Rounds ((10 : ℚ) ^ (320 : ℤ) * unity) infinity ∧
    Rounds ((10 : ℚ) ^ (-340 : ℤ) * unity) 0 := by
  have hlarge : ofRatio (1 * (powerOfTen 320).1) (powerOfTen 320).2 = infinity := by
    decide +kernel
  have hsmall : ofRatio (1 * (powerOfTen (-340)).1) (powerOfTen (-340)).2 = 0 := by
    decide +kernel
  have hlargeRounds := rounds_ofRatio_powerOfTen 1 320
  have hsmallRounds := rounds_ofRatio_powerOfTen 1 (-340)
  rw [hlarge, Nat.cast_one, one_mul] at hlargeRounds
  rw [hsmall, Nat.cast_one, one_mul] at hsmallRounds
  exact ⟨hlargeRounds, hsmallRounds⟩

/-- A decimal stands for the nearest magnitude. -/
theorem rounds_ofDecimal (digits : ℕ) (e : ℤ) :
    Rounds ((digits : ℚ) * 10 ^ e * unity) (ofDecimal digits e) := by
  have hunity : (0 : ℚ) < unity := by exact_mod_cast unity_pos
  have hratio := rounds_ofRatio_powerOfTen digits e
  unfold ofDecimal
  split
  · next hzero =>
    rw [hzero, Nat.zero_mul] at hratio
    rwa [hzero]
  · next hdigits =>
    obtain ⟨hlower, hupper⟩ := length_toDigits_bounds hdigits
    have hpower : (0 : ℚ) < 10 ^ e := by positivity
    dsimp only
    split
    · next hfar =>
      have hle : (10 : ℚ) ^ (320 : ℤ) * unity ≤ digits * 10 ^ e * unity := by
        refine mul_le_mul_of_nonneg_right ?_ hunity.le
        calc (10 : ℚ) ^ (320 : ℤ) ≤ 10 ^ (((Nat.toDigits 10 digits).length : ℤ) - 1 + e) :=
              zpow_le_zpow_right₀ (by norm_num) (by omega)
          _ = 10 ^ (((Nat.toDigits 10 digits).length : ℤ) - 1) * 10 ^ e :=
              zpow_add₀ (by norm_num) _ _
          _ ≤ digits * 10 ^ e := mul_le_mul_of_nonneg_right hlower hpower.le
      rwa [Nat.le_antisymm (rounds_far.1.mono hratio hle) (ofRatio_le_infinity _ _)]
    · split
      · next hfar =>
        have hle : (digits : ℚ) * 10 ^ e * unity ≤ 10 ^ (-340 : ℤ) * unity := by
          refine mul_le_mul_of_nonneg_right ?_ hunity.le
          calc (digits : ℚ) * 10 ^ e ≤ 10 ^ ((Nat.toDigits 10 digits).length : ℤ) * 10 ^ e :=
                mul_le_mul_of_nonneg_right hupper.le hpower.le
            _ = 10 ^ (((Nat.toDigits 10 digits).length : ℤ) + e) :=
                (zpow_add₀ (by norm_num) _ _).symm
            _ ≤ 10 ^ (-340 : ℤ) := zpow_le_zpow_right₀ (by norm_num) (by omega)
        rwa [Nat.eq_zero_of_le_zero (hratio.mono rounds_far.2 hle)] at hratio
      · split
        · next hpos =>
          rw [powerOfTen, if_pos hpos] at hratio
          exact hratio
        · next hneg =>
          rw [powerOfTen, if_neg hneg, Nat.mul_one] at hratio
          exact hratio

end Binary64

/-! ## Positional texts -/

namespace Numeral

theorem natOf_zeros_append (n : ℕ) (ds : List Char) :
    natOf (Decimal.zeros n ++ ds) = natOf ds := by
  have hzeros : (Decimal.zeros n).foldl (fun n c => 10 * n + digit c) 0 = 10 ^ n * 0 :=
    Nat.ofDigitChars_replicate_zero
  rw [natOf, List.foldl_append, hzeros, Nat.mul_zero]
  rfl

theorem natOf_append_zeros (n : ℕ) (ds : List Char) :
    natOf (ds ++ Decimal.zeros n) = natOf ds * 10 ^ n := by
  rw [natOf, List.foldl_append, Nat.mul_comm]
  exact Nat.ofDigitChars_replicate_zero

theorem readDecimal_digits {ds : List Char} (hne : ds ≠ []) (hds : ∀ c ∈ ds, c.isDigit = true)
    (negative : Bool) : readDecimal negative ds = some (.decimal negative (natOf ds) 0) := by
  have hend : ∀ c ∈ ([] : List Char).head?, c.isDigit = false := by simp
  obtain ⟨htake, hdrop⟩ := Text.takeWhile_append_of_head hds hend
  rw [List.append_nil] at htake hdrop
  simp [readDecimal, htake, hdrop, hne, readExponent]

theorem readDecimal_point {ds fs : List Char} (hne : ds ≠ []) (hds : ∀ c ∈ ds, c.isDigit = true)
    (hfs : ∀ c ∈ fs, c.isDigit = true) (negative : Bool) :
    readDecimal negative (ds ++ '.' :: fs) =
      some (.decimal negative (natOf (ds ++ fs)) (-(fs.length : ℤ))) := by
  have hpoint : ∀ c ∈ ('.' :: fs).head?, c.isDigit = false := by simp
  have hend : ∀ c ∈ ([] : List Char).head?, c.isDigit = false := by simp
  obtain ⟨htake, hdrop⟩ := Text.takeWhile_append_of_head hds hpoint
  obtain ⟨htake', hdrop'⟩ := Text.takeWhile_append_of_head hfs hend
  rw [List.append_nil] at htake' hdrop'
  simp [readDecimal, htake, hdrop, htake', hdrop', hne, readExponent]

end Numeral

namespace Decimal

open Numeral

/-- The number that digits stand for. -/
def Digits.value (d : Digits) : ℚ := natOf d.digits * 10 ^ (d.point - d.digits.length)

/-- Digits that are written positionally are read as what they stand
for. -/
theorem readDecimal_positional {d : Digits} (hd : ∀ c ∈ d.digits, c.isDigit = true)
    (negative : Bool) : ∃ n e, readDecimal negative (d.positional false) =
      some (.decimal negative n e) ∧ (n : ℚ) * 10 ^ e = d.value := by
  have hzeros {n : ℕ} : ∀ c ∈ zeros n, c.isDigit = true := by
    intro c hc
    rw [List.eq_of_mem_replicate hc]
    decide
  have hzero : ∀ c ∈ ['0'], c.isDigit = true := by decide
  have happend {as bs : List Char} (has : ∀ c ∈ as, c.isDigit = true)
      (hbs : ∀ c ∈ bs, c.isDigit = true) : ∀ c ∈ as ++ bs, c.isDigit = true := fun c hc =>
    (List.mem_append.mp hc).elim (has c) (hbs c)
  unfold Digits.positional
  dsimp only
  split
  · next hpoint =>
    refine ⟨_, _, readDecimal_point (List.cons_ne_nil _ _) hzero (happend hzeros hd) negative, ?_⟩
    have hvalue : natOf ('0' :: (zeros (-d.point).toNat ++ d.digits)) = natOf d.digits :=
      natOf_zeros_append _ _
    rw [List.singleton_append, hvalue, Digits.value]
    congr 2
    simp only [zeros, List.length_append, List.length_replicate]
    omega
  · split
    · next hpoint hlength =>
      simp only [Bool.false_eq_true, if_false, List.append_nil]
      refine ⟨_, _, readDecimal_digits (fun hnil => ?_) (happend hd hzeros) negative, ?_⟩
      · have hnone := congrArg List.length hnil
        simp only [zeros, List.length_append, List.length_replicate, List.length_nil] at hnone
        omega
      · obtain ⟨k, hk⟩ := Int.eq_ofNat_of_zero_le (Int.sub_nonneg.mpr hlength)
        rw [hk, Int.toNat_natCast, natOf_append_zeros, Digits.value, hk, zpow_zero, mul_one,
          zpow_natCast]
        push_cast
        rfl
    · next hpoint hlength =>
      refine ⟨_, _, readDecimal_point (fun hnil => ?_) (fun c hc => hd c (List.mem_of_mem_take hc))
        (fun c hc => hd c (List.mem_of_mem_drop hc)) negative, ?_⟩
      · have hnone := congrArg List.length hnil
        simp only [List.length_take, List.length_nil] at hnone
        omega
      · rw [List.take_append_drop, Digits.value, List.length_drop]
        congr 2
        omega

theorem exists_zeros (ds : List Char) :
    ∃ k, (ds.reverse.dropWhile (· == '0')).reverse ++ zeros k = ds := by
  have hzeros : ds.reverse.takeWhile (· == '0') =
      zeros (ds.reverse.takeWhile (· == '0')).length :=
    List.eq_replicate_of_mem fun c hc => by simpa using List.mem_takeWhile_imp hc
  refine ⟨(ds.reverse.takeWhile (· == '0')).length, ?_⟩
  have hsplit := List.takeWhile_append_dropWhile (p := (· == '0')) (l := ds.reverse)
  calc (ds.reverse.dropWhile (· == '0')).reverse ++ zeros _
      = (ds.reverse.dropWhile (· == '0')).reverse ++
          (ds.reverse.takeWhile (· == '0')).reverse := by
        rw [hzeros]
        simp only [zeros, List.length_replicate, List.reverse_replicate]
    _ = ds := by rw [← List.reverse_append, hsplit, List.reverse_reverse]

/-- Without the zeros at its end, a number stands for the same at its
point. -/
theorem value_trimmed (n : ℕ) (e : ℤ) :
    Digits.value ⟨((Nat.toDigits 10 n).reverse.dropWhile (· == '0')).reverse,
      e + (Nat.toDigits 10 n).length⟩ = n * 10 ^ e := by
  obtain ⟨k, hk⟩ := exists_zeros (Nat.toDigits 10 n)
  generalize ((Nat.toDigits 10 n).reverse.dropWhile (· == '0')).reverse = ds at hk ⊢
  have hn : n = natOf ds * 10 ^ k := by rw [← natOf_append_zeros, hk, Doc.natOf_toDigits]
  have hlength : ((Nat.toDigits 10 n).length : ℤ) = ds.length + k := by
    rw [← hk]
    simp [zeros]
  have hpoint : e + (Nat.toDigits 10 n).length - ds.length = (k : ℤ) + e := by
    rw [hlength]
    ring
  rw [Digits.value, hpoint, zpow_add₀ (by norm_num), zpow_natCast, ← mul_assoc]
  congr 1
  rw [hn]
  push_cast
  rfl

/-- The shortest decimal stands for what the interval holds. -/
theorem exists_value_shortest {m : ℕ} {q : ℤ} (hm : 0 < m) (hlt : m < 2 ^ 53)
    (hlow : -1074 ≤ q) (hhigh : q ≤ 971) (tie : Tie) :
    ∃ (n : ℕ) (e : ℤ), (shortest tie m q).value = n * 10 ^ e ∧
      (Interval.ofParts m q).holds (n * (powerOfTen e).1) (powerOfTen e).2 = true := by
  obtain ⟨n, e, hsearch, hholds⟩ := exists_searchDigits hm hlt hlow hhigh tie
  refine ⟨n, e, ?_, hholds⟩
  simp only [shortest, hsearch]
  exact value_trimmed n e

end Decimal

namespace Double

open Decimal Scalar

/-- The written magnitude of a finite number is read as a decimal that is
rounded to it. -/
theorem readDecimal_write {m : ℕ} (hm : m < infinity) (negative : Bool) :
    ∃ n e, Numeral.readDecimal negative (plainLayout.write (lead m) ((grade m : ℤ) - 1074)) =
      some (.decimal negative n e) ∧ Rounds ((n : ℚ) * 10 ^ e * unity) m := by
  obtain ⟨hlt, hlow, hhigh⟩ := parts?_bounds (parts?_signed false hm)
  unfold Layout.write
  split
  · next hzero =>
    refine ⟨0, 0, Numeral.readDecimal_digits (by simp) (by decide) negative, ?_⟩
    have hunits : (units m : ℚ) = ((0 : ℕ) : ℚ) * 10 ^ (0 : ℤ) * unity := by
      rw [units, hzero]
      simp
    rw [← hunits]
    exact .of_units hm.le
  · next hpos =>
    have hbounds := point_shortest_bounds hlt hlow hhigh .larger
    have hlayout : (decide (plainLayout.least ≤ (shortest .larger (lead m) (grade m - 1074)).point) &&
        decide ((shortest .larger (lead m) (grade m - 1074)).point ≤ plainLayout.most)) = true := by
      rw [Bool.and_eq_true, decide_eq_true_eq, decide_eq_true_eq]
      exact hbounds
    dsimp only
    rw [show plainLayout.tie = Tie.larger from rfl, if_pos hlayout]
    obtain ⟨n, e, hread, hvalue⟩ :=
      readDecimal_positional (isDigit_shortest .larger (lead m) (grade m - 1074)) negative
    obtain ⟨n', e', hvalue', hholds⟩ :=
      exists_value_shortest (Nat.pos_of_ne_zero hpos) hlt hlow hhigh .larger
    refine ⟨n, e, hread, ?_⟩
    rw [hvalue, hvalue', ← powerOfTen_eq, ← mul_div_assoc, ← Nat.cast_mul]
    exact rounds_of_holds hm (powerOfTen_pos e').2 hholds

theorem read_signed {cs : List Char} {n : ℕ} {e : ℤ} (negative : Bool) (hcs : IsUnsigned cs)
    (h : Numeral.readDecimal true cs = some (.decimal true n e)) :
    Numeral.read ((if negative then ['-'] else []) ++ cs) = some (.decimal negative n e) := by
  obtain ⟨o, hplus, hminus⟩ := Numeral.read_minus hcs
  have hread : Numeral.read ('-' :: cs) = some (.decimal true n e) := by
    simp [Numeral.read, h]
  cases negative with
  | true => exact hread
  | false =>
    obtain ⟨numeral, rfl, hnumeral⟩ := Option.map_eq_some_iff.mp (hminus.symm.trans hread)
    refine hplus.trans (congrArg some ?_)
    cases numeral with
    | decimal _ digits exponent =>
      cases hnumeral
      rfl
    | infinite _ => cases hnumeral
    | notANumber _ => cases hnumeral

/-- What is neither finite nor undefined is one of the infinities. -/
theorem exists_infinite {x : Double} (hx : isNaN x.bits = false) (hparts : parts? x.bits = none) :
    ∃ negative, x = ofSigned negative infinity := by
  have hinfinity : infinity = 2047 * 2 ^ 52 := by decide
  have hsign : signBit = 2048 * 2 ^ 52 := by decide
  have hword : x.bits < 4096 * 2 ^ 52 := x.word.toNat_lt
  have hfield : x.bits / 2 ^ 52 % 2048 = 2047 := by
    rw [← Nat.shiftRight_eq_div_pow]
    by_contra hne
    unfold parts? at hparts
    dsimp only at hparts
    rw [if_neg hne] at hparts
    split at hparts <;> cases hparts
  have hmagnitude : ¬ infinity < x.bits % signBit := by simpa [isNaN] using hx
  rw [hinfinity, hsign] at hmagnitude
  have hbits : ∃ negative, x.bits = signed negative infinity := by
    rcases Nat.lt_or_ge x.bits signBit with hlt | hge
    · refine ⟨false, ?_⟩
      simp only [signed, Bool.false_eq_true, if_false]
      omega
    · refine ⟨true, ?_⟩
      simp only [signed, if_true]
      omega
  obtain ⟨negative, hbits⟩ := hbits
  refine ⟨negative, ?_⟩
  rw [ofSigned, ← hbits]
  exact congrArg mk UInt64.ofNat_toNat.symm

/-- The text of a number is read as that number. -/
theorem ofText_text {x : Double} (hx : isNaN x.bits = false) :
    ofText (text x).toList = some x := by
  show (Numeral.read (write plainLayout "NaN" "inf" x).toList).bind ofNumeral = some x
  cases hparts : parts? x.bits with
  | some p =>
    obtain ⟨negative, m, hm, rfl⟩ :=
      exists_ofSigned (x := x) (by show (parts? x.bits).isSome = true; rw [hparts]; rfl)
    obtain ⟨n, e, hread, hrounds⟩ := readDecimal_write hm true
    obtain ⟨hlt, hlow, hhigh⟩ := parts?_bounds (parts?_signed false hm)
    have hword : ofDecimal n e = m := (rounds_ofDecimal n e).unique hrounds
    simp only [write, bits_ofSigned hm.le, parts?_signed negative hm, String.toList_ofList]
    rw [read_signed negative (isUnsigned_write hlt hlow hhigh) hread]
    show some (ofBits (ofNumeral (.decimal negative n e))) = _
    rw [Binary64.ofNumeral, hword]
    rfl
  | none =>
    obtain ⟨negative, rfl⟩ := exists_infinite hx hparts
    cases negative <;> decide +kernel

end Double

end DeckDuel
