/-
DeckDuel.Proofs.TenthWords — rounding a magnitude to tenths.

* `tenth` — what rounding to one decimal place does to a magnitude: it is
  scaled up by ten, rounded to an integer and scaled down again, each step
  rounded to the nearest magnitude.
* `tenth_mono` — more stays more.
* `tenth_tenth` — rounding twice is rounding once, although neither step
  is exact: scaled up again, what was scaled down from an integer lies
  nearest to that integer, or it is the magnitude that was rounded.
-/
import DeckDuel.Proofs.Double
import DeckDuel.Proofs.NearestWord

namespace DeckDuel.Binary64

/-! ## The steps -/

theorem parts?_signed (negative : Bool) {m : ℕ} (h : m < infinity) :
    parts? (signed negative m) = some ⟨negative, lead m, (grade m : ℤ) - 1074⟩ := by
  have hinfinity : infinity = 2047 * 2 ^ 52 := by decide
  have hsign : signBit = 2048 * 2 ^ 52 := by decide
  have hhidden : hiddenBit = 2 ^ 52 := by decide
  rw [hinfinity] at h
  have hfield : (signed negative m >>> 52) % 2048 = m / 2 ^ 52 := by
    rw [Nat.shiftRight_eq_div_pow]
    cases negative with
    | false =>
      simp only [signed, Bool.false_eq_true, if_false]
      omega
    | true =>
      simp only [signed, if_true, hsign]
      omega
  have hfraction : signed negative m % 2 ^ 52 = m % 2 ^ 52 := by
    cases negative with
    | false => rfl
    | true =>
      simp only [signed, if_true, hsign]
      omega
  have hnegative : decide (signed negative m ≥ signBit) = negative := by
    rw [hsign]
    cases negative with
    | false =>
      simp only [signed, Bool.false_eq_true, if_false, decide_eq_false_iff_not]
      omega
    | true =>
      simp only [signed, if_true, hsign, decide_eq_true_eq]
      omega
  simp only [parts?, hhidden, hfield, hfraction, hnegative]
  unfold lead grade
  split
  · omega
  · split
    · next hzero =>
      simp only [hzero, Option.some.injEq, Parts.mk.injEq, true_and]
      omega
    · simp only [Option.some.injEq, Parts.mk.injEq, true_and]
      omega

theorem unitsOf_one (n : ℕ) : unitsOf n 1 = n * unity := by
  simp [unitsOf]

theorem rounds_ofScaled (s : ℕ) (e : ℤ) :
    Rounds ((s : ℚ) * (2 : ℚ) ^ e * unity) (ofScaled s e) := by
  unfold ofScaled
  split
  · next he =>
    obtain ⟨k, rfl⟩ := Int.eq_ofNat_of_zero_le he
    have hvalue : (s : ℚ) * (2 : ℚ) ^ (k : ℤ) * unity = unitsOf (s <<< k) 1 := by
      rw [unitsOf_one, Nat.shiftLeft_eq, zpow_natCast]
      push_cast
      rfl
    rw [hvalue, Int.toNat_natCast]
    exact rounds_ofRatio _ one_ne_zero
  · next he =>
    obtain ⟨k, hk⟩ := Int.eq_ofNat_of_zero_le (show 0 ≤ -e by omega)
    have hvalue : (s : ℚ) * (2 : ℚ) ^ e * unity = unitsOf s (1 <<< k) := by
      rw [unitsOf, Nat.shiftLeft_eq, ← neg_neg e, hk, zpow_neg, zpow_natCast]
      push_cast
      field_simp
    rw [hvalue, hk, Int.toNat_natCast]
    exact rounds_ofRatio _ (by simp [Nat.shiftLeft_eq])

theorem rounds_quotient (p : Parts) {q : Parts} (hq : q.significand ≠ 0) :
    Rounds ((p.significand : ℚ) * 2 ^ p.exponent / (q.significand * 2 ^ q.exponent) * unity)
      (p.quotient q) := by
  have hpos : (q.significand : ℚ) ≠ 0 := by exact_mod_cast hq
  have hratio : (p.significand : ℚ) * 2 ^ p.exponent / (q.significand * 2 ^ q.exponent) =
      p.significand * 2 ^ (p.exponent - q.exponent) / q.significand := by
    rw [zpow_sub₀ two_ne_zero]
    field_simp
  rw [hratio]
  unfold Parts.quotient
  dsimp only
  split
  · next he =>
    obtain ⟨k, hk⟩ := Int.eq_ofNat_of_zero_le he
    have hvalue : (p.significand : ℚ) * 2 ^ (k : ℤ) / q.significand * unity =
        unitsOf (p.significand <<< k) q.significand := by
      rw [unitsOf, Nat.shiftLeft_eq, zpow_natCast]
      push_cast
      rfl
    rw [hk, hvalue, Int.toNat_natCast]
    exact rounds_ofRatio _ hq
  · next he =>
    obtain ⟨k, hk⟩ := Int.eq_ofNat_of_zero_le (show 0 ≤ -(p.exponent - q.exponent) by omega)
    have hvalue : (p.significand : ℚ) * 2 ^ (p.exponent - q.exponent) / q.significand * unity =
        unitsOf p.significand (q.significand <<< k) := by
      rw [unitsOf, Nat.shiftLeft_eq, ← neg_neg (p.exponent - q.exponent), hk, zpow_neg,
        zpow_natCast]
      push_cast
      field_simp
    rw [hvalue, hk, Int.toNat_natCast]
    exact rounds_ofRatio _ (by rw [Nat.shiftLeft_eq]; positivity)

/-- A finite magnitude taken apart. -/
def magnitude (m : ℕ) : Parts := ⟨false, lead m, (grade m : ℤ) - 1074⟩

/-- The number ten taken apart. -/
def ten : Parts := ⟨false, 0x14000000000000, -49⟩

theorem units_eq (m : ℕ) : (lead m : ℚ) * 2 ^ ((grade m : ℤ) - 1074) * unity = units m := by
  have hunity : (unity : ℚ) ≠ 0 := by exact_mod_cast unity_pos.ne'
  rw [zpow_sub₀ two_ne_zero, ← unity_eq, units, zpow_natCast]
  push_cast
  field_simp

theorem ten_eq : ((ten.significand : ℚ) * 2 ^ ten.exponent) = 10 := by
  norm_num [ten]

/-- Ten times a magnitude. -/
def scaleUp (m : ℕ) : ℕ :=
  ofScaled (lead m * ten.significand) ((grade m : ℤ) - 1074 + ten.exponent)

/-- A tenth of a magnitude. -/
def scaleDown (m : ℕ) : ℕ := (magnitude m).quotient ten

/-- The integer nearest to a magnitude, a half up. -/
def whole (m : ℕ) : ℕ :=
  if (magnitude m).split.unit ≤ 2 * (magnitude m).split.rest then (magnitude m).split.whole + 1
  else (magnitude m).split.whole

theorem rounds_scaleUp (m : ℕ) : Rounds (10 * units m) (scaleUp m) := by
  have hvalue : (10 : ℚ) * units m =
      ((lead m * ten.significand : ℕ) : ℚ) * 2 ^ ((grade m : ℤ) - 1074 + ten.exponent) * unity := by
    rw [← units_eq, ← ten_eq, zpow_add₀ two_ne_zero]
    push_cast
    ring
  rw [hvalue]
  exact rounds_ofScaled _ _

theorem rounds_scaleDown (m : ℕ) : Rounds (units m / 10) (scaleDown m) := by
  have hvalue : (units m : ℚ) / 10 =
      ((magnitude m).significand : ℚ) * 2 ^ (magnitude m).exponent /
        (ten.significand * 2 ^ ten.exponent) * unity := by
    rw [← units_eq, ten_eq]
    simp only [magnitude]
    ring
  rw [hvalue]
  exact rounds_quotient _ (by decide)

/-- A half is rounded up. -/
theorem div_half_up (a : ℕ) {u c : ℕ} (hu : 0 < u) (hc : 0 < c) :
    (2 * (a * c) + u * c) / (2 * (u * c)) = if u ≤ 2 * (a % u) then a / u + 1 else a / u := by
  have hscale : (2 * (a * c) + u * c) / (2 * (u * c)) = (2 * a + u) / (2 * u) := by
    rw [← mul_assoc, ← mul_assoc, ← add_mul, Nat.mul_div_mul_right _ _ hc]
  have hsplit : 2 * a + u = 2 * (a % u) + u + 2 * u * (a / u) := by
    have hparts := Nat.div_add_mod a u
    linarith
  have hrest := Nat.mod_lt a hu
  rw [hscale, hsplit, Nat.add_mul_div_left _ _ (Nat.mul_pos two_pos hu), Nat.add_comm (_ / _)]
  split
  · next hhalf =>
    have hone : (2 * (a % u) + u) / (2 * u) = 1 := Nat.div_eq_of_lt_le (by omega) (by omega)
    rw [hone, Nat.add_comm]
  · next hhalf =>
    have hzero : (2 * (a % u) + u) / (2 * u) = 0 := Nat.div_eq_of_lt (by omega)
    rw [hzero, Nat.add_zero]

/-- Rounding to an integer is division of units. -/
theorem whole_eq (m : ℕ) : whole m = (2 * units m + unity) / (2 * unity) := by
  unfold whole Parts.split magnitude
  dsimp only
  by_cases he : 0 ≤ (grade m : ℤ) - 1074
  · obtain ⟨k, hk⟩ := Int.eq_ofNat_of_zero_le he
    have hgrade : grade m = k + 1074 := by omega
    have hpow : 2 ^ (k + 1074) = 2 ^ k * unity := by exact_mod_cast two_pow_add_grades k
    have hdiv := div_half_up (lead m * 2 ^ k) one_pos unity_pos
    rw [one_mul, mul_assoc, ← hpow, ← hgrade] at hdiv
    rw [Nat.mod_one, Nat.div_one] at hdiv
    simp only [hk, Int.toNat_natCast, Nat.shiftLeft_eq]
    rw [units, hdiv]
    simp
  · obtain ⟨k, hk⟩ := Int.eq_ofNat_of_zero_le (show 0 ≤ -((grade m : ℤ) - 1074) by omega)
    have hrest : 1074 - k = grade m := by omega
    have hunity : unity = 2 ^ k * 2 ^ grade m := by
      have hsplit := unity_split (show k ≤ 1074 by omega)
      rw [hrest] at hsplit
      exact_mod_cast hsplit
    simp only [if_neg he, hk, Int.toNat_natCast, Nat.shiftLeft_eq, one_mul]
    rw [units, hunity, div_half_up _ (Nat.two_pow_pos k) (Nat.two_pow_pos _)]

/-- A magnitude to one decimal place. -/
def tenth (m : ℕ) : ℕ :=
  if scaleUp m < infinity then scaleDown (ofRatio (whole (scaleUp m)) 1) else m

/-! ## Integers -/

/-- Every number of 53 bits is a lead at every grade. -/
theorem exists_units {g s : ℕ} (hs : s ≤ 2 ^ 53) : ∃ m, units m = s * 2 ^ g := by
  induction g generalizing s with
  | zero => exact ⟨_, units_wordAt hs (.inl rfl)⟩
  | succ g ih =>
    rcases Nat.lt_or_ge s (2 ^ 52) with hlt | hge
    · obtain ⟨m, hm⟩ := @ih (s * 2) (by omega)
      exact ⟨m, by rw [hm, pow_succ]; ring⟩
    · exact ⟨_, units_wordAt hs (.inr hge)⟩

theorem exists_units_shiftLeft {k n : ℕ} (h : n ≤ 2 ^ 53) : ∃ m, units m = n * 1 <<< k := by
  rw [Nat.one_shiftLeft]
  exact exists_units h

namespace Rounds

variable {v : ℚ} {m k : ℕ}

/-- What is a magnitude already is rounded to itself. -/
theorem eq_of_units (h : Rounds v m) (hm : m < infinity) (hv : v = units k) : m = k := by
  obtain ⟨g, s, hvs, rfl⟩ := h
  have hk : RoundsTo v (grade k) (lead k) := hv ▸ roundsTo_units k
  have hword := hvs.word_eq hk
  rw [wordAt_grade_lead] at hword
  omega

end Rounds

theorem ofRatio_lt_infinity {n : ℕ} (h : n ≤ 2 ^ 64) : ofRatio n 1 < infinity := by
  have hle : ofRatio n 1 ≤ ofRatio (2 ^ 64) 1 := by
    refine (rounds_ofRatio n one_ne_zero).mono (rounds_ofRatio _ one_ne_zero) ?_
    rw [unitsOf_one, unitsOf_one]
    exact mul_le_mul_of_nonneg_right (by exact_mod_cast h) (Nat.cast_nonneg _)
  exact hle.trans_lt (by decide +kernel)

/-- Integers of 53 bits are magnitudes. -/
theorem units_ofRatio {n : ℕ} (h : n ≤ 2 ^ 53) : units (ofRatio n 1) = n * unity := by
  obtain ⟨k, hk⟩ : ∃ k, units k = n * unity := exists_units_shiftLeft h
  have heq : ofRatio n 1 = k := by
    refine (rounds_ofRatio n one_ne_zero).eq_of_units (ofRatio_lt_infinity (by omega)) ?_
    rw [unitsOf_one, hk]
    push_cast
    rfl
  rw [heq, hk]

theorem whole_of_units {m n : ℕ} (h : units m = n * unity) : whole m = n := by
  have hpos := unity_pos
  have hdiv : 2 * (n * unity) + unity = unity + 2 * unity * n := by ring
  rw [whole_eq, h, hdiv, Nat.add_mul_div_left _ _ (Nat.mul_pos two_pos hpos),
    Nat.div_eq_of_lt (by omega), Nat.zero_add]

theorem exists_units_eq {m : ℕ} (h : 1074 ≤ grade m) :
    units m = lead m * 2 ^ (grade m - 1074) * unity := by
  have hgrade : grade m = grade m - 1074 + 1074 := by omega
  have hpow : 2 ^ (grade m - 1074 + 1074) = 2 ^ (grade m - 1074) * unity := by
    exact_mod_cast two_pow_add_grades (grade m - 1074)
  rw [units]
  nth_rewrite 1 [hgrade]
  rw [hpow, mul_assoc]

theorem unity_eq_mul {m : ℕ} (h : grade m < 1074) :
    ∃ k, 0 < k ∧ unity = 2 ^ k * 2 ^ grade m := by
  have hsplit := unity_split (show 1074 - grade m ≤ 1074 by omega)
  rw [show 1074 - (1074 - grade m) = grade m by omega] at hsplit
  exact ⟨1074 - grade m, by omega, by exact_mod_cast hsplit⟩

/-- A magnitude without a fractional part is an integer already. -/
theorem ofRatio_whole_of_grade {m : ℕ} (hm : m < infinity) (h : 1074 ≤ grade m) :
    ofRatio (whole m) 1 = m := by
  have hrounds := rounds_ofRatio (whole m) one_ne_zero
  rw [unitsOf_one, whole_of_units (exists_units_eq h)] at hrounds
  have hunits : (lead m * 2 ^ (grade m - 1074) : ℕ) * (unity : ℚ) = units m := by
    rw [exists_units_eq h]
    push_cast
    rfl
  rw [hunits, ← whole_of_units (exists_units_eq h)] at hrounds
  exact hrounds.unique (.of_units hm.le)

theorem whole_le {m : ℕ} (h : grade m < 1074) : whole m ≤ 2 ^ 52 := by
  obtain ⟨k, hk, hunity⟩ := unity_eq_mul h
  have hlead := lead_lt m
  have hstep : 2 ≤ 2 ^ k := Nat.le_self_pow (by omega) 2
  have hpos : 0 < 2 ^ grade m := Nat.two_pow_pos _
  have hbound : 2 * units m < 2 ^ 53 * unity := by
    rw [units, hunity]
    calc 2 * (lead m * 2 ^ grade m) < 2 * (2 ^ 53 * 2 ^ grade m) := by gcongr
      _ = 2 ^ 53 * (2 * 2 ^ grade m) := by ring
      _ ≤ 2 ^ 53 * (2 ^ k * 2 ^ grade m) := by gcongr
  rw [whole_eq]
  refine Nat.lt_succ_iff.mp ?_
  rw [Nat.div_lt_iff_lt_mul (Nat.mul_pos two_pos unity_pos)]
  omega

/-- The integer nearest to a finite magnitude is a finite magnitude. -/
theorem units_ofRatio_whole {m : ℕ} (hm : m < infinity) :
    units (ofRatio (whole m) 1) = whole m * unity ∧ ofRatio (whole m) 1 < infinity := by
  rcases Nat.lt_or_ge (grade m) 1074 with h | h
  · have hle := whole_le h
    exact ⟨units_ofRatio (by omega), ofRatio_lt_infinity (by omega)⟩
  · rw [ofRatio_whole_of_grade hm h]
    exact ⟨by rw [whole_of_units (exists_units_eq h), exists_units_eq h], hm⟩

/-! ## Scaling down and up again -/

theorem Rounds.of_roundsTo {v : ℚ} {m : ℕ} (h : RoundsTo v (grade m) (lead m))
    (hm : m ≤ infinity) : Rounds v m :=
  ⟨_, _, h, by rw [wordAt_grade_lead, min_eq_right hm]⟩

theorem scaleDown_le {m : ℕ} (hm : m ≤ infinity) : scaleDown m ≤ m := by
  refine (rounds_scaleDown m).mono (.of_units hm) ?_
  have hnonneg : (0 : ℚ) ≤ units m := Nat.cast_nonneg _
  linarith

/-- The leads below five eighths: a tenth has its lead four grades below,
and is scaled up to within a quarter of the lead. -/
theorem scaleUp_scaleDown_of_lt {m : ℕ} (hm : m < infinity) (hgrade : 4 ≤ grade m)
    (hlead : lead m < 5 * 2 ^ 50) : scaleUp (scaleDown m) = m := by
  obtain ⟨p, hp⟩ := Nat.exists_eq_add_of_le' hgrade
  have hlow := le_lead_of_grade (m := m) (by omega)
  have hunits : units m = 16 * lead m * 2 ^ p := by
    rw [units, hp, pow_add]
    ring
  obtain ⟨g, k, hdown, -, hk⟩ :=
    (rounds_scaleDown m).exists_of_lt ((scaleDown_le hm.le).trans_lt hm)
  have hvalue : (units m : ℚ) / 10 * (10 : ℕ) = (16 * lead m : ℕ) * 2 ^ p := by
    rw [hunits]
    push_cast
    ring
  obtain rfl := hdown.grade_eq (by decide) hvalue (by omega) (by omega)
  obtain ⟨hhigh, hnear⟩ := hdown.bounds (by decide) hvalue
  refine (rounds_scaleUp _).unique (.of_roundsTo ?_ hm.le)
  refine RoundsTo.of_bounds (a := 10 * k) (c := 16) (by decide) ?_ ?_ ?_ ?_ ?_ ?_
  · rw [hk, hp, pow_add]
    push_cast
    ring
  all_goals omega

/-- The leads from five eighths on: a tenth has its lead three grades
below, and is scaled up to within half of the lead. -/
theorem scaleDown_of_le {m : ℕ} (hm : m < infinity) {p : ℕ} (hp : grade m = p + 3)
    (hlead : 5 * 2 ^ 50 ≤ lead m) :
    ∃ k, units (scaleDown m) = k * 2 ^ p ∧ 10 * k ≤ 8 * lead m + 4 ∧ 8 * lead m ≤ 10 * k + 4 := by
  have hlt := lead_lt m
  have hunits : units m = 8 * lead m * 2 ^ p := by
    rw [units, hp, pow_add]
    ring
  obtain ⟨g, k, hdown, -, hk⟩ :=
    (rounds_scaleDown m).exists_of_lt ((scaleDown_le hm.le).trans_lt hm)
  have hvalue : (units m : ℚ) / 10 * (10 : ℕ) = (8 * lead m : ℕ) * 2 ^ p := by
    rw [hunits]
    push_cast
    ring
  obtain rfl := hdown.grade_eq (by decide) hvalue (by omega) (by omega)
  obtain ⟨hhigh, hnear⟩ := hdown.bounds (by decide) hvalue
  exact ⟨k, hk, by omega, by omega⟩

/-- Half of a lead away, the even lead is taken. -/
theorem scaleUp_scaleDown_of_le {m : ℕ} (hm : m < infinity) {p k : ℕ} (hp : grade m = p + 3)
    (hlead : 5 * 2 ^ 50 ≤ lead m) (hk : units (scaleDown m) = k * 2 ^ p)
    (hhigh : 10 * k ≤ 8 * lead m + 4) (hlow : 8 * lead m ≤ 10 * k + 4)
    (heven : 10 * k = 8 * lead m + 4 ∨ 8 * lead m = 10 * k + 4 → lead m % 2 = 0) :
    scaleUp (scaleDown m) = m := by
  have hlt := lead_lt m
  refine (rounds_scaleUp _).unique (.of_roundsTo ?_ hm.le)
  refine RoundsTo.of_bounds (a := 10 * k) (c := 8) (by decide) ?_ ?_ ?_ ?_ ?_
    fun htie => heven (by omega)
  · rw [hk, hp, pow_add]
    push_cast
    ring
  all_goals
    clear heven
    omega

/-- Nothing but `m` is scaled up to a magnitude and is half of its lead
away from it when scaled up exactly. -/
theorem scaleDown_scaleUp_of_tie {m p k : ℕ} (hm : scaleUp m < infinity)
    (hp : grade (scaleUp m) = p + 3) (hlead : 5 * 2 ^ 50 ≤ lead (scaleUp m))
    (hk : units (scaleDown (scaleUp m)) = k * 2 ^ p)
    (htie : 10 * k = 8 * lead (scaleUp m) + 4 ∨ 8 * lead (scaleUp m) = 10 * k + 4) :
    scaleDown (scaleUp m) = m := by
  obtain ⟨g, s, hup, hword, -⟩ := (rounds_scaleUp m).exists_of_lt hm
  have hlt := lead_lt (scaleUp m)
  have hs : s < 2 ^ 53 := by
    refine lt_of_le_of_ne hup.lead_le fun heq => ?_
    have hnext : wordAt g s = wordAt (g + 1) (2 ^ 52) := by
      rw [heq]
      unfold wordAt
      omega
    obtain ⟨-, hbad⟩ := grade_wordAt (g := g + 1) (s := 2 ^ 52) (by norm_num) (.inr le_rfl)
    rw [hword, hnext, hbad] at hlead
    omega
  obtain ⟨hg, hs'⟩ := grade_wordAt hs (or_iff_not_imp_left.mpr hup.le_lead)
  rw [← hword] at hg hs'
  rw [hg] at hp
  rw [hs'] at hlead htie
  subst hp
  have hgrade : p ≤ grade m := by
    by_contra hlt
    obtain ⟨d, rfl⟩ : ∃ d, p = grade m + 1 + d := ⟨p - (grade m + 1), by omega⟩
    have hvalue : (10 : ℚ) * units m * (16 * 2 ^ d : ℕ) =
        (10 * lead m : ℕ) * 2 ^ (grade m + 1 + d + 3) := by
      rw [units]
      push_cast
      ring
    obtain ⟨-, hnear⟩ := hup.bounds (by positivity) hvalue
    have hbelow := lead_lt m
    have hpow : 1 ≤ 2 ^ d := Nat.one_le_two_pow
    have hscaled : 16 * (2 * s - 1) ≤ 16 * 2 ^ d * (2 * s - 1) :=
      Nat.mul_le_mul_right _ (by omega)
    have hnear' : 16 * 2 ^ d * (2 * s - 1) ≤ 20 * lead m := by
      rw [Nat.mul_sub, Nat.mul_one]
      omega
    omega
  obtain ⟨e, he⟩ := Nat.exists_eq_add_of_le hgrade
  have hunits : units m = lead m * 2 ^ e * 2 ^ p := by
    rw [units, he, pow_add]
    ring
  have hvalue : (10 : ℚ) * units m * (8 : ℕ) = (10 * (lead m * 2 ^ e) : ℕ) * 2 ^ (p + 3) := by
    rw [hunits]
    push_cast
    ring
  obtain ⟨hhigh, hnear⟩ := hup.bounds (by decide) hvalue
  have hsame : k = lead m * 2 ^ e := by omega
  exact units_inj (by rw [hk, hunits, hsame])

/-! ## Rounding to tenths -/

/-- A lead of an integer is even below the grades of the integers. -/
theorem le_grade_of_odd {m n : ℕ} (h : units m = n * unity) (hodd : lead m % 2 = 1) :
    1074 ≤ grade m := by
  by_contra hlt
  obtain ⟨k, hk, hunity⟩ := unity_eq_mul (not_le.mp hlt)
  have hlead : lead m = n * 2 ^ k := by
    rw [units, hunity, ← mul_assoc] at h
    exact Nat.eq_of_mul_eq_mul_right (Nat.two_pow_pos _) h
  have heven : lead m % 2 = 0 := by
    obtain ⟨j, rfl⟩ : ∃ j, k = j + 1 := ⟨k - 1, by omega⟩
    rw [hlead, pow_succ, ← mul_assoc, Nat.mul_mod_left]
  omega

/-- A tenth of an integer is scaled up to the integer again, or it is
the very magnitude that was scaled up to the integer. -/
theorem scaleUp_scaleDown_whole {m : ℕ} (hm : scaleUp m < infinity) :
    ofRatio (whole (scaleUp (scaleDown (ofRatio (whole (scaleUp m)) 1)))) 1 =
      ofRatio (whole (scaleUp m)) 1 ∨ scaleDown (ofRatio (whole (scaleUp m)) 1) = m := by
  obtain ⟨hunits, hlt⟩ := units_ofRatio_whole hm
  generalize hn : whole (scaleUp m) = n at hunits hlt ⊢
  have hback {k : ℕ} (h : k = ofRatio n 1) : ofRatio (whole k) 1 = ofRatio n 1 := by
    rw [h, whole_of_units hunits]
  rcases Nat.lt_or_ge (grade (ofRatio n 1)) 4 with hsmall | hgrade
  · -- nothing but zero is an integer of so small a grade
    have hzero : n = 0 := by
      by_contra hpos
      have hunity : 2 ^ 56 < unity := by decide
      have hle : unity ≤ n * unity := Nat.le_mul_of_pos_left _ (Nat.pos_of_ne_zero hpos)
      have hpow : 2 ^ grade (ofRatio n 1) ≤ 2 ^ 3 := Nat.pow_le_pow_right two_pos (by omega)
      have hbound : units (ofRatio n 1) ≤ 2 ^ 53 * 2 ^ 3 :=
        Nat.mul_le_mul (lead_lt _).le hpow
      omega
    subst hzero
    exact .inl (by decide +kernel)
  rcases Nat.lt_or_ge (lead (ofRatio n 1)) (5 * 2 ^ 50) with hlead | hlead
  · exact .inl (hback (scaleUp_scaleDown_of_lt hlt hgrade hlead))
  obtain ⟨p, hp⟩ := Nat.exists_eq_add_of_le' (show 3 ≤ grade (ofRatio n 1) by omega)
  obtain ⟨k, hk, hhigh, hlow⟩ := scaleDown_of_le hlt hp hlead
  by_cases htie : (10 * k = 8 * lead (ofRatio n 1) + 4 ∨ 8 * lead (ofRatio n 1) = 10 * k + 4) ∧
      lead (ofRatio n 1) % 2 = 1
  · -- an odd lead is that of an integer that was not rounded
    obtain ⟨htie, hodd⟩ := htie
    have hlarge := le_grade_of_odd hunits hodd
    have hsame : ofRatio n 1 = scaleUp m := by
      rw [← hn]
      refine ofRatio_whole_of_grade hm (not_lt.mp fun hfew => ?_)
      have hle := whole_le hfew
      have heq := whole_of_units (exists_units_eq hlarge)
      rw [whole_of_units hunits] at heq
      have hmul : lead (ofRatio n 1) ≤ lead (ofRatio n 1) * 2 ^ (grade (ofRatio n 1) - 1074) :=
        Nat.le_mul_of_pos_right _ (Nat.two_pow_pos _)
      omega
    rw [hsame] at hp hlead hk htie ⊢
    exact .inr (scaleDown_scaleUp_of_tie hm hp hlead hk htie)
  · exact .inl (hback (scaleUp_scaleDown_of_le hlt hp hlead hk hhigh hlow fun h => by
      have hodd := not_and.mp htie h
      omega))

/-- Rounding twice is rounding once. -/
theorem tenth_tenth (m : ℕ) : tenth (tenth m) = tenth m := by
  by_cases hm : scaleUp m < infinity
  · have htenth : tenth m = scaleDown (ofRatio (whole (scaleUp m)) 1) := if_pos hm
    rcases scaleUp_scaleDown_whole hm with hback | hsame
    · rw [htenth]
      unfold tenth
      split
      · rw [hback]
      · rfl
    · rw [htenth, hsame, htenth, hsame]
  · have htenth : tenth m = m := if_neg hm
    rw [htenth, htenth]

theorem scaleUp_mono {m n : ℕ} (h : m ≤ n) : scaleUp m ≤ scaleUp n := by
  refine (rounds_scaleUp m).mono (rounds_scaleUp n) ?_
  have hunits : (units m : ℚ) ≤ units n := by exact_mod_cast units_mono h
  linarith

theorem ofRatio_whole_mono {m n : ℕ} (h : m ≤ n) : ofRatio (whole m) 1 ≤ ofRatio (whole n) 1 := by
  refine (rounds_ofRatio _ one_ne_zero).mono (rounds_ofRatio _ one_ne_zero) ?_
  have hwhole : whole m ≤ whole n := by
    rw [whole_eq, whole_eq]
    have hunits := units_mono h
    exact Nat.div_le_div_right (by omega)
  rw [unitsOf_one, unitsOf_one]
  exact mul_le_mul_of_nonneg_right (by exact_mod_cast hwhole) (Nat.cast_nonneg _)

/-- More stays more. -/
theorem tenth_mono {m n : ℕ} (h : m ≤ n) (hn : n ≤ infinity) : tenth m ≤ tenth n := by
  unfold tenth
  have hup := scaleUp_mono h
  by_cases hlt : scaleUp n < infinity
  · rw [if_pos hlt, if_pos (hup.trans_lt hlt)]
    refine (rounds_scaleDown _).mono (rounds_scaleDown _) ?_
    have hunits : (units (ofRatio (whole (scaleUp m)) 1) : ℚ) ≤
        units (ofRatio (whole (scaleUp n)) 1) := by
      exact_mod_cast units_mono (ofRatio_whole_mono hup)
    linarith
  rw [if_neg hlt]
  split
  · next hfinite =>
    -- what is scaled up beyond all magnitudes is more than any of them
    obtain ⟨-, hwhole⟩ := units_ofRatio_whole hfinite
    have hunits : (units (ofRatio (whole (scaleUp m)) 1) : ℚ) < 10 * units n :=
      (Rounds.of_units hwhole.le).lt_of_lt (rounds_scaleUp n) (by omega)
    refine (rounds_scaleDown _).mono (.of_units hn) ?_
    linarith
  · exact h

theorem tenth_lt_infinity {m : ℕ} (h : m < infinity) : tenth m < infinity := by
  unfold tenth
  split
  · next hfinite =>
    obtain ⟨-, hwhole⟩ := units_ofRatio_whole hfinite
    exact (scaleDown_le hwhole.le).trans_lt hwhole
  · exact h

end DeckDuel.Binary64
