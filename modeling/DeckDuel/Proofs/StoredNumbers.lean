/-
DeckDuel.Proofs.StoredNumbers — numbers that a stored battle consists of.

* `Scalar.Settling` — the laws of the finite numbers that stats are
  brought into their bounds with: they are totally ordered, rounding to
  one decimal place is monotone and changes nothing twice, and every
  printed number can be read.
* `Scalar.atLeast_one_roundTenth`, `Scalar.atLeast_zero_roundTenth`,
  `Scalar.clamp_roundTenth` — a stat that was brought into its bounds and
  rounded is within its bounds.

Double-precision numbers settle: what rounding does to their magnitudes
is told in `DeckDuel.Proofs.TenthWords`.
-/
import DeckDuel.Proofs.PrintedNumbers
import DeckDuel.Proofs.Scanning
import DeckDuel.Proofs.TenthWords

namespace DeckDuel

open DeckDuel.Text

namespace Scalar

section

variable {α : Type} [Scalar α] {x : α}

theorem atLeast_atLeast (bound x : α) : atLeast bound (atLeast bound x) = atLeast bound x := by
  unfold atLeast
  by_cases h : bound < x
  · rw [if_pos h, if_pos h]
  · rw [if_neg h, ite_self]

theorem isFinite_atLeast {bound : α} (hbound : isFinite bound = true) (hx : isFinite x = true) :
    isFinite (atLeast bound x) = true := by
  unfold atLeast
  split
  · exact hx
  · exact hbound

theorem isFinite_clamp {low high : α} (hlow : isFinite low = true) (hhigh : isFinite high = true)
    (hx : isFinite x = true) : isFinite (clamp low high x) = true := by
  have hraised : isFinite (if x < low then low else x) = true := by
    split
    · exact hlow
    · exact hx
  unfold clamp
  dsimp only
  by_cases hcut : high < if x < low then low else x
  · rw [if_pos hcut]
    exact hhigh
  · rw [if_neg hcut]
    exact hraised

/-- A value between the bounds stays where it is. -/
theorem clamp_eq_self {low high : α} (hlow : ¬ x < low) (hhigh : ¬ high < x) :
    clamp low high x = x := by
  simp only [clamp, if_neg hlow, if_neg hhigh]

end

/-- Numbers whose finite values settle when they are stored as stats. -/
class Settling (α : Type) [Scalar α] : Prop where
  isFinite_ofNat : ∀ {n : Nat}, n ≤ 2 ^ 64 → isFinite (ofNat n : α) = true
  isFinite_neg : ∀ {x : α}, isFinite x = true → isFinite (-x) = true
  isFinite_zero : isFinite (0 : α) = true
  isFinite_one : isFinite (1 : α) = true
  lt_asymm : ∀ {x y : α}, x < y → ¬ y < x
  /-- A finite number is not on both sides of a gap. -/
  lt_or_lt : ∀ {x z : α} (y : α), isFinite y = true → x < z → x < y ∨ y < z
  zero_lt_one : (0 : α) < 1
  /-- There is one number one, although there may be two zeros. -/
  eq_one : ∀ {x : α}, isFinite x = true → ¬ x < 1 → ¬ 1 < x → x = 1
  isFinite_roundTenth : ∀ {x : α}, isFinite x = true → isFinite (roundTenth x) = true
  roundTenth_zero : roundTenth (0 : α) = 0
  roundTenth_one : roundTenth (1 : α) = 1
  roundTenth_roundTenth : ∀ {x : α}, isFinite x = true →
    roundTenth (roundTenth x) = roundTenth x
  roundTenth_mono : ∀ {x y : α}, isFinite x = true → isFinite y = true → ¬ x < 0 → ¬ y < 0 →
    ¬ y < x → ¬ roundTenth y < roundTenth x
  /-- A positive number is rounded to one or to the zero without sign. -/
  roundTenth_pos : ∀ {x : α}, isFinite x = true → 0 < x → 0 < roundTenth x ∨ roundTenth x = 0
  ofText_text : ∀ x : α, ∃ y : α, ofText (text x).toList = some y
  isBlank_of_mem_text : ∀ {x : α} {c : Char}, c ∈ (text x).toList → isBlank c = false

variable {α : Type} [Scalar α] [Settling α] {m x : α}

open Settling

theorem not_lt_self (x : α) : ¬ x < x := fun h => lt_asymm h h

/-! ## Bounds -/

theorem not_atLeast_lt (bound x : α) : ¬ atLeast bound x < bound := by
  unfold atLeast
  split
  · next h => exact lt_asymm h
  · exact not_lt_self bound

theorem not_clamp_lt {low high : α} (h : ¬ high < low) (x : α) : ¬ clamp low high x < low := by
  unfold clamp
  dsimp only
  by_cases hcut : high < if x < low then low else x
  · rw [if_pos hcut]
    exact h
  · rw [if_neg hcut]
    split
    · exact not_lt_self low
    · next hx => exact hx

theorem not_lt_clamp (low high x : α) : ¬ high < clamp low high x := by
  unfold clamp
  dsimp only
  by_cases hcut : high < if x < low then low else x
  · rw [if_pos hcut]
    exact not_lt_self high
  · rw [if_neg hcut]
    exact hcut

/-! ## Bounds and rounding -/

theorem not_lt_zero_of_not_lt_one (hx : ¬ x < 1) : ¬ x < 0 := fun hneg => by
  rcases lt_or_lt 1 isFinite_one hneg with h | h
  · exact hx h
  · exact lt_asymm zero_lt_one h

/-- A maximum that was brought to one at least and rounded is not
changed by doing so again. -/
theorem atLeast_one_roundTenth (hx : isFinite x = true) :
    atLeast 1 (roundTenth (atLeast 1 x)) = roundTenth (atLeast 1 x) := by
  have hfinite := isFinite_atLeast isFinite_one hx
  have hbound : ¬ roundTenth (atLeast 1 x) < 1 := by
    have hmono := roundTenth_mono isFinite_one hfinite (lt_asymm zero_lt_one)
      (not_lt_zero_of_not_lt_one (not_atLeast_lt 1 x)) (not_atLeast_lt 1 x)
    rwa [roundTenth_one] at hmono
  generalize hr : roundTenth (atLeast 1 x) = r at hbound
  have hr' : isFinite r = true := hr ▸ isFinite_roundTenth hfinite
  unfold atLeast
  split
  · rfl
  · next hle => exact (eq_one hr' hbound hle).symm

/-- The same of a value that was brought to zero at least. -/
theorem atLeast_zero_roundTenth (hx : isFinite x = true) :
    atLeast 0 (roundTenth (atLeast 0 x)) = roundTenth (atLeast 0 x) := by
  have hcases : 0 < roundTenth (atLeast 0 x) ∨ roundTenth (atLeast 0 x) = 0 := by
    unfold atLeast
    split
    · next hpos => exact roundTenth_pos hx hpos
    · exact .inr roundTenth_zero
  rcases hcases with h | h
  · exact if_pos h
  · rw [h]
    exact ite_self 0

/-- The same of a value that was held between zero and a maximum that
was rounded itself. -/
theorem clamp_roundTenth (hm : isFinite m = true) (hone : ¬ m < 1) (hround : roundTenth m = m)
    (hx : isFinite x = true) :
    clamp 0 m (roundTenth (clamp 0 m x)) = roundTenth (clamp 0 m x) := by
  have hpos := not_lt_zero_of_not_lt_one hone
  have hfinite := isFinite_clamp isFinite_zero hm hx
  have hlow := not_clamp_lt hpos x
  refine clamp_eq_self ?_ ?_
  · have hmono := roundTenth_mono isFinite_zero hfinite (not_lt_self 0) hlow hlow
    rwa [roundTenth_zero] at hmono
  · have hmono := roundTenth_mono hfinite hm hlow hpos (not_lt_clamp 0 m x)
    rwa [hround] at hmono

end Scalar

/-! ## Words -/

namespace Binary64

/-- A finite word has a sign and a finite magnitude. -/
theorem exists_signed {bits : Nat} (hbits : bits < UInt64.size) (h : (parts? bits).isSome = true) :
    ∃ negative m, m < infinity ∧ bits = signed negative m := by
  have hinfinity : infinity = 2047 * 2 ^ 52 := by decide
  have hsign : signBit = 2048 * 2 ^ 52 := by decide
  have hword : UInt64.size = 4096 * 2 ^ 52 := by decide
  rw [hword] at hbits
  have hfield : bits / 2 ^ 52 % 2048 ≠ 2047 := by
    rw [← Nat.shiftRight_eq_div_pow]
    intro heq
    simp only [parts?, heq] at h
    cases h
  rcases Nat.lt_or_ge bits signBit with hlt | hge
  · exact ⟨false, bits, by omega, rfl⟩
  · refine ⟨true, bits - signBit, by omega, ?_⟩
    show bits = signBit + (bits - signBit)
    omega

theorem rank?_signed (negative : Bool) {m : Nat} (h : m ≤ infinity) :
    rank? (signed negative m) = some (if negative then -(m : Int) else m) := by
  have hlt : m < signBit := Nat.lt_of_le_of_lt h infinity_lt_signBit
  unfold rank?
  rw [isNaN_signed negative h]
  cases negative with
  | false => simp [signed, hlt]
  | true => simp [signed, Nat.mod_eq_of_lt hlt]

theorem isNegative_signed (negative : Bool) {m : Nat} (h : m ≤ infinity) :
    isNegative (signed negative m) = negative := by
  have hlt : m < signBit := Nat.lt_of_le_of_lt h infinity_lt_signBit
  cases negative with
  | false => simp [isNegative, signed, hlt]
  | true => simp [isNegative, signed]

theorem parts?_infinity (negative : Bool) : parts? (signed negative infinity) = none := by
  cases negative <;> decide

theorem negate_signed (negative : Bool) {m : Nat} (h : m ≤ infinity) :
    negate (signed negative m) = signed (!negative) m := by
  have hlt : m < signBit := Nat.lt_of_le_of_lt h infinity_lt_signBit
  cases negative with
  | false => simp [negate, signed, hlt, Nat.add_comm]
  | true => simp [negate, signed]

end Binary64

namespace Double

open Scalar Binary64

/-- The number of a sign and a magnitude. -/
def ofSigned (negative : Bool) (m : Nat) : Double := ofBits (signed negative m)

variable {negative : Bool} {m : Nat}

theorem bits_ofSigned (h : m ≤ infinity) : (ofSigned negative m).bits = signed negative m :=
  bits_ofBits (signed_lt negative h)

theorem exists_ofSigned {x : Double} (h : isFinite x = true) :
    ∃ negative m, m < infinity ∧ x = ofSigned negative m := by
  obtain ⟨negative, m, hm, heq⟩ := exists_signed x.word.toNat_lt h
  refine ⟨negative, m, hm, ?_⟩
  rw [ofSigned, ← heq]
  exact congrArg mk UInt64.ofNat_toNat.symm

theorem isFinite_ofSigned (h : m ≤ infinity) :
    isFinite (ofSigned negative m) = decide (m < infinity) := by
  show (parts? (ofSigned negative m).bits).isSome = _
  rw [bits_ofSigned h]
  rcases Nat.lt_or_eq_of_le h with hlt | rfl
  · rw [parts?_signed negative hlt]
    simp [hlt]
  · rw [parts?_infinity]
    simp

theorem lt_iff_rank {x y : Double} {a b : Int} (ha : rank? x.bits = some a)
    (hb : rank? y.bits = some b) : x < y ↔ a < b := by
  show Binary64.compare _ _ _ = true ↔ _
  rw [Binary64.compare, ha, hb]
  exact decide_eq_true_iff

theorem rank?_ofSigned (h : m ≤ infinity) :
    rank? (ofSigned negative m).bits = some (if negative then -(m : Int) else m) := by
  rw [bits_ofSigned h, rank?_signed negative h]

/-- Numbers compare as their signed magnitudes. -/
theorem lt_iff {negative' : Bool} {n : Nat} (hm : m ≤ infinity) (hn : n ≤ infinity) :
    ofSigned negative m < ofSigned negative' n ↔
      (if negative then -(m : Int) else m) < if negative' then -(n : Int) else n :=
  lt_iff_rank (rank?_ofSigned hm) (rank?_ofSigned hn)

theorem zero_eq : (0 : Double) = ofSigned false 0 := rfl

theorem one_eq : (1 : Double) = ofSigned false (1023 <<< 52) := rfl

theorem parts?_ofNat_ten : parts? (ofNat 10 : Double).bits = some ten := parts?_ten

/-- Rounding to one decimal place changes the magnitude. -/
theorem roundTenth_ofSigned (h : m < infinity) :
    roundTenth (ofSigned negative m) = ofSigned negative (tenth m) := by
  have hten : isNaN (ofNat 10 : Double).bits = false := by decide
  have hsign : isNegative (ofNat 10 : Double).bits = false := by decide
  have hup : scaleUp m ≤ infinity := by
    unfold scaleUp ofScaled
    split <;> exact ofRatio_le_infinity _ _
  have hscaled : ofSigned negative m * ofNat 10 = ofSigned negative (scaleUp m) := by
    show ofBits (mul (ofSigned negative m).bits (ofNat 10 : Double).bits) = _
    rw [mul, onNumbers, bits_ofSigned h.le, isNaN_signed negative h.le, hten]
    simp only [Bool.false_eq_true, if_false, mulNumbers, isNegative_signed negative h.le, hsign,
      parts?_signed negative h, parts?_ofNat_ten, Bool.bne_false]
    rw [ofSigned, scaleUp]
  have hfinite : isFinite (ofSigned negative (scaleUp m)) = decide (scaleUp m < infinity) :=
    isFinite_ofSigned hup
  simp only [roundTenth, hscaled, hfinite, decide_eq_true_eq, tenth]
  split
  · next hlt =>
    have hround : round (ofSigned negative (scaleUp m)) =
        ofSigned negative (ofRatio (whole (scaleUp m)) 1) := by
      show ofBits (Binary64.round (ofSigned negative (scaleUp m)).bits) = _
      rw [bits_ofSigned hup, Binary64.round, parts?_signed negative hlt, ofSigned, whole]
      rfl
    obtain ⟨-, hwhole⟩ := units_ofRatio_whole hlt
    rw [hround]
    show ofBits (div (ofSigned negative _).bits (ofNat 10 : Double).bits) = _
    rw [div, onNumbers, bits_ofSigned hwhole.le, isNaN_signed negative hwhole.le, hten]
    simp only [Bool.false_eq_true, if_false, divNumbers, isNegative_signed negative hwhole.le,
      hsign, parts?_signed negative hwhole, parts?_ofNat_ten, Bool.bne_false]
    rw [if_neg (by decide), ofSigned, scaleDown, magnitude]
    rfl
  · rfl

/-- A number that is not negative has a magnitude that tells its place;
the sign of a zero does not. -/
theorem rank_of_not_lt_zero (h : m ≤ infinity) (hpos : ¬ ofSigned negative m < 0) :
    (if negative then -(m : Int) else m) = m := by
  rw [zero_eq, lt_iff h (Nat.zero_le _)] at hpos
  cases negative with
  | false => rfl
  | true =>
    simp only [if_true, Bool.false_eq_true, if_false] at hpos ⊢
    omega

theorem tenth_zero : tenth 0 = 0 := by decide +kernel

theorem tenth_one : tenth (1023 <<< 52) = 1023 <<< 52 := by decide +kernel

/-! ## Printed numbers -/

/-- Digits, and perhaps a point with more of them. -/
def IsPositional (cs : List Char) : Prop :=
  ∃ ds, ds ≠ [] ∧ (∀ c ∈ ds, c.isDigit = true) ∧
    (cs = ds ∨ ∃ fs, (∀ c ∈ fs, c.isDigit = true) ∧ cs = ds ++ '.' :: fs)

theorem IsPositional.readDecimal {cs : List Char} (h : IsPositional cs) (negative : Bool) :
    ∃ n, Numeral.readDecimal negative cs = some n := by
  obtain ⟨ds, hne, hds, rfl | ⟨fs, hfs, rfl⟩⟩ := h
  · have hend : ∀ c ∈ ([] : List Char).head?, c.isDigit = false := by simp
    obtain ⟨htake, hdrop⟩ := Text.takeWhile_append_of_head hds hend
    rw [List.append_nil] at htake hdrop
    simp [Numeral.readDecimal, htake, hdrop, hne, Numeral.readExponent]
  · have hpoint : ∀ c ∈ ('.' :: fs).head?, c.isDigit = false := by simp
    have hend : ∀ c ∈ ([] : List Char).head?, c.isDigit = false := by simp
    obtain ⟨htake, hdrop⟩ := Text.takeWhile_append_of_head hds hpoint
    obtain ⟨htake', hdrop'⟩ := Text.takeWhile_append_of_head hfs hend
    rw [List.append_nil] at htake' hdrop'
    simp [Numeral.readDecimal, htake, hdrop, htake', hdrop', hne, Numeral.readExponent]

theorem IsPositional.isUnsigned {cs : List Char} (h : IsPositional cs) : IsUnsigned cs := by
  obtain ⟨ds, hne, hds, rfl | ⟨fs, hfs, rfl⟩⟩ := h
  · exact ⟨hne, fun c hc => Decimal.isNumberChar_of_isDigit (hds c hc)⟩
  · refine ⟨by simp, fun c hc => ?_⟩
    rcases List.mem_append.mp hc with hc | hc
    · exact Decimal.isNumberChar_of_isDigit (hds c hc)
    · rcases List.mem_cons.mp hc with rfl | hc
      · decide
      · exact Decimal.isNumberChar_of_isDigit (hfs c hc)

theorem IsPositional.read {cs : List Char} (h : IsPositional cs) :
    (∃ n, Numeral.read cs = some n) ∧ ∃ n, Numeral.read ('-' :: cs) = some n := by
  obtain ⟨o, hplus, hminus⟩ := Numeral.read_minus h.isUnsigned
  obtain ⟨n, hn⟩ := h.readDecimal true
  have hread : Numeral.read ('-' :: cs) = some n := by
    simp [Numeral.read, hn]
  rw [hminus] at hread
  cases o with
  | none => cases hread
  | some n => exact ⟨⟨_, hplus⟩, ⟨_, hminus⟩⟩

theorem isPositional_positional {d : Decimal.Digits} (h : ∀ c ∈ d.digits, c.isDigit = true) :
    IsPositional (d.positional false) := by
  have hzeros {n : Nat} : ∀ c ∈ Decimal.zeros n, c.isDigit = true := by
    intro c hc
    rw [List.eq_of_mem_replicate hc]
    decide
  have happend {as bs : List Char} (has : ∀ c ∈ as, c.isDigit = true)
      (hbs : ∀ c ∈ bs, c.isDigit = true) : ∀ c ∈ as ++ bs, c.isDigit = true := fun c hc =>
    (List.mem_append.mp hc).elim (has c) (hbs c)
  unfold Decimal.Digits.positional
  dsimp only
  split
  · exact ⟨['0'], by simp, by decide, .inr ⟨_, happend hzeros h, rfl⟩⟩
  · split
    · next hpoint _ =>
      refine ⟨_, fun hnil => ?_, happend h hzeros, .inl (List.append_nil _)⟩
      obtain ⟨hdigits, hplaces⟩ := List.append_eq_nil_iff.mp hnil
      rw [Decimal.zeros, List.replicate_eq_nil_iff, hdigits, List.length_nil] at hplaces
      omega
    · next hpoint hlength =>
      refine ⟨_, fun hnil => ?_, fun c hc => h c (List.mem_of_mem_take hc),
        .inr ⟨_, fun c hc => h c (List.mem_of_mem_drop hc), rfl⟩⟩
      have hshort := congrArg List.length hnil
      rw [List.length_take, List.length_nil] at hshort
      omega

/-- The plain layout writes the magnitude of a finite word as a
positional numeral. -/
theorem isPositional_write {m : Nat} {q : Int} (hm : m < 2 ^ 53) (hlow : -1074 ≤ q)
    (hhigh : q ≤ 971) : IsPositional (plainLayout.write m q) := by
  have hbounds := Decimal.point_shortest_bounds hm hlow hhigh .larger
  unfold Decimal.Layout.write
  split
  · exact ⟨['0'], by simp, by decide, .inl rfl⟩
  · have hlayout : (decide (plainLayout.least ≤ (Decimal.shortest .larger m q).point) &&
        decide ((Decimal.shortest .larger m q).point ≤ plainLayout.most)) = true := by
      rw [Bool.and_eq_true, decide_eq_true_eq, decide_eq_true_eq]
      exact hbounds
    dsimp only
    rw [show plainLayout.tie = Decimal.Tie.larger from rfl, if_pos hlayout]
    exact isPositional_positional (Decimal.isDigit_shortest .larger m q)

/-- A number prints as a numeral without blanks, and so do the other
values. -/
theorem read_text (x : Double) : (∃ n, Numeral.read (Scalar.text x).toList = some n) ∧
    ∀ c ∈ (Scalar.text x).toList, Text.isBlank c = false := by
  show (∃ n, Numeral.read (write plainLayout "NaN" "inf" x).toList = some n) ∧
    ∀ c ∈ (write plainLayout "NaN" "inf" x).toList, Text.isBlank c = false
  unfold write
  cases hp : parts? x.bits with
  | none =>
    dsimp only
    split
    · exact ⟨⟨.notANumber false, by decide⟩, by decide⟩
    · split
      · exact ⟨⟨.infinite true, by decide⟩, by decide⟩
      · exact ⟨⟨.infinite false, by decide⟩, by decide⟩
  | some p =>
    obtain ⟨hm, hlow, hhigh⟩ := parts?_bounds hp
    have hwrite := isPositional_write hm hlow hhigh
    obtain ⟨hplus, hminus⟩ := hwrite.read
    have hblank : ∀ c ∈ plainLayout.write p.significand p.exponent, Text.isBlank c = false := by
      intro c hc
      have hnumber := hwrite.isUnsigned.2 c hc
      simp only [Formula.isNumberChar, Bool.or_eq_true, beq_iff_eq] at hnumber
      rcases hnumber with hdigit | rfl
      · exact Text.isBlank_of_isWordChar (by simp [Text.isWordChar, Char.isAlphanum, hdigit])
      · decide
    dsimp only
    rw [String.toList_ofList]
    cases p.negative with
    | false => exact ⟨hplus, hblank⟩
    | true => exact ⟨hminus, List.forall_mem_cons.mpr ⟨by decide, hblank⟩⟩

instance : Settling Double where
  isFinite_ofNat h := by
    have hlt := ofRatio_lt_infinity h
    have hfinite : isFinite (ofSigned false _) = decide _ := isFinite_ofSigned hlt.le
    exact hfinite.trans (decide_eq_true hlt)
  isFinite_neg {x} h := by
    obtain ⟨negative, m, hm, rfl⟩ := exists_ofSigned h
    have hneg : -ofSigned negative m = ofSigned (!negative) m := by
      show ofBits (negate (ofSigned negative m).bits) = _
      rw [bits_ofSigned hm.le, negate_signed negative hm.le, ofSigned]
    rw [hneg, isFinite_ofSigned hm.le]
    exact decide_eq_true hm
  isFinite_zero := by decide
  isFinite_one := by decide
  lt_asymm {x y} h h' := by
    obtain ⟨hx, hy⟩ := isNaN_of_holds h
    obtain ⟨a, ha⟩ := rank?_eq_some hx
    obtain ⟨b, hb⟩ := rank?_eq_some hy
    rw [lt_iff_rank ha hb] at h
    rw [lt_iff_rank hb ha] at h'
    omega
  lt_or_lt {x z} y hy h := by
    obtain ⟨negative, m, hm, rfl⟩ := exists_ofSigned hy
    obtain ⟨hx, hz⟩ := isNaN_of_holds h
    obtain ⟨a, ha⟩ := rank?_eq_some hx
    obtain ⟨c, hc⟩ := rank?_eq_some hz
    have hb : rank? (ofSigned negative m).bits = _ := rank?_ofSigned hm.le
    rw [lt_iff_rank ha hc] at h
    rw [lt_iff_rank ha hb, lt_iff_rank hb hc]
    omega
  zero_lt_one := by decide
  eq_one {x} hx hlow hhigh := by
    obtain ⟨negative, m, hm, rfl⟩ := exists_ofSigned hx
    rw [one_eq, lt_iff hm.le (by decide)] at hlow
    rw [one_eq, lt_iff (by decide) hm.le] at hhigh
    have hone : (1023 <<< 52 : Nat) = 1023 * 2 ^ 52 := by decide
    cases negative with
    | false =>
      simp only [Bool.false_eq_true, if_false] at hlow hhigh
      rw [one_eq, show m = 1023 <<< 52 by omega]
    | true =>
      simp only [Bool.false_eq_true, if_false, if_true] at hlow hhigh
      omega
  isFinite_roundTenth {x} h := by
    obtain ⟨negative, m, hm, rfl⟩ := exists_ofSigned h
    have htenth := tenth_lt_infinity hm
    rw [roundTenth_ofSigned hm, isFinite_ofSigned htenth.le]
    exact decide_eq_true htenth
  roundTenth_zero := by
    rw [zero_eq, roundTenth_ofSigned (by decide), tenth_zero]
  roundTenth_one := by
    rw [one_eq, roundTenth_ofSigned (by decide), tenth_one]
  roundTenth_roundTenth {x} h := by
    obtain ⟨negative, m, hm, rfl⟩ := exists_ofSigned h
    rw [roundTenth_ofSigned hm, roundTenth_ofSigned (tenth_lt_infinity hm), tenth_tenth]
  roundTenth_mono {x y} hx hy hx' hy' h := by
    obtain ⟨negative, m, hm, rfl⟩ := exists_ofSigned hx
    obtain ⟨negative', n, hn, rfl⟩ := exists_ofSigned hy
    have hzero {s : Bool} {k : Nat} (hk : k < infinity) (hpos : ¬ ofSigned s k < 0) :
        (if s then -(tenth k : Int) else tenth k) = tenth k := by
      have hrank := rank_of_not_lt_zero hk.le hpos
      cases s with
      | false => rfl
      | true =>
        simp only [if_true] at hrank ⊢
        rw [show k = 0 by omega, tenth_zero]
        rfl
    rw [lt_iff hn.le hm.le, rank_of_not_lt_zero hn.le hy', rank_of_not_lt_zero hm.le hx'] at h
    have hmono := tenth_mono (show m ≤ n by omega) hn.le
    rw [roundTenth_ofSigned hm, roundTenth_ofSigned hn, lt_iff (tenth_lt_infinity hn).le
      (tenth_lt_infinity hm).le, hzero hn hy', hzero hm hx']
    omega
  roundTenth_pos {x} hx h := by
    obtain ⟨negative, m, hm, rfl⟩ := exists_ofSigned hx
    rw [zero_eq, lt_iff (Nat.zero_le _) hm.le] at h
    cases negative with
    | true =>
      simp only [if_true, Bool.false_eq_true, if_false] at h
      omega
    | false =>
      rw [roundTenth_ofSigned hm, zero_eq, lt_iff (Nat.zero_le _) (tenth_lt_infinity hm).le]
      rcases Nat.eq_zero_or_pos (tenth m) with hzero | hpos
      · exact .inr (by rw [hzero])
      · exact .inl (by simpa using hpos)
  ofText_text x := by
    obtain ⟨⟨n, hn⟩, -⟩ := read_text x
    exact ⟨ofBits (Binary64.ofNumeral n), by rw [ofText, hn]; rfl⟩
  isBlank_of_mem_text {x c} h := (read_text x).2 c h

end Double
end DeckDuel
