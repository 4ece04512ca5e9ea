/-
DeckDuel.Proofs.PrintedNumbers — how numbers print in a formula.

* `PrintsPlainly` — numbers that print as digits and points, after a
  minus sign at most, which means the same before a numeral as before an
  operand.
* `IsPlainNumber` — such a text; it contains no path
  (`IsPlainNumber.mapPaths`) and no sign of a comparison.
* `Decimal.point_shortest_bounds` — the shortest decimal of a finite
  word has its point within a thousand places of its digits, which the
  plain layout still writes positionally.
* `Numeral.read_minus` — a minus sign before a numeral changes its sign
  and nothing else.

With the last two, double-precision numbers print plainly.
-/
import DeckDuel.Proofs.Paths
import DeckDuel.Proofs.Promotion
import DeckDuel.Proofs.ZeroSign
import DeckDuel.Variable.Scope

namespace DeckDuel

open DeckDuel.Text DeckDuel.Variable DeckDuel.Formula DeckDuel.Scalar

/-! ## Printed numbers -/

/-- The text consists of characters of a number, and is not empty. -/
def IsUnsigned (cs : List Char) : Prop := cs ≠ [] ∧ ∀ c ∈ cs, isNumberChar c = true

/-- Numbers that print positionally: a minus sign at most, then digits
and points. The sign means what it means in a formula. -/
class PrintsPlainly (α : Type) [Scalar α] : Prop where
  spell_cases : ∀ {x : α}, isFinite x = true →
    IsUnsigned (Scope.spell x) ∨ ∃ ds, Scope.spell x = '-' :: ds ∧ IsUnsigned ds
  ofText_minus : ∀ {ds : List Char} {x : α}, IsUnsigned ds → ofText ('-' :: ds) = some x →
    ∃ y, ofText ds = some y ∧ Same (-y) x

/-- The printed text of a number reads as that number. -/
def PrintsBack {α : Type} [Scalar α] (x : α) : Prop := ∃ y, ofText (Scope.spell x) = some y ∧ Same y x

theorem isPathChar_of_isNumberChar {c : Char} (h : isNumberChar c = true) :
    isPathChar c = true := by
  simp only [isNumberChar, Bool.or_eq_true] at h
  rcases h with h | h
  · simp [isPathChar, isWordChar, Char.isAlphanum, h]
  · simp [isPathChar, h]

theorem isNumberChar_of_not_isPathChar {c : Char} (h : isPathChar c = false) :
    isNumberChar c = false := by
  rw [← Bool.not_eq_true] at h ⊢
  exact mt isPathChar_of_isNumberChar h

theorem isWordStart_of_isNumberChar {c : Char} (h : isNumberChar c = true) :
    isWordStart c = false := by
  simp only [isNumberChar, Bool.or_eq_true, beq_iff_eq] at h
  rcases h with h | rfl
  · have hc : c ≠ '_' := by
      rintro rfl
      exact absurd h (by decide)
    have hletter : c.isAlpha = false := by
      have hrange : 48 ≤ c.toNat ∧ c.toNat ≤ 57 := Char.isDigit_iff_toNat.mp h
      rw [← Bool.not_eq_true, isAlpha_iff, isUpper_iff, isLower_iff]
      omega
    simp [isWordStart, hletter, hc]
  · decide

theorem isPlain_of_isNumberChar {c : Char} (h : isNumberChar c = true) : isPlain c = true := by
  have hne {d : Char} (hd : isNumberChar d = false) : d ≠ c := by
    rintro rfl
    simp [hd] at h
  simp only [isPlain, masks, List.all_cons, List.all_nil, List.head?_cons, Bool.and_eq_true,
    bne_iff_ne, ne_eq, Option.some.injEq]
  and_intros <;> first | exact hne (by decide) | trivial

theorem isArithmeticChar_of_isNumberChar {c : Char} (h : isNumberChar c = true) :
    isArithmeticChar c = true := by
  simp only [isNumberChar, Bool.or_eq_true] at h
  rcases h with h | h <;> simp [isArithmeticChar, h]

/-- An unsigned number, with a minus sign or without. -/
def IsPlainNumber (cs : List Char) : Prop :=
  IsUnsigned cs ∨ ∃ ds, cs = '-' :: ds ∧ IsUnsigned ds

namespace IsPlainNumber

variable {cs : List Char}

theorem ne_nil (h : IsPlainNumber cs) : cs ≠ [] := by
  rcases h with h | ⟨ds, rfl, -⟩
  · exact h.1
  · simp

/-- Minus signs and the characters of numbers have in common what all
characters of a printed number have. -/
theorem forall_mem (h : IsPlainNumber cs) {p : Char → Bool} (hminus : p '-' = true)
    (hnumber : ∀ {c}, isNumberChar c = true → p c = true) : ∀ c ∈ cs, p c = true := by
  rcases h with h | ⟨ds, rfl, h⟩
  · exact fun c hc => hnumber (h.2 c hc)
  · intro c hc
    rcases List.mem_cons.mp hc with rfl | hc
    · exact hminus
    · exact hnumber (h.2 c hc)

/-- A printed number contains no path. -/
theorem mapPaths (h : IsPlainNumber cs) {replace? : List Char → Option (List Char)}
    {rest : List Char} (hrest : EndsRun rest) :
    Variable.mapPaths replace? (cs ++ rest) = cs ++ Variable.mapPaths replace? rest := by
  have hunsigned {ds : List Char} (h : IsUnsigned ds) :
      Variable.mapPaths replace? (ds ++ rest) = ds ++ Variable.mapPaths replace? rest := by
    obtain ⟨hne, hall⟩ := h
    rw [mapPaths_run (fun c hc => isPathChar_of_isNumberChar (hall c hc)) hrest]
    cases ds with
    | nil => exact absurd rfl hne
    | cons d ds =>
      rw [replaceRun_of_not_start (isWordStart_of_isNumberChar (hall d List.mem_cons_self))]
  rcases h with h | ⟨ds, rfl, h⟩
  · exact hunsigned h
  · have hminus : Variable.mapPaths replace? (['-'] ++ (ds ++ rest)) =
        ['-'] ++ Variable.mapPaths replace? (ds ++ rest) := mapPaths_outside (by decide)
    rw [hunsigned h] at hminus
    exact hminus

end IsPlainNumber

/-! ## Finite words -/

namespace Binary64

theorem parts?_bounds {bits : Nat} {p : Parts} (h : parts? bits = some p) :
    p.significand < 2 ^ 53 ∧ -1074 ≤ p.exponent ∧ p.exponent ≤ 971 := by
  have hhidden : hiddenBit = 2 ^ 52 := by decide
  have hfraction : bits % hiddenBit < hiddenBit := Nat.mod_lt _ (by decide)
  have hfield : (bits >>> 52) % 2048 < 2048 := Nat.mod_lt _ (by decide)
  rw [hhidden] at hfraction
  unfold parts? at h
  simp only [hhidden] at h
  split at h
  · cases h
  · next hmost =>
    split at h
    · cases h
      dsimp only
      omega
    · next hleast =>
      cases h
      dsimp only
      omega

end Binary64

/-! ## Digits -/

namespace Decimal

theorem decimalExponent_bounds {num den : Nat} (h : num.log2 ≤ 1023) (h' : den.log2 ≤ 1076) :
    -330 ≤ decimalExponent num den ∧ decimalExponent num den ≤ 330 := by
  simp only [decimalExponent]
  rw [Int.fdiv_eq_ediv_of_nonneg _ (by decide)]
  split
  · omega
  · split
    · omega
    · split
      · omega
      · split <;> omega

theorem searchDigits_bounds (i : Interval) (tie : Tie) (point : Int) (more count : Nat) :
    ∃ e : Int, point - (count + more : Nat) ≤ e ∧ e ≤ point - count ∧
      ((searchDigits i tie point more count).1 = (i.nearest? tie e).getD 0) ∧
      (searchDigits i tie point more count).2 = e := by
  induction more generalizing count with
  | zero => exact ⟨point - count, by omega, by omega, rfl, rfl⟩
  | succ more ih =>
    unfold searchDigits
    cases hn : i.nearest? tie (point - count) with
    | some n => exact ⟨point - count, by omega, by omega, by simp [hn], rfl⟩
    | none =>
      obtain ⟨e, hlow, hhigh, hfst, hsnd⟩ := ih (count + 1)
      exact ⟨e, by omega, by omega, hfst, hsnd⟩

theorem nearest?_le (i : Interval) (tie : Tie) (e : Int) :
    (i.nearest? tie e).getD 0 ≤ i.mid * (powerOfTen e).2 + 1 := by
  have hlower : (i.mid * (powerOfTen e).2) / (i.den * (powerOfTen e).1) ≤
      i.mid * (powerOfTen e).2 := Nat.div_le_self _ _
  simp only [Interval.nearest?]
  split
  · split <;> simp <;> omega
  · split
    · simp; omega
    · split <;> simp; omega

/-- The middle of the interval is below `8 ^ 342`, and so below
`10 ^ 342`. -/
theorem interval_bounds {m : Nat} {q : Int} (hm : m < 2 ^ 53) (hlow : -1074 ≤ q)
    (hhigh : q ≤ 971) : (Interval.ofParts m q).mid < 10 ^ 342 ∧
      (Interval.ofParts m q).mid.log2 ≤ 1023 ∧ (Interval.ofParts m q).den.log2 ≤ 1076 := by
  have hmid : (Interval.ofParts m q).mid < 2 ^ 1024 ∧ (Interval.ofParts m q).den.log2 ≤ 1076 := by
    simp only [Interval.ofParts]
    split
    · next hq =>
      have hshifted : (4 * m) <<< (q - 2).toNat < 2 ^ (55 + (q - 2).toNat) := by
        rw [Nat.shiftLeft_eq, pow_add]
        exact Nat.mul_lt_mul_of_pos_right (by omega) (by positivity)
      have hlarge : 2 ^ (55 + (q - 2).toNat) ≤ 2 ^ 1024 := pow_le_pow_right₀ (by decide) (by omega)
      refine ⟨Nat.lt_of_lt_of_le hshifted hlarge, ?_⟩
      show Nat.log2 1 ≤ 1076
      decide
    · next hq =>
      constructor
      · calc 4 * m < 2 ^ 55 := by omega
          _ ≤ 2 ^ 1024 := pow_le_pow_right₀ (by omega) (by omega)
      · rw [Nat.shiftLeft_eq, one_mul, Nat.log2_two_pow]
        omega
  refine ⟨?_, ?_, hmid.2⟩
  · calc (Interval.ofParts m q).mid < 2 ^ 1024 := hmid.1
      _ ≤ 2 ^ (3 * 342) := pow_le_pow_right₀ (by omega) (by omega)
      _ = (2 ^ 3) ^ 342 := pow_mul 2 3 342
      _ ≤ 10 ^ 342 := pow_le_pow_left₀ (by omega) (by omega) 342
  · rcases Nat.eq_zero_or_pos (Interval.ofParts m q).mid with hzero | hpos
    · rw [hzero]
      decide
    · have := (Nat.log2_lt hpos.ne').mpr hmid.1
      omega

/-- Digits that are as many as there are places above `10 ^ e`. -/
theorem length_toDigits_nearest_le {i : Interval} (h : i.mid < 10 ^ 342) (tie : Tie) (e : Int) :
    (Nat.toDigits 10 ((i.nearest? tie e).getD 0)).length ≤ 343 + (-e).toNat := by
  have hpower : (powerOfTen e).2 = 10 ^ (-e).toNat := by
    unfold powerOfTen
    split
    · have hzero : (-e).toNat = 0 := by omega
      simp [hzero]
    · rfl
  refine (Nat.length_toDigits_le_iff (by omega) (by omega)).mpr ?_
  have hpos : 0 < 10 ^ (-e).toNat := by positivity
  calc (i.nearest? tie e).getD 0 ≤ i.mid * 10 ^ (-e).toNat + 1 := hpower ▸ nearest?_le i tie e
    _ ≤ (i.mid + 1) * 10 ^ (-e).toNat := by
      rw [Nat.add_mul, one_mul]
      omega
    _ ≤ 10 ^ 342 * 10 ^ (-e).toNat := Nat.mul_le_mul_right _ h
    _ = 10 ^ (342 + (-e).toNat) := (pow_add 10 342 _).symm
    _ < 10 ^ (343 + (-e).toNat) := Nat.pow_lt_pow_right (by omega) (by omega)

theorem point_shortest_bounds {m : Nat} {q : Int} (hm : m < 2 ^ 53) (hlow : -1074 ≤ q)
    (hhigh : q ≤ 971) (tie : Tie) :
    -1000 ≤ (shortest tie m q).point ∧ (shortest tie m q).point ≤ 1000 := by
  obtain ⟨hmid, hmidLog, hdenLog⟩ := interval_bounds hm hlow hhigh
  have hexponent := decimalExponent_bounds hmidLog hdenLog
  obtain ⟨e, heLow, heHigh, hn, hunit⟩ := searchDigits_bounds (Interval.ofParts m q) tie
    (decimalExponent (Interval.ofParts m q).mid (Interval.ofParts m q).den) 16 1
  have hlength := length_toDigits_nearest_le hmid tie e
  simp only [shortest, hn, hunit]
  omega

theorem isDigit_shortest (tie : Tie) (m : Nat) (q : Int) :
    ∀ c ∈ (shortest tie m q).digits, c.isDigit = true := by
  intro c hc
  simp only [shortest, List.mem_reverse] at hc
  have hmem := (List.dropWhile_sublist _).subset hc
  exact Nat.isDigit_of_mem_toDigits (by omega) (by omega) (List.mem_reverse.mp hmem)

theorem isNumberChar_of_isDigit {c : Char} (h : c.isDigit = true) :
    Formula.isNumberChar c = true := by
  simp [Formula.isNumberChar, h]

theorem isUnsigned_positional {d : Digits} (h : ∀ c ∈ d.digits, c.isDigit = true) :
    IsUnsigned (d.positional false) := by
  have hzeros {n : Nat} : ∀ c ∈ zeros n, c.isDigit = true := by
    intro c hc
    rw [List.eq_of_mem_replicate hc]
    decide
  unfold Digits.positional
  dsimp only
  split
  · refine ⟨by simp, fun c hc => ?_⟩
    simp only [List.mem_cons, List.mem_append] at hc
    rcases hc with rfl | rfl | hc | hc
    · decide
    · decide
    · exact isNumberChar_of_isDigit (hzeros c hc)
    · exact isNumberChar_of_isDigit (h c hc)
  · split
    · next hpoint _ =>
      refine ⟨fun hnil => ?_, fun c hc => ?_⟩
      · simp only [List.append_eq_nil_iff] at hnil
        have hzero : (d.point - d.digits.length).toNat = 0 := by
          simpa [zeros] using hnil.1.2
        simp only [hnil.1.1, List.length_nil] at hzero
        omega
      · simp only [Bool.false_eq_true, if_false, List.append_nil, List.mem_append] at hc
        rcases hc with hc | hc
        · exact isNumberChar_of_isDigit (h c hc)
        · exact isNumberChar_of_isDigit (hzeros c hc)
    · refine ⟨by simp, fun c hc => ?_⟩
      simp only [List.mem_append, List.mem_cons] at hc
      rcases hc with hc | rfl | hc
      · exact isNumberChar_of_isDigit (h c (List.mem_of_mem_take hc))
      · decide
      · exact isNumberChar_of_isDigit (h c (List.mem_of_mem_drop hc))

/-- The plain layout writes the magnitude of a finite word as digits and
points. -/
theorem isUnsigned_write {m : Nat} {q : Int} (hm : m < 2 ^ 53) (hlow : -1074 ≤ q)
    (hhigh : q ≤ 971) : IsUnsigned (Double.plainLayout.write m q) := by
  have hbounds := point_shortest_bounds hm hlow hhigh .larger
  unfold Layout.write
  split
  · exact ⟨by simp, by decide⟩
  · have hlayout : (decide (Double.plainLayout.least ≤ (shortest .larger m q).point) &&
        decide ((shortest .larger m q).point ≤ Double.plainLayout.most)) = true := by
      rw [Bool.and_eq_true, decide_eq_true_eq, decide_eq_true_eq]
      exact hbounds
    dsimp only
    rw [show Double.plainLayout.tie = Tie.larger from rfl, if_pos hlayout]
    exact isUnsigned_positional (isDigit_shortest .larger m q)

end Decimal

/-! ## Signs -/

namespace Numeral

/-- The numeral with a sign of its own. -/
def withSign (negative : Bool) : Numeral → Numeral
  | .decimal _ digits exponent => .decimal negative digits exponent
  | .infinite _ => .infinite negative
  | .notANumber _ => .notANumber negative

theorem readDecimal_eq (negative : Bool) (cs : List Char) :
    readDecimal negative cs = (readDecimal false cs).map (withSign negative) := by
  unfold readDecimal
  dsimp only
  split <;> dsimp only <;> split
  · rfl
  · rw [Option.map_map]
    rfl
  · rfl
  · rw [Option.map_map]
    rfl

theorem readWord_eq (negative : Bool) (cs : List Char) :
    readWord negative cs = (readWord false cs).map (withSign negative) := by
  unfold readWord
  dsimp only
  split
  · rfl
  · split <;> rfl

/-- A minus sign before a numeral changes its sign and nothing else. -/
theorem read_minus {cs : List Char} (h : IsUnsigned cs) : ∃ o : Option Numeral,
    read cs = o.map (withSign false) ∧ read ('-' :: cs) = o.map (withSign true) := by
  have hbody (negative : Bool) : ((readDecimal negative cs).orElse fun _ => readWord negative cs) =
      ((readDecimal false cs).orElse fun _ => readWord false cs).map (withSign negative) := by
    rw [readDecimal_eq negative, readWord_eq negative]
    cases readDecimal false cs <;> rfl
  refine ⟨_, ?_, hbody true⟩
  rw [← hbody false]
  obtain ⟨hne, hall⟩ := h
  cases cs with
  | nil => exact absurd rfl hne
  | cons c cs =>
    have hc := hall c List.mem_cons_self
    have hminus : c ≠ '-' := by
      rintro rfl
      exact absurd hc (by decide)
    have hplus : c ≠ '+' := by
      rintro rfl
      exact absurd hc (by decide)
    simp [read, hminus, hplus]

end Numeral

namespace Binary64

theorem ofDecimal_le_infinity (digits : Nat) (exponent : Int) :
    ofDecimal digits exponent ≤ infinity := by
  unfold ofDecimal
  split
  · exact Nat.zero_le _
  · dsimp only
    split
    · exact Nat.le_refl _
    · split
      · exact Nat.zero_le _
      · split <;> exact ofRatio_le_infinity _ _

theorem ofNumeral_withSign (n : Numeral) :
    ofNumeral (n.withSign true) = negate (ofNumeral (n.withSign false)) ∧
      ofNumeral (n.withSign false) < UInt64.size := by
  have hsign {m : Nat} (h : m < signBit) : signed true m = negate (signed false m) ∧
      signed false m < UInt64.size := by
    have hword : UInt64.size = signBit + signBit := by decide
    show signBit + m = (if m < signBit then m + signBit else m - signBit) ∧ m < UInt64.size
    rw [if_pos h]
    omega
  cases n with
  | decimal _ digits exponent =>
    exact hsign (Nat.lt_of_le_of_lt (ofDecimal_le_infinity digits exponent) infinity_lt_signBit)
  | infinite _ => exact hsign infinity_lt_signBit
  | notANumber _ => exact hsign (by decide)

end Binary64

/-! ## Double-precision numbers -/

namespace Double

open Scalar Decimal

instance : DecidableEq Double := fun x y =>
  decidable_of_iff (x.word = y.word) ⟨fun h => congrArg mk h, congrArg word⟩

theorem toList_toString (n : Int) : (toString n).toList = Nat.toDigits 10 n.toNat ∧ 0 ≤ n ∨
    (toString n).toList = '-' :: Nat.toDigits 10 (-n).toNat := by
  rw [Int.toString_eq_repr, Int.repr_eq_if]
  split
  · next h => exact .inl ⟨Nat.toList_repr, h⟩
  · right
    rw [String.toList_append, Nat.toList_repr]
    rfl

theorem isUnsigned_toDigits (n : Nat) : IsUnsigned (Nat.toDigits 10 n) :=
  ⟨Nat.toDigits_ne_nil, fun _ hc =>
    isNumberChar_of_isDigit (Nat.isDigit_of_mem_toDigits (by omega) (by omega) hc)⟩

theorem isPlainNumber_toString (n : Int) : IsPlainNumber (toString n).toList := by
  rcases toList_toString n with ⟨h, -⟩ | h
  · rw [h]
    exact .inl (isUnsigned_toDigits _)
  · rw [h]
    exact .inr ⟨_, rfl, isUnsigned_toDigits _⟩

theorem isPlainNumber_text {x : Double} (h : isFinite x = true) :
    IsPlainNumber (Scalar.text x).toList := by
  obtain ⟨p, hp⟩ := Option.isSome_iff_exists.mp h
  obtain ⟨hm, hlow, hhigh⟩ := Binary64.parts?_bounds hp
  have hwrite := isUnsigned_write hm hlow hhigh
  have htext : (Scalar.text x).toList =
      (if p.negative then ['-'] else []) ++ plainLayout.write p.significand p.exponent := by
    show (write plainLayout "NaN" "inf" x).toList = _
    simp only [write, hp, String.toList_ofList]
  rw [htext]
  cases p.negative with
  | true => exact .inr ⟨_, rfl, hwrite⟩
  | false => exact .inl hwrite

instance : PrintsPlainly Double where
  spell_cases {x} h := by
    unfold Scope.spell formulaText
    split
    · split
      · exact isPlainNumber_toString _
      · exact isPlainNumber_text h
    · exact isPlainNumber_text h
  ofText_minus {ds x} h hx := by
    obtain ⟨o, hplus, hminus⟩ := Numeral.read_minus h
    rw [ofText, hminus] at hx
    rw [ofText, hplus]
    cases o with
    | none => cases hx
    | some n =>
      obtain ⟨hnegate, hlt⟩ := Binary64.ofNumeral_withSign n
      refine ⟨ofBits (Binary64.ofNumeral (n.withSign false)), rfl, .inl ?_⟩
      have hx' : ofBits (Binary64.ofNumeral (n.withSign true)) = x := Option.some.inj hx
      rw [← hx', hnegate]
      show ofBits (Binary64.negate (ofBits _).bits) = _
      rw [bits_ofBits hlt]

end Double
end DeckDuel
