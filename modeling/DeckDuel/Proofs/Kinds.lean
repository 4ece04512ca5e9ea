/-
DeckDuel.Proofs.Kinds — which formulas are worth something, and what
does not change their worth.

* `Term.HasKind` — formulas whose operators get operands of the kind
  they ask for.
* `Term.evaluates_or_dividesByZero` — such a formula is worth something
  of its kind, unless some divisor in it is zero; and then it is worth
  nothing (`Term.value_of_dividesByZero`).
* `Term.fill` — a formula with other formulas in the place of its
  operands.
* `Term.alike_fill` — operands that are worth the same, but for the sign
  of a zero, make formulas that are.
-/
import DeckDuel.Proofs.Grammar
import DeckDuel.Proofs.ZeroSign

namespace DeckDuel.Formula

open DeckDuel.Scalar

variable {α β γ : Type}

/-! ## Kinds -/

/-- What a formula is worth: a number or a truth value. -/
inductive Kind where
  | number | truth
deriving DecidableEq, Repr

def Value.kind : Value α → Kind
  | .number _ => .number
  | .truth _ => .truth

/-- The kind of operand a sign asks for, which is the kind it gives. -/
def Sign.kind : Sign → Kind
  | .plus | .minus => .number
  | .not => .truth

/-- The kind of operands an operator asks for; equality is asked of any
two values. -/
def Operator.asks : Operator → Option Kind
  | .or | .and => some .truth
  | .equal | .unequal => none
  | .less | .lessEq | .greater | .greaterEq | .plus | .minus | .times | .dividedBy => some .number

/-- The kind of value an operator gives. -/
def Operator.gives : Operator → Kind
  | .plus | .minus | .times | .dividedBy => .number
  | .or | .and | .equal | .unequal | .less | .lessEq | .greater | .greaterEq => .truth

/-- Formulas that ask for no operand of a kind it does not have. -/
inductive Term.HasKind : Term β → Kind → Prop where
  | number (x : β) : HasKind (.number x) .number
  | signed (s : Sign) {t : Term β} : HasKind t s.kind → HasKind (.signed s t) s.kind
  | binary (o : Operator) {l r : Term β} {j k : Kind} : HasKind l j → HasKind r k →
      (∀ kind ∈ o.asks, j = kind ∧ k = kind) → HasKind (.binary o l r) o.gives
  | group {t : Term β} {k : Kind} : HasKind t k → HasKind (.group t) k

/-- The tokens of arithmetic. -/
def Token.isArithmetic : Token β → Bool
  | .number _ | .opening | .closing => true
  | .operator o => o.gives == .number
  | .not => false

/-- A formula that is worth a number is arithmetic throughout: an
operator that gives a number asks for numbers. -/
theorem Term.HasKind.isArithmetic {t : Term β} (h : t.HasKind .number) :
    ∀ a ∈ t.tokens, a.isArithmetic = true := by
  generalize hkind : Kind.number = kind at h
  induction h with
  | number x => simp [Term.tokens, Token.isArithmetic]
  | @signed s t _ ih =>
    cases s with
    | plus | minus => simpa [Term.tokens, Sign.token, Token.isArithmetic, Operator.gives] using ih rfl
    | not => cases hkind
  | @binary o l r j k _ _ hasks ihl ihr =>
    have hnumber : o.asks = some .number := by cases o <;> first | rfl | cases hkind
    obtain ⟨hj, hk⟩ := hasks .number hnumber
    intro a ha
    simp only [Term.tokens, List.mem_append, List.mem_cons] at ha
    rcases ha with ha | rfl | ha
    · exact ihl hj.symm a ha
    · simp [Token.isArithmetic, ← hkind]
    · exact ihr hk.symm a ha
  | group _ ih =>
    intro a ha
    simp only [Term.tokens, List.mem_cons, List.mem_append, List.not_mem_nil, or_false] at ha
    rcases ha with rfl | ha | rfl
    · rfl
    · exact ih hkind a ha
    · rfl

theorem Value.eq_number_of_kind {v : Value α} (h : v.kind = .number) : ∃ x, v = .number x := by
  cases v with
  | number x => exact ⟨x, rfl⟩
  | truth b => cases h

theorem Value.eq_truth_of_kind {v : Value α} (h : v.kind = .truth) : ∃ b, v = .truth b := by
  cases v with
  | number x => cases h
  | truth b => exact ⟨b, rfl⟩

section

variable [Scalar α]

/-- Some divisor of the formula is zero. -/
inductive Term.DividesByZero : Term α → Prop where
  | here {l r : Term α} {y : α} : r.Evaluates (.number y) → (y == 0) = true →
      DividesByZero (.binary .dividedBy l r)
  | signed (s : Sign) {t : Term α} : DividesByZero t → DividesByZero (.signed s t)
  | left (o : Operator) {l : Term α} (r : Term α) : DividesByZero l → DividesByZero (.binary o l r)
  | right (o : Operator) (l : Term α) {r : Term α} : DividesByZero r → DividesByZero (.binary o l r)
  | group {t : Term α} : DividesByZero t → DividesByZero (.group t)

/-- A division by zero leaves the whole formula without a value, also
behind an operand that decides. -/
theorem Term.value_of_dividesByZero {t : Term α} (h : t.DividesByZero) : t.value = none := by
  induction h with
  | here hr hzero =>
    simp [Term.value, Term.value_eq_some_iff.mpr hr, Operator.apply, Value.number?, hzero]
  | signed s _ ih => simp [Term.value, ih]
  | left o r _ ih => simp [Term.value, ih]
  | right o l _ ih => simp [Term.value, ih]
  | group _ ih => exact ih

theorem Sign.apply_of_kind {s : Sign} {v : Value α} (h : v.kind = s.kind) :
    ∃ w, s.apply v = some w ∧ w.kind = s.kind := by
  cases s with
  | plus | minus =>
    obtain ⟨x, rfl⟩ := v.eq_number_of_kind h
    exact ⟨_, rfl, rfl⟩
  | not =>
    obtain ⟨b, rfl⟩ := v.eq_truth_of_kind h
    exact ⟨_, rfl, rfl⟩

/-- An operator gives a value of its kind, unless it divides by zero. -/
theorem Operator.apply_of_kind {o : Operator} {v w : Value α}
    (h : ∀ kind ∈ o.asks, v.kind = kind ∧ w.kind = kind) :
    (∃ u, o.apply v w = some u ∧ u.kind = o.gives) ∨
      (o = .dividedBy ∧ ∃ y, w = .number y ∧ (y == 0) = true) := by
  cases o with
  | equal | unequal => exact .inl ⟨_, rfl, rfl⟩
  | and | or =>
    obtain ⟨hv, hw⟩ := h _ rfl
    obtain ⟨a, rfl⟩ := v.eq_truth_of_kind hv
    obtain ⟨b, rfl⟩ := w.eq_truth_of_kind hw
    cases a <;> exact .inl ⟨_, rfl, rfl⟩
  | plus | minus | times | less | lessEq | greater | greaterEq =>
    obtain ⟨hv, hw⟩ := h _ rfl
    obtain ⟨x, rfl⟩ := v.eq_number_of_kind hv
    obtain ⟨y, rfl⟩ := w.eq_number_of_kind hw
    exact .inl ⟨_, rfl, rfl⟩
  | dividedBy =>
    obtain ⟨hv, hw⟩ := h _ rfl
    obtain ⟨x, rfl⟩ := v.eq_number_of_kind hv
    obtain ⟨y, rfl⟩ := w.eq_number_of_kind hw
    cases hzero : y == 0 with
    | true => exact .inr ⟨rfl, y, rfl, hzero⟩
    | false => exact .inl ⟨.number (x / y), by simp [Operator.apply, Value.number?, hzero], rfl⟩

/-- **A formula is worth something of its kind**, unless some divisor in
it is zero. -/
theorem Term.evaluates_or_dividesByZero {t : Term α} {k : Kind} (h : t.HasKind k) :
    (∃ v, t.Evaluates v ∧ v.kind = k) ∨ t.DividesByZero := by
  induction h with
  | number x => exact .inl ⟨_, .number x, rfl⟩
  | @signed s t _ ih =>
    rcases ih with ⟨v, hv, hkind⟩ | hzero
    · obtain ⟨w, happly, hw⟩ := Sign.apply_of_kind hkind
      exact .inl ⟨w, hv.of_sign happly, hw⟩
    · exact .inr (.signed s hzero)
  | @binary o l r j k _ _ hasks ihl ihr =>
    rcases ihl with ⟨v, hv, rfl⟩ | hzero
    · rcases ihr with ⟨w, hw, rfl⟩ | hzero
      · rcases Operator.apply_of_kind hasks with ⟨u, happly, hu⟩ | ⟨rfl, y, rfl, hy⟩
        · exact .inl ⟨u, hv.of_operator hw happly, hu⟩
        · exact .inr (.here hw hy)
      · exact .inr (.right o l hzero)
    · exact .inr (.left o r hzero)
  | group _ ih =>
    rcases ih with ⟨v, hv, hkind⟩ | hzero
    · exact .inl ⟨v, .group hv, hkind⟩
    · exact .inr (.group hzero)

end

/-! ## Operands -/

/-- The operands of a formula. -/
def Term.leaves : Term β → List β
  | .number b => [b]
  | .signed _ t | .group t => t.leaves
  | .binary _ l r => l.leaves ++ r.leaves

/-- The formula with a formula in the place of each operand. -/
def Term.fill (g : β → Term γ) : Term β → Term γ
  | .number b => g b
  | .signed s t => .signed s (t.fill g)
  | .binary o l r => .binary o (l.fill g) (r.fill g)
  | .group t => .group (t.fill g)

theorem Term.mem_leaves {t : Term β} {b : β} : b ∈ t.leaves ↔ Token.number b ∈ t.tokens := by
  have hsign (s : Sign) : Token.number b ≠ s.token := by cases s <;> simp [Sign.token]
  induction t <;> simp_all [Term.leaves, Term.tokens]

/-- Operands that may stand anywhere leave the grammar as it is. -/
theorem Term.Within.fill {p : Nat} {t : Term β} (h : t.Within p) {g : β → Term γ}
    (hg : ∀ b q, (g b).Within q) : (t.fill g).Within p := by
  induction h with
  | number b => exact hg b _
  | signed s _ ih => exact .signed s ih
  | binary hpower _ _ ihl ihr => exact .binary hpower ihl ihr
  | group _ ih => exact .group ih

theorem Term.HasKind.fill {t : Term β} {k : Kind} (h : t.HasKind k) {g : β → Term γ}
    (hg : ∀ b, (g b).HasKind .number) : (t.fill g).HasKind k := by
  induction h with
  | number b => exact hg b
  | signed s _ ih => exact .signed s ih
  | binary o _ _ hasks ihl ihr => exact .binary o ihl ihr hasks
  | group _ ih => exact .group ih

/-- What stands in the place of a token. -/
def Token.fill (g : β → Term γ) : Token β → List (Token γ)
  | .number b => (g b).tokens
  | .operator o => [.operator o]
  | .not => [.not]
  | .opening => [.opening]
  | .closing => [.closing]

theorem Term.tokens_fill (g : β → Term γ) (t : Term β) :
    (t.fill g).tokens = t.tokens.flatMap (Token.fill g) := by
  induction t with
  | number b => simp [Term.fill, Term.tokens, Token.fill]
  | signed s t ih => cases s <;> simp [Term.fill, Term.tokens, Sign.token, Token.fill, ih]
  | binary o l r ihl ihr => simp [Term.fill, Term.tokens, Token.fill, ihl, ihr]
  | group t ih => simp [Term.fill, Term.tokens, Token.fill, ih]

/-! ## The sign of a zero -/

/-- Values that are the same, but for the sign of a zero. -/
inductive Value.Alike [Scalar α] : Value α → Value α → Prop where
  | number {x y : α} : Same x y → Alike (.number x) (.number y)
  | truth (b : Bool) : Alike (.truth b) (.truth b)

section

variable [Scalar α]

/-- Values that are alike, or none on either side. -/
abbrev OptionAlike : Option (Value α) → Option (Value α) → Prop := Option.Rel Value.Alike

theorem OptionAlike.bind {v w : Option (Value α)} {f g : Value α → Option (Value α)}
    (h : OptionAlike v w) (hfg : ∀ a b, a.Alike b → OptionAlike (f a) (g b)) :
    OptionAlike (v.bind f) (w.bind g) := by
  cases h with
  | none => exact .none
  | some h => exact hfg _ _ h

theorem alike_onNumbers {f : α → α → Value α}
    (hf : ∀ {x x' y y' : α}, Same x x' → Same y y' → (f x y).Alike (f x' y')) {v v' w w' : Value α}
    (hv : v.Alike v') (hw : w.Alike w') : OptionAlike (onNumbers f v w) (onNumbers f v' w') := by
  cases hv with
  | number hx =>
    cases hw with
    | number hy => exact .some (hf hx hy)
    | truth b => exact .none
  | truth b => exact .none

theorem OptionAlike.exists_number {v : Option (Value α)} {x : α}
    (h : OptionAlike v (some (.number x))) : ∃ y, v = some (.number y) ∧ Same y x := by
  cases h with
  | some h =>
    cases h with
    | number hsame => exact ⟨_, rfl, hsame⟩

theorem OptionAlike.eq_truth {v : Option (Value α)} {b : Bool}
    (h : OptionAlike v (some (.truth b))) : v = some (.truth b) := by
  cases h with
  | some h =>
    cases h
    rfl

theorem OptionAlike.eq_none {v : Option (Value α)} (h : OptionAlike v none) : v = none := by
  cases h
  rfl

variable [SignlessZero α]

theorem Sign.alike_apply (s : Sign) {v w : Value α} (h : v.Alike w) :
    OptionAlike (s.apply v) (s.apply w) := by
  cases h with
  | number h =>
    cases s with
    | plus => exact .some (.number h)
    | minus => exact .some (.number (SignlessZero.neg h))
    | not => exact .none
  | truth b =>
    cases s with
    | plus | minus => exact .none
    | not => exact .some (.truth _)

theorem Value.same_congr {v v' w w' : Value α} (hv : v.Alike v') (hw : w.Alike w') :
    v.same w = v'.same w' := by
  cases hv <;> cases hw
  · next hx _ _ hy => exact SignlessZero.beq hx hy
  · rfl
  · rfl
  · rfl

theorem Operator.alike_apply (o : Operator) {v v' w w' : Value α} (hv : v.Alike v')
    (hw : w.Alike w') : OptionAlike (o.apply v w) (o.apply v' w') := by
  cases o with
  | plus => exact alike_onNumbers (fun hx hy => .number (SignlessZero.add hx hy)) hv hw
  | minus => exact alike_onNumbers (fun hx hy => .number (SignlessZero.sub hx hy)) hv hw
  | times => exact alike_onNumbers (fun hx hy => .number (SignlessZero.mul hx hy)) hv hw
  | less =>
    refine alike_onNumbers (fun hx hy => ?_) hv hw
    rw [decide_eq_decide.mpr (SignlessZero.lt_iff hx hy)]
    exact .truth _
  | lessEq =>
    refine alike_onNumbers (fun hx hy => ?_) hv hw
    rw [decide_eq_decide.mpr (SignlessZero.le_iff hx hy)]
    exact .truth _
  | greater =>
    refine alike_onNumbers (fun hx hy => ?_) hv hw
    rw [decide_eq_decide.mpr (SignlessZero.lt_iff hy hx)]
    exact .truth _
  | greaterEq =>
    refine alike_onNumbers (fun hx hy => ?_) hv hw
    rw [decide_eq_decide.mpr (SignlessZero.le_iff hy hx)]
    exact .truth _
  | equal =>
    simp only [Operator.apply, Value.same_congr hv hw]
    exact .some (.truth _)
  | unequal =>
    simp only [Operator.apply, Value.same_congr hv hw]
    exact .some (.truth _)
  | and | or =>
    cases hv with
    | number _ => exact .none
    | truth a =>
      cases a <;> cases hw <;> first | exact .none | exact .some (.truth _)
  | dividedBy =>
    cases hw with
    | truth b => exact .none
    | @number y y' hy =>
      have hzero : (y == 0) = (y' == 0) := SignlessZero.beq hy (.refl 0)
      simp only [Operator.apply, Value.number?, Option.bind_some, ← hzero]
      split
      · exact .none
      · next hne =>
        cases hv with
        | truth b => exact .none
        | number hx => exact .some (.number (SignlessZero.div (by simpa using hne) hx hy))

/-- **Operands that are alike make formulas that are alike.** By
induction on the formula. -/
theorem Term.alike_fill {t : Term β} {g g' : β → Term α}
    (h : ∀ b ∈ t.leaves, OptionAlike (g b).value (g' b).value) :
    OptionAlike (t.fill g).value (t.fill g').value := by
  induction t with
  | number b => exact h b (List.mem_singleton_self b)
  | signed s t ih => exact (ih h).bind fun _ _ hv => s.alike_apply hv
  | binary o l r ihl ihr =>
    have hl := ihl fun b hb => h b (List.mem_append_left _ hb)
    have hr := ihr fun b hb => h b (List.mem_append_right _ hb)
    exact hl.bind fun _ _ hv => hr.bind fun _ _ hw => o.alike_apply hv hw
  | group t ih => exact ih h

end

end DeckDuel.Formula
