/-
DeckDuel.Proofs.Substitution — the value of a formula over names.

* `Scope.Leaf` — an operand as written: a decimal, or a path that the
  scope resolves to a finite number.
* `Scope.renders_substitute` — the three passes of the substitution
  together print the number of every path in its place, and leave the
  rest of a written formula alone.
* `Scope.value_substituted` — a minus sign printed with a number is read
  as a sign of its own. It binds tighter than every operator, so what is
  read is a tree of the grammar, and worth the same.
* `Scope.evaluate_written` — so a written formula is worth what its tree
  is worth, with every path standing for its number.

How numbers print is asked of their type (`PrintsPlainly`); that a
printed number reads back is asked of the numbers in question.
-/
import DeckDuel.Proofs.PrintedNumbers
import DeckDuel.Proofs.Rendering

namespace DeckDuel

open DeckDuel.Text DeckDuel.Variable DeckDuel.Formula DeckDuel.Scalar

variable {α : Type}

/-! ## Operands -/

namespace Scope

variable [Scalar α]

/-- A text is an operand that stands for a number: it is a decimal, or a
path that resolves to a finite number, which is printed as one. -/
inductive Reads (sc : Scope α) : List Char → α → Prop where
  | decimal {ds : List Char} {x : α} : IsUnsigned ds → ofText ds = some x → Reads sc ds x
  | path {c : Char} {cs : List Char} {x : α} : isWordStart c = true →
      (∀ d ∈ cs, isPathChar d = true) → sc.resolve (c :: cs) = some x → isFinite x = true →
      PrintsBack x → Reads sc (c :: cs) x

/-- An operand as written, with the number it stands for. -/
structure Leaf (sc : Scope α) where
  text : List Char
  number : α
  reads : sc.Reads text number

/-- A formula with every operand standing for its number. -/
def worth {sc : Scope α} (t : Term sc.Leaf) : Term α := t.fill fun leaf => .number leaf.number

/-- A text writes out a formula: its tokens in order, each operator in
one of its spellings, with any blanks around them. -/
def Writes {sc : Scope α} (t : Term sc.Leaf) (cs : List Char) : Prop :=
  Renders (Spells Leaf.text) t.tokens cs

variable {sc : Scope α}

/-! ## Paths -/

theorem contains_of_cutAt? {cs : List Char} {r : List Char × List Char}
    (h : cutAt? (· == '.') cs = some r) : cs.contains '.' = true := by
  induction cs generalizing r with
  | nil => cases h
  | cons c cs ih =>
    rw [cutAt?] at h
    split at h
    · next hc => simp_all
    · obtain ⟨r', hr', -⟩ := Option.map_eq_some_iff.mp h
      simpa using .inr (by simpa using ih hr')

theorem points_of_not_contains {cs : List Char} (h : cs.contains '.' = false) :
    points cs = [cs] := by
  induction cs with
  | nil => rfl
  | cons c cs ih =>
    simp only [List.contains_cons, Bool.or_eq_false_iff] at h
    have hc : c ≠ '.' := by
      rintro rfl
      simp at h
    simp [points, hc, ih h.2]

theorem stacksPath_of_not_contains {path : List Char} (h : path.contains '.' = false) :
    sc.stacksPath path = none := by
  simp [stacksPath, points_of_not_contains h]

/-- What a pass puts in the place of a path is the number it resolves
to. -/
theorem resolve_of_stacksPath {path : List Char} {x : α} (h : sc.stacksPath path = some x) :
    sc.resolve path = some x := by
  have hpoint : path.contains '.' = true := by
    cases hpoint : path.contains '.' with
    | true => rfl
    | false => simp [stacksPath_of_not_contains hpoint] at h
  rw [resolve, if_pos hpoint, h]
  rfl

theorem resolve_of_qualifiedPath {path : List Char} {x : α} (hstacks : sc.stacksPath path = none)
    (h : sc.qualifiedPath path = some x) : sc.resolve path = some x := by
  obtain ⟨r, hr, -⟩ := Option.bind_eq_some_iff.mp h
  rw [resolve, if_pos (contains_of_cutAt? hr), hstacks, ← h]
  rfl

theorem resolve_of_barePath {path : List Char} {x : α} (h : sc.barePath path = some x) :
    sc.resolve path = some x := by
  unfold barePath at h
  split at h
  · cases h
  · next hpoint => rw [resolve, if_neg hpoint, h]

/-- A path that resolves is replaced by one of the passes. -/
theorem isSome_of_resolve {path : List Char} {x : α} (h : sc.resolve path = some x) :
    ((sc.stacksPath path).isSome || (sc.qualifiedPath path).isSome ||
      (sc.barePath path).isSome) = true := by
  unfold resolve at h
  split at h
  · cases hstacks : sc.stacksPath path with
    | some y => simp
    | none =>
      rw [hstacks] at h
      simp [show sc.qualifiedPath path = some x from h]
  · next hpoint =>
    rw [barePath, if_neg hpoint, h]
    simp

/-! ## Passes -/

/-- The text of an operand before and after the pass that replaces it; a
decimal is replaced by none. -/
def Leaf.after (leaf : sc.Leaf) (replaced : Bool) : List Char :=
  if replaced && leaf.text.head?.any isWordStart then spell leaf.number else leaf.text

/-- The text of an operand after the substitution. -/
def Leaf.printed (leaf : sc.Leaf) : List Char := leaf.after true

theorem Leaf.after_decimal {leaf : sc.Leaf} (h : IsUnsigned leaf.text) (replaced : Bool) :
    leaf.after replaced = leaf.text := by
  obtain ⟨hne, hall⟩ := h
  have hstart : leaf.text.head?.any isWordStart = false := by
    cases htext : leaf.text with
    | nil => rfl
    | cons c cs =>
      rw [htext] at hall
      simpa using isWordStart_of_isNumberChar (hall c List.mem_cons_self)
  simp [after, hstart]

theorem Leaf.after_path {leaf : sc.Leaf} {c : Char} {cs : List Char} (h : leaf.text = c :: cs)
    (hstart : isWordStart c = true) (replaced : Bool) :
    leaf.after replaced = if replaced then spell leaf.number else leaf.text := by
  simp [after, h, hstart]

variable [PrintsPlainly α]

theorem isPlainNumber_spell {x : α} (h : isFinite x = true) : IsPlainNumber (spell x) :=
  PrintsPlainly.spell_cases h

theorem Leaf.isPlainNumber_printed (leaf : sc.Leaf) : IsPlainNumber leaf.printed := by
  obtain ⟨text, x, hreads⟩ := leaf
  cases hreads with
  | decimal hunsigned _ =>
    rw [printed, after_decimal hunsigned]
    exact .inl hunsigned
  | path hstart _ _ hfinite _ =>
    rw [printed, after_path rfl hstart]
    exact isPlainNumber_spell hfinite

theorem Leaf.after_proper (leaf : sc.Leaf) (replaced : Bool) :
    leaf.after replaced ≠ [] ∧ NoEquals (leaf.after replaced) := by
  have hplain {cs : List Char} (h : IsPlainNumber cs) : cs ≠ [] ∧ NoEquals cs := by
    refine ⟨h.ne_nil, fun c hc => ?_⟩
    have hall := h.forall_mem (p := fun c => c != '=') (by decide) fun {c} hc => by
      simp only [bne_iff_ne]
      rintro rfl
      exact absurd hc (by decide)
    simpa using hall c (List.mem_of_mem_head? hc)
  obtain ⟨text, x, hreads⟩ := leaf
  cases hreads with
  | decimal hunsigned _ =>
    rw [after_decimal hunsigned]
    exact hplain (.inl hunsigned)
  | path hstart _ _ hfinite _ =>
    rw [after_path rfl hstart]
    cases replaced with
    | true => exact hplain (isPlainNumber_spell hfinite)
    | false =>
      refine ⟨by simp, fun c hc => ?_⟩
      obtain rfl := Option.some.inj hc
      rintro rfl
      exact absurd hstart (by decide)

/-- A pass replaces the paths it has a number for, as long as they are
there. -/
theorem Leaf.mapPaths_after (leaf : sc.Leaf) (value? : List Char → Option α) {replaced : Bool}
    (h : replaced = false → ∀ x, value? leaf.text = some x → sc.resolve leaf.text = some x)
    {rest : List Char} (hrest : EndsRun rest) :
    mapPaths (fun p => (value? p).map spell) (leaf.after replaced ++ rest) =
      leaf.after (replaced || (value? leaf.text).isSome) ++
        mapPaths (fun p => (value? p).map spell) rest := by
  obtain ⟨text, x, hreads⟩ := leaf
  cases hreads with
  | decimal hunsigned _ =>
    rw [after_decimal hunsigned, after_decimal hunsigned]
    exact IsPlainNumber.mapPaths (.inl hunsigned) hrest
  | @path c cs _ hstart hall hresolve hfinite _ =>
    rw [after_path rfl hstart, after_path rfl hstart]
    cases replaced with
    | true => exact (isPlainNumber_spell hfinite).mapPaths hrest
    | false =>
      have hrun : ∀ d ∈ c :: cs, isPathChar d = true := by
        intro d hd
        rcases List.mem_cons.mp hd with rfl | hd
        · exact isPathChar_of_isWordStart hstart
        · exact hall d hd
      simp only [Bool.false_eq_true, if_false, Bool.false_or]
      rw [mapPaths_run hrun hrest]
      cases hvalue : value? (c :: cs) with
      | none => rw [replaceRun_of_none (by simp [hvalue])]; rfl
      | some y =>
        have hy : sc.resolve (c :: cs) = some y := h rfl y hvalue
        obtain rfl : x = y := Option.some.inj (hresolve.symm.trans hy)
        rw [replaceRun_of_some hstart (by rw [hvalue]; rfl)]
        rfl

/-- **The three passes print the numbers of all paths**, each in its
place. -/
theorem renders_substitute {t : Term sc.Leaf} {cs : List Char} (h : Writes t cs) :
    Renders (Spells Leaf.printed) t.tokens (sc.substitute cs) := by
  have hchain := isChain_tokens t
  have hstart : Renders (Spells fun leaf => leaf.after false) t.tokens cs := h
  -- whether the stacks pass, and whether it or the qualified pass, has replaced an operand
  have hstacks := hstart.mapPaths (fun leaf => leaf.after_proper _) hchain
    fun leaf _ _ hrest => leaf.mapPaths_after sc.stacksPath
      (fun _ _ => resolve_of_stacksPath) hrest
  have hqualified := hstacks.mapPaths (fun leaf => leaf.after_proper _) hchain
    fun leaf _ _ hrest => leaf.mapPaths_after sc.qualifiedPath
      (fun hnot _ => resolve_of_qualifiedPath (by simpa using hnot)) hrest
  have hbare := hqualified.mapPaths (fun leaf => leaf.after_proper _) hchain
    fun leaf _ _ hrest => leaf.mapPaths_after sc.barePath
      (fun _ _ => resolve_of_barePath) hrest
  have hprinted : (fun leaf : sc.Leaf => leaf.after (false || (sc.stacksPath leaf.text).isSome ||
      (sc.qualifiedPath leaf.text).isSome || (sc.barePath leaf.text).isSome)) = Leaf.printed := by
    funext leaf
    obtain ⟨text, x, hreads⟩ := leaf
    cases hreads with
    | decimal hunsigned _ => rw [Leaf.printed, Leaf.after_decimal hunsigned, Leaf.after_decimal hunsigned]
    | path hstart _ hresolve _ _ => rw [Leaf.printed, Bool.false_or, isSome_of_resolve hresolve]
  rw [hprinted] at hbare
  exact hbare

/-! ## Reading back -/

/-- A printed operand is read as a number or as a signed one, and is
worth the number that was printed. -/
theorem Leaf.exists_read (leaf : sc.Leaf) : ∃ u : Term α, (∀ q, u.Within q) ∧
    (∀ rest, EndsRun rest →
      tokenize (leaf.printed ++ rest) = (tokenize rest).map (u.tokens ++ ·)) ∧
    OptionAlike u.value (some (.number leaf.number)) := by
  have hunsigned {ds : List Char} {y : α} (h : IsUnsigned ds) (hy : ofText ds = some y)
      {rest : List Char} (hrest : EndsRun rest) :
      tokenize (ds ++ rest) = (tokenize rest).map (Token.number y :: ·) :=
    tokenize_number h.1 h.2 hy hrest
  obtain ⟨text, x, hreads⟩ := leaf
  cases hreads with
  | decimal h hx =>
    rw [printed, after_decimal h]
    exact ⟨.number x, fun _ => .number x, fun _ hrest => hunsigned h hx hrest,
      .some (.number (.refl x))⟩
  | path hstart _ _ hfinite hback =>
    obtain ⟨y, hy, hsame⟩ := hback
    rw [printed, after_path rfl hstart]
    rcases PrintsPlainly.spell_cases hfinite with h | ⟨ds, hds, h⟩
    · exact ⟨.number y, fun _ => .number y, fun _ hrest => hunsigned h hy hrest,
        .some (.number hsame)⟩
    · rw [hds] at hy
      obtain ⟨z, hz, hminus⟩ := PrintsPlainly.ofText_minus h hy
      refine ⟨.signed .minus (.number z), fun _ => .signed .minus (.number z), fun rest hrest => ?_,
        .some (.number (hminus.trans hsame))⟩
      have hsign : tokenize (α := α) ('-' :: (ds ++ rest)) =
          (tokenize (ds ++ rest)).map (Token.operator .minus :: ·) := rfl
      simp only [if_true, hds, List.cons_append, hsign, hunsigned h hz hrest, Option.map_map]
      rfl

variable [SignlessZero α]

/-- What is read of a printed formula is worth what the formula is
worth. -/
theorem value_substituted {t : Term sc.Leaf} (hwithin : t.Within 0) {cs : List Char}
    (h : Renders (SpellsStrictly Leaf.printed) t.tokens cs) {allowed : Char → Bool}
    (hallowed : ∀ c ∈ cs, allowed c = true) :
    OptionAlike (Formula.evaluate allowed cs) (worth t).value := by
  choose g hg hread hvalue using fun leaf : sc.Leaf => leaf.exists_read
  rw [h.evaluate (fun leaf => leaf.after_proper true) hwithin hg (fun leaf _ => hread leaf) hallowed]
  exact Term.alike_fill fun leaf _ => hvalue leaf

theorem alike_arithmetic {t : Term sc.Leaf} (hwithin : t.Within 0) (hkind : t.HasKind .number)
    {cs : List Char} (h : Renders (Spells Leaf.printed) t.tokens cs) :
    OptionAlike (Formula.evaluate isArithmeticChar cs) (worth t).value := by
  have hchars {a : Token sc.Leaf} (ha : a ∈ t.tokens) {w : List Char}
      (hw : Spells Leaf.printed a w) : ∀ c ∈ w, isArithmeticChar c = true :=
    isArithmeticChar_of_spells (fun leaf => leaf.isPlainNumber_printed.forall_mem (by decide)
      isArithmeticChar_of_isNumberChar) (hkind.isArithmetic a ha) hw
  have hstrict : Renders (SpellsStrictly Leaf.printed) t.tokens cs := by
    refine h.mono fun a ha w hw => ⟨hw, ?_⟩
    rintro rfl
    exact absurd (hchars ha hw '=' List.mem_cons_self) (by decide)
  exact value_substituted hwithin hstrict
    (h.all (fun c => isArithmeticChar_of_isSeparator) fun a ha w hw => hchars ha hw)

theorem alike_condition {t : Term sc.Leaf} (hwithin : t.Within 0) {cs : List Char}
    (h : Renders (Spells Leaf.printed) t.tokens cs) :
    OptionAlike (Formula.evaluate isConditionChar (promote (normalize cs))) (worth t).value := by
  have hchars {a : Token sc.Leaf} {w : List Char} (hw : Spells Leaf.printed a w) :
      ∀ c ∈ w, isConditionChar c = true :=
    isConditionChar_of_spells (fun leaf => leaf.isPlainNumber_printed.forall_mem (by decide)
      fun hc => isConditionChar_of_isArithmeticChar (isArithmeticChar_of_isNumberChar hc)) hw
  have hgap {c : Char} (hc : isSeparator c = true) : isConditionChar c = true :=
    isConditionChar_of_isArithmeticChar (isArithmeticChar_of_isSeparator hc)
  have hpromoted : Renders (SpellsStrictly Leaf.printed) t.tokens (promote cs) :=
    h.promote (fun leaf => leaf.isPlainNumber_printed.ne_nil)
      (fun leaf => leaf.isPlainNumber_printed.forall_mem (by decide) isPlain_of_isNumberChar)
      (isChain_tokens t)
  rw [normalize_of_allowed (h.all (fun c => hgap) fun a _ w => hchars)]
  exact value_substituted hwithin hpromoted
    (hpromoted.all (fun c => hgap) fun a _ w hw => hchars hw.1)

/-- **What a scope says a written formula is worth.** A formula of the
grammar, written over decimals and paths with any blanks and any
spelling of its operators, is worth what its tree is worth with every
path standing for its number. Arithmetic is rounded down, and zero where
a divisor is zero or the result is not finite; a condition is false
where a divisor is zero. -/
theorem evaluate_written {t : Term sc.Leaf} (hwithin : t.Within 0) {cs : List Char}
    (hcs : Writes t cs) :
    (t.HasKind .number →
      (∀ x, (worth t).Evaluates (.number x) → isFinite x = true →
        Same (sc.evaluate cs) (floor x)) ∧
      (∀ x, (worth t).Evaluates (.number x) → isFinite x = false → sc.evaluate cs = 0) ∧
      ((worth t).DividesByZero → sc.evaluate cs = 0) ∧
      ((∃ x, (worth t).Evaluates (.number x)) ∨ (worth t).DividesByZero)) ∧
    (t.HasKind .truth →
      (∀ b, (worth t).Evaluates (.truth b) → sc.condition cs = b) ∧
      ((worth t).DividesByZero → sc.condition cs = false) ∧
      ((∃ b, (worth t).Evaluates (.truth b)) ∨ (worth t).DividesByZero)) := by
  have hprinted := renders_substitute hcs
  have hworth {k : Kind} (hkind : t.HasKind k) : (worth t).HasKind k :=
    hkind.fill fun leaf => .number leaf.number
  refine ⟨fun hkind => ?_, fun hkind => ?_⟩
  · have hvalue := alike_arithmetic hwithin hkind hprinted
    refine ⟨fun x hx hfinite => ?_, fun x hx hfinite => ?_, fun hzero => ?_, ?_⟩
    · rw [Term.value_eq_some_iff.mpr hx] at hvalue
      obtain ⟨y, hy, hsame⟩ := hvalue.exists_number
      rw [evaluate, Formula.amount, number?, hy]
      simp only [Option.bind_some, Value.number?, finite?, SignlessZero.isFinite hsame, hfinite,
        if_true]
      exact SignlessZero.floor hsame
    · rw [Term.value_eq_some_iff.mpr hx] at hvalue
      obtain ⟨y, hy, hsame⟩ := hvalue.exists_number
      rw [evaluate, Formula.amount, number?, hy]
      simp [Value.number?, finite?, SignlessZero.isFinite hsame, hfinite]
    · rw [Term.value_of_dividesByZero hzero] at hvalue
      rw [evaluate, Formula.amount, number?, hvalue.eq_none]
      rfl
    · rcases Term.evaluates_or_dividesByZero (hworth hkind) with ⟨v, hv, hnumber⟩ | hzero
      · obtain ⟨x, rfl⟩ := v.eq_number_of_kind hnumber
        exact .inl ⟨x, hv⟩
      · exact .inr hzero
  · have hvalue := alike_condition hwithin hprinted
    refine ⟨fun b hb => ?_, fun hzero => ?_, ?_⟩
    · rw [Term.value_eq_some_iff.mpr hb] at hvalue
      rw [condition, Formula.holds, hvalue.eq_truth]
      rfl
    · rw [Term.value_of_dividesByZero hzero] at hvalue
      rw [condition, Formula.holds, hvalue.eq_none]
      rfl
    · rcases Term.evaluates_or_dividesByZero (hworth hkind) with ⟨v, hv, htruth⟩ | hzero
      · obtain ⟨b, rfl⟩ := v.eq_truth_of_kind htruth
        exact .inl ⟨b, hv⟩
      · exact .inr hzero


/-- A player whose damage is lowered by two and a half. -/
def weakened : Scope Double where
  battle := .start
    (.fresh { Fighter.fresh "Player" (Scalar.ofNat 20) (Scalar.ofNat 100) with
      modifiers := [("damage_modifier", ⟨0xC004000000000000⟩)] } (Scalar.ofNat 3))
    ⟨.fresh "Enemy" (Scalar.ofNat 15) (Scalar.ofNat 100), [], 0⟩ 0
  codex := .empty
  me := .player
  bare := .player
  energyBefore := none

/-- A negative fraction after a minus sign: `7--2.5 * 2`. -/
theorem evaluate_written_weakened :
    let text := "7-damage_modifier * 2".toList
    ∃ t : Term weakened.Leaf, t.Within 0 ∧ Writes t text ∧ t.HasKind .number ∧
      Same (weakened.evaluate text) (Scalar.ofNat 12) := by
  intro text
  have hpath : weakened.Reads ('d' :: "amage_modifier".toList) ⟨0xC004000000000000⟩ :=
    .path (by decide) (by decide) (by decide +kernel) (by decide)
      ⟨⟨0xC004000000000000⟩, by decide +kernel, .refl _⟩
  have hseven : weakened.Reads ['7'] (Scalar.ofNat 7) :=
    .decimal ⟨by decide, by decide⟩ (by decide +kernel)
  have htwo : weakened.Reads ['2'] (Scalar.ofNat 2) :=
    .decimal ⟨by decide, by decide⟩ (by decide +kernel)
  let t : Term weakened.Leaf := .binary .minus (.number ⟨_, _, hseven⟩)
    (.binary .times (.number ⟨_, _, hpath⟩) (.number ⟨_, _, htwo⟩))
  have hwithin : t.Within 0 :=
    .binary (by decide) (.number _) (.binary (by decide) (.number _) (.number _))
  have hblank : IsGap [' '] := by simp [IsGap, isSeparator]
  have hnone : IsGap [] := by simp [IsGap]
  have htext : text = [] ++ (['7'] ++ ([] ++ (['-'] ++ ([] ++ ('d' :: "amage_modifier".toList ++
      ([' '] ++ (['*'] ++ ([' '] ++ (['2'] ++ []))))))))) := by decide
  have hwrites : Writes t text := by
    rw [htext]
    exact .cons hnone rfl (.cons hnone (by decide : ['-'] ∈ Operator.minus.spellings)
      (.cons hnone rfl (.cons hblank (by decide : ['*'] ∈ Operator.times.spellings)
        (.cons hblank rfl (.nil hnone)))))
  have hkind : t.HasKind .number :=
    .binary .minus (.number _) (.binary .times (.number _) (.number _) (by simp [Operator.asks]))
      (by simp [Operator.asks, Operator.gives])
  have htwelve : (ofNat 7 : Double) - ⟨0xC004000000000000⟩ * ofNat 2 = ofNat 12 := by
    decide +kernel
  have hvalue : (worth t).Evaluates (.number (ofNat 12)) := by
    rw [← htwelve]
    exact .subtract (.number _) (.multiply (.number _) (.number _))
  obtain ⟨hfloor, -⟩ := (evaluate_written hwithin hwrites).1 hkind
  have hsame := hfloor (ofNat 12) hvalue (by decide)
  have hinteger : floor (ofNat 12 : Double) = ofNat 12 := by decide +kernel
  rw [hinteger] at hsame
  exact ⟨t, hwithin, hwrites, hkind, hsame⟩

end Scope

end DeckDuel
