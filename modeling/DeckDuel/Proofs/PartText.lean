/-
DeckDuel.Proofs.PartText — the parts of units as they are written.

* `Effect.WritesOperand`, `Effect.WritesChange`, `Effect.WritesPayload` —
  the texts of an operand, of `op value` and of a status payload.
* `Effect.isOperandChar_of_classify` — every operand is made of the
  characters of arithmetic, so no colon of a payload stands in one.
* `Effect.WritesChange.read`, `Effect.readVerb_group`,
  `Effect.readPayload_writes`, `Effect.readGroups_bracket` — each part is
  read as what it writes.
-/
import DeckDuel.Effect.Parser
import DeckDuel.Proofs.SelectorText

namespace DeckDuel.Effect

open DeckDuel.Text

variable {α : Type} [Scalar α]

/-! ## Writing -/

/-- The text between parentheses. -/
def group (cs : List Char) : List Char := '(' :: (cs ++ [')'])

/-- The text between square brackets. -/
def bracket (cs : List Char) : List Char := '[' :: (cs ++ [']'])

/-- A text that may stand between parentheses. -/
def IsInner (cs : List Char) : Prop := Trimmed cs ∧ Balanced '(' ')' cs

/-- A text that may stand between square brackets. -/
def IsPart (cs : List Char) : Prop := Trimmed cs ∧ Balanced '[' ']' cs

/-- The texts of an operand: whatever is classified as it. -/
def WritesOperand (v : List Char) (x : Operand α) : Prop := Trimmed v ∧ classify v = .ok x

/-- The texts of `op value`; blanks may stand before the operator and
after it. -/
inductive WritesChange : Arith × Operand α → List Char → Prop where
  | mk {op : Arith} {x : Operand α} {gap gap' v : List Char} : (∀ c ∈ gap, isBlank c = true) →
      (∀ c ∈ gap', isBlank c = true) → WritesOperand v x →
      WritesChange (op, x) (gap ++ op.symbol :: (gap' ++ v))

/-- The texts of an operand inside a payload. -/
def WritesAmount (v : List Char) (x : Operand α) : Prop :=
  WritesOperand v x ∧ Balanced '(' ')' v ∧ ∀ c ∈ v, isBlank c = false

/-- The ids of statuses. -/
def IsStatusId (id : List Char) : Prop := id ≠ [] ∧ ∀ c ∈ id, isIdChar c = true

/-- What stands between the id of a status and the amount. -/
def IsDelimiter (c : Char) : Prop := c = ':' ∨ isBlank c = true

/-- The texts of a status payload. -/
inductive WritesPayload : Payload α → List Char → Prop where
  | id {id : List Char} : IsStatusId id → WritesPayload (String.ofList id, none, none) id
  | amount {id v : List Char} {x : Operand α} {c : Char} : IsStatusId id → IsDelimiter c →
      WritesAmount v x → WritesPayload (String.ofList id, some x, none) (id ++ c :: v)
  | duration {id v ds : List Char} {x : Operand α} {c b : Char} {n : Nat} : IsStatusId id →
      IsDelimiter c → WritesAmount v x → isBlank b = true → Selector.WritesNat (1 <<< 32) n ds →
      WritesPayload (String.ofList id, some x, some n) (id ++ c :: (v ++ b :: ds))

/-! ## Operands -/

theorem classify_nil : (classify [] : Except (List Char) (Operand α)) = .error [] := by
  rfl

theorem WritesOperand.ne_nil {v : List Char} {x : Operand α} (h : WritesOperand v x) : v ≠ [] := by
  rintro rfl
  rw [WritesOperand, classify_nil] at h
  cases h.2

theorem readValue_writes {v : List Char} {x : Operand α} (h : WritesOperand v x) :
    readValue v = .ok x := by
  rw [readValue, h.2]

theorem isOperandChar_of_isWordChar {c : Char} (h : isWordChar c = true) : isOperandChar c = true := by
  simp [isOperandChar, h]

theorem isOperandChar_of_isDigit {c : Char} (h : c.isDigit = true) : isOperandChar c = true :=
  isOperandChar_of_isWordChar (by simp [isWordChar, Char.isAlphanum, h])

/-- A path is made of words and points. -/
theorem isOperandChar_of_isPathFrom {start : Bool} {cs : List Char} (h : isPathFrom start cs = true) :
    ∀ c ∈ cs, isOperandChar c = true := by
  induction cs generalizing start with
  | nil => simp
  | cons c cs ih =>
    simp only [isPathFrom] at h
    rw [List.forall_mem_cons]
    split at h
    · simp only [Bool.and_eq_true, isWordStart, Bool.or_eq_true] at h
      refine ⟨isOperandChar_of_isWordChar ?_, ih h.2⟩
      simp only [isWordChar, Char.isAlphanum, Bool.or_eq_true]
      exact h.1.imp_left .inl
    · split at h
      · next hpoint =>
        subst hpoint
        exact ⟨rfl, ih h⟩
      · rw [Bool.and_eq_true] at h
        exact ⟨isOperandChar_of_isWordChar h.1, ih h.2⟩

theorem isAlpha_of_toLower_isLower {c : Char} (h : c.toLower.isLower = true) : c.isAlpha = true := by
  rw [isAlpha_iff]
  unfold Char.toLower at h
  split at h
  · next hrange =>
    exact .inl (isUpper_iff.mpr hrange)
  · exact .inr h

/-- The words for special numbers are made of letters. -/
theorem isOperandChar_of_readWord {negative : Bool} {cs : List Char} {n : Numeral}
    (h : Numeral.readWord negative cs = some n) : ∀ c ∈ cs, isOperandChar c = true := by
  have hlower : ∀ d ∈ cs.map Char.toLower, d.isLower = true := by
    unfold Numeral.readWord at h
    dsimp only at h
    split at h
    · next hword =>
      simp only [Bool.or_eq_true, decide_eq_true_eq] at hword
      rcases hword with hword | hword <;> rw [hword] <;> decide
    · split at h
      · next hword =>
        rw [hword]
        decide
      · cases h
  intro c hc
  refine isOperandChar_of_isWordChar ?_
  have halpha : c.isAlpha = true := isAlpha_of_toLower_isLower (hlower _ (List.mem_map_of_mem hc))
  simp [isWordChar, Char.isAlphanum, halpha]

theorem isOperandChar_of_readExponent {cs : List Char} {e : Int}
    (h : Numeral.readExponent cs = some e) : ∀ c ∈ cs, isOperandChar c = true := by
  cases cs with
  | nil => simp
  | cons c cs =>
    simp only [Numeral.readExponent, Option.ite_none_right_eq_some, Bool.or_eq_true,
      decide_eq_true_eq] at h
    obtain ⟨hmark, h⟩ := h
    rw [List.forall_mem_cons]
    refine ⟨by rcases hmark with rfl | rfl <;> rfl, ?_⟩
    cases cs with
    | nil => cases h
    | cons s ds =>
      dsimp only at h
      rw [Option.ite_none_left_eq_some, not_or, Bool.not_eq_true, Bool.not_eq_true,
        Bool.not_eq_false'] at h
      have hdigits := List.all_eq_true.mp h.1.2
      by_cases hsign : s = '+' ∨ s = '-'
      · rw [if_pos hsign] at hdigits
        rw [List.forall_mem_cons]
        refine ⟨?_, fun d hd => isOperandChar_of_isDigit (hdigits d hd)⟩
        rcases hsign with rfl | rfl <;> rfl
      · rw [if_neg hsign] at hdigits
        exact fun d hd => isOperandChar_of_isDigit (hdigits d hd)

theorem isOperandChar_of_readDecimal {negative : Bool} {cs : List Char} {n : Numeral}
    (h : Numeral.readDecimal negative cs = some n) : ∀ c ∈ cs, isOperandChar c = true := by
  -- a run of digits, and what is read after it
  have hrun {cs : List Char} (hrest : ∀ c ∈ cs.dropWhile Char.isDigit, isOperandChar c = true) :
      ∀ c ∈ cs, isOperandChar c = true := by
    intro c hc
    rw [← List.takeWhile_append_dropWhile (p := Char.isDigit) (l := cs), List.mem_append] at hc
    rcases hc with hc | hc
    · exact isOperandChar_of_isDigit (List.all_eq_true.mp List.all_takeWhile c hc)
    · exact hrest c hc
  refine hrun ?_
  unfold Numeral.readDecimal at h
  dsimp only at h
  split at h
  · next r hpoint =>
    obtain ⟨e, he, -⟩ := Option.map_eq_some_iff.mp (Option.ite_none_left_eq_some.mp h).2
    rw [hpoint, List.forall_mem_cons]
    exact ⟨rfl, hrun (isOperandChar_of_readExponent he)⟩
  · obtain ⟨e, he, -⟩ := Option.map_eq_some_iff.mp (Option.ite_none_left_eq_some.mp h).2
    exact isOperandChar_of_readExponent he

theorem isOperandChar_of_read {cs : List Char} {n : Numeral} (h : Numeral.read cs = some n) :
    ∀ c ∈ cs, isOperandChar c = true := by
  have hbody {negative : Bool} {cs : List Char}
      (h : ((Numeral.readDecimal negative cs).orElse fun _ => Numeral.readWord negative cs) = some n) :
      ∀ c ∈ cs, isOperandChar c = true := by
    cases hdecimal : Numeral.readDecimal negative cs with
    | none =>
      rw [hdecimal] at h
      exact isOperandChar_of_readWord h
    | some m => exact isOperandChar_of_readDecimal hdecimal
  unfold Numeral.read at h
  split at h
  next negative body hsign =>
  split at hsign
  · cases hsign
    exact List.forall_mem_cons.mpr ⟨rfl, hbody h⟩
  · cases hsign
    exact List.forall_mem_cons.mpr ⟨rfl, hbody h⟩
  · cases hsign
    exact hbody h

/-- Every operand is made of the characters of arithmetic. -/
theorem isOperandChar_of_classify {text : List Char} {x : Operand α} (h : classify text = .ok x) :
    ∀ c ∈ trim text, isOperandChar c = true := by
  unfold classify at h
  dsimp only at h
  split at h
  · next y hliteral =>
    unfold literal? at hliteral
    split at hliteral
    · cases hliteral
    · obtain ⟨-, hnumber⟩ := Option.ite_none_right_eq_some.mp hliteral
      obtain ⟨z, hz, -⟩ := Option.bind_eq_some_iff.mp hnumber
      obtain ⟨n, hn, -⟩ := Option.bind_eq_some_iff.mp hz
      exact isOperandChar_of_read hn
  · split at h
    · next hpath => exact isOperandChar_of_isPathFrom hpath
    · split at h
      · next hall =>
        rw [Bool.and_eq_true] at hall
        exact List.all_eq_true.mp hall.2
      · cases h

theorem WritesOperand.ne_colon {v : List Char} {x : Operand α} (h : WritesOperand v x) :
    ∀ c ∈ v, c ≠ ':' := by
  intro c hc
  have hchar : isOperandChar c = true := isOperandChar_of_classify h.2 c (by rwa [show trim v = v from h.1])
  rintro rfl
  exact absurd hchar (by decide)

/-! ## Changes -/

@[simp] theorem isBlank_symbol (op : Arith) : isBlank op.symbol = false := by
  cases op <;> decide

@[simp] theorem ofSymbol?_symbol (op : Arith) : Arith.ofSymbol? op.symbol = some op := by
  cases op <;> decide

theorem isWordChar_symbol (op : Arith) : isWordChar op.symbol = false := by
  cases op <;> decide

/-- An operator is no mark of another part. -/
theorem symbol_ne (op : Arith) {c : Char} (h : c ∈ ['(', '[', '.']) : op.symbol ≠ c := by
  revert c
  cases op <;> decide

/-- The end of an operand ends the text that it stands in. -/
theorem WritesOperand.endsVisible {v : List Char} {x : Operand α} (h : WritesOperand v x)
    (before : List Char) : EndsVisible (before ++ v) :=
  (trimmed_iff.mp h.1).2.append h.ne_nil before

/-- Blanks before a word character end the word before them. -/
theorem endsWord_blanks {gap cs : List Char} (h : ∀ c ∈ gap, isBlank c = true) (hcs : EndsWord cs) :
    EndsWord (gap ++ cs) := by
  cases gap with
  | nil => exact hcs
  | cons b gap =>
    intro c hc
    cases hc
    rw [← Bool.not_eq_true]
    intro hword
    have hblank : isBlank b = true := h b List.mem_cons_self
    rw [isBlank_of_isWordChar hword] at hblank
    cases hblank

/-- From its operator on a change is trimmed. -/
theorem trimmed_symbol (op : Arith) {x : Operand α} {gap v : List Char} (hv : WritesOperand v x) :
    Trimmed (op.symbol :: (gap ++ v)) :=
  trimmed_cons (isBlank_symbol op) (hv.endsVisible (op.symbol :: gap))

theorem readChange_of_trim {op : Arith} {x : Operand α} {gap v w : List Char}
    (hgap : ∀ c ∈ gap, isBlank c = true) (hv : WritesOperand v x)
    (h : trim w = op.symbol :: (gap ++ v)) : readChange w = .ok (op, x) := by
  have hvalue : trim (gap ++ v) = v := trim_blanks hgap hv.1
  have hempty : v.isEmpty = false := by simpa using hv.ne_nil
  simp [readChange, h, need, hvalue, hempty, readValue_writes hv, bind, Except.bind]

namespace WritesChange

variable {op : Arith} {x : Operand α} {w : List Char}

theorem read (h : WritesChange (op, x) w) : readChange w = .ok (op, x) := by
  cases h with
  | mk hgap hgap' hv => exact readChange_of_trim hgap' hv (trim_blanks hgap (trimmed_symbol op hv))

/-- Without the blanks before it a change starts with its operator, and
is read all the same. -/
theorem exists_trimStart (h : WritesChange (op, x) w) :
    ∃ rest, trimStart w = op.symbol :: rest ∧ readChange (op.symbol :: rest) = .ok (op, x) := by
  cases h with
  | @mk _ _ gap gap' v hgap hgap' hv =>
    have htrimmed : Trimmed (op.symbol :: (gap' ++ v)) := trimmed_symbol op hv
    refine ⟨gap' ++ v, trimStart_blanks hgap (trimmed_iff.mp htrimmed).1, ?_⟩
    exact readChange_of_trim hgap' hv htrimmed

theorem endsWord (h : WritesChange (op, x) w) : EndsWord w := by
  cases h with
  | mk hgap _ _ =>
    refine endsWord_blanks hgap fun c hc => ?_
    cases hc
    exact isWordChar_symbol op

theorem isBlankText (h : WritesChange (op, x) w) : Text.isBlankText w = false := by
  cases h with
  | mk _ _ _ => simp [Text.isBlankText]

theorem endsVisible (h : WritesChange (op, x) w) (before : List Char) : EndsVisible (before ++ w) := by
  cases h with
  | @mk _ _ gap gap' _ _ _ hv => simpa using hv.endsVisible (before ++ gap ++ op.symbol :: gap')

end WritesChange

/-! ## Groups -/

theorem endsVisible_group (before cs : List Char) : EndsVisible (before ++ group cs) := by
  simpa [group] using
    endsVisible_append_singleton (show isBlank ')' = false by decide) (before ++ '(' :: cs)

theorem endsVisible_bracket (before cs : List Char) : EndsVisible (before ++ bracket cs) := by
  simpa [bracket] using
    endsVisible_append_singleton (show isBlank ']' = false by decide) (before ++ '[' :: cs)

/-- A group in parentheses is read as what it holds. -/
theorem parenthesized_group {cs : List Char} (h : IsInner cs) : parenthesized (group cs) = .ok cs := by
  have htrim : trim ('(' :: (cs ++ [')'])) = '(' :: (cs ++ [')']) :=
    trimmed_cons (by decide) (endsVisible_append_singleton (by decide) ('(' :: cs))
  have hclose := closing?_group (show '(' ≠ ')' by decide) h.2 []
  have hinner : trim cs = cs := h.1
  have hnil : trim [] = [] := rfl
  simp [parenthesized, group, htrim, hclose, hinner, hnil]

theorem endsWord_group (cs : List Char) : EndsWord (group cs) := by
  intro c hc
  cases hc
  decide

theorem readVerb_group (v : Verb) {payload : List Char} (h : IsInner payload) :
    readVerb ('.' :: (v.name.toList ++ group payload)) = .ok (v, payload) := by
  have hname : IsWord v.name.toList := by cases v <;> exact ⟨by decide, by decide⟩
  have hverb : Verb.ofName? v.name = some v := by cases v <;> decide
  simp [readVerb, word?_append hname (endsWord_group payload), need, hverb, parenthesized_group h,
    bind, Except.bind]

/-- A balanced text lies inside the open group. By induction on the
brackets. -/
theorem readGroups_balanced {cs : List Char} (h : Balanced '[' ']' cs) (depth : Nat)
    (rest : List Char) : readGroups (some depth) (cs ++ rest) =
      (readGroups (some depth) rest).map fun r => (cs ++ r.1, r.2) := by
  induction h generalizing depth rest with
  | nil => simp
  | char hopen hclose _ ih => simp [readGroups, hopen, hclose, ih, Function.comp_def]
  | @group a b _ _ iha ihb =>
    have happend : '[' :: (a ++ ']' :: b) ++ rest = '[' :: (a ++ ']' :: (b ++ rest)) := by simp
    rw [happend]
    simp [readGroups, iha, ihb, Function.comp_def]

/-- A group in square brackets is the first of the groups. -/
theorem readGroups_bracket {cs : List Char} (h : Balanced '[' ']' cs) (rest : List Char) :
    readGroups none (bracket cs ++ rest) =
      (readGroups none rest).map fun r => ([], cs :: r.2.1, r.2.2) := by
  have happend : bracket cs ++ rest = '[' :: (cs ++ ']' :: rest) := by simp [bracket]
  have hblank : isBlank '[' = false := by decide
  rw [happend]
  simp [readGroups, hblank, readGroups_balanced h, Function.comp_def]

/-! ## Payloads -/

theorem isBlank_of_isIdChar {c : Char} (h : isIdChar c = true) : isBlank c = false := by
  rw [isIdChar, Bool.or_eq_true, beq_iff_eq] at h
  rcases h with h | rfl
  · exact isBlank_of_isWordChar h
  · decide

/-- The marks of payloads and groups are no characters of ids. -/
theorem ne_of_isIdChar {c d : Char} (h : isIdChar c = true) (hd : isIdChar d = false) : c ≠ d := by
  rintro rfl
  rw [h] at hd
  cases hd

theorem IsStatusId.no_blank {id : List Char} (h : IsStatusId id) : ∀ c ∈ id, isBlank c = false :=
  fun c hc => isBlank_of_isIdChar (h.2 c hc)

theorem IsStatusId.trimmed {id : List Char} (h : IsStatusId id) : Trimmed id :=
  trimmed_of_forall h.no_blank

theorem IsStatusId.no_colon {id : List Char} (h : IsStatusId id) : ∀ c ∈ id, (c == ':') = false :=
  fun c hc => beq_eq_false_iff_ne.mpr (ne_of_isIdChar (h.2 c hc) (by decide))

theorem IsStatusId.balanced {id : List Char} (h : IsStatusId id) : Balanced '(' ')' id :=
  balanced_of_forall fun c hc =>
    ⟨ne_of_isIdChar (h.2 c hc) (by decide), ne_of_isIdChar (h.2 c hc) (by decide)⟩

theorem IsDelimiter.ne_parenthesis {c : Char} (h : IsDelimiter c) : c ≠ '(' ∧ c ≠ ')' := by
  rcases h with rfl | h
  · decide
  · constructor <;> (rintro rfl; exact absurd h (by decide))

/-- The id ends at its delimiter. The text after it holds no colon, so a
blank is not passed over for one. -/
theorem splitPayload_append {id tail : List Char} {c : Char} (hid : IsStatusId id)
    (hc : IsDelimiter c) (htail : Trimmed tail) (hcolon : ∀ d ∈ tail, d ≠ ':') :
    splitPayload (id ++ c :: tail) = (id, tail) := by
  have hidTrim : trim id = id := hid.trimmed
  have htailTrim : trim tail = tail := htail
  by_cases hmark : c = ':'
  · subst hmark
    rw [splitPayload, cutAt?_mark hid.no_colon (by decide)]
    simp [hidTrim, htailTrim]
  · have hblank : isBlank c = true := hc.resolve_left hmark
    have hnone : cutAt? (· == ':') (id ++ c :: tail) = none := by
      refine cutAt?_eq_none fun d hd => ?_
      rw [List.mem_append, List.mem_cons] at hd
      rcases hd with hd | rfl | hd
      · exact hid.no_colon d hd
      · exact beq_eq_false_iff_ne.mpr hmark
      · exact beq_eq_false_iff_ne.mpr (hcolon d hd)
    rw [splitPayload, hnone, cutAt?_mark hid.no_blank hblank]
    simp [hidTrim, htailTrim]

theorem splitPayload_id {id : List Char} (hid : IsStatusId id) : splitPayload id = (id, []) := by
  have hidTrim : trim id = id := hid.trimmed
  rw [splitPayload, cutAt?_eq_none hid.no_colon, cutAt?_eq_none hid.no_blank]
  simp [hidTrim]

theorem count32?_writes {n : Nat} {ds : List Char} (h : Selector.WritesNat (1 <<< 32) n ds) :
    count32? ds = some n := by
  obtain ⟨hne, hall, hn, hlt⟩ := h
  have hcount : Selector.count? ds = some n :=
    Selector.count?_digits (.inl rfl) ⟨hne, hall, hn, Nat.lt_trans hlt (by decide)⟩
  rw [count32?, hcount, Option.bind_some, if_pos hlt]

/-- A status payload is read as what it writes. -/
theorem readPayload_writes {payload : Payload α} {w : List Char} (h : WritesPayload payload w) :
    readPayload w = .ok payload := by
  have hid {id : List Char} (hid : IsStatusId id) : (id.isEmpty || !id.all isIdChar) = false := by
    have hne : id.isEmpty = false := by simpa using hid.1
    have hall : id.all isIdChar = true := List.all_eq_true.mpr hid.2
    simp [hne, hall]
  cases h with
  | @id id h => simp [readPayload, splitPayload_id h, hid h]
  | @amount id v x c h hc hv =>
    obtain ⟨hoperand, -, hblank⟩ := hv
    have hwords : words v = [v] := words_run hoperand.ne_nil hblank
    simp [readPayload, splitPayload_append h hc hoperand.1 hoperand.ne_colon, hid h, hwords,
      readValue_writes hoperand, bind, Except.bind]
  | @duration id v ds x c b n h hc hv hb hn =>
    obtain ⟨hoperand, -, hblank⟩ := hv
    have hwords : words (v ++ b :: ds) = [v, ds] := by
      rw [words_append hoperand.ne_nil hblank (by simpa using hb), words_blank hb,
        words_run hn.1 hn.no_blank]
    have htail : Trimmed (v ++ b :: ds) := by
      simpa using hoperand.1.append hoperand.ne_nil (trimmed_of_forall hn.no_blank) hn.1 [b]
    have hcolon : ∀ d ∈ v ++ b :: ds, d ≠ ':' := by
      intro d hd
      rw [List.mem_append, List.mem_cons] at hd
      rcases hd with hd | rfl | hd
      · exact hoperand.ne_colon d hd
      · rintro rfl
        exact absurd hb (by decide)
      · rintro rfl
        exact absurd (hn.isWordChar _ hd) (by decide)
    simp [readPayload, splitPayload_append h hc htail hcolon, hid h, hwords,
      readValue_writes hoperand, count32?_writes hn, need, bind, Except.bind]

/-- A payload starts with the id. -/
theorem IsStatusId.trimmed_append {id tail : List Char} (h : IsStatusId id)
    (hlast : EndsVisible (id ++ tail)) : Trimmed (id ++ tail) := by
  obtain ⟨hne, hall⟩ := h
  cases id with
  | nil => exact absurd rfl hne
  | cons c id => exact trimmed_cons (isBlank_of_isIdChar (hall c List.mem_cons_self)) hlast

/-- A written payload may stand between parentheses. -/
theorem WritesPayload.isInner {payload : Payload α} {w : List Char} (h : WritesPayload payload w) :
    IsInner w := by
  cases h with
  | id h => exact ⟨h.trimmed, h.balanced⟩
  | @amount id v x c h hc hv =>
    obtain ⟨hoperand, hbalanced, -⟩ := hv
    obtain ⟨hopen, hclose⟩ := hc.ne_parenthesis
    refine ⟨h.trimmed_append ?_, h.balanced.append (.char hopen hclose hbalanced)⟩
    simpa using hoperand.endsVisible (id ++ [c])
  | @duration id v ds x c b n h hc hv hb hn =>
    obtain ⟨hoperand, hbalanced, -⟩ := hv
    obtain ⟨hopen, hclose⟩ := hc.ne_parenthesis
    obtain ⟨hopen', hclose'⟩ := IsDelimiter.ne_parenthesis (.inr hb)
    have hdigits : ∀ d ∈ ds, isIdChar d = true := fun d hd => by simp [isIdChar, hn.isWordChar d hd]
    have hds : IsStatusId ds := ⟨hn.1, hdigits⟩
    refine ⟨h.trimmed_append ?_,
      h.balanced.append (.char hopen hclose (hbalanced.append (.char hopen' hclose' hds.balanced)))⟩
    simpa using (trimmed_iff.mp hds.trimmed).2.append hn.1 (id ++ c :: (v ++ [b]))

end DeckDuel.Effect
