/-
DeckDuel.Proofs.Rendering — formulas written out as text, and what a
pass over the text makes of it.

* `Renders` — a text writes out a list of tokens: each token in one of
  its spellings, with any blanks between them. A list of tokens has many
  renderings.
* `isChain_tokens` — in the tokens of a formula an operand never follows
  an operand, nor an operator an operator that opens none. So in a
  rendering every token is followed by a character that cannot belong to
  it (`Renders.fits`), however few blanks there are.
* `Renders.map` — a pass that goes through a text token by token turns a
  rendering into another one. `Renders.mapPaths` and `Renders.promote`
  are the two passes there are.
* `Renders.tokenize` — the tokenizer finds the tokens that were
  rendered, or what is written in the place of an operand.
-/
import DeckDuel.Proofs.Kinds
import DeckDuel.Proofs.Paths
import DeckDuel.Proofs.Promotion
import Mathlib.Data.List.Chain

namespace DeckDuel.Formula

open DeckDuel.Variable

variable {α β γ : Type}

/-! ## What may follow what -/

/-- May the token open an operand? -/
def Token.opens : Token β → Bool
  | .number _ | .operator .plus | .operator .minus | .not | .opening => true
  | .operator _ | .closing => false

/-- Does the token close an operand? -/
def Token.closes : Token β → Bool
  | .number _ | .closing => true
  | .operator _ | .not | .opening => false

/-- May the token come after an operand? -/
def Token.continues : Token β → Bool
  | .operator _ | .closing => true
  | .number _ | .not | .opening => false

/-- After an operand the formula goes on or the group ends; anywhere else
an operand has to begin. -/
def Follows (a b : Token β) : Prop := if a.closes then b.continues = true else b.opens = true

theorem isChain_cons_sign {ts : List (Token β)} (s : Sign) (h : ts.IsChain Follows)
    (hopens : ∀ b ∈ ts.head?, b.opens = true) : (s.token :: ts).IsChain Follows := by
  refine List.isChain_cons.mpr ⟨fun b hb => ?_, h⟩
  cases s <;> exact hopens b hb

/-- The tokens of a formula follow one another and open an operand,
whatever comes after them, if the formula may be followed by it. By
induction on the formula: what comes after its left operand is the
operator. -/
theorem isChain_tokens_append (t : Term β) {ts : List (Token β)} (hts : ts.IsChain Follows)
    (hnext : ∀ b ∈ ts.head?, b.continues = true) : (t.tokens ++ ts).IsChain Follows ∧
      ∀ a ∈ (t.tokens ++ ts).head?, a.opens = true := by
  induction t generalizing ts with
  | number b =>
    refine ⟨List.isChain_cons.mpr ⟨fun c hc => hnext c hc, hts⟩, ?_⟩
    simp [Term.tokens, Token.opens]
  | signed s t ih =>
    obtain ⟨hchain, hopens⟩ := ih hts hnext
    refine ⟨isChain_cons_sign s hchain hopens, ?_⟩
    cases s <;> simp [Term.tokens, Sign.token, Token.opens]
  | binary o l r ihl ihr =>
    obtain ⟨hchain, hopens⟩ := ihr hts hnext
    have hright : (.operator o :: (r.tokens ++ ts)).IsChain Follows :=
      List.isChain_cons.mpr ⟨fun b hb => hopens b hb, hchain⟩
    have hleft := ihl hright (by simp [Token.continues])
    simpa [Term.tokens] using hleft
  | group t ih =>
    have hclosing : (.closing :: ts).IsChain Follows :=
      List.isChain_cons.mpr ⟨fun b hb => hnext b hb, hts⟩
    obtain ⟨hchain, hopens⟩ := ih hclosing (by simp [Token.continues])
    have hgroup : (.opening :: (t.tokens ++ .closing :: ts)).IsChain Follows :=
      List.isChain_cons.mpr ⟨fun b hb => hopens b hb, hchain⟩
    simpa [Term.tokens, Token.opens] using hgroup

theorem isChain_tokens (t : Term β) : t.tokens.IsChain Follows := by
  simpa using (isChain_tokens_append t List.isChain_nil (by simp)).1

/-! ## Renderings -/

/-- Blanks between tokens. -/
def IsGap (gap : List Char) : Prop := ∀ c ∈ gap, isSeparator c = true

/-- The ways to write an operator. -/
def Operator.spellings : Operator → List (List Char)
  | .or => [['|', '|']]
  | .and => [['&', '&']]
  | .equal => [['='], ['=', '='], ['=', '=', '=']]
  | .unequal => [['!', '='], ['!', '=', '=']]
  | .less => [['<']]
  | .lessEq => [['<', '=']]
  | .greater => [['>']]
  | .greaterEq => [['>', '=']]
  | .plus => [['+']]
  | .minus => [['-']]
  | .times => [['*']]
  | .dividedBy => [['/']]

/-- A text writes a token, with `spell` for the operands. -/
def Spells (spell : β → List Char) : Token β → List Char → Prop
  | .number b, w => w = spell b
  | .operator o, w => w ∈ o.spellings
  | .not, w => w = ['!']
  | .opening, w => w = ['(']
  | .closing, w => w = [')']

/-- The same without the lone equals sign, which the tokenizer does not
know. -/
def SpellsStrictly (spell : β → List Char) (a : Token β) (w : List Char) : Prop :=
  Spells spell a w ∧ w ≠ ['=']

/-- A text writes out tokens, with any blanks around them. -/
inductive Renders (spells : Token β → List Char → Prop) : List (Token β) → List Char → Prop where
  | nil {gap : List Char} : IsGap gap → Renders spells [] gap
  | cons {gap w rest : List Char} {a : Token β} {ts : List (Token β)} : IsGap gap → spells a w →
      Renders spells ts rest → Renders spells (a :: ts) (gap ++ (w ++ rest))

theorem isPathChar_of_isSeparator {c : Char} (h : isSeparator c = true) : isPathChar c = false := by
  simp only [isSeparator, Bool.or_eq_true, beq_iff_eq] at h
  rcases h with ((rfl | rfl) | rfl) | rfl <;> decide

theorem isBlank_of_isSeparator {c : Char} (h : isSeparator c = true) : Text.isBlank c = true := by
  simp only [isSeparator, Bool.or_eq_true, beq_iff_eq] at h
  rcases h with ((rfl | rfl) | rfl) | rfl <;> decide

theorem endsRun_gap {gap rest : List Char} (h : IsGap gap) (hrest : EndsRun rest) :
    EndsRun (gap ++ rest) := by
  cases gap with
  | nil => exact hrest
  | cons c gap => exact endsRun_cons (isPathChar_of_isSeparator (h c List.mem_cons_self))

theorem ne_equals_of_isSeparator {c : Char} (h : isSeparator c = true) : c ≠ '=' := by
  rintro rfl
  exact absurd h (by decide)

theorem isPlain_of_isSeparator {c : Char} (h : isSeparator c = true) : isPlain c = true := by
  simp only [isSeparator, Bool.or_eq_true, beq_iff_eq] at h
  rcases h with ((rfl | rfl) | rfl) | rfl <;> decide

/-- What is written for a token is not empty, cannot go on with an
operand before it unless it is one, and does not start with an equals
sign where an operand has to begin. -/
structure Delimits (spells : Token β → List Char → Prop) : Prop where
  ne_nil : ∀ {a w}, spells a w → w ≠ []
  endsRun : ∀ {a w}, spells a w → a.continues = true → EndsRun w
  noEquals : ∀ {a w}, spells a w → a.opens = true → NoEquals w

theorem delimits_spells {spell : β → List Char}
    (h : ∀ b, spell b ≠ [] ∧ NoEquals (spell b)) : Delimits (Spells spell) where
  ne_nil {a w} hw := by
    cases a with
    | number b =>
      rw [show w = spell b from hw]
      exact (h b).1
    | operator o => cases o <;> rintro rfl <;> simp [Spells, Operator.spellings] at hw
    | not | opening | closing =>
      rintro rfl
      simp [Spells] at hw
  endsRun {a w} hw hcontinues := by
    cases a with
    | operator o =>
      have hall : ∀ w ∈ o.spellings, ∀ c ∈ w.head?, isPathChar c = false := by
        cases o <;> decide
      exact hall w hw
    | closing =>
      rw [show w = [')'] from hw]
      exact endsRun_cons (by decide)
    | number | not | opening => cases hcontinues
  noEquals {a w} hw hopens := by
    cases a with
    | number b =>
      rw [show w = spell b from hw]
      exact (h b).2
    | operator o =>
      cases o with
      | plus | minus =>
        simp only [Spells, Operator.spellings, List.mem_singleton] at hw
        simp [NoEquals, hw]
      | _ => cases hopens
    | not | opening =>
      simp only [Spells] at hw
      simp [NoEquals, hw]
    | closing => cases hopens

theorem delimits_spellsStrictly {spell : β → List Char}
    (h : ∀ b, spell b ≠ [] ∧ NoEquals (spell b)) : Delimits (SpellsStrictly spell) where
  ne_nil hw := (delimits_spells h).ne_nil hw.1
  endsRun hw := (delimits_spells h).endsRun hw.1
  noEquals hw := (delimits_spells h).noEquals hw.1

/-- What comes next cannot belong to the token. -/
def Fits (a : Token β) (rest : List Char) : Prop :=
  (a.closes = true → EndsRun rest) ∧ (a.closes = false → NoEquals rest)

/-- In a rendering every token is followed by what cannot belong to
it. -/
theorem Renders.fits {spells : Token β → List Char → Prop} (hspells : Delimits spells)
    {a : Token β} {ts : List (Token β)} (hchain : (a :: ts).IsChain Follows) {rest : List Char}
    (h : Renders spells ts rest) : Fits a rest := by
  have hgap {c : Char} (hc : isSeparator c = true) (rest : List Char) : Fits a (c :: rest) := by
    refine ⟨fun _ => endsRun_cons (isPathChar_of_isSeparator hc), fun _ d hd => ?_⟩
    obtain rfl : c = d := by simpa using hd
    exact ne_equals_of_isSeparator hc
  cases h with
  | nil hblank =>
    cases rest with
    | nil => exact ⟨fun _ => endsRun_nil, fun _ c hc => by simp at hc⟩
    | cons c gap => exact hgap (hblank c List.mem_cons_self) gap
  | @cons gap w rest b ts hblank hw _ =>
    cases gap with
    | cons c gap => exact hgap (hblank c List.mem_cons_self) _
    | nil =>
      have hne : w ≠ [] := hspells.ne_nil hw
      have hfollows : Follows a b := (List.isChain_cons.mp hchain).1 b rfl
      refine ⟨fun hcloses => ?_, fun hcloses => ?_⟩
      · rw [Follows, if_pos hcloses] at hfollows
        exact (hspells.endsRun hw hfollows).append hne
      · rw [Follows, if_neg (by simp [hcloses])] at hfollows
        have hhead := hspells.noEquals hw hfollows
        cases w with
        | nil => exact absurd rfl hne
        | cons c w => exact hhead

/-- All characters of a rendering are allowed, if those of the blanks and
of the tokens are. -/
theorem Renders.all {spells : Token β → List Char → Prop} {p : Char → Bool}
    (hgap : ∀ c, isSeparator c = true → p c = true) {ts : List (Token β)} {cs : List Char}
    (h : Renders spells ts cs) (htoken : ∀ a ∈ ts, ∀ w, spells a w → ∀ c ∈ w, p c = true) :
    ∀ c ∈ cs, p c = true := by
  induction h with
  | nil hblank => exact fun c hc => hgap c (hblank c hc)
  | cons hblank hw _ ih =>
    intro c hc
    rcases List.mem_append.mp hc with hc | hc
    · exact hgap c (hblank c hc)
    · rcases List.mem_append.mp hc with hc | hc
      · exact htoken _ List.mem_cons_self _ hw c hc
      · exact ih (fun a ha => htoken a (List.mem_cons_of_mem _ ha)) c hc

theorem Renders.mono {spells spells' : Token β → List Char → Prop} {ts : List (Token β)}
    {cs : List Char} (h : Renders spells ts cs)
    (htoken : ∀ a ∈ ts, ∀ w, spells a w → spells' a w) : Renders spells' ts cs := by
  induction h with
  | nil hblank => exact .nil hblank
  | cons hblank hw _ ih =>
    exact .cons hblank (htoken _ List.mem_cons_self _ hw)
      (ih fun a ha => htoken a (List.mem_cons_of_mem _ ha))

/-! ## Allowed characters -/

theorem isArithmeticChar_of_isSeparator {c : Char} (h : isSeparator c = true) :
    isArithmeticChar c = true := by
  simp only [isSeparator, Bool.or_eq_true, beq_iff_eq] at h
  rcases h with ((rfl | rfl) | rfl) | rfl <;> decide

theorem isConditionChar_of_isArithmeticChar {c : Char} (h : isArithmeticChar c = true) :
    isConditionChar c = true := by
  simp [isConditionChar, h]

theorem isConditionChar_of_spells {spell : β → List Char}
    (h : ∀ b, ∀ c ∈ spell b, isConditionChar c = true) {a : Token β} {w : List Char}
    (hw : Spells spell a w) : ∀ c ∈ w, isConditionChar c = true := by
  cases a with
  | number b =>
    obtain rfl : w = spell b := hw
    exact h b
  | operator o =>
    have hall : ∀ w ∈ o.spellings, ∀ c ∈ w, isConditionChar c = true := by cases o <;> decide
    exact hall w hw
  | not | opening | closing =>
    obtain rfl := hw
    decide

theorem isArithmeticChar_of_spells {spell : β → List Char}
    (h : ∀ b, ∀ c ∈ spell b, isArithmeticChar c = true) {a : Token β}
    (ha : a.isArithmetic = true) {w : List Char} (hw : Spells spell a w) :
    ∀ c ∈ w, isArithmeticChar c = true := by
  cases a with
  | number b =>
    obtain rfl : w = spell b := hw
    exact h b
  | operator o =>
    have hall : o.gives = .number → ∀ w ∈ o.spellings, ∀ c ∈ w, isArithmeticChar c = true := by
      cases o <;> decide
    exact hall (by simpa [Token.isArithmetic] using ha) w hw
  | opening | closing =>
    obtain rfl := hw
    decide
  | not => cases ha

/-! ## Passes -/

/-- **A pass that goes through a text token by token** turns a rendering
into another one. By induction on the rendering. -/
theorem Renders.map {spells spells' : Token β → List Char → Prop} (hspells : Delimits spells)
    {f : List Char → List Char} (hnil : f [] = [])
    (hgap : ∀ c rest, isSeparator c = true → f (c :: rest) = c :: f rest)
    {ts : List (Token β)} {cs : List Char} (h : Renders spells ts cs)
    (hchain : ts.IsChain Follows)
    (htoken : ∀ a ∈ ts, ∀ w, spells a w →
      ∃ w', spells' a w' ∧ ∀ rest, Fits a rest → f (w ++ rest) = w' ++ f rest) :
    Renders spells' ts (f cs) := by
  have hskip {gap : List Char} (hblank : IsGap gap) (rest : List Char) :
      f (gap ++ rest) = gap ++ f rest := by
    induction gap with
    | nil => rfl
    | cons c gap ih =>
      rw [List.cons_append, hgap c _ (hblank c List.mem_cons_self),
        ih fun d hd => hblank d (List.mem_cons_of_mem c hd), List.cons_append]
  induction h with
  | @nil gap hblank =>
    have heq := hskip hblank []
    rw [List.append_nil, hnil, List.append_nil] at heq
    rw [heq]
    exact .nil hblank
  | @cons gap w rest a ts hblank hw hrest ih =>
    obtain ⟨w', hw', hpass⟩ := htoken a List.mem_cons_self w hw
    rw [hskip hblank, hpass rest (hrest.fits hspells hchain)]
    exact .cons hblank hw' (ih (List.isChain_cons.mp hchain).2 fun b hb =>
      htoken b (List.mem_cons_of_mem a hb))

/-- Replacing paths changes the operands and nothing else. -/
theorem Renders.mapPaths {spell spell' : β → List Char}
    (hspell : ∀ b, spell b ≠ [] ∧ NoEquals (spell b))
    {replace? : List Char → Option (List Char)} {ts : List (Token β)} {cs : List Char}
    (h : Renders (Spells spell) ts cs) (hchain : ts.IsChain Follows)
    (hleaf : ∀ b, .number b ∈ ts → ∀ rest, EndsRun rest →
      Variable.mapPaths replace? (spell b ++ rest) =
        spell' b ++ Variable.mapPaths replace? rest) :
    Renders (Spells spell') ts (Variable.mapPaths replace? cs) := by
  refine h.map (delimits_spells hspell) mapPaths_nil (fun c rest hc => ?_) hchain
    fun a ha w hw => ?_
  · have hpath : ∀ d ∈ [c], isPathChar d = false := by
      simpa using isPathChar_of_isSeparator hc
    exact mapPaths_outside hpath
  · cases a with
    | number b =>
      obtain rfl : w = spell b := hw
      exact ⟨spell' b, rfl, fun rest hfits => hleaf b ha rest (hfits.1 rfl)⟩
    | operator o =>
      have hall : ∀ w ∈ o.spellings, ∀ c ∈ w, isPathChar c = false := by
        cases o <;> decide
      exact ⟨w, hw, fun rest _ => mapPaths_outside (hall w hw)⟩
    | not | opening | closing =>
      obtain rfl := hw
      exact ⟨_, rfl, fun rest _ => mapPaths_outside (by decide)⟩

/-- Promotion leaves every operator a spelling that the tokenizer
knows. -/
theorem Operator.promote_spellings (o : Operator) :
    ∀ w ∈ o.spellings, promote w ∈ o.spellings ∧ promote w ≠ ['='] := by
  cases o <;> decide

/-- Promotion changes lone equals signs and nothing else. -/
theorem Renders.promote {spell : β → List Char} (hspell : ∀ b, spell b ≠ [])
    (hplain : ∀ b, ∀ c ∈ spell b, isPlain c = true) {ts : List (Token β)} {cs : List Char}
    (h : Renders (Spells spell) ts cs) (hchain : ts.IsChain Follows) :
    Renders (SpellsStrictly spell) ts (Formula.promote cs) := by
  have hnoEquals (b : β) : NoEquals (spell b) := by
    rintro c hc rfl
    exact absurd (hplain b _ (List.mem_of_mem_head? hc)) (by decide)
  refine h.map (delimits_spells fun b => ⟨hspell b, hnoEquals b⟩) (by decide) (fun c rest hc => ?_)
    hchain fun a _ w hw => ?_
  · exact promote_cons (isPlain_of_isSeparator hc) rest
  · cases a with
    | number b =>
      obtain rfl : w = spell b := hw
      refine ⟨spell b, ⟨rfl, fun heq => ?_⟩, fun rest _ => promote_plain (hplain b)⟩
      exact hnoEquals b '=' (by simp [heq]) rfl
    | operator o =>
      exact ⟨Formula.promote w, o.promote_spellings w hw,
        fun rest hfits => promote_append (hfits.2 rfl) w⟩
    | not =>
      obtain rfl := hw
      exact ⟨['!'], ⟨rfl, by decide⟩, fun rest hfits => promote_append (hfits.2 rfl) ['!']⟩
    | opening | closing =>
      obtain rfl := hw
      exact ⟨_, ⟨rfl, by decide⟩, fun rest _ => promote_plain (by decide)⟩

/-! ## Tokenizing -/

variable [Scalar α]

/-- A number that has been read is a token of its own, unless the text
goes on with it. -/
theorem tokenizeFrom_of_endsRun {rest : List Char} (h : EndsRun rest) (held : List Char) :
    tokenizeFrom (α := α) held rest = flush held (tokenizeFrom [] rest) := by
  have hnumber : ∀ c ∈ rest.head?, isNumberChar c = false := by
    intro c hc
    have hpath := h c hc
    simp only [isPathChar, Text.isWordChar, Char.isAlphanum, Bool.or_eq_false_iff] at hpath
    simp [isNumberChar, hpath]
  rw [tokenizeFrom.eq_def, tokenizeFrom.eq_def []]
  split <;> try rfl
  next c cs _ _ _ _ _ _ _ _ =>
    have hc := hnumber c rfl
    simp only [hc, Bool.false_eq_true, if_false]
    split
    · rfl
    · split <;> first | rfl | (cases held <;> simp [flush])

theorem tokenizeFrom_run {run rest : List Char} (hrun : ∀ c ∈ run, isNumberChar c = true)
    (held : List Char) :
    tokenizeFrom (α := α) held (run ++ rest) = tokenizeFrom (run.reverse ++ held) rest := by
  induction run generalizing held with
  | nil => rfl
  | cons c run ih =>
    have hc := hrun c List.mem_cons_self
    have hstep (cs : List Char) :
        tokenizeFrom (α := α) held (c :: cs) = tokenizeFrom (c :: held) cs := by
      rw [tokenizeFrom.eq_def]
      -- no operator starts with a number character
      split <;> first
        | (rename_i heq; cases heq; exact absurd hc (by decide))
        | simp_all
    rw [List.cons_append, hstep, ih (fun d hd => hrun d (List.mem_cons_of_mem c hd)) (c :: held)]
    simp

/-- A run of number characters is a token, if it is a numeral. -/
theorem tokenize_run {run rest : List Char} (hne : run ≠ [])
    (hrun : ∀ c ∈ run, isNumberChar c = true) (h : EndsRun rest) :
    tokenize (α := α) (run ++ rest) =
      (Scalar.ofText run).bind fun x => (tokenize rest).map (Token.number x :: ·) := by
  have hheld : flush run.reverse (tokenizeFrom (α := α) [] rest) =
      (Scalar.ofText run).bind fun x => (tokenizeFrom [] rest).map (Token.number x :: ·) := by
    unfold flush
    split
    · next hnil => exact absurd (List.reverse_eq_nil_iff.mp hnil) hne
    · rw [List.reverse_reverse]
  rw [tokenize, tokenizeFrom_run hrun, tokenizeFrom_of_endsRun h, List.append_nil]
  exact hheld

/-- A numeral is a token. -/
theorem tokenize_number {run rest : List Char} {x : α} (hne : run ≠ [])
    (hrun : ∀ c ∈ run, isNumberChar c = true) (hx : Scalar.ofText run = some x)
    (h : EndsRun rest) : tokenize (run ++ rest) = (tokenize rest).map (Token.number x :: ·) := by
  rw [tokenize_run hne hrun h, hx, Option.bind_some]

theorem tokenize_separator {c : Char} (h : isSeparator c = true) (rest : List Char) :
    tokenize (α := α) (c :: rest) = tokenize rest := by
  simp only [isSeparator, Bool.or_eq_true, beq_iff_eq] at h
  rcases h with ((rfl | rfl) | rfl) | rfl <;> rfl

theorem tokenize_gap {gap : List Char} (h : IsGap gap) (rest : List Char) :
    tokenize (α := α) (gap ++ rest) = tokenize rest := by
  induction gap with
  | nil => rfl
  | cons c gap ih =>
    rw [List.cons_append, tokenize_separator (h c List.mem_cons_self)]
    exact ih fun d hd => h d (List.mem_cons_of_mem c hd)

theorem NoEquals.cases {rest : List Char} (h : NoEquals rest) :
    rest = [] ∨ ∃ c cs, rest = c :: cs ∧ c ≠ '=' := by
  cases rest with
  | nil => exact .inl rfl
  | cons c cs => exact .inr ⟨c, cs, rfl, h c rfl⟩

/-- An operator is a token, in every spelling but the lone equals
sign. -/
theorem tokenize_operator {o : Operator} {w rest : List Char} (hw : w ∈ o.spellings)
    (hlone : w ≠ ['=']) (h : NoEquals rest) :
    tokenize (α := α) (w ++ rest) = (tokenize rest).map (Token.operator o :: ·) := by
  unfold tokenize
  cases o with
  | equal =>
    simp only [Operator.spellings, List.mem_cons, List.not_mem_nil, or_false] at hw
    rcases hw with rfl | rfl | rfl
    · exact absurd rfl hlone
    · rcases h.cases with rfl | ⟨c, cs, rfl, hc⟩
      · rfl
      · simp [tokenizeFrom, hc, flush]
    · rfl
  | unequal =>
    simp only [Operator.spellings, List.mem_cons, List.not_mem_nil, or_false] at hw
    rcases hw with rfl | rfl
    · rcases h.cases with rfl | ⟨c, cs, rfl, hc⟩
      · rfl
      · simp [tokenizeFrom, hc, flush]
    · rfl
  | less | greater =>
    obtain rfl := List.mem_singleton.mp hw
    rcases h.cases with rfl | ⟨c, cs, rfl, hc⟩
    · rfl
    · have hlt : isNumberChar '<' = false ∧ isSeparator '<' = false := by decide
      have hgt : isNumberChar '>' = false ∧ isSeparator '>' = false := by decide
      simp [tokenizeFrom, hc, flush, hlt, hgt]
  | _ =>
    obtain rfl := List.mem_singleton.mp hw
    rfl

theorem tokenize_not {rest : List Char} (h : NoEquals rest) :
    tokenize (α := α) ('!' :: rest) = (tokenize rest).map (Token.not :: ·) := by
  unfold tokenize
  rcases h.cases with rfl | ⟨c, cs, rfl, hc⟩
  · rfl
  · have hlt : isNumberChar '!' = false ∧ isSeparator '!' = false := by decide
    simp [tokenizeFrom, hc, flush, hlt]

/-- **The tokenizer finds what was rendered**: the tokens of the list,
with those that are written for an operand in its place. By induction on
the rendering. -/
theorem Renders.tokenize {spell : β → List Char}
    (hspell : ∀ b, spell b ≠ [] ∧ NoEquals (spell b)) {g : β → Term α} {ts : List (Token β)}
    {cs : List Char} (h : Renders (SpellsStrictly spell) ts cs) (hchain : ts.IsChain Follows)
    (hleaf : ∀ b, .number b ∈ ts → ∀ rest, EndsRun rest →
      Formula.tokenize (spell b ++ rest) = (Formula.tokenize rest).map ((g b).tokens ++ ·)) :
    Formula.tokenize cs = some (ts.flatMap (Token.fill g)) := by
  induction h with
  | @nil gap hblank =>
    have heq := tokenize_gap (α := α) hblank []
    rw [List.append_nil] at heq
    rw [heq]
    rfl
  | @cons gap w rest a ts hblank hw hrest ih =>
    have hfits : Fits a rest := hrest.fits (delimits_spellsStrictly hspell) hchain
    have htoken : Formula.tokenize (w ++ rest) =
        (Formula.tokenize rest).map (Token.fill g a ++ ·) := by
      obtain ⟨hw, hlone⟩ := hw
      cases a with
      | number b =>
        obtain rfl : w = spell b := hw
        exact hleaf b List.mem_cons_self rest (hfits.1 rfl)
      | operator o => exact tokenize_operator hw hlone (hfits.2 rfl)
      | not =>
        obtain rfl := hw
        exact tokenize_not (hfits.2 rfl)
      | opening | closing =>
        obtain rfl := hw
        rfl
    rw [tokenize_gap hblank, htoken, ih (List.isChain_cons.mp hchain).2 fun b hb =>
      hleaf b (List.mem_cons_of_mem a hb)]
    simp

/-- A rendered formula of the grammar is worth what it is worth with the
operands that are read in the place of those that were written. -/
theorem Renders.evaluate {spell : β → List Char}
    (hspell : ∀ b, spell b ≠ [] ∧ NoEquals (spell b)) {g : β → Term α} {t : Term β}
    (hwithin : t.Within 0) (hg : ∀ b q, (g b).Within q) {cs : List Char}
    (h : Renders (SpellsStrictly spell) t.tokens cs)
    (hleaf : ∀ b, b ∈ t.leaves → ∀ rest, EndsRun rest →
      Formula.tokenize (spell b ++ rest) = (Formula.tokenize rest).map ((g b).tokens ++ ·))
    {allowed : Char → Bool} (hallowed : ∀ c ∈ cs, allowed c = true) :
    Formula.evaluate allowed cs = (t.fill g).value := by
  have hne : cs ≠ [] := by
    rintro rfl
    generalize hts : t.tokens = ts at h
    generalize hcs : ([] : List Char) = cs at h
    cases h with
    | nil => cases t <;> simp [Term.tokens] at hts
    | cons _ hw _ =>
      have hempty := (delimits_spellsStrictly hspell).ne_nil hw
      simp [hempty] at hcs
  have htokens : Formula.tokenize cs = some (t.fill g).tokens := by
    rw [Term.tokens_fill]
    exact h.tokenize hspell (isChain_tokens t) fun b hb => hleaf b (Term.mem_leaves.mpr hb)
  have hparse : parse (t.fill g).tokens = some (t.fill g) :=
    parse_eq_some_iff.mpr ⟨hwithin.fill hg, rfl⟩
  have hall : cs.all allowed = true := List.all_eq_true.mpr hallowed
  simp [Formula.evaluate, hne, hall, htokens, run, hparse]

end DeckDuel.Formula
