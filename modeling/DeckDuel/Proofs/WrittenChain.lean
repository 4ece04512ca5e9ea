/-
DeckDuel.Proofs.WrittenChain — the values of modifier terms, as they are
written and as they are read.

* `Chain` — factors joined by `*` and `/`. `Chain.number?` is what it is
  worth: the factors taken from left to right, nothing where a factor is
  no number, where one of them divides by zero, or where the result is
  not finite.
* `Chain.Writes` — the texts of a chain, with any gaps around the
  joints.
* `Chain.number?_writes` — the formula reader gives such a text the
  worth of its chain: the tree that it reads grows to the left, one
  factor at a time.
* `Chain.value?_writes` — and the scanner takes all of it, if nothing
  that could continue it comes next.
-/
import DeckDuel.Modifier.Term
import DeckDuel.Proofs.Grammar
import DeckDuel.Proofs.Rendering
import DeckDuel.Proofs.PrintedNumbers

namespace DeckDuel.Modifier

open DeckDuel.Formula DeckDuel.Text DeckDuel.Variable

/-! ## Chains -/

/-- What joins two factors. -/
inductive Joint where
  | times | dividedBy
deriving DecidableEq, Repr

namespace Joint

/-- The character of a joint. -/
def symbol : Joint → Char
  | times => '*'
  | dividedBy => '/'

/-- The operator that its character is in a formula. -/
def operator : Joint → Operator
  | times => .times
  | dividedBy => .dividedBy

/-- Takes one more factor; there is no result where it divides by
zero. -/
def join? {α : Type} [Scalar α] (j : Joint) (x y : α) : Option α :=
  match j with
  | times => some (x * y)
  | dividedBy => if y == 0 then none else some (x / y)

end Joint

/-- Factors joined to a chain. -/
structure Chain (β : Type) where
  first : β
  more : List (Joint × β)

/-- An unsigned number in digits and points. -/
structure Unsigned where
  text : List Char
  unsigned : IsUnsigned text

theorem Unsigned.exists_cons (d : Unsigned) : ∃ c cs, d.text = c :: cs ∧
    isNumberChar c = true ∧ ∀ e ∈ cs, isNumberChar e = true := by
  obtain ⟨cs, hne, hall⟩ := d
  cases cs with
  | nil => exact absurd rfl hne
  | cons c cs =>
    exact ⟨c, cs, rfl, hall c List.mem_cons_self, fun e he => hall e (List.mem_cons_of_mem c he)⟩

namespace Chain

variable {α β γ : Type}

/-- The chain with every factor changed. -/
def map (f : β → γ) (c : Chain β) : Chain γ := ⟨f c.first, c.more.map fun p => (p.1, f p.2)⟩

/-- The numbers that follow a first one, if all the factors are
numbers. -/
def readMore? [Scalar α] (more : List (Joint × Unsigned)) : Option (List (Joint × α)) :=
  more.mapM fun p => (Scalar.ofText p.2.text).map fun x => (p.1, x)

/-- The factors from left to right, after what those before are
worth. -/
def fold? [Scalar α] (x : α) (more : List (Joint × α)) : Option α :=
  more.foldlM (fun x p => p.1.join? x p.2) x

/-- What a chain is worth. -/
def number? [Scalar α] (c : Chain Unsigned) : Option α :=
  ((Scalar.ofText c.first.text).bind fun x => (readMore? c.more).bind (fold? x)).bind Scalar.finite?

end Chain

/-- A text writes the factors that follow a first one. -/
inductive WritesMore {β : Type} (spell : β → List Char) : List (Joint × β) → List Char → Prop where
  | nil : WritesMore spell [] []
  | cons {before after w : List Char} {j : Joint} {b : β} {more : List (Joint × β)} :
      IsGap before → IsGap after → WritesMore spell more w →
      WritesMore spell ((j, b) :: more) (before ++ j.symbol :: (after ++ (spell b ++ w)))

/-- A text writes a chain. -/
inductive Chain.Writes {β : Type} (spell : β → List Char) (c : Chain β) : List Char → Prop where
  | intro {w : List Char} : WritesMore spell c.more w → Writes spell c (spell c.first ++ w)

/-! ## What comes before and after a joint -/

theorem isPathChar_symbol (j : Joint) : isPathChar j.symbol = false := by cases j <;> decide

theorem isArithmeticChar_symbol (j : Joint) : isArithmeticChar j.symbol = true := by
  cases j <;> decide

/-- A factor is followed by what cannot belong to it. -/
theorem WritesMore.endsRun {β : Type} {spell : β → List Char} {more : List (Joint × β)}
    {w rest : List Char} (h : WritesMore spell more w) (hrest : EndsRun rest) :
    EndsRun (w ++ rest) := by
  cases h with
  | nil => exact hrest
  | @cons before after w j b more hbefore _ _ =>
    rw [List.append_assoc]
    exact endsRun_gap hbefore (endsRun_cons (isPathChar_symbol j))

/-! ## The tree of a chain -/

section Worth

variable {α : Type}

/-- The tokens that follow a first factor. -/
def moreTokens (more : List (Joint × α)) : List (Token α) :=
  more.flatMap fun p => [.operator p.1.operator, .number p.2]

/-- The tree that grows to the left. -/
def grow (t : Term α) (more : List (Joint × α)) : Term α :=
  more.foldl (fun t p => .binary p.1.operator t (.number p.2)) t

theorem tokens_grow (t : Term α) (more : List (Joint × α)) :
    (grow t more).tokens = t.tokens ++ moreTokens more := by
  induction more generalizing t with
  | nil => simp [grow, moreTokens]
  | cons p more ih =>
    have hstep := ih (.binary p.1.operator t (.number p.2))
    simpa [grow, moreTokens, Term.tokens] using hstep

/-- Both joints have one power, and what comes first may hold that power
again. -/
theorem Joint.power_operator (j : Joint) : j.operator.power = 6 := by cases j <;> rfl

theorem within_grow {t : Term α} (h : t.Within 5) (more : List (Joint × α)) :
    (grow t more).Within 5 := by
  induction more generalizing t with
  | nil => exact h
  | cons p more ih =>
    have hpower := p.1.power_operator
    refine ih (.binary (by omega) ?_ (.number _))
    rw [hpower]
    exact h

variable [Scalar α]

theorem Joint.apply_operator (j : Joint) (x y : α) :
    j.operator.apply (.number x) (.number y) = (j.join? x y).map Value.number := by
  cases j with
  | times => rfl
  | dividedBy =>
    show (if (y == 0) = true then none else some (Value.number (x / y))) = _
    unfold join?
    split <;> rfl

theorem value_grow {t : Term α} {v : Option α} (h : t.value = v.map Value.number)
    (more : List (Joint × α)) :
    (grow t more).value = (v.bind fun x => Chain.fold? x more).map Value.number := by
  induction more generalizing t v with
  | nil => cases v <;> simpa [grow, Chain.fold?] using h
  | cons p more ih =>
    have hstep : (Term.binary p.1.operator t (.number p.2)).value =
        (v.bind fun x => p.1.join? x p.2).map Value.number := by
      rw [Term.value, h]
      cases v with
      | none => rfl
      | some x => exact p.1.apply_operator x p.2
    have hrest := ih hstep
    cases v <;> simpa [grow, Chain.fold?] using hrest

/-! ## Reading what was written -/

theorem tokenize_joint (j : Joint) (rest : List Char) :
    tokenize (α := α) (j.symbol :: rest) = (tokenize rest).map (Token.operator j.operator :: ·) := by
  cases j <;> rfl

theorem Unsigned.tokenize (d : Unsigned) {rest : List Char} (h : EndsRun rest) :
    Formula.tokenize (α := α) (d.text ++ rest) =
      (Scalar.ofText d.text).bind fun x => (Formula.tokenize rest).map (Token.number x :: ·) :=
  tokenize_run d.unsigned.1 d.unsigned.2 h

/-- The tokens of the factors are found, if all the factors are numbers.
By induction on the factors. -/
theorem WritesMore.tokenize {more : List (Joint × Unsigned)} {w : List Char}
    (h : WritesMore Unsigned.text more w) :
    Formula.tokenize (α := α) w = (Chain.readMore? more).map moreTokens := by
  induction h with
  | nil => rfl
  | @cons before after w j d more hbefore hafter hmore ih =>
    have hends : EndsRun w := by simpa using hmore.endsRun endsRun_nil
    rw [tokenize_gap hbefore, tokenize_joint, tokenize_gap hafter, d.tokenize hends, ih]
    simp only [Chain.readMore?, List.mapM_cons]
    cases Scalar.ofText (α := α) d.text with
    | none => rfl
    | some x =>
      cases more.mapM fun p => (Scalar.ofText (α := α) p.2.text).map fun x => (p.1, x) with
      | none => rfl
      | some ys => rfl

theorem Unsigned.isArithmeticChar (d : Unsigned) : ∀ c ∈ d.text, isArithmeticChar c = true :=
  fun c hc => isArithmeticChar_of_isNumberChar (d.unsigned.2 c hc)

theorem WritesMore.isArithmeticChar {more : List (Joint × Unsigned)} {w : List Char}
    (h : WritesMore Unsigned.text more w) : ∀ c ∈ w, isArithmeticChar c = true := by
  induction h with
  | nil => simp
  | @cons before after w j d more hbefore hafter _ ih =>
    intro c hc
    simp only [List.mem_append, List.mem_cons] at hc
    rcases hc with hc | rfl | hc | hc | hc
    · exact isArithmeticChar_of_isSeparator (hbefore c hc)
    · exact isArithmeticChar_symbol j
    · exact isArithmeticChar_of_isSeparator (hafter c hc)
    · exact d.isArithmeticChar c hc
    · exact ih c hc

theorem Chain.Writes.isArithmeticChar {c : Chain Unsigned} {w : List Char}
    (h : c.Writes Unsigned.text w) : ∀ d ∈ w, Formula.isArithmeticChar d = true := by
  obtain @⟨w, hmore⟩ := h
  intro d hd
  rcases List.mem_append.mp hd with hd | hd
  · exact c.first.isArithmeticChar d hd
  · exact hmore.isArithmeticChar d hd

/-- **A written chain reads as what it is worth.** -/
theorem Chain.number?_writes {c : Chain Unsigned} {w : List Char}
    (h : c.Writes Unsigned.text w) : Formula.number? (α := α) w = c.number? := by
  have hallowed : w.all isArithmeticChar = true := List.all_eq_true.mpr h.isArithmeticChar
  obtain @⟨w, hmore⟩ := h
  have hends : EndsRun w := by simpa using hmore.endsRun endsRun_nil
  have htokens : Formula.tokenize (α := α) (c.first.text ++ w) =
      (Scalar.ofText c.first.text).bind fun x =>
        (readMore? c.more).map fun more => (grow (.number x) more).tokens := by
    rw [c.first.tokenize hends, hmore.tokenize]
    congr 1
    funext x
    rw [Option.map_map]
    congr 1
    funext more
    exact (tokens_grow (.number x) more).symm
  have hrun (x : α) (more : List (Joint × α)) :
      run (grow (.number x) more).tokens = (fold? x more).map Value.number := by
    have hwithin := within_grow (.number x) more
    have hparse : parse (grow (.number x) more).tokens = some (grow (.number x) more) :=
      parse_eq_some_iff.mpr ⟨hwithin.mono (Nat.zero_le _), rfl⟩
    rw [run, hparse, Option.bind_some]
    exact value_grow (v := some x) rfl more
  have hne : (c.first.text ++ w).isEmpty = false := by simp [c.first.unsigned.1]
  rw [Formula.number?, evaluate, hne, hallowed, htokens, Chain.number?]
  cases Scalar.ofText (α := α) c.first.text with
  | none => rfl
  | some x =>
    cases readMore? (α := α) c.more with
    | none => rfl
    | some more =>
      simp only [Bool.not_true, Bool.or_self, Bool.false_eq_true, if_false, Option.bind_some,
        Option.map_some, hrun]
      cases fold? x more <;> rfl

end Worth

/-! ## Scanning what was written -/

/-- An item of a list ends: after any gap the text ends, or a comma
follows. -/
inductive EndsItem : List Char → Prop where
  | intro {gap tail : List Char} : IsGap gap → (∀ c ∈ tail.head?, c = ',') → EndsItem (gap ++ tail)

theorem EndsItem.endsRun {rest : List Char} (h : EndsItem rest) : EndsRun rest := by
  obtain ⟨hgap, htail⟩ := h
  refine endsRun_gap hgap fun c hc => ?_
  rw [htail c hc]
  decide

/-- A gap is only pending. -/
theorem chainLength_separator {c : Char} (h : isSeparator c = true) (number operator : Bool)
    (pending : Nat) (cs : List Char) : chainLength number operator pending (c :: cs) =
      chainLength false operator (pending + 1) cs := by
  have hnumber := isNumberChar_of_not_isPathChar (isPathChar_of_isSeparator h)
  rw [chainLength, if_neg (by simp [hnumber]), if_pos (isBlank_of_isSeparator h)]

/-- Nothing continues a chain where an item ends. -/
theorem chainLength_endsItem {rest : List Char} (h : EndsItem rest) (number operator : Bool)
    (pending : Nat) : chainLength number operator pending rest = 0 := by
  obtain @⟨gap, tail, hgap, htail⟩ := h
  induction gap generalizing number pending with
  | nil =>
    cases tail with
    | nil => rfl
    | cons c tail =>
      obtain rfl : c = ',' := htail c rfl
      cases number <;> cases operator <;> rfl
  | cons c gap ih =>
    rw [List.cons_append, chainLength_separator (hgap c List.mem_cons_self)]
    exact ih _ _ fun d hd => hgap d (List.mem_cons_of_mem c hd)

/-- A joint is pending too. -/
theorem chainLength_joint {gap : List Char} (h : IsGap gap) (j : Joint) (number : Bool)
    (pending : Nat) (rest : List Char) :
    chainLength number false pending (gap ++ j.symbol :: rest) =
      chainLength false true (pending + gap.length + 1) rest := by
  induction gap generalizing number pending with
  | nil => cases j <;> rfl
  | cons c gap ih =>
    rw [List.cons_append, chainLength_separator (h c List.mem_cons_self),
      ih fun d hd => h d (List.mem_cons_of_mem c hd)]
    congr 1
    simp only [List.length_cons]
    omega

/-- A number after a joint brings in all that was pending. -/
theorem chainLength_number {gap : List Char} (h : IsGap gap) {d : Char}
    (hd : isNumberChar d = true) (number : Bool) (pending : Nat) (rest : List Char) :
    chainLength number true pending (gap ++ d :: rest) =
      pending + gap.length + 1 + chainLength true false 0 rest := by
  induction gap generalizing number pending with
  | nil => simp [chainLength, hd]
  | cons c gap ih =>
    rw [List.cons_append, chainLength_separator (h c List.mem_cons_self),
      ih fun e he => h e (List.mem_cons_of_mem c he)]
    simp only [List.length_cons]
    omega

/-- The other digits of a number belong to the chain. -/
theorem chainLength_run {ds : List Char} (h : ∀ c ∈ ds, isNumberChar c = true) (rest : List Char) :
    chainLength true false 0 (ds ++ rest) = ds.length + chainLength true false 0 rest := by
  induction ds with
  | nil => simp
  | cons d ds ih =>
    rw [List.cons_append, chainLength, if_pos (h d List.mem_cons_self),
      ih fun e he => h e (List.mem_cons_of_mem d he)]
    simp only [Bool.or_false, if_true, List.length_cons]
    omega

/-- The chain goes as far as its factors do. By induction on the
factors. -/
theorem WritesMore.chainLength {more : List (Joint × Unsigned)} {w rest : List Char}
    (h : WritesMore Unsigned.text more w) (hrest : EndsItem rest) :
    Modifier.chainLength true false 0 (w ++ rest) = w.length := by
  induction h with
  | nil => exact chainLength_endsItem hrest _ _ _
  | @cons before after w j d more hbefore hafter _ ih =>
    obtain ⟨e, ds, htext, he, hds⟩ := d.exists_cons
    have htail := chainLength_run hds (w ++ rest)
    have hjoint := chainLength_joint hbefore j true 0 (after ++ e :: (ds ++ (w ++ rest)))
    have hnumber := chainLength_number hafter he false (0 + before.length + 1) (ds ++ (w ++ rest))
    simp only [htext, List.append_assoc, List.cons_append, hjoint, hnumber, htail, ih,
      List.length_append, List.length_cons]
    omega

/-- **The scanner takes a chain as it was written.** -/
theorem Chain.value?_writes {c : Chain Unsigned} {w rest : List Char}
    (h : c.Writes Unsigned.text w) (hrest : EndsItem rest) :
    value? (w ++ rest) = some (w, rest) := by
  obtain @⟨w, hmore⟩ := h
  obtain ⟨d, ds, htext, hd, hds⟩ := c.first.exists_cons
  have hlength : chainLength true false 0 (ds ++ (w ++ rest)) = (ds ++ w).length := by
    rw [chainLength_run hds, hmore.chainLength hrest, List.length_append]
  simp only [htext, List.append_assoc, List.cons_append, value?, if_pos hd, hlength]
  rw [← List.append_assoc, List.take_left, List.drop_left]

end DeckDuel.Modifier
