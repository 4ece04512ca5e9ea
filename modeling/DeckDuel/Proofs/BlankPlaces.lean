/-
DeckDuel.Proofs.BlankPlaces — blanks between the tokens of a formula.

* `Formula.Free` — a place in a text where no token is cut: either end,
  or between two tokens.
* `Formula.tokenize_append_blank` — a blank cuts a text in two wherever
  it stands, because no token has one.
* `Formula.blank_at_free_place` — so one of the four blanks that the
  tokenizer skips changes nothing at a free place. Any other blank makes
  the text worthless, at every place.

Both whitelists let all 25 blanks through, and the tokenizer skips four
of them. The others end as a letter would, only one step later, so a blank
that is allowed can turn a formula into none
(`Formula.exists_blank_worthless`).
-/
import DeckDuel.Proofs.EqualsRuns
import DeckDuel.Proofs.PrintedNumbers
import DeckDuel.Proofs.Rendering
import DeckDuel.Proofs.Scanning

namespace DeckDuel.Formula

open DeckDuel.Text DeckDuel.Variable

/-! ## Blanks -/

section Blanks

variable {c : Char}

theorem isPathChar_of_isBlank (h : isBlank c = true) : isPathChar c = false := by
  have hword : isWordChar c = false := by
    cases hc : isWordChar c with
    | false => rfl
    | true => exact absurd rfl (ne_of_isBlank h (isBlank_of_isWordChar hc))
  have hpoint : c ≠ '.' := ne_of_isBlank h (by decide)
  simp [isPathChar, hword, hpoint]

theorem isPlain_of_isBlank (h : isBlank c = true) : isPlain c = true :=
  isPlain_of_not_joins (ne_of_isBlank h (by decide)) (not_mem_of_isBlank h (by decide))
    (not_mem_of_isBlank h (by decide))

/-- Both whitelists have every blank. -/
theorem isArithmeticChar_of_isBlank (h : isBlank c = true) : isArithmeticChar c = true := by
  simp [isArithmeticChar, h]

end Blanks

variable {α : Type}

/-! ## Cutting at a blank -/

theorem map_cons_bind (a : Token α) (later more : Option (List (Token α))) :
    (later.map (a :: ·)).bind (fun ts => more.map (ts ++ ·)) =
      (later.bind fun ts => more.map (ts ++ ·)).map (a :: ·) := by
  cases later <;> cases more <;> simp

variable [Scalar α]

theorem flush_bind (held : List Char) (later more : Option (List (Token α))) :
    (flush held later).bind (fun ts => more.map (ts ++ ·)) =
      flush held (later.bind fun ts => more.map (ts ++ ·)) := by
  cases held with
  | nil => rfl
  | cons d held =>
    simp only [flush, Option.bind_assoc]
    congr 1
    funext x
    exact map_cons_bind (.number x) later more

/-- One more token before tokens that are cut in two. -/
theorem flush_append {held : List Char} {later later' more : Option (List (Token α))}
    (a : Token α) (h : later' = later.bind fun ts => more.map (ts ++ ·)) :
    flush held (later'.map (a :: ·)) =
      (flush held (later.map (a :: ·))).bind fun ts => more.map (ts ++ ·) := by
  rw [h, flush_bind, map_cons_bind]

theorem tokenizeFrom_append_token {held w rest : List Char} {a : Token α}
    {later more : Option (List (Token α))} (hends : EndsRun (w ++ rest))
    (hfirst : tokenize (w ++ rest) = (tokenize rest).map (a :: ·))
    (h : tokenize rest = later.bind fun ts => more.map (ts ++ ·)) :
    tokenizeFrom held (w ++ rest) =
      (flush held (later.map (a :: ·))).bind fun ts => more.map (ts ++ ·) := by
  rw [tokenizeFrom_of_endsRun hends]
  exact (congrArg (flush held) hfirst).trans (flush_append a h)

theorem append_cons_ne {c d : Char} {pre post : List Char} (hne : c ≠ d)
    (h : ∀ ds, pre ≠ d :: ds) (ds : List Char) : pre ++ c :: post ≠ d :: ds := by
  cases pre with
  | nil => exact fun heq => hne (List.cons.inj heq).1
  | cons e pre => exact fun heq => h pre (by rw [(List.cons.inj heq).1])

/-- No token has a blank in it, so the tokens before a blank and those
from it on are found apart. By induction on the text before it, along the
branches of the tokenizer; where that looks at the next character, it does
not find in the blank what it looks for. -/
theorem tokenizeFrom_append_blank {c : Char} (h : isBlank c = true) (post : List Char)
    (held pre : List Char) :
    tokenizeFrom (α := α) held (pre ++ c :: post) =
      (tokenizeFrom held pre).bind fun ts => (tokenize (c :: post)).map (ts ++ ·) := by
  have hnext {d : Char} {cs : List Char} (hd : isBlank d = false)
      (hcs : ∀ ds, cs = d :: ds → False) : ∀ ds, cs ++ c :: post = d :: ds → False :=
    append_cons_ne (ne_of_isBlank h hd) hcs
  have hnoEquals {cs : List Char} (hcs : ∀ ds, cs = '=' :: ds → False) :
      NoEquals (cs ++ c :: post) := by
    rintro d hd rfl
    obtain ⟨ds, hds⟩ := List.head?_eq_some_iff.mp hd
    exact hnext (by decide) hcs ds hds
  fun_induction tokenizeFrom (α := α) held pre with
  | case1 held =>
    rw [List.nil_append, tokenizeFrom_of_endsRun (endsRun_cons (isPathChar_of_isBlank h)),
      flush_bind]
    simp [tokenize]
  -- operators of two and three characters
  | case2 _ _ ih | case3 _ _ ih | case4 _ _ ih | case6 _ _ ih | case8 _ _ ih | case9 _ _ ih =>
    exact flush_append _ ih
  | case5 held cs hjoin ih | case7 held cs hjoin ih =>
    have hjoin' := hnext (by decide) hjoin
    refine Eq.trans ?_ (flush_append _ ih)
    simp only [List.cons_append, tokenizeFrom]
  -- a character of a number, and a separator
  | case10 held a cs _ _ _ _ _ _ _ _ hnumber ih =>
    have hrun : ∀ d ∈ [a], isNumberChar d = true := by simpa using hnumber
    exact (tokenizeFrom_run hrun held).trans ih
  | case11 held a cs _ _ _ _ _ _ _ _ _ hseparator ih =>
    have hends : EndsRun (a :: (cs ++ c :: post)) :=
      endsRun_cons (isPathChar_of_isSeparator hseparator)
    rw [List.cons_append, tokenizeFrom_of_endsRun hends, flush_bind, ← ih]
    exact congrArg (flush held) (tokenize_separator hseparator _)
  -- single characters that belong to no longer operator
  | case12 _ _ _ _ _ _ _ _ _ _ _ _ ih | case13 _ _ _ _ _ _ _ _ _ _ _ _ ih
  | case14 _ _ _ _ _ _ _ _ _ _ _ _ ih | case15 _ _ _ _ _ _ _ _ _ _ _ _ ih
  | case18 _ _ _ _ _ _ _ _ _ _ _ _ ih | case19 _ _ _ _ _ _ _ _ _ _ _ _ ih =>
    exact flush_append _ ih
  | case16 held cs hjoin _ _ _ _ _ _ _ _ _ ih =>
    exact tokenizeFrom_append_token (w := ['<']) (endsRun_cons (by decide))
      (tokenize_operator (o := .less) (by decide) (by decide) (hnoEquals fun ds => hjoin ds rfl)) ih
  | case17 held cs _ hjoin _ _ _ _ _ _ _ _ ih =>
    exact tokenizeFrom_append_token (w := ['>']) (endsRun_cons (by decide))
      (tokenize_operator (o := .greater) (by decide) (by decide) (hnoEquals fun ds => hjoin ds rfl))
      ih
  | case20 held cs _ _ _ _ _ hjoin _ _ _ _ ih =>
    exact tokenizeFrom_append_token (w := ['!']) (endsRun_cons (by decide))
      (tokenize_not (hnoEquals fun ds => hjoin ds rfl)) ih
  -- a character that starts no token does not start one with the blank behind it either
  | case21 held a cs hless hgreater _ hequal _ hunequal hand hor hnumber hseparator =>
    have hjoin {b d : Char} (hd : isBlank d = false) (hj : ∀ ds, a = b → cs = d :: ds → False) :
        ∀ ds, a = b → cs ++ c :: post = d :: ds → False :=
      fun ds ha => hnext hd (fun es => hj es ha) ds
    have hless' := hjoin (by decide) hless
    have hgreater' := hjoin (by decide) hgreater
    have hequal' := hjoin (by decide) hequal
    have hunequal' := hjoin (by decide) hunequal
    have hand' := hjoin (by decide) hand
    have hor' := hjoin (by decide) hor
    have hstrict (ds : List Char) (ha : a = '=') :
        cs ++ c :: post = '=' :: '=' :: ds → False := hequal' _ ha
    have hstrictly (ds : List Char) (ha : a = '!') :
        cs ++ c :: post = '=' :: '=' :: ds → False := hunequal' _ ha
    simp only [List.cons_append, Option.bind_none, tokenizeFrom, if_neg hnumber, if_neg hseparator]

theorem tokenize_append_blank {c : Char} (h : isBlank c = true) (pre post : List Char) :
    tokenize (α := α) (pre ++ c :: post) =
      (tokenize pre).bind fun ts => (tokenize (c :: post)).map (ts ++ ·) :=
  tokenizeFrom_append_blank h post [] pre

/-- A blank that separates no tokens starts none either. -/
theorem tokenize_foreign {c : Char} (h : isBlank c = true) (hskip : isSeparator c = false)
    (post : List Char) : tokenize (α := α) (c :: post) = none := by
  have hnumber : isNumberChar c = false := by
    cases hc : isNumberChar c with
    | false => rfl
    | true =>
      have hpath := isPathChar_of_isNumberChar hc
      rw [isPathChar_of_isBlank h] at hpath
      cases hpath
  rw [tokenize, tokenizeFrom.eq_def]
  split
  case h_1 heq => cases heq
  case h_10 heq =>
    obtain ⟨rfl, rfl⟩ := List.cons.inj heq
    simp only [hnumber, hskip, Bool.false_eq_true, if_false]
    split <;> first | rfl | exact absurd h (by decide)
  -- no operator starts with a blank
  all_goals
    rename_i heq
    cases heq
    exact absurd h (by decide)

/-! ## What the tokenizer knows -/

theorem flush_eq_some {held : List Char} {later : Option (List (Token α))} {ts : List (Token α)}
    (h : flush held later = some ts) : ∃ us, later = some us := by
  cases held with
  | nil => exact ⟨ts, h⟩
  | cons d held =>
    obtain ⟨x, -, hx⟩ := Option.bind_eq_some_iff.mp h
    obtain ⟨us, hus, -⟩ := Option.map_eq_some_iff.mp hx
    exact ⟨us, hus⟩

theorem flush_map_eq_some {held : List Char} {a : Token α} {later : Option (List (Token α))}
    {ts : List (Token α)} (h : flush held (later.map (a :: ·)) = some ts) :
    ∃ us, later = some us := by
  obtain ⟨us, hus⟩ := flush_eq_some h
  obtain ⟨vs, hvs, -⟩ := Option.map_eq_some_iff.mp hus
  exact ⟨vs, hvs⟩

/-- All that the tokenizer knows are the characters of conditions. -/
theorem all_isConditionChar {held cs : List Char} {ts : List (Token α)}
    (h : tokenizeFrom held cs = some ts) : ∀ c ∈ cs, isConditionChar c = true := by
  fun_induction tokenizeFrom (α := α) held cs generalizing ts with
  | case1 => simp
  | case4 _ cs ih | case6 _ cs ih =>
    obtain ⟨us, hus⟩ := flush_map_eq_some h
    simp only [List.forall_mem_cons]
    exact ⟨by decide, by decide, by decide, ih hus⟩
  | case2 _ cs ih | case3 _ cs ih | case5 _ cs _ ih | case7 _ cs _ ih | case8 _ cs ih
  | case9 _ cs ih =>
    obtain ⟨us, hus⟩ := flush_map_eq_some h
    simp only [List.forall_mem_cons]
    exact ⟨by decide, by decide, ih hus⟩
  | case10 held c cs _ _ _ _ _ _ _ _ hnumber ih =>
    exact List.forall_mem_cons.mpr
      ⟨isConditionChar_of_isArithmeticChar (isArithmeticChar_of_isNumberChar hnumber), ih h⟩
  | case11 held c cs _ _ _ _ _ _ _ _ _ hseparator ih =>
    obtain ⟨us, hus⟩ := flush_eq_some h
    exact List.forall_mem_cons.mpr
      ⟨isConditionChar_of_isArithmeticChar (isArithmeticChar_of_isSeparator hseparator), ih hus⟩
  | case21 => cases h
  | _ =>
    rename_i ih
    obtain ⟨us, hus⟩ := flush_map_eq_some h
    exact List.forall_mem_cons.mpr ⟨by decide, ih hus⟩

/-! ## Values -/

/-- The value of a text by its tokens: a text without characters has no
tokens, and no tokens have no value. -/
theorem evaluate_eq (allowed : Char → Bool) (cs : List Char) :
    (evaluate allowed cs : Option (Value α)) =
      if cs.all allowed then (tokenize cs).bind run else none := by
  cases cs with
  | nil => rfl
  | cons c cs => cases hall : (c :: cs).all allowed <;> simp [evaluate, hall]

/-- The whitelist of conditions is no narrower than the tokenizer. -/
theorem evaluate_condition (cs : List Char) :
    (evaluate isConditionChar cs : Option (Value α)) = (tokenize cs).bind run := by
  rw [evaluate_eq]
  split
  · rfl
  · next hall =>
    cases htokens : tokenize (α := α) cs with
    | none => rfl
    | some ts => exact absurd (List.all_eq_true.mpr (all_isConditionChar htokens)) hall

/-- The tokens of a condition. -/
def conditionTokens (cs : List Char) : Option (List (Token α)) := tokenize (promote (normalize cs))

theorem holds_eq (cs : List Char) :
    holds α cs = (((conditionTokens (α := α) cs).bind run).bind Value.truth?).getD false := by
  rw [holds, evaluate_condition, conditionTokens]

/-- A blank is rewritten by nothing, and joins no operator. -/
theorem promote_normalize_append_blank {c : Char} (h : isBlank c = true) (pre post : List Char) :
    promote (normalize (pre ++ c :: post)) =
      promote (normalize pre) ++ c :: promote (normalize post) := by
  have hkept : normalizeChar c = [c] :=
    normalizeChar_of_not_mem (not_mem_of_isBlank h (by decide))
  have hnext : NoEquals (c :: normalize post) := by
    rintro d hd rfl
    obtain rfl : c = '=' := by simpa using hd
    exact absurd h (by decide)
  rw [normalize, List.flatMap_append, List.flatMap_cons, hkept, List.singleton_append]
  exact (promote_append hnext _).trans
    (congrArg (promote (normalize pre) ++ ·) (promote_cons (isPlain_of_isBlank h) _))

theorem conditionTokens_append_blank {c : Char} (h : isBlank c = true) (pre post : List Char) :
    conditionTokens (α := α) (pre ++ c :: post) = (conditionTokens pre).bind fun ts =>
      (tokenize (c :: promote (normalize post))).map (ts ++ ·) := by
  rw [conditionTokens, promote_normalize_append_blank h, tokenize_append_blank h, conditionTokens]

/-! ## Places -/

/-- A place between two texts where a reader cuts no token: either end,
or between the tokens of the first text and those of the second one. -/
def Free (read : List Char → Option (List (Token α))) (pre post : List Char) : Prop :=
  pre = [] ∨ post = [] ∨
    ∃ ts us, read pre = some ts ∧ read post = some us ∧ read (pre ++ post) = some (ts ++ us)

omit [Scalar α] in
theorem Free.bind_map {read : List Char → Option (List (Token α))} {pre post : List Char}
    (h : Free read pre post) (hnil : read [] = some []) :
    ((read pre).bind fun ts => (read post).map (ts ++ ·)) = read (pre ++ post) := by
  rcases h with rfl | rfl | ⟨ts, us, hpre, hpost, hboth⟩
  · rw [hnil, Option.bind_some, List.nil_append]
    exact Option.map_id'
  · rw [hnil, List.append_nil]
    cases read pre <;> simp
  · rw [hpre, hpost, hboth]
    rfl

theorem number?_eq (cs : List Char) : (number? cs : Option α) =
    ((if cs.all isArithmeticChar then (tokenize cs).bind run else none).bind Value.number?).bind
      Scalar.finite? := by
  rw [number?, evaluate_eq]

/-- **Blanks at free places.** A blank that the tokenizer skips changes
neither a number nor a condition, wherever it stands between two tokens
or at an end. Any other blank, though the whitelists have it, leaves no
number, an amount of zero and a false condition, wherever it stands. -/
theorem blank_at_free_place {c : Char} (h : isBlank c = true) (pre post : List Char) :
    (isSeparator c = true →
      (Free (tokenize (α := α)) pre post →
        (number? (pre ++ c :: post) : Option α) = number? (pre ++ post)) ∧
      (Free (conditionTokens (α := α)) pre post →
        holds α (pre ++ c :: post) = holds α (pre ++ post))) ∧
    (isSeparator c = false →
      (number? (pre ++ c :: post) : Option α) = none ∧ amount (pre ++ c :: post) = (0 : α) ∧
        holds α (pre ++ c :: post) = false) := by
  refine ⟨fun hskip => ⟨fun hfree => ?_, fun hfree => ?_⟩, fun hskip => ?_⟩
  · have htokens : tokenize (α := α) (pre ++ c :: post) = tokenize (pre ++ post) := by
      rw [tokenize_append_blank h, tokenize_separator hskip, hfree.bind_map rfl]
    have hall : (pre ++ c :: post).all isArithmeticChar = (pre ++ post).all isArithmeticChar := by
      simp [isArithmeticChar_of_isBlank h]
    rw [number?_eq, number?_eq, htokens, hall]
  · have htokens : conditionTokens (α := α) (pre ++ c :: post) = conditionTokens (pre ++ post) := by
      rw [conditionTokens_append_blank h, tokenize_separator hskip]
      exact hfree.bind_map rfl
    rw [holds_eq, holds_eq, htokens]
  · have htokens : tokenize (α := α) (pre ++ c :: post) = none := by
      rw [tokenize_append_blank h, tokenize_foreign h hskip]
      cases tokenize (α := α) pre <;> rfl
    have hcondition : conditionTokens (α := α) (pre ++ c :: post) = none := by
      rw [conditionTokens_append_blank h, tokenize_foreign h hskip]
      cases conditionTokens (α := α) pre <;> rfl
    have hnumber : (number? (pre ++ c :: post) : Option α) = none := by
      rw [number?_eq, htokens]
      split <;> rfl
    refine ⟨hnumber, ?_, ?_⟩
    · rw [amount, hnumber]
    · rw [holds_eq, hcondition]
      rfl

theorem free_sum : Free (tokenize (α := Double)) ['1'] ['+', '1'] :=
  .inr (.inr ⟨[.number 1], [.operator .plus, .number 1], by decide +kernel, by decide +kernel,
    by decide +kernel⟩)

/-- The place behind a number, with a space and with a no-break space. -/
theorem blank_at_free_place_sum : isBlank ' ' = true ∧ isBlank '\u00a0' = true ∧
    (number? (['1'] ++ ' ' :: ['+', '1']) : Option Double) = number? (['1'] ++ ['+', '1']) ∧
    holds Double (['1'] ++ ' ' :: ['<', '2']) = holds Double (['1'] ++ ['<', '2']) ∧
    (number? (['1'] ++ '\u00a0' :: ['+', '1']) : Option Double) = none := by
  have hspace : isBlank ' ' = true := by decide
  have hnoBreak : isBlank '\u00a0' = true := by decide
  have hless : Free (conditionTokens (α := Double)) ['1'] ['<', '2'] :=
    .inr (.inr ⟨[.number 1], [.operator .less, .number (Scalar.ofNat 2)], by decide +kernel,
      by decide +kernel, by decide +kernel⟩)
  exact ⟨hspace, hnoBreak, ((blank_at_free_place hspace _ _).1 rfl).1 free_sum,
    ((blank_at_free_place hspace _ _).1 rfl).2 hless,
    ((blank_at_free_place hnoBreak _ _).2 (by decide)).1⟩

/-- That a blank is allowed does not make it harmless: a no-break space
between two tokens takes a number away. -/
theorem exists_blank_worthless : ¬ ∀ (c : Char) (pre post : List Char), isBlank c = true →
    ((number? (pre ++ post) : Option Double).isSome = true →
      Free (tokenize (α := Double)) pre post →
        (number? (pre ++ c :: post) : Option Double) = number? (pre ++ post)) ∧
    (holds Double (pre ++ post) = true → Free (conditionTokens (α := Double)) pre post →
        holds Double (pre ++ c :: post) = holds Double (pre ++ post)) := by
  intro h
  have hnumber := (h '\u00a0' ['1'] ['+', '1'] (by decide)).1 (by decide +kernel) free_sum
  revert hnumber
  decide +kernel

end DeckDuel.Formula
