/-
DeckDuel.Proofs.SelectorText — selectors as they are written.

* `Selector.WritesPick`, `Selector.WritesTerm`, `Selector.Writes` — the
  texts of a way to pick, of a term and of a selector.
* `Selector.Ends` — what a selector ends before: no word character, no
  bracket, and no `+` that another term could follow.
* `Selector.read_writes` — a written selector is read as the selector it
  writes, up to there.
-/
import DeckDuel.Proofs.Scanning
import DeckDuel.Selector

namespace DeckDuel.Selector

open DeckDuel.Text

/-! ## Writing -/

/-- What a keyword that may take a count picks with it. -/
def Keyword.counted? : Keyword → Option (Nat → Pick)
  | .random => some .random
  | .leftmost => some .leftmost
  | .rightmost => some .rightmost
  | .choose => some .choose
  | .all | .allCards | .current => none

/-- Digits that write a number below a bound. -/
def WritesNat (bound n : Nat) (ds : List Char) : Prop :=
  ds ≠ [] ∧ (∀ c ∈ ds, c.isDigit = true) ∧ Numeral.natOf ds = n ∧ n < bound

theorem WritesNat.isWordChar {bound n : Nat} {ds : List Char} (h : WritesNat bound n ds) :
    ∀ c ∈ ds, isWordChar c = true := by
  intro c hc
  simp [Text.isWordChar, Char.isAlphanum, h.2.1 c hc]

theorem WritesNat.no_blank {bound n : Nat} {ds : List Char} (h : WritesNat bound n ds) :
    ∀ c ∈ ds, isBlank c = false :=
  fun c hc => isBlank_of_isWordChar (h.isWordChar c hc)

/-- The texts of a count of 64 bits. Blanks may stand around it, and a
plus sign before its digits. -/
inductive WritesCount (n : Nat) : List Char → Prop where
  | mk {gap sign ds gap' : List Char} : (∀ c ∈ gap, isBlank c = true) → sign = [] ∨ sign = ['+'] →
      WritesNat (1 <<< 64) n ds → (∀ c ∈ gap', isBlank c = true) →
      WritesCount n (gap ++ (sign ++ ds ++ gap'))

/-- The texts of a way to pick; without a count one card is meant. The
brackets after `current` may hold anything. -/
inductive WritesPick : Pick → List Char → Prop where
  | all : WritesPick .all Keyword.all.spelling
  | allCards : WritesPick .allCards Keyword.allCards.spelling
  | current : WritesPick .current Keyword.current.spelling
  | currentOf {inner : List Char} : (∀ c ∈ inner, c ≠ ']') →
      WritesPick .current (Keyword.current.spelling ++ '[' :: (inner ++ [']']))
  | one {k : Keyword} {pick : Nat → Pick} : k.counted? = some pick →
      WritesPick (pick 1) k.spelling
  | counted {k : Keyword} {pick : Nat → Pick} {n : Nat} {count : List Char} :
      k.counted? = some pick → WritesCount n count →
      WritesPick (pick n) (k.spelling ++ '[' :: (count ++ [']']))

/-- The texts of a term. -/
inductive WritesTerm : SelectorTerm → List Char → Prop where
  | home {pick : Pick} {w : List Char} : WritesPick pick w → WritesTerm ⟨none, pick⟩ w
  | pile (p : Pile) {pick : Pick} {w : List Char} : WritesPick pick w →
      WritesTerm ⟨some p, pick⟩ (p.name.toList ++ '.' :: w)

/-- The texts of the terms of a selector. -/
inductive Writes : List SelectorTerm → List Char → Prop where
  | last {t : SelectorTerm} {w : List Char} : WritesTerm t w → Writes [t] w
  | more {t : SelectorTerm} {ts : List SelectorTerm} {w ws : List Char} : WritesTerm t w →
      Writes ts ws → Writes (t :: ts) (w ++ '+' :: ws)

/-! ## Reading -/

/-- Nothing comes next that could belong to a term. -/
def EndsTerm (rest : List Char) : Prop := ∀ c ∈ rest.head?, isWordChar c = false ∧ c ≠ '['

/-- Nothing comes next that could belong to a selector. -/
def Ends (rest : List Char) : Prop :=
  EndsTerm rest ∧ ∀ next, rest = '+' :: next → starts next = false

/-- The spellings, character by character. -/
theorem spelling_eq (k : Keyword) : k.spelling = match k with
    | .allCards => ['a', 'l', 'l', '_', 'c', 'a', 'r', 'd', 's']
    | .all => ['a', 'l', 'l']
    | .random => ['r', 'a', 'n', 'd', 'o', 'm']
    | .leftmost => ['l', 'e', 'f', 't', 'm', 'o', 's', 't']
    | .rightmost => ['r', 'i', 'g', 'h', 't', 'm', 'o', 's', 't']
    | .choose => ['c', 'h', 'o', 'o', 's', 'e']
    | .current => ['c', 'u', 'r', 'r', 'e', 'n', 't'] := by
  cases k <;> decide

theorem not_mem_spelling (k : Keyword) : ∀ c ∈ k.spelling, (c == '.') = false := by
  cases k <;> decide

/-- The name of a pile does not start like a keyword. -/
theorem ofName?_spelling_append (k : Keyword) (cs : List Char) :
    Pile.ofName? (String.ofList (k.spelling ++ cs)) = none := by
  have hhead (p : Pile) : p.name.toList.head? ≠ k.spelling.head? := by
    cases k <;> cases p <;> decide
  have hne : k.spelling ≠ [] := by cases k <;> decide
  rw [Pile.ofName?, List.find?_eq_none]
  intro p _ heq
  refine hhead p ?_
  obtain ⟨c, w, hspelling⟩ := List.exists_cons_of_ne_nil hne
  rw [eq_of_beq heq, String.toList_ofList, hspelling]
  rfl

theorem pile?_spelling_append (k : Keyword) (cs : List Char) : pile? (k.spelling ++ cs) = none := by
  rw [pile?, cutAt?_append (not_mem_spelling k)]
  cases cutAt? (· == '.') cs with
  | none => rfl
  | some r =>
    rw [Option.map_some, Option.bind_some, ofName?_spelling_append]
    rfl

theorem pile?_name_append (p : Pile) (cs : List Char) :
    pile? (p.name.toList ++ '.' :: cs) = some (p, cs) := by
  have hname : ∀ c ∈ p.name.toList, (c == '.') = false := by cases p <;> decide
  have hpile : Pile.ofName? p.name = some p := by cases p <;> decide
  rw [pile?, cutAt?_mark hname (by decide)]
  simp [hpile]

/-- Every keyword is found before what cannot belong to it, `all` too,
although `all_cards` is tried first. -/
theorem keyword?_spelling_append (k : Keyword) {rest : List Char} (h : EndsWord rest) :
    keyword? (k.spelling ++ rest) = some (k, rest) := by
  cases rest with
  | nil => cases k <;> decide
  | cons c rest =>
    have hc : isWordChar c = false := h c rfl
    have hline : '_' ≠ c := by
      rintro rfl
      exact absurd hc (by decide)
    cases k <;> simp [keyword?, Keyword.every, Keyword.after?, spelling_eq, Text.after?, hc, hline]

/-- A count may start with a plus sign, which is no digit. -/
theorem count?_digits {n : Nat} {sign ds : List Char} (hsign : sign = [] ∨ sign = ['+'])
    (h : WritesNat (1 <<< 64) n ds) : count? (sign ++ ds) = some n := by
  obtain ⟨hne, hall, hn, hlt⟩ := h
  have hdigits : ds.all Char.isDigit = true := List.all_eq_true.mpr hall
  have hempty : ds.isEmpty = false := by simpa using hne
  have hread : (if (ds.isEmpty || !ds.all Char.isDigit) = true then none
      else if Numeral.natOf ds < 1 <<< 64 then some (Numeral.natOf ds) else none) = some n := by
    rw [if_neg (by simp [hdigits, hempty]), hn, if_pos hlt]
  rcases hsign with rfl | rfl
  · have hplus : ∀ r, ds ≠ '+' :: r := by
      rintro r rfl
      exact absurd (hall '+' List.mem_cons_self) (by decide)
    rw [List.nil_append, count?]
    · exact hread
    · exact hplus
  · exact hread

theorem readCount_writes {n : Nat} {count : List Char} (h : WritesCount n count)
    (whole rest : List Char) : readCount whole ('[' :: (count ++ ']' :: rest)) = .ok (n, rest) := by
  obtain ⟨hgap, hsign, hds, hgap'⟩ := h
  next gap sign ds gap' =>
  have hsignVisible : ∀ c ∈ sign, isBlank c = false ∧ c ≠ ']' := by
    rcases hsign with rfl | rfl <;> decide
  have hdigit : ∀ c ∈ ds, isBlank c = false ∧ c ≠ ']' := by
    intro c hc
    refine ⟨hds.no_blank c hc, ?_⟩
    rintro rfl
    exact absurd (hds.2.1 _ hc) (by decide)
  have hnumber : ∀ c ∈ sign ++ ds, isBlank c = false ∧ c ≠ ']' := by
    intro c hc
    exact (List.mem_append.mp hc).elim (hsignVisible c) (hdigit c)
  have hblank {gap : List Char} (h : ∀ c ∈ gap, isBlank c = true) : ∀ c ∈ gap, c ≠ ']' := by
    rintro c hc rfl
    exact absurd (h _ hc) (by decide)
  have hmark : ∀ c ∈ gap ++ (sign ++ ds ++ gap'), (c == ']') = false := by
    intro c hc
    rw [beq_eq_false_iff_ne]
    rw [List.mem_append, List.mem_append] at hc
    rcases hc with hc | hc | hc
    · exact hblank hgap c hc
    · exact (hnumber c hc).2
    · exact hblank hgap' c hc
  have hnumberTrim : Trimmed (sign ++ ds) := trimmed_of_forall fun c hc => (hnumber c hc).1
  have hne : sign ++ ds ≠ [] := by simp [hds.1]
  have htrim : trim (gap ++ (sign ++ ds ++ gap')) = sign ++ ds := by
    obtain ⟨hhead, hlast⟩ := trimmed_iff.mp hnumberTrim
    rw [trim, trimStart_blanks hgap, trimEnd_append_blanks hgap' hlast]
    rwa [List.head?_append_of_ne_nil _ hne]
  simp only [readCount, cutAt?_mark hmark (show (']' == ']') = true by decide), htrim,
    count?_digits hsign hds]

/-- The keywords with a count read it alike. -/
theorem readPick_counted {k : Keyword} {pick : Nat → Pick} (hk : k.counted? = some pick) {n : Nat}
    {count : List Char} (hn : WritesCount n count) (whole rest : List Char) :
    readPick whole k ('[' :: (count ++ ']' :: rest)) = .ok (pick n, rest) := by
  cases k <;> cases hk <;> simp only [readPick, readCount_writes hn, Except.map]

theorem readCount_none {rest : List Char} (h : EndsTerm rest) (whole : List Char) :
    readCount whole rest = .ok (1, rest) := by
  unfold readCount
  split
  · exact absurd rfl (h '[' rfl).2
  · rfl

theorem endsWord_bracket (rest : List Char) : EndsWord ('[' :: rest) := by
  intro c hc
  cases hc
  decide

/-- A written way to pick starts with its keyword, and is read from
there. -/
theorem WritesPick.cases {pick : Pick} {w : List Char} (h : WritesPick pick w) :
    ∃ k tail, w = k.spelling ++ tail ∧ ∀ rest, EndsTerm rest → EndsWord (tail ++ rest) ∧
      ∀ whole, readPick whole k (tail ++ rest) = .ok (pick, rest) := by
  have hword {rest : List Char} (h : EndsTerm rest) : EndsWord rest := fun c hc => (h c hc).1
  cases h with
  | all => exact ⟨.all, [], by simp, fun rest h => ⟨hword h, fun _ => rfl⟩⟩
  | allCards => exact ⟨.allCards, [], by simp, fun rest h => ⟨hword h, fun _ => rfl⟩⟩
  | current =>
    refine ⟨.current, [], by simp, fun rest h => ⟨hword h, fun whole => ?_⟩⟩
    cases rest with
    | nil => rfl
    | cons c rest =>
      have hbracket : c ≠ '[' := (h c rfl).2
      simp [readPick, hbracket]
  | @currentOf inner hinner =>
    have hmark : ∀ c ∈ inner, (c == ']') = false := fun c hc => beq_eq_false_iff_ne.mpr (hinner c hc)
    refine ⟨.current, _, rfl, fun rest _ => ⟨endsWord_bracket _, fun whole => ?_⟩⟩
    simp [readPick, cutAt?_mark hmark (show (']' == ']') = true by decide)]
  | @one k pick hk =>
    refine ⟨k, [], by simp, fun rest h => ⟨hword h, fun whole => ?_⟩⟩
    rw [List.nil_append]
    cases k <;> cases hk <;> simp only [readPick, readCount_none h, Except.map]
  | @counted k pick n count hk hn =>
    refine ⟨k, _, rfl, fun rest _ => ⟨endsWord_bracket _, fun whole => ?_⟩⟩
    have happend : '[' :: (count ++ [']']) ++ rest = '[' :: (count ++ ']' :: rest) := by simp
    rw [happend, readPick_counted hk hn]

/-- The name of a pile, with its point. -/
def pileText : Option Pile → List Char
  | some p => p.name.toList ++ ['.']
  | none => []

/-- A term is read as what is read after its keyword, and a text that
starts with one starts like a term. -/
theorem readTerm_keyword (p : Option Pile) {k : Keyword} {cs rest : List Char} {pick : Pick}
    (hword : EndsWord cs) (hread : ∀ whole, readPick whole k cs = .ok (pick, rest)) :
    starts (pileText p ++ (k.spelling ++ cs)) = true ∧
      ∀ whole, readTerm whole (pileText p ++ (k.spelling ++ cs)) = .ok (⟨p, pick⟩, rest) := by
  have hkeyword := keyword?_spelling_append k hword
  cases p with
  | none =>
    have hpile := pile?_spelling_append k cs
    refine ⟨by simp [pileText, starts, body, hpile, hkeyword], fun whole => ?_⟩
    simp [pileText, readTerm, hpile, hkeyword, hread whole, Except.map]
  | some p =>
    have hpile := pile?_name_append p (k.spelling ++ cs)
    refine ⟨by simp [pileText, starts, body, hpile, hkeyword], fun whole => ?_⟩
    simp [pileText, readTerm, hpile, hkeyword, hread whole, Except.map]

theorem readTerm_writes {t : SelectorTerm} {w rest : List Char} (h : WritesTerm t w)
    (hrest : EndsTerm rest) : starts (w ++ rest) = true ∧
      ∀ whole, readTerm whole (w ++ rest) = .ok (t, rest) := by
  cases h with
  | @home pick w hpick =>
    obtain ⟨k, tail, rfl, htail⟩ := hpick.cases
    obtain ⟨hword, hread⟩ := htail rest hrest
    simpa [pileText] using readTerm_keyword none hword hread
  | @pile p pick w hpick =>
    obtain ⟨k, tail, rfl, htail⟩ := hpick.cases
    obtain ⟨hword, hread⟩ := htail rest hrest
    simpa [pileText] using readTerm_keyword (some p) hword hread

theorem WritesTerm.ne_nil {t : SelectorTerm} {w : List Char} (h : WritesTerm t w) : w ≠ [] := by
  cases h with
  | home hpick =>
    obtain ⟨k, tail, rfl, -⟩ := hpick.cases
    cases k <;> simp [spelling_eq]
  | pile p _ => simp

theorem endsTerm_plus (next : List Char) : EndsTerm ('+' :: next) := by
  intro c hc
  obtain rfl : '+' = c := by simpa using hc
  decide

section

variable {t : SelectorTerm} {ts : List SelectorTerm} {whole cs next rest : List Char} {steps : Nat}

theorem readTerms_last (hread : readTerm whole cs = .ok (t, rest))
    (hrest : ∀ next, rest = '+' :: next → starts next = false) :
    readTerms whole (steps + 1) cs = .ok ([t], rest) := by
  rw [readTerms, hread]
  dsimp only
  split
  · next next => simp [hrest next rfl]
  · rfl

theorem readTerms_more (hread : readTerm whole cs = .ok (t, '+' :: next))
    (hnext : starts next = true) (hterms : readTerms whole steps next = .ok (ts, rest)) :
    readTerms whole (steps + 1) cs = .ok (t :: ts, rest) := by
  rw [readTerms, hread]
  simp [hnext, hterms, Except.map]

end

/-- By induction on the terms; each of them takes one step. -/
theorem readTerms_writes {ts : List SelectorTerm} {w rest : List Char} (h : Writes ts w)
    (hrest : Ends rest) (whole : List Char) {steps : Nat} (hsteps : w.length ≤ steps) :
    readTerms whole steps (w ++ rest) = .ok (ts, rest) ∧ starts (w ++ rest) = true := by
  induction h generalizing steps with
  | @last t w ht =>
    obtain ⟨hstarts, hread⟩ := readTerm_writes ht hrest.1
    have hpos := List.length_pos_iff.mpr ht.ne_nil
    obtain ⟨k, rfl⟩ : ∃ k, steps = k + 1 := ⟨steps - 1, by omega⟩
    exact ⟨readTerms_last (hread whole) hrest.2, hstarts⟩
  | @more t ts w ws ht _ ih =>
    have happend : w ++ '+' :: ws ++ rest = w ++ '+' :: (ws ++ rest) := by simp
    rw [happend]
    obtain ⟨hstarts, hread⟩ := readTerm_writes ht (endsTerm_plus (ws ++ rest))
    have hpos := List.length_pos_iff.mpr ht.ne_nil
    rw [List.length_append, List.length_cons] at hsteps
    obtain ⟨k, rfl⟩ : ∃ k, steps = k + 1 := ⟨steps - 1, by omega⟩
    obtain ⟨hterms, hnext⟩ := ih (show ws.length ≤ k by omega)
    exact ⟨readTerms_more (hread whole) hnext hterms, hstarts⟩

/-- **A written selector is read as what it writes**, and what follows it
is left. -/
theorem read_writes {ts : List SelectorTerm} {w rest : List Char} (h : Writes ts w)
    (hrest : Ends rest) : read (w ++ rest) = .ok (⟨ts⟩, rest) := by
  have hlength : w.length ≤ (w ++ rest).length + 1 := by
    rw [List.length_append]
    omega
  rw [read, (readTerms_writes h hrest (w ++ rest) hlength).1]
  rfl

/-! ## Ends -/

theorem WritesPick.endsVisible {pick : Pick} {w : List Char} (h : WritesPick pick w) :
    EndsVisible w := by
  have hspelling (k : Keyword) : EndsVisible k.spelling := by
    unfold EndsVisible
    cases k <;> decide
  have hbracket (before inner : List Char) : EndsVisible (before ++ '[' :: (inner ++ [']'])) := by
    simpa using
      endsVisible_append_singleton (show isBlank ']' = false by decide) (before ++ '[' :: inner)
  cases h with
  | all => exact hspelling .all
  | allCards => exact hspelling .allCards
  | current => exact hspelling .current
  | currentOf _ => exact hbracket _ _
  | @one k _ _ => exact hspelling k
  | counted _ _ => exact hbracket _ _

theorem WritesPick.ne_nil {pick : Pick} {w : List Char} (h : WritesPick pick w) : w ≠ [] := by
  obtain ⟨k, tail, rfl, -⟩ := h.cases
  cases k <;> simp [spelling_eq]

theorem WritesTerm.endsVisible {t : SelectorTerm} {w : List Char} (h : WritesTerm t w) :
    EndsVisible w := by
  cases h with
  | home hpick => exact hpick.endsVisible
  | pile p hpick => simpa using hpick.endsVisible.append hpick.ne_nil (p.name.toList ++ ['.'])

theorem Writes.ne_nil {ts : List SelectorTerm} {w : List Char} (h : Writes ts w) : w ≠ [] := by
  cases h with
  | last ht => exact ht.ne_nil
  | more _ _ => simp

/-- A written selector does not end in a blank. -/
theorem Writes.endsVisible {ts : List SelectorTerm} {w : List Char} (h : Writes ts w) :
    EndsVisible w := by
  induction h with
  | last ht => exact ht.endsVisible
  | @more _ _ w _ _ hts ih => simpa using ih.append hts.ne_nil (w ++ ['+'])

end DeckDuel.Selector
