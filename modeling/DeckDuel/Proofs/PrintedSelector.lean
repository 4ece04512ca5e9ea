/-
DeckDuel.Proofs.PrintedSelector — selectors are read as they are printed.

* `Selector.text` — the text of a selector: its terms joined by `+`, with
  every count in brackets.
* `Pick.EndsBefore` — what may follow the text of a way to pick. After a
  bracket that is anything; after a bare keyword it is nothing that the
  keyword could be continued by.
* `Selector.read_printed` — a printed selector is read as itself, and what
  follows it is left. The next term starts behind the right `+`, since
  what follows the last term starts like none.
-/
import DeckDuel.Proofs.SelectorText

namespace DeckDuel

open DeckDuel.Text

/-! ## Printing -/

/-- The text of a way to pick. -/
def Pick.text : Pick → List Char
  | .random n => Selector.Keyword.random.spelling ++ '[' :: ((toString n).toList ++ [']'])
  | .leftmost n => Selector.Keyword.leftmost.spelling ++ '[' :: ((toString n).toList ++ [']'])
  | .rightmost n => Selector.Keyword.rightmost.spelling ++ '[' :: ((toString n).toList ++ [']'])
  | .choose n => Selector.Keyword.choose.spelling ++ '[' :: ((toString n).toList ++ [']'])
  | .all => Selector.Keyword.all.spelling
  | .allCards => Selector.Keyword.allCards.spelling
  | .current => Selector.Keyword.current.spelling

/-- The number of cards that a way to pick names. -/
def Pick.count? : Pick → Option Nat
  | .random n | .leftmost n | .rightmost n | .choose n => some n
  | .all | .allCards | .current => none

/-- The number of cards fits 64 bits. -/
def Pick.Fits (p : Pick) : Prop := ∀ n ∈ p.count?, n < 1 <<< 64

instance (p : Pick) : Decidable p.Fits :=
  inferInstanceAs (Decidable (∀ n ∈ p.count?, n < 1 <<< 64))

/-- May the text follow a way to pick? A bare keyword must not be
continued, and `current` must not get a bracket. -/
def Pick.EndsBefore (p : Pick) (rest : List Char) : Prop :=
  match p with
  | .random _ | .leftmost _ | .rightmost _ | .choose _ => True
  | .all | .allCards => ∀ c ∈ rest.head?, isWordChar c = false
  | .current => ∀ c ∈ rest.head?, isWordChar c = false ∧ c ≠ '['

namespace Selector

/-- The text of a term. -/
def termText (t : SelectorTerm) : List Char := pileText t.pile ++ t.pick.text

/-- The texts of terms, joined by `+`. -/
def termsText : List SelectorTerm → List Char
  | [] => []
  | [t] => termText t
  | t :: ts => termText t ++ '+' :: termsText ts

/-- The text of a selector. -/
def text (s : Selector) : List Char := termsText s.terms

/-! ## Reading back -/

theorem writesCount_toString {n : Nat} (h : n < 1 <<< 64) : WritesCount n (toString n).toList := by
  have hprint : (toString n).toList = Nat.toDigits 10 n := Nat.toList_repr
  have hdigits : WritesNat (1 <<< 64) n (Nat.toDigits 10 n) :=
    ⟨Nat.toDigits_ne_nil, fun c hc => Nat.isDigit_of_mem_toDigits (by decide) (by decide) hc,
      Nat.ofDigitChars_toDigits (by decide) (by decide), h⟩
  rw [hprint]
  simpa using @WritesCount.mk n [] [] _ [] (by simp) (.inl rfl) hdigits (by simp)

/-- A printed way to pick starts with its keyword, and is read from
there. -/
theorem readPick_text {p : Pick} (hfits : p.Fits) {rest : List Char} (hrest : p.EndsBefore rest) :
    ∃ k tail, p.text = k.spelling ++ tail ∧ EndsWord (tail ++ rest) ∧
      ∀ whole, readPick whole k (tail ++ rest) = .ok (p, rest) := by
  have hcounted {k : Keyword} {pick : Nat → Pick} {n : Nat} (hk : k.counted? = some pick)
      (hn : n < 1 <<< 64) : ∃ k' tail, k.spelling ++ '[' :: ((toString n).toList ++ [']']) =
        k'.spelling ++ tail ∧ EndsWord (tail ++ rest) ∧
        ∀ whole, readPick whole k' (tail ++ rest) = .ok (pick n, rest) := by
    refine ⟨k, _, rfl, endsWord_bracket _, fun whole => ?_⟩
    simpa using readPick_counted hk (writesCount_toString hn) whole rest
  cases p with
  | random n => exact hcounted (k := .random) rfl (hfits n rfl)
  | leftmost n => exact hcounted (k := .leftmost) rfl (hfits n rfl)
  | rightmost n => exact hcounted (k := .rightmost) rfl (hfits n rfl)
  | choose n => exact hcounted (k := .choose) rfl (hfits n rfl)
  | all => exact ⟨.all, [], by simp [Pick.text], hrest, fun _ => rfl⟩
  | allCards => exact ⟨.allCards, [], by simp [Pick.text], hrest, fun _ => rfl⟩
  | current =>
    refine ⟨.current, [], by simp [Pick.text], fun c hc => (hrest c hc).1, fun whole => ?_⟩
    cases rest with
    | nil => rfl
    | cons c rest =>
      have hbracket : c ≠ '[' := (hrest c rfl).2
      simp [readPick, hbracket]

theorem readTerm_text {t : SelectorTerm} (hfits : t.pick.Fits) {rest : List Char}
    (hrest : t.pick.EndsBefore rest) : starts (termText t ++ rest) = true ∧
      ∀ whole, readTerm whole (termText t ++ rest) = .ok (t, rest) := by
  obtain ⟨k, tail, htext, hword, hread⟩ := readPick_text hfits hrest
  simpa [termText, htext] using readTerm_keyword t.pile hword hread

/-- Any term may stand before a `+`. -/
theorem endsBefore_plus (p : Pick) (next : List Char) : p.EndsBefore ('+' :: next) := by
  cases p with
  | random n | leftmost n | rightmost n | choose n => trivial
  | all | allCards => exact fun c hc => (endsTerm_plus next c hc).1
  | current => exact endsTerm_plus next

theorem termText_ne_nil (t : SelectorTerm) : termText t ≠ [] := by
  obtain ⟨pile, pick⟩ := t
  cases pick <;> simp [termText, Pick.text, spelling_eq]

/-- By induction on the terms; each of them takes one step. -/
theorem readTerms_text {ts : List SelectorTerm} (hne : ts ≠ []) (hfits : ∀ t ∈ ts, t.pick.Fits)
    {rest : List Char} (hlast : ∀ t ∈ ts.getLast?, t.pick.EndsBefore rest)
    (hplus : ∀ next, rest = '+' :: next → starts next = false) (whole : List Char) {steps : Nat}
    (hsteps : (termsText ts).length ≤ steps) :
    readTerms whole steps (termsText ts ++ rest) = .ok (ts, rest) ∧
      starts (termsText ts ++ rest) = true := by
  induction ts generalizing steps with
  | nil => exact absurd rfl hne
  | cons t ts ih =>
    have hfit := hfits t List.mem_cons_self
    have hpos := List.length_pos_iff.mpr (termText_ne_nil t)
    cases ts with
    | nil =>
      simp only [termsText] at hsteps ⊢
      obtain ⟨hstarts, hread⟩ := readTerm_text hfit (hlast t rfl)
      obtain ⟨k, rfl⟩ : ∃ k, steps = k + 1 := ⟨steps - 1, by omega⟩
      exact ⟨readTerms_last (hread whole) hplus, hstarts⟩
    | cons t' ts =>
      simp only [termsText, List.length_append, List.length_cons] at hsteps ⊢
      obtain ⟨k, rfl⟩ : ∃ k, steps = k + 1 := ⟨steps - 1, by omega⟩
      have hrest : ∀ t ∈ (t' :: ts).getLast?, t.pick.EndsBefore rest := by
        intro u hu
        exact hlast u (by rwa [List.getLast?_cons_cons])
      have htail : (termsText (t' :: ts)).length ≤ k := by omega
      obtain ⟨hterms, hnext⟩ := ih (by simp) (fun u hu => hfits u (List.mem_cons_of_mem _ hu))
        hrest htail
      obtain ⟨hstarts, hread⟩ :=
        readTerm_text hfit (endsBefore_plus t.pick (termsText (t' :: ts) ++ rest))
      have happend : termText t ++ '+' :: termsText (t' :: ts) ++ rest =
          termText t ++ '+' :: (termsText (t' :: ts) ++ rest) := by simp
      rw [happend]
      exact ⟨readTerms_more (hread whole) hnext hterms, hstarts⟩

/-! ## Whole texts -/

/-- No blank is printed. -/
theorem visible_termsText (ts : List SelectorTerm) : ∀ c ∈ termsText ts, isBlank c = false := by
  have hspelling (k : Keyword) : ∀ c ∈ k.spelling, isBlank c = false := by
    cases k <;> decide
  have hcount (k : Keyword) (n : Nat) :
      ∀ c ∈ k.spelling ++ '[' :: ((toString n).toList ++ [']']), isBlank c = false := by
    have hprint : (toString n).toList = Nat.toDigits 10 n := Nat.toList_repr
    intro c hc
    rw [hprint, List.mem_append, List.mem_cons, List.mem_append, List.mem_singleton] at hc
    rcases hc with hc | rfl | hc | rfl
    · exact hspelling k c hc
    · decide
    · have hdigit := Nat.isDigit_of_mem_toDigits (by decide) (by decide) hc
      exact isBlank_of_isWordChar (by simp [isWordChar, Char.isAlphanum, hdigit])
    · decide
  have hpick (p : Pick) : ∀ c ∈ p.text, isBlank c = false := by
    cases p with
    | random n | leftmost n | rightmost n | choose n => exact hcount _ n
    | all => exact hspelling .all
    | allCards => exact hspelling .allCards
    | current => exact hspelling .current
  have hpile (p : Option Pile) : ∀ c ∈ pileText p, isBlank c = false := by
    cases p with
    | none => simp [pileText]
    | some p => cases p <;> decide
  have hterm (t : SelectorTerm) : ∀ c ∈ termText t, isBlank c = false := by
    intro c hc
    rcases List.mem_append.mp hc with hc | hc
    · exact hpile t.pile c hc
    · exact hpick t.pick c hc
  induction ts with
  | nil => simp [termsText]
  | cons t ts ih =>
    cases ts with
    | nil => exact hterm t
    | cons t' ts =>
      intro c hc
      rw [termsText, List.mem_append, List.mem_cons] at hc
      rcases hc with hc | rfl | hc
      · exact hterm t c hc
      · decide
      · exact ih c hc
      · simp

/-- **Selectors are printed and read back.** A printed selector, with any
counts of 64 bits, is read as itself in front of any text that does not
go on with it: one that does not continue its last word, and is no `+`
with one more term. That text is left. And as a whole text the selector
is read as itself. -/
theorem read_printed (s : Selector) (hne : s.terms ≠ []) (hfits : ∀ t ∈ s.terms, t.pick.Fits) :
    (∀ rest : List Char, (∀ t ∈ s.terms.getLast?, t.pick.EndsBefore rest) →
      (∀ next, rest = '+' :: next → starts next = false) →
      read (s.text ++ rest) = .ok (s, rest)) ∧
    parse s.text = .ok s := by
  have hread (rest : List Char) (hlast : ∀ t ∈ s.terms.getLast?, t.pick.EndsBefore rest)
      (hplus : ∀ next, rest = '+' :: next → starts next = false) :
      read (s.text ++ rest) = .ok (s, rest) := by
    have hlength : (termsText s.terms).length ≤ (termsText s.terms ++ rest).length + 1 := by
      rw [List.length_append]
      omega
    rw [read, text, (readTerms_text hne hfits hlast hplus _ hlength).1]
    rfl
  refine ⟨hread, ?_⟩
  have htrim : trim s.text = s.text := trimmed_of_forall (visible_termsText s.terms)
  have hend : ∀ t ∈ s.terms.getLast?, t.pick.EndsBefore [] := by
    intro t _
    obtain ⟨pile, pick⟩ := t
    cases pick <;> simp [Pick.EndsBefore]
  have hwhole := hread [] hend (by simp)
  rw [List.append_nil] at hwhole
  rw [parse, htrim, hwhole]
  rfl

/-- Four terms before a value: the `+` behind `all` starts a term, the
last one does not, although it stands before a point. -/
theorem read_printed_value :
    let s : Selector := ⟨[⟨some .hand, .leftmost 18446744073709551615⟩, ⟨none, .all⟩,
      ⟨some .discard, .random 0⟩, ⟨none, .current⟩]⟩
    let rest := "+ME.hp.all".toList
    s.text = "hand.leftmost[18446744073709551615]+all+discard.random[0]+current".toList ∧
      s.terms ≠ [] ∧ (∀ t ∈ s.terms, t.pick.Fits) ∧
      (∀ t ∈ s.terms.getLast?, t.pick.EndsBefore rest) ∧
      (∀ next, rest = '+' :: next → starts next = false) ∧
      read (s.text ++ rest) = .ok (s, rest) ∧ parse s.text = .ok s := by
  intro s rest
  have hne : s.terms ≠ [] := by decide
  have hfits : ∀ t ∈ s.terms, t.pick.Fits := by decide
  have hlast : ∀ t ∈ s.terms.getLast?, t.pick.EndsBefore rest := by
    intro t ht
    cases ht
    exact endsBefore_plus _ _
  have hplus : ∀ next, rest = '+' :: next → starts next = false := by
    intro next hnext
    obtain rfl : "ME.hp.all".toList = next := List.tail_eq_of_cons_eq hnext
    decide
  obtain ⟨hread, hparse⟩ := read_printed s hne hfits
  exact ⟨by decide, hne, hfits, hlast, hplus, hread rest hlast hplus, hparse⟩

end Selector
end DeckDuel
