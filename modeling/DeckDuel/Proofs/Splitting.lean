/-
DeckDuel.Proofs.Splitting — the units of an effect text.

* `Effect.Unsplit` — no separator stands at bracket depth zero.
* `Effect.pieces_append` — a text whose brackets are closed and a text
  after a separator are cut up independently of each other.
* `Effect.unsplit_pieces`, `Effect.pieces_of_unsplit` — the pieces of a
  text are unsplit, and an unsplit text is one piece.
* `Effect.split_compositional` — so texts are split and read one after
  the other, and a unit splits into itself alone.

The depth never falls below zero, so a stray closing bracket closes
nothing and a text after it is cut up as if it were not there.
-/
import DeckDuel.Effect.Parser
import DeckDuel.Proofs.Scanning
import DeckDuel.Scalar.Exact

namespace DeckDuel

namespace Effect

open DeckDuel.Text

/-! ## Depth -/

theorem depthAfter_of_isUnitEnd {c : Char} (h : isUnitEnd c = true) (depth : Nat) :
    depthAfter depth c = depth := by
  simp only [isUnitEnd, Bool.or_eq_true, beq_iff_eq] at h
  rcases h with rfl | rfl <;> rfl

/-- Brackets are no blanks. -/
theorem depthAfter_of_isBlank {c : Char} (h : isBlank c = true) (depth : Nat) :
    depthAfter depth c = depth := by
  have hround : c ≠ '(' ∧ c ≠ ')' := ⟨ne_of_isBlank h (by decide), ne_of_isBlank h (by decide)⟩
  have hsquare : c ≠ '[' ∧ c ≠ ']' := ⟨ne_of_isBlank h (by decide), ne_of_isBlank h (by decide)⟩
  simp [depthAfter, hround, hsquare]

/-! ## Pieces -/

/-- In a text that starts at a depth, no separator stands at depth
zero. -/
def Unsplit (depth : Nat) (cs : List Char) : Prop :=
  ∀ before c after, cs = before ++ c :: after → isUnitEnd c = true → depthOf depth before ≠ 0

theorem unsplit_nil (depth : Nat) : Unsplit depth [] := by
  intro before c after h
  simp at h

theorem unsplit_cons {depth : Nat} {c : Char} {cs : List Char} :
    Unsplit depth (c :: cs) ↔
      (isUnitEnd c = true → depth ≠ 0) ∧ Unsplit (depthAfter depth c) cs := by
  constructor
  · intro h
    exact ⟨h [] c cs rfl, fun before d after hcs => h (c :: before) d after (by rw [hcs]; rfl)⟩
  · rintro ⟨hc, hcs⟩ before d after heq hd
    cases before with
    | nil =>
      cases heq
      exact hc hd
    | cons e before =>
      cases heq
      exact hcs before d after rfl hd

theorem Unsplit.left {depth : Nat} {cs rest : List Char} (h : Unsplit depth (cs ++ rest)) :
    Unsplit depth cs := by
  rintro before c after rfl
  exact h before c (after ++ rest) (by simp)

/-- Blanks at the start change no depth. -/
theorem Unsplit.trimStart {depth : Nat} {cs : List Char} (h : Unsplit depth cs) :
    Unsplit depth (trimStart cs) := by
  induction cs with
  | nil => exact h
  | cons c cs ih =>
    obtain ⟨-, hrest⟩ := unsplit_cons.mp h
    cases hc : isBlank c with
    | true =>
      rw [depthAfter_of_isBlank hc] at hrest
      simpa [Text.trimStart, hc] using ih hrest
    | false => simpa [Text.trimStart, hc] using h

theorem Unsplit.trim {depth : Nat} {cs : List Char} (h : Unsplit depth cs) :
    Unsplit depth (trim cs) := by
  obtain ⟨rest, hrest⟩ := trimEnd_prefix (Text.trimStart cs)
  have hstart := h.trimStart
  rw [← hrest] at hstart
  exact hstart.left

/-- No piece has a separator at depth zero: the first one starts at the
depth of the text, and all others after a separator. -/
theorem unsplit_pieces (depth : Nat) (cs : List Char) :
    Unsplit depth (pieces depth cs).1 ∧ ∀ p ∈ (pieces depth cs).2, Unsplit 0 p := by
  induction cs generalizing depth with
  | nil => simp [pieces, unsplit_nil]
  | cons c cs ih =>
    unfold pieces
    split
    · obtain ⟨hfirst, hothers⟩ := ih 0
      refine ⟨unsplit_nil depth, fun p hp => ?_⟩
      rcases List.mem_cons.mp hp with rfl | hp
      · exact hfirst
      · exact hothers p hp
    · next hinside =>
      obtain ⟨hfirst, hothers⟩ := ih (depthAfter depth c)
      refine ⟨unsplit_cons.mpr ⟨fun hc => ?_, hfirst⟩, hothers⟩
      rintro rfl
      exact hinside (by rw [hc]; rfl)

/-- A text without separator at depth zero is one piece. -/
theorem pieces_of_unsplit {depth : Nat} {cs : List Char} (h : Unsplit depth cs) :
    pieces depth cs = (cs, []) := by
  induction cs generalizing depth with
  | nil => rfl
  | cons c cs ih =>
    obtain ⟨hc, hrest⟩ := unsplit_cons.mp h
    have hinside : ¬ (isUnitEnd c && depth == 0) = true := by
      rw [Bool.and_eq_true, beq_iff_eq]
      exact fun hend => hc hend.1 hend.2
    rw [pieces, if_neg hinside, ih hrest]

/-- Behind closed brackets a separator ends a piece, and what comes after
it starts anew. By induction on the first text, along the depth. -/
theorem pieces_append {depth : Nat} {a : List Char} (ha : depthOf depth a = 0) {s : Char}
    (hs : isUnitEnd s = true) (b : List Char) :
    pieces depth (a ++ s :: b) =
      ((pieces depth a).1, (pieces depth a).2 ++ (pieces 0 b).1 :: (pieces 0 b).2) := by
  induction a generalizing depth with
  | nil =>
    obtain rfl : depth = 0 := ha
    simp [pieces, hs]
  | cons c a ih =>
    have hdepth : depthOf (depthAfter depth c) a = 0 := ha
    rw [List.cons_append, pieces, pieces]
    split
    · next hend =>
      rw [Bool.and_eq_true, beq_iff_eq] at hend
      obtain ⟨hc, rfl⟩ := hend
      rw [depthAfter_of_isUnitEnd hc] at hdepth
      simp [ih hdepth]
    · simp [ih hdepth]

/-! ## Units -/

theorem split_append {a : List Char} (ha : depthOf 0 a = 0) {s : Char} (hs : isUnitEnd s = true)
    (b : List Char) : split (a ++ s :: b) = split a ++ split b := by
  simp only [split, pieces_append ha hs, ← List.cons_append, List.map_append, List.filter_append]

/-- A unit is what is left of a piece without the blanks around it. -/
theorem mem_split {cs u : List Char} (h : u ∈ split cs) : u ≠ [] ∧ Trimmed u ∧ Unsplit 0 u := by
  obtain ⟨hmem, hne⟩ := List.mem_filter.mp h
  obtain ⟨p, hp, rfl⟩ := List.mem_map.mp hmem
  obtain ⟨hfirst, hothers⟩ := unsplit_pieces 0 cs
  have hpiece : Unsplit 0 p := by
    rcases List.mem_cons.mp hp with rfl | hp
    · exact hfirst
    · exact hothers p hp
  exact ⟨by simpa using hne, trimmed_trim p, hpiece.trim⟩

/-- A text that is trimmed and unsplit is the only unit of its own. -/
theorem split_eq_self {u : List Char} (hne : u ≠ []) (htrim : Trimmed u) (h : Unsplit 0 u) :
    split u = [u] := by
  have htrim : trim u = u := htrim
  simp [split, pieces_of_unsplit h, htrim, hne]

/-- **Splitting is compositional.** Behind a text whose brackets are
closed, a comma or a line end separates: what stands after it is split
and read as if it stood alone, whatever came before. And a unit is not
empty, has no blanks around it and no separator outside its brackets, so
that it splits into itself alone. -/
theorem split_compositional {α : Type} [Scalar α] :
    (∀ (a b : String) (s : Char), s = ',' ∨ s = '\n' → depthOf 0 a.toList = 0 →
      split (a.push s ++ b).toList = split a.toList ++ split b.toList ∧
      ∀ catalog : Catalog, (parseEffect catalog (a.push s ++ b) : List (Reading α)) =
        parseEffect catalog a ++ parseEffect catalog b) ∧
    ∀ (text : String), ∀ u ∈ split text.toList,
      u ≠ [] ∧ Trimmed u ∧ Unsplit 0 u ∧ split u = [u] := by
  constructor
  · intro a b s hs ha
    have hend : isUnitEnd s = true := by rcases hs with rfl | rfl <;> rfl
    have htext : (a.push s ++ b).toList = a.toList ++ s :: b.toList := by simp
    have hsplit : split (a.push s ++ b).toList = split a.toList ++ split b.toList := by
      rw [htext, split_append ha hend]
    refine ⟨hsplit, fun catalog => ?_⟩
    simp only [parseEffect, hsplit, List.map_append]
  · intro text u hu
    obtain ⟨hne, htrim, hunsplit⟩ := mem_split hu
    exact ⟨hne, htrim, hunsplit, split_eq_self hne htrim hunsplit⟩

/-- A unit with a stray bracket, and with a comma between brackets of
different kinds that close each other all the same: it is malformed, and
the unit on the next line is not. -/
theorem split_compositional_malformed :
    let a := "ME.mana)+(1,2]"
    let b := "\u00a0OP.hp-6,"
    depthOf 0 a.toList = 0 ∧ split (a.push '\n' ++ b).toList = [a.toList, "OP.hp-6".toList] ∧
      (parseEffect Catalog.standard (a.push '\n' ++ b) : List (Reading Exact)) =
        [.fault a (.unknownAttribute "mana"), .clause ⟨"OP.hp-6", some .op, "hp",
          .change .decrease (.literal ⟨6⟩), "OP HP -6"⟩] ∧
      split "OP.hp-6".toList = ["OP.hp-6".toList] := by
  intro a b
  have ha : depthOf 0 a.toList = 0 := by decide
  obtain ⟨hsplit, hparse⟩ := (split_compositional (α := Exact)).1 a b '\n' (.inr rfl) ha
  have hunits : split a.toList ++ split b.toList = [a.toList, "OP.hp-6".toList] := by decide
  have hmem : "OP.hp-6".toList ∈ split b.toList := by decide
  refine ⟨ha, hsplit.trans hunits, (hparse Catalog.standard).trans (by decide +kernel), ?_⟩
  exact ((split_compositional (α := Exact)).2 b _ hmem).2.2.2

end Effect
end DeckDuel
