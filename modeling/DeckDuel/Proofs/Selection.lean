/-
DeckDuel.Proofs.Selection — what a selector picks.

* `Table.Yields` — what a term stands for, told of the cards of its
  pile and not of the way in which they are found.
  `Table.yields_pick` — a term picks just that.
* `Table.YieldsAll` — the same of terms one after another. The host is
  asked once for every term that leaves the choice to it, and its
  answers are numbered.
* `Table.addNew_eraseDups` — adding what is new, part after part, drops
  the repetitions of the whole.
* `Table.select_exact` — the uids of a selection, in order.

Nothing is assumed of the host: it may name cards that are in no pile.
-/
import DeckDuel.Proofs.Places
import DeckDuel.Proofs.Samples

namespace DeckDuel

variable {α : Type}

namespace Pick

/-- Is the choice left to the host? -/
def asks : Pick → Bool
  | .choose _ => true
  | _ => false

/-- Is the choice left to chance? -/
def isRandom : Pick → Bool
  | .random _ => true
  | _ => false

end Pick

namespace Table

/-! ## Terms -/

/-- The uids of the pile that a term is about. -/
def here (t : Table α) (term : SelectorTerm) : List Nat :=
  (t.piles.get (term.pile.getD t.home)).map Card.uid

/-- What a term stands for, after the host was asked so often. -/
def Yields (t : Table α) (asked : Nat) (term : SelectorTerm) (uids : List Nat) : Prop :=
  match term.pick with
  | .random n => uids.Nodup ∧ uids ⊆ t.here term ∧ uids.length = min n (t.here term).length
  | .leftmost n => uids <+: t.here term ∧ uids.length = min n (t.here term).length
  | .rightmost n => uids <:+ t.here term ∧ uids.length = min n (t.here term).length
  | .all => uids = t.here term
  | .allCards => uids = t.piles.hand.map Card.uid ++ t.piles.draw.map Card.uid ++
      t.piles.discard.map Card.uid
  | .choose n =>
    uids = t.chooser asked (term.pile.getD t.home) (t.piles.get (term.pile.getD t.home)) n
  | .current => uids = t.current.toList.filter (· ∈ t.piles.allUids)

/-- What terms stand for, one after another. -/
inductive YieldsAll (t : Table α) : Nat → List SelectorTerm → List (List Nat) → Prop where
  | nil (asked : Nat) : t.YieldsAll asked [] []
  | cons {asked : Nat} {term : SelectorTerm} {terms : List SelectorTerm} {uids : List Nat}
      {parts : List (List Nat)} (head : t.Yields asked term uids)
      (tail : t.YieldsAll (asked + term.pick.asks.toNat) terms parts) :
      t.YieldsAll asked (term :: terms) (uids :: parts)

variable {t : Table α}

/-- The entries at different places of a list without duplicates are
different, and as many as the places. -/
theorem yields_random {cards : List (Card α)} (hcards : (cards.map Card.uid).Nodup)
    {amount : Nat} {is : List Nat} (h : Random.Drew cards.length amount is) :
    (is.filterMap fun i => cards[i]?.map Card.uid).Nodup ∧
      (is.filterMap fun i => cards[i]?.map Card.uid) ⊆ cards.map Card.uid ∧
      (is.filterMap fun i => cards[i]?.map Card.uid).length = amount := by
  have hfind : ∀ i ∈ is, ∃ hi : i < (cards.map Card.uid).length,
      cards[i]?.map Card.uid = some ((cards.map Card.uid)[i]) := by
    intro i hi
    have hlt := h.lt i hi
    exact ⟨by rwa [List.length_map], by simp [hlt]⟩
  refine ⟨?_, ?_, ?_⟩
  · apply List.Nodup.filterMap _ h.nodup
    intro i j uid hi hj
    simp only [Option.mem_def, ← List.getElem?_map] at hi hj
    obtain ⟨hlti, rfl⟩ := List.getElem?_eq_some_iff.mp hi
    obtain ⟨hltj, heq⟩ := List.getElem?_eq_some_iff.mp hj
    exact ((hcards.getElem_inj_iff).mp heq).symm
  · intro uid huid
    obtain ⟨i, hi, hget⟩ := List.mem_filterMap.mp huid
    obtain ⟨hlt, hsome⟩ := hfind i hi
    rw [hsome] at hget
    cases hget
    exact List.getElem_mem hlt
  · rw [← h.length_eq, List.length_filterMap_eq_countP, List.countP_eq_length]
    intro i hi
    obtain ⟨hlt, hsome⟩ := hfind i hi
    simp [hsome]

/-- A term picks what it stands for. -/
theorem yields_pick (h : t.piles.Distinct) (term : SelectorTerm) (ch : Chance) :
    t.Yields ch.questions term (t.pick term ch).1 := by
  obtain ⟨pile, kind⟩ := term
  cases kind with
  | random n =>
    have hdrew := ch.stream.drew_sample (t.piles.get (pile.getD t.home)).length n
    have hrandom := yields_random (h.get (pile.getD t.home)) hdrew
    simp only [Yields, pick, here, List.length_map]
    exact hrandom
  | leftmost n =>
    simp only [Yields, pick, here, List.map_take, List.length_take, List.length_map, and_true]
    exact List.take_prefix n _
  | rightmost n =>
    simp only [Yields, pick, here, List.map_drop, List.length_drop, List.length_map]
    exact ⟨List.drop_suffix _ _, by omega⟩
  | all => rfl
  | allCards => simp [Yields, pick]
  | choose n => rfl
  | current =>
    simp only [Yields, pick]
    apply List.filter_congr
    intro uid _
    rw [Bool.eq_iff_iff, decide_eq_true_iff, Option.isSome_iff_ne_none, ne_eq,
      Piles.find?_eq_none, not_not]

/-- What a term stands for is in some pile, unless the host chooses. -/
theorem Yields.subset {asked : Nat} {term : SelectorTerm} {uids : List Nat}
    (h : t.Yields asked term uids) (hasks : term.pick.asks = false) :
    uids ⊆ t.piles.allUids := by
  have hpile (p : Pile) : (t.piles.get p).map Card.uid ⊆ t.piles.allUids := by
    intro uid huid
    exact Piles.mem_allUids.mpr ⟨p, List.mem_toFinset.mpr huid⟩
  have hhere : t.here term ⊆ t.piles.allUids := hpile _
  cases hpick : term.pick with
  | choose n => simp [hpick, Pick.asks] at hasks
  | random n =>
    simp only [Yields, hpick] at h
    exact List.Subset.trans h.2.1 hhere
  | leftmost n =>
    simp only [Yields, hpick] at h
    exact List.Subset.trans h.1.subset hhere
  | rightmost n =>
    simp only [Yields, hpick] at h
    exact List.Subset.trans h.1.subset hhere
  | all =>
    simp only [Yields, hpick] at h
    exact h ▸ hhere
  | allCards =>
    simp only [Yields, hpick] at h
    rw [h, List.append_subset, List.append_subset]
    exact ⟨⟨hpile .hand, hpile .draw⟩, hpile .discard⟩
  | current =>
    simp only [Yields, hpick] at h
    intro uid huid
    rw [h] at huid
    simpa using List.of_mem_filter huid

/-- A term asks the host once or not at all. -/
theorem questions_pick (term : SelectorTerm) (ch : Chance) :
    (t.pick term ch).2.questions = ch.questions + term.pick.asks.toNat := by
  cases hpick : term.pick <;> simp [pick, hpick, Pick.asks]

theorem stream_pick {term : SelectorTerm} (h : term.pick.isRandom = false) (ch : Chance) :
    (t.pick term ch).2.stream = ch.stream := by
  cases hpick : term.pick with
  | random n => simp [hpick, Pick.isRandom] at h
  | leftmost | rightmost | all | allCards | choose | current => simp [pick, hpick]

/-! ## Selectors -/

/-- Of what comes part after part only the first occurrences stay. -/
theorem addNew_eraseDups (before uids : List Nat) :
    addNew before.eraseDups uids = (before ++ uids).eraseDups := by
  induction uids generalizing before with
  | nil => simp [addNew]
  | cons u rest ih =>
    have hone : (if before.eraseDups.contains u then before.eraseDups
        else before.eraseDups ++ [u]) = (before ++ [u]).eraseDups := by
      by_cases hu : u ∈ before
      · simp [List.eraseDups_append, List.removeAll, hu]
      · simp [List.eraseDups_append, List.removeAll, List.eraseDups_cons, hu]
    rw [addNew, List.foldl_cons, hone, ← addNew, ih, List.append_assoc, List.singleton_append]

theorem yieldsAll_pickAll (h : t.piles.Distinct) (terms : List SelectorTerm) (before : List Nat)
    (ch : Chance) : ∃ parts, t.YieldsAll ch.questions terms parts ∧
      (t.pickAll terms before.eraseDups ch).1 = (before ++ parts.flatten).eraseDups := by
  induction terms generalizing before ch with
  | nil => exact ⟨[], .nil _, by simp [pickAll]⟩
  | cons term rest ih =>
    obtain ⟨parts, hparts, hpicked⟩ := ih (before ++ (t.pick term ch).1) (t.pick term ch).2
    rw [questions_pick] at hparts
    refine ⟨(t.pick term ch).1 :: parts, .cons (yields_pick h term ch) hparts, ?_⟩
    simp only [pickAll, addNew_eraseDups, hpicked, List.flatten_cons, List.append_assoc]

theorem nodup_pickAll (terms : List SelectorTerm) {picked : List Nat} (hpicked : picked.Nodup)
    (ch : Chance) : (t.pickAll terms picked ch).1.Nodup := by
  induction terms generalizing picked ch with
  | nil => exact hpicked
  | cons term rest ih => exact ih (addNew_spec hpicked _).1 _

theorem stream_pickAll {terms : List SelectorTerm}
    (h : ∀ term ∈ terms, term.pick.isRandom = false) (picked : List Nat) (ch : Chance) :
    (t.pickAll terms picked ch).2.stream = ch.stream := by
  induction terms generalizing picked ch with
  | nil => rfl
  | cons term rest ih =>
    obtain ⟨hterm, hrest⟩ := List.forall_mem_cons.mp h
    exact (ih hrest _ _).trans (stream_pick hterm ch)

/-- If the host chooses nothing, all parts are in the piles. -/
theorem YieldsAll.subset {asked : Nat} {terms : List SelectorTerm} {parts : List (List Nat)}
    (h : t.YieldsAll asked terms parts) (hasks : ∀ term ∈ terms, term.pick.asks = false) :
    parts.flatten ⊆ t.piles.allUids := by
  induction h with
  | nil => simp
  | cons head tail ih =>
    obtain ⟨hterm, hrest⟩ := List.forall_mem_cons.mp hasks
    rw [List.flatten_cons, List.append_subset]
    exact ⟨head.subset hterm, ih hrest⟩

/-- **Selection is exact.** A selector picks what its terms stand for,
one after another, and of each card the first occurrence: no uid comes
twice. What the host does not choose lies in a pile, and the random
stream moves on only for a term that leaves the choice to chance. -/
theorem select_exact (t : Table α) (h : t.piles.Distinct) (sel : Selector) (ch : Chance) :
    (∃ parts, t.YieldsAll ch.questions sel.terms parts ∧
      (t.select sel ch).1 = parts.flatten.eraseDups) ∧
    (t.select sel ch).1.Nodup ∧
    ((∀ term ∈ sel.terms, term.pick.asks = false) →
      ∀ uid ∈ (t.select sel ch).1, uid ∈ t.piles.allUids) ∧
    ((t.select sel ch).2.stream ≠ ch.stream → ∃ term ∈ sel.terms, term.pick.isRandom = true) := by
  obtain ⟨parts, hparts, hpicked⟩ := yieldsAll_pickAll h sel.terms [] ch
  rw [List.eraseDups_nil, List.nil_append] at hpicked
  refine ⟨⟨parts, hparts, hpicked⟩, nodup_pickAll sel.terms List.nodup_nil ch, ?_, ?_⟩
  · intro hasks uid huid
    rw [select, hpicked, List.mem_eraseDups] at huid
    exact hparts.subset hasks huid
  · intro hmoved
    by_contra hnone
    push Not at hnone
    exact hmoved (stream_pickAll (fun term hterm => by simpa using hnone term hterm) [] ch)

/-- Four cards, the first of the draw pile in play: the terms overlap,
and one asks for more cards than there are. -/
theorem select_exact_four_cards :
    let card (uid : Nat) : Card Nat := { Card.plain "jab" "Jab" 1 "OP.hp-1" with uid := uid }
    let t : Table Nat :=
      ⟨⟨[card 1], [card 2, card 3], [card 4], [], 4⟩, .draw, some 2, .leftmost⟩
    let sel : Selector := ⟨[⟨none, .rightmost 1⟩, ⟨none, .current⟩, ⟨some .hand, .leftmost 3⟩,
      ⟨none, .allCards⟩]⟩
    let ch : Chance := ⟨.ofSeed 1, 0⟩
    (t.select sel ch).1 = [3, 2, 1, 4] ∧ (t.select sel ch).1.Nodup ∧
      (∃ parts, t.YieldsAll 0 sel.terms parts ∧ (t.select sel ch).1 = parts.flatten.eraseDups) ∧
      ∀ uid ∈ (t.select sel ch).1, uid ∈ t.piles.allUids := by
  intro card t sel ch
  obtain ⟨hparts, hnodup, hthere, -⟩ := select_exact t (by decide) sel ch
  exact ⟨by decide, hnodup, hparts, hthere (by decide)⟩

end Table
end DeckDuel
