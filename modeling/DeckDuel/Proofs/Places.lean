/-
DeckDuel.Proofs.Places — where the cards lie, by their uids.

* `Piles.uids` — the uids in a pile.
* `Piles.Distinct` — no two cards share a uid, so a uid lies in one pile
  at most. Every change of the piles keeps it (`Distinct.of_deck`).
* `placesAfter` — what becomes of the uids of all piles when cards leave
  theirs for a pile.
* `Piles.Distinct.uids_move`, `Piles.Distinct.uids_moveAll`,
  `Piles.Distinct.uids_takeIn` — that is what moving cards does, one
  after another or past a limit of the hand. Of cards that are moved past
  a limit all must be there, and none may come twice.
* `Pile.isTold`, `SamePlaces` — the hand and the exhaust pile, and that
  they hold the same uids. `Battle.samePlaces_drawUpTo` — drawing adds to
  the hand what it names; the other two piles are reshuffled besides.
* `Setting.Picks.spec` — a selector picks cards that are there, none of
  them twice, if the host does not choose any others (`Chooser.Honest`).
-/
import DeckDuel.Proofs.CardConservation
import Mathlib.Data.Finset.Disjoint
import Mathlib.Data.Finset.Lattice.Lemmas
import Mathlib.Data.Finset.SDiff
import Mathlib.Data.List.Nodup
import Mathlib.Data.List.Pairwise
import Mathlib.Tactic.Tauto

namespace DeckDuel

variable {α : Type}

namespace Piles

/-! ## Uids -/

/-- The uids in a pile. -/
def uids (ps : Piles α) (p : Pile) : Finset Nat := ((ps.get p).map Card.uid).toFinset

theorem mem_uids {ps : Piles α} {p : Pile} {uid : Nat} :
    uid ∈ ps.uids p ↔ ∃ c ∈ ps.get p, c.uid = uid := by
  rw [uids, List.mem_toFinset, List.mem_map]

theorem mem_allUids {ps : Piles α} {uid : Nat} : uid ∈ ps.allUids ↔ ∃ p, uid ∈ ps.uids p := by
  simp only [allUids, List.mem_map, mem_cards, mem_uids]
  constructor
  · rintro ⟨c, ⟨p, hc⟩, rfl⟩
    exact ⟨p, c, hc, rfl⟩
  · rintro ⟨p, c, hc, rfl⟩
    exact ⟨c, ⟨p, hc⟩, rfl⟩

/-- No two cards share a uid. -/
def Distinct (ps : Piles α) : Prop := ps.allUids.Nodup

instance (ps : Piles α) : Decidable ps.Distinct := inferInstanceAs (Decidable ps.allUids.Nodup)

theorem Distinct.of_deck {ps qs : Piles α} (h : ps.Distinct) (hdeck : qs.deck = ps.deck) :
    qs.Distinct :=
  (allUids_perm_of_deck hdeck).nodup_iff.mpr h

theorem Distinct.get {ps : Piles α} (h : ps.Distinct) (p : Pile) :
    ((ps.get p).map Card.uid).Nodup := by
  rw [Distinct, allUids, cards, List.map_flatMap] at h
  exact (List.nodup_flatMap.mp h).1 p p.mem_all

/-- A uid lies in one pile at most. -/
theorem Distinct.pile_unique {ps : Piles α} (h : ps.Distinct) {p q : Pile} {uid : Nat}
    (hp : uid ∈ ps.uids p) (hq : uid ∈ ps.uids q) : p = q := by
  rw [Distinct, allUids, cards, List.map_flatMap] at h
  have hapart := (List.nodup_flatMap.mp h).2
  rw [uids, List.mem_toFinset] at hp hq
  by_contra hne
  have : Std.Symm (Function.onFun List.Disjoint fun p => (ps.get p).map Card.uid) :=
    ⟨fun _ _ h => h.symm⟩
  exact hapart.forall p.mem_all q.mem_all hne hp hq

theorem get_set (ps : Piles α) (p q : Pile) (cs : List (Card α)) :
    (ps.set p cs).get q = if q = p then cs else ps.get q := by
  cases p <;> cases q <;> rfl

/-! ## Finding cards -/

/-- What is found is there, and has the uid. -/
theorem find?_eq_some {ps : Piles α} {uid : Nat} {p : Pile} {i : Nat}
    (h : ps.find? uid = some (p, i)) : ∃ c, (ps.get p)[i]? = some c ∧ c.uid = uid := by
  obtain ⟨q, -, hq⟩ := List.exists_of_findSome?_eq_some h
  obtain ⟨j, hj, heq⟩ := Option.map_eq_some_iff.mp hq
  cases heq
  obtain ⟨hlt, huid, -⟩ := List.findIdx?_eq_some_iff_getElem.mp hj
  exact ⟨_, List.getElem?_eq_getElem hlt, beq_iff_eq.mp huid⟩

theorem find?_eq_none {ps : Piles α} {uid : Nat} : ps.find? uid = none ↔ uid ∉ ps.allUids := by
  simp only [find?, List.findSome?_eq_none_iff, Option.map_eq_none_iff, List.findIdx?_eq_none_iff,
    beq_eq_false_iff_ne, mem_allUids, mem_uids, not_exists, not_and]
  constructor
  · intro h p c hc
    exact h p p.mem_all c hc
  · intro h p _ c hc
    exact h p c hc

/-! ## Moving -/

end Piles

/-- The uids of all piles after some leave theirs for another. -/
def placesAfter (v : Pile → Finset Nat) (uids : List Nat) (goal : Pile) : Pile → Finset Nat :=
  fun p => if p = goal then v p ∪ uids.toFinset else v p \ uids.toFinset

section PlacesAfter

variable (v : Pile → Finset Nat) (us ws : List Nat) (p q : Pile)

theorem mem_placesAfter {uid : Nat} :
    uid ∈ placesAfter v us p q ↔ if q = p then uid ∈ v q ∨ uid ∈ us else uid ∈ v q ∧ uid ∉ us := by
  unfold placesAfter
  split
  · rw [Finset.mem_union, List.mem_toFinset]
  · rw [Finset.mem_sdiff, List.mem_toFinset]

theorem placesAfter_nil : placesAfter v [] p = v := by
  funext q
  simp [placesAfter]

theorem placesAfter_append :
    placesAfter v (us ++ ws) p = placesAfter (placesAfter v us p) ws p := by
  funext q
  ext uid
  simp only [mem_placesAfter, List.mem_append]
  split
  · exact or_assoc.symm
  · rw [not_or, and_assoc]

/-- Of different cards it does not matter which leave first. -/
theorem placesAfter_comm (h : us.Disjoint ws) :
    placesAfter (placesAfter v us p) ws q = placesAfter (placesAfter v ws q) us p := by
  funext r
  ext uid
  have hboth : uid ∈ us → uid ∉ ws := fun hus hws => h hus hws
  simp only [mem_placesAfter]
  split <;> split <;> tauto

end PlacesAfter

namespace Piles

theorem uids_push (ps : Piles α) (goal : Pile) (c : Card α) (p : Pile) :
    (ps.push goal c).uids p = if p = goal then ps.uids p ∪ {c.uid} else ps.uids p := by
  rw [uids, push, get_set]
  split
  · next h => simp [h, uids]
  · rfl

theorem Distinct.uids_eraseIdx {ps : Piles α} (h : ps.Distinct) {p : Pile} {i : Nat} {c : Card α}
    (hc : (ps.get p)[i]? = some c) (q : Pile) :
    (ps.set p ((ps.get p).eraseIdx i)).uids q = ps.uids q \ {c.uid} := by
  obtain ⟨hi, rfl⟩ := List.getElem?_eq_some_iff.mp hc
  rw [uids, get_set]
  split
  · next hq =>
    subst hq
    have hi' : i < ((ps.get q).map Card.uid).length := by rwa [List.length_map]
    have hmap : ((ps.get q).eraseIdx i).map Card.uid =
        ((ps.get q).map Card.uid).erase ((ps.get q).map Card.uid)[i] := by
      rw [(h.get q).erase_getElem i hi', List.eraseIdx_map]
    rw [hmap, List.getElem_map]
    ext uid
    rw [List.mem_toFinset, (h.get q).mem_erase_iff, Finset.mem_sdiff, uids, List.mem_toFinset,
      Finset.mem_singleton, and_comm]
  · next hne =>
    have hthere : (ps.get p)[i].uid ∈ ps.uids p := mem_uids.mpr ⟨_, List.getElem_mem hi, rfl⟩
    refine (Finset.sdiff_eq_self_of_disjoint ?_).symm
    exact Finset.disjoint_singleton_right.mpr fun hq => hne (h.pile_unique hq hthere)

/-- A card that is moved leaves its pile for another. -/
theorem Distinct.uids_move? {ps qs : Piles α} (h : ps.Distinct) {uid : Nat} {goal p : Pile}
    (hmove : ps.move? uid goal = some (p, qs)) : qs.uids = placesAfter ps.uids [uid] goal := by
  simp only [move?, Option.bind_eq_some_iff, Option.map_eq_some_iff] at hmove
  obtain ⟨⟨p', i⟩, hfind, c, hc, heq⟩ := hmove
  cases heq
  obtain ⟨c', hc', rfl⟩ := find?_eq_some hfind
  obtain rfl : c = c' := Option.some_inj.mp (hc.symm.trans hc')
  funext q
  rw [uids_push, h.uids_eraseIdx hc, placesAfter]
  simp only [List.toFinset_cons, List.toFinset_nil, insert_empty_eq]
  split
  · exact Finset.sdiff_union_self_eq_union
  · rfl

theorem Distinct.uids_move {ps : Piles α} (h : ps.Distinct) {uid : Nat} (hthere : uid ∈ ps.allUids)
    (goal : Pile) : (ps.move uid goal).uids = placesAfter ps.uids [uid] goal := by
  unfold move
  split
  · next hmove => exact h.uids_move? hmove
  · next hmove =>
    exfalso
    cases hfind : ps.find? uid with
    | none => exact find?_eq_none.mp hfind hthere
    | some r =>
      obtain ⟨c, hc, -⟩ := find?_eq_some hfind
      simp [move?, hfind, hc] at hmove

theorem deck_move? {ps qs : Piles α} {uid : Nat} {goal p : Pile}
    (hmove : ps.move? uid goal = some (p, qs)) : qs.deck = ps.deck := by
  have hdeck := deck_move ps uid goal
  rwa [move, hmove] at hdeck

theorem deck_moveAll (goal : Pile) (us : List Nat) (ps : Piles α) :
    (ps.moveAll goal us).2.deck = ps.deck := by
  induction us generalizing ps with
  | nil => rfl
  | cons uid rest ih =>
    simp only [moveAll]
    split
    · next hmove => exact (ih _).trans (deck_move? hmove)
    · exact ih ps

/-- Of cards that are moved those leave their piles that are there. -/
theorem Distinct.uids_moveAll {ps : Piles α} (h : ps.Distinct) (goal : Pile) (us : List Nat) :
    (ps.moveAll goal us).2.uids = placesAfter ps.uids (ps.moveAll goal us).1 goal := by
  induction us generalizing ps with
  | nil => exact (placesAfter_nil _ _).symm
  | cons uid rest ih =>
    simp only [moveAll]
    split
    · next p qs hmove =>
      rw [ih (h.of_deck (deck_move? hmove)), h.uids_move? hmove]
      exact (placesAfter_append ps.uids [uid] _ goal).symm
    · exact ih h

/-- What arrives by a draw of picked cards was picked. -/
theorem takeIn_sublist (limit : Nat) (us : List Nat) (ps : Piles α) :
    (ps.takeIn limit us).1.toHand.Sublist us := by
  induction us generalizing ps with
  | nil => exact .refl _
  | cons uid rest ih =>
    simp only [takeIn]
    split
    · exact (ih _).cons_cons uid
    · exact (ih _).cons uid

/-- Of cards that are drawn those for which there is room leave for the
hand, and the others for the discard pile. When a card of the hand is
burned there is room again, so they may take turns; as no card comes
twice, one may as well look at the former first. -/
theorem Distinct.uids_takeIn {ps : Piles α} (h : ps.Distinct) (limit : Nat) {us : List Nat}
    (hnodup : us.Nodup) (hthere : ∀ uid ∈ us, uid ∈ ps.allUids) :
    (ps.takeIn limit us).2.uids =
      placesAfter (placesAfter ps.uids (ps.takeIn limit us).1.toHand .hand)
        (ps.takeIn limit us).1.burned .discard := by
  induction us generalizing ps with
  | nil => exact ((placesAfter_nil _ _).trans (placesAfter_nil _ _)).symm
  | cons uid rest ih =>
    obtain ⟨hnew, hrest⟩ := List.nodup_cons.mp hnodup
    obtain ⟨huid, hothers⟩ := List.forall_mem_cons.mp hthere
    have hlater (goal : Pile) : ∀ u ∈ rest, u ∈ (ps.move uid goal).allUids := fun u hu =>
      (allUids_perm_of_deck (deck_move ps uid goal)).mem_iff.mpr (hothers u hu)
    have hmoved (goal : Pile) := ih (h.of_deck (deck_move ps uid goal)) hrest (hlater goal)
    simp only [takeIn]
    split
    · rw [hmoved, h.uids_move huid]
      exact congrArg (placesAfter · _ _) (placesAfter_append ps.uids [uid] _ .hand).symm
    · have hapart : [uid].Disjoint ((ps.move uid .discard).takeIn limit rest).1.toHand := by
        rw [List.singleton_disjoint]
        exact fun hmem => hnew ((takeIn_sublist limit rest _).subset hmem)
      rw [hmoved, h.uids_move huid, placesAfter_comm _ _ _ _ _ hapart]
      exact (placesAfter_append _ [uid] _ .discard).symm

theorem Distinct.uids_discardHand {ps : Piles α} (h : ps.Distinct) :
    ps.discardHand.uids = placesAfter ps.uids (ps.hand.map Card.uid) .discard := by
  have hapart (p : Pile) (hne : p ≠ .hand) : ps.uids p \ ps.uids .hand = ps.uids p :=
    Finset.sdiff_eq_self_of_disjoint (Finset.disjoint_left.mpr fun _ hp hhand =>
      hne (h.pile_unique hp hhand))
  funext p
  cases p with
  | hand => exact (Finset.sdiff_self _).symm
  | draw => exact (hapart .draw (by decide)).symm
  | discard =>
    show ((ps.discard ++ ps.hand).map Card.uid).toFinset = _
    rw [List.map_append, List.toFinset_append]
    rfl
  | exhaust => exact (hapart .exhaust (by decide)).symm

end Piles
/-! ## Drawing -/

/-- Are the cards of a pile told by events? What is reshuffled is not,
so the draw pile and the discard pile are not known. -/
def Pile.isTold : Pile → Bool
  | .hand | .exhaust => true
  | .draw | .discard => false

/-- The same uids are in the piles that are told. -/
def SamePlaces (v w : Pile → Finset Nat) : Prop := ∀ p : Pile, p.isTold = true → w p = v p

theorem SamePlaces.placesAfter {v w : Pile → Finset Nat} (h : SamePlaces v w) (us : List Nat)
    (goal : Pile) : SamePlaces (placesAfter v us goal) (placesAfter w us goal) := by
  intro p hp
  simp only [DeckDuel.placesAfter, h p hp]

theorem SamePlaces.trans {u v w : Pile → Finset Nat} (h : SamePlaces u v) (h' : SamePlaces v w) :
    SamePlaces u w := fun p hp => (h' p hp).trans (h p hp)

/-- What is known after a draw: a card that was drawn left for the hand,
one that was burned for the discard pile. -/
theorem Piles.Distinct.samePlaces_drawOne {ps : Piles α} (h : ps.Distinct) (limit : Nat)
    (s : Random.Stream) :
    SamePlaces
      (match (ps.drawOne limit s).1 with
        | .empty => ps.uids
        | .drawn uid => DeckDuel.placesAfter ps.uids [uid] .hand
        | .burned uid => DeckDuel.placesAfter ps.uids [uid] .discard)
      (ps.drawOne limit s).2.1.uids := by
  obtain ⟨qs, s', hdeck, hhand, hexhaust, hdraw⟩ := Piles.drawOne_cases ps limit s
  have hsame : ∀ p : Pile, p.isTold = true → qs.uids p = ps.uids p := by
    intro p hp
    cases p with
    | hand => exact congrArg (fun cs => (cs.map Card.uid).toFinset) hhand
    | exhaust => exact congrArg (fun cs => (cs.map Card.uid).toFinset) hexhaust
    | draw | discard => cases hp
  -- The top card was in none of the piles that are told.
  have hnew {c : Card α} {rest : List (Card α)} (hqs : qs.draw = c :: rest) (p : Pile)
      (hp : p.isTold = true) : ps.uids p \ {c.uid} = ps.uids p := by
    refine Finset.sdiff_eq_self_of_disjoint (Finset.disjoint_singleton_right.mpr fun hc => ?_)
    have htop : c ∈ qs.draw := hqs ▸ List.mem_cons_self
    have htop : c.uid ∈ qs.uids .draw := Piles.mem_uids.mpr ⟨c, htop, rfl⟩
    rw [← hsame p hp] at hc
    rw [(h.of_deck hdeck).pile_unique hc htop] at hp
    cases hp
  obtain hnone | ⟨c, rest, hqs, ⟨-, hburned⟩ | ⟨-, hdrawn⟩⟩ := hdraw
  · rw [hnone]
    exact hsame
  · rw [hburned]
    intro p hp
    cases p with
    | hand => exact (hsame .hand rfl).trans (hnew hqs .hand rfl).symm
    | exhaust => exact (hsame .exhaust rfl).trans (hnew hqs .exhaust rfl).symm
    | draw | discard => cases hp
  · rw [hdrawn]
    intro p hp
    cases p with
    | hand =>
      show ((qs.hand ++ [c]).map Card.uid).toFinset = ps.uids .hand ∪ [c.uid].toFinset
      rw [List.map_append, List.toFinset_append, hhand]
      rfl
    | exhaust => exact (hsame .exhaust rfl).trans (hnew hqs .exhaust rfl).symm
    | draw | discard => cases hp

/-- Once the hand is full, all cards that are drawn are burned. -/
theorem Battle.toHand_drawUpTo_of_full {limit : Nat} (count : Nat) (b : Battle α)
    (hfull : limit ≤ b.piles.hand.length) : (b.drawUpTo limit count).1.toHand = [] := by
  induction count generalizing b with
  | zero => rfl
  | succ count ih =>
    obtain ⟨qs, s', -, hhand, -, h | ⟨c, rest, -, ⟨-, h⟩ | ⟨hroom, -⟩⟩⟩ :=
      Piles.drawOne_cases b.piles limit b.stream
    · simp only [drawUpTo, h]
    · simp only [drawUpTo, h]
      exact ih _ (hhand ▸ hfull)
    · rw [hhand] at hroom
      omega

/-- What is known after a draw of many: the hand is filled first, and the
other cards are burned. A card that is burned may come again and be
burned once more. -/
theorem Battle.samePlaces_drawUpTo (limit count : Nat) (b : Battle α) (h : b.piles.Distinct) :
    SamePlaces
      (placesAfter (placesAfter b.piles.uids (b.drawUpTo limit count).1.toHand .hand)
        (b.drawUpTo limit count).1.burned .discard)
      (b.drawUpTo limit count).2.piles.uids := by
  induction count generalizing b with
  | zero =>
    rw [drawUpTo, placesAfter_nil, placesAfter_nil]
    exact fun _ _ => rfl
  | succ count ih =>
    have hone := h.samePlaces_drawOne limit b.stream
    have hdeck := Piles.deck_drawOne b.piles limit b.stream
    obtain ⟨qs, s', -, hhand, -, hd | ⟨c, rest, -, ⟨hfull, hd⟩ | ⟨-, hd⟩⟩⟩ :=
      Piles.drawOne_cases b.piles limit b.stream
    · simp only [hd] at hone
      simp only [drawUpTo, hd, placesAfter_nil]
      exact hone
    · simp only [hd] at hone hdeck
      have hrest := ih { b.setPiles { qs with draw := rest, discard := qs.discard ++ [c] } with
        stream := s' } (h.of_deck hdeck)
      have hnone : ({ b.setPiles { qs with draw := rest, discard := qs.discard ++ [c] } with
          stream := s' }.drawUpTo limit count).1.toHand = [] :=
        toHand_drawUpTo_of_full count _ hfull
      rw [hnone, placesAfter_nil] at hrest
      simp only [drawUpTo, hd]
      rw [hnone, placesAfter_nil]
      refine SamePlaces.trans ?_ hrest
      rw [← List.singleton_append, placesAfter_append]
      exact hone.placesAfter _ _
    · simp only [hd] at hone hdeck
      have hrest := ih { b.setPiles { qs with draw := rest, hand := qs.hand ++ [c] } with
        stream := s' } (h.of_deck hdeck)
      simp only [drawUpTo, hd]
      refine SamePlaces.trans ?_ hrest
      rw [← List.singleton_append, placesAfter_append]
      exact (hone.placesAfter _ _).placesAfter _ _

/-! ## Selecting -/

/-- Asked about cards whose uids are among some, the host answers with
some of these. -/
def Chooser.Honest (ch : Chooser α) (us : List Nat) : Prop :=
  ∀ question pile cards n, (∀ c ∈ cards, c.uid ∈ us) → ∀ uid ∈ ch question pile cards n, uid ∈ us

theorem Chooser.honest_leftmost (us : List Nat) : (Chooser.leftmost : Chooser α).Honest us := by
  intro _ _ cards n hcards uid huid
  obtain ⟨c, hc, rfl⟩ := List.mem_map.mp huid
  exact hcards c (List.mem_of_mem_take hc)

namespace Table

/-- Nothing is picked twice, and what is picked is new or was there. -/
theorem addNew_spec {picked : List Nat} (hpicked : picked.Nodup) (uids : List Nat) :
    (addNew picked uids).Nodup ∧ ∀ uid, uid ∈ addNew picked uids ↔ uid ∈ picked ∨ uid ∈ uids := by
  induction uids generalizing picked with
  | nil => exact ⟨hpicked, fun uid => by simp [addNew]⟩
  | cons u rest ih =>
    rw [addNew, List.foldl_cons]
    by_cases hu : u ∈ picked
    · rw [if_pos (List.contains_iff_mem.mpr hu)]
      obtain ⟨hnodup, hmem⟩ := ih hpicked
      refine ⟨hnodup, fun uid => (hmem uid).trans ?_⟩
      rw [List.mem_cons]
      constructor
      · tauto
      · rintro (h | rfl | h) <;> tauto
    · rw [if_neg (by simpa using hu)]
      have hnew : (picked ++ [u]).Nodup :=
        List.nodup_append_comm.mp (List.nodup_cons.mpr ⟨hu, hpicked⟩)
      obtain ⟨hnodup, hmem⟩ := ih hnew
      refine ⟨hnodup, fun uid => (hmem uid).trans ?_⟩
      rw [List.mem_append, List.mem_singleton, List.mem_cons, or_assoc]

variable {t : Table α} {us : List Nat}

/-- A term picks cards that are there. -/
theorem mem_pick (hthere : ∀ c ∈ t.piles.cards, c.uid ∈ us) (hhonest : t.chooser.Honest us)
    (term : SelectorTerm) (ch : Chance) : ∀ uid ∈ (t.pick term ch).1, uid ∈ us := by
  have hpile (p : Pile) : ∀ c ∈ t.piles.get p, c.uid ∈ us := fun c hc =>
    hthere c (Piles.mem_cards.mpr ⟨p, hc⟩)
  have hmap {cs : List (Card α)} (hcs : ∀ c ∈ cs, c.uid ∈ us) : ∀ uid ∈ cs.map Card.uid, uid ∈ us :=
    List.forall_mem_map.mpr hcs
  unfold pick
  split
  · intro uid huid
    obtain ⟨i, -, hi⟩ := List.mem_filterMap.mp huid
    obtain ⟨c, hc, rfl⟩ := Option.map_eq_some_iff.mp hi
    exact hpile _ c (List.mem_of_getElem? hc)
  · exact hmap fun c hc => hpile _ c (List.mem_of_mem_take hc)
  · exact hmap fun c hc => hpile _ c (List.mem_of_mem_drop hc)
  · exact hmap (hpile _)
  · refine hmap fun c hc => ?_
    rcases List.mem_append.mp hc with hc | hc
    · rcases List.mem_append.mp hc with hc | hc
      · exact hpile .hand c hc
      · exact hpile .draw c hc
    · exact hpile .discard c hc
  · exact hhonest _ _ _ _ (hpile _)
  · intro uid huid
    obtain ⟨-, hfound⟩ := List.mem_filter.mp huid
    obtain ⟨⟨p, i⟩, hfind⟩ := Option.isSome_iff_exists.mp hfound
    obtain ⟨c, hc, rfl⟩ := Piles.find?_eq_some hfind
    exact hpile p c (List.mem_of_getElem? hc)

/-- So does a selector, and it picks no card twice. -/
theorem pickAll_spec (hthere : ∀ c ∈ t.piles.cards, c.uid ∈ us) (hhonest : t.chooser.Honest us)
    (terms : List SelectorTerm) {picked : List Nat} (hnodup : picked.Nodup)
    (hpicked : ∀ uid ∈ picked, uid ∈ us) (ch : Chance) :
    (t.pickAll terms picked ch).1.Nodup ∧ ∀ uid ∈ (t.pickAll terms picked ch).1, uid ∈ us := by
  induction terms generalizing picked ch with
  | nil => exact ⟨hnodup, hpicked⟩
  | cons term rest ih =>
    obtain ⟨hnodup', hmem⟩ := addNew_spec hnodup (t.pick term ch).1
    refine ih hnodup' (fun uid huid => ?_) (t.pick term ch).2
    rcases (hmem uid).mp huid with h | h
    · exact hpicked uid h
    · exact mem_pick hthere hhonest term ch uid h

end Table

theorem Setting.Picks.spec {s : Setting α} {ps : Piles α} {uids us : List Nat}
    (h : s.Picks ps uids) (hperm : ps.allUids.Perm us) (hhonest : s.chooser.Honest us) :
    uids.Nodup ∧ ∀ uid ∈ uids, uid ∈ us := by
  obtain ⟨home, current, selector, ch, rfl⟩ := h
  exact Table.pickAll_spec (fun c hc => hperm.mem_iff.mp (List.mem_map.mpr ⟨c, hc, rfl⟩)) hhonest
    selector.terms List.nodup_nil (by simp) ch

end DeckDuel
