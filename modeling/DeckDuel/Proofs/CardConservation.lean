/-
DeckDuel.Proofs.CardConservation — no card is lost and none is made.

* `Card.face` — a card without its cost, which effects may change.
* `Piles.deck` — the faces of all cards in the four piles, as a
  multiset: how often each card is there, wherever it lies.
  `Piles.allUids_perm_of_deck` — with the faces it tells the uids.
* `Piles.Step.deck_eq` — moving, drawing, reshuffling, repricing and
  discarding keep the deck.
* `Piles.Step.length_hand_le` — none of them fills the hand beyond its
  limit.
* `Session.cards_conserved` — so neither does any run, at any moment.

Nothing is assumed of the uids that are asked for: they may be unknown,
or come twice, and cards may share one.
-/
import DeckDuel.Proofs.Call
import Mathlib.Algebra.Order.Group.Multiset
import Mathlib.Tactic.Abel

namespace DeckDuel

variable {α : Type}

/-! ## Shuffles -/

namespace Random

theorem toList_swapIfInBounds_perm {β : Type} (xs : Array β) (i j : Nat) :
    (xs.swapIfInBounds i j).toList.Perm xs.toList := by
  rw [Array.swapIfInBounds_def]
  split
  · split
    · exact (Array.swap_perm _ _).toList
    · exact .refl _
  · exact .refl _

theorem toList_shuffleFrom_perm {β : Type} (i : Nat) (xs : Array β) (s : Stream) :
    (Stream.shuffleFrom i xs s).1.toList.Perm xs.toList := by
  induction i generalizing xs s with
  | zero => exact .refl _
  | succ i ih => exact (ih _ (s.below (i + 2)).2).trans (toList_swapIfInBounds_perm xs _ _)

/-- A shuffle only changes the order. -/
theorem shuffle_perm {β : Type} (xs : List β) (s : Stream) : (s.shuffle xs).1.Perm xs :=
  toList_shuffleFrom_perm _ xs.toArray s

end Random

/-! ## Decks -/

/-- A card without its cost. -/
def Card.face (c : Card α) : Card Unit :=
  ⟨c.uid, c.id, c.name, (), c.effect, c.kind, c.exhausts, c.description⟩

/-- The faces of some cards. -/
def faces (cards : List (Card α)) : Multiset (Card Unit) := ↑(cards.map Card.face)

/-- The faces of all cards in the four piles. -/
def Piles.deck (ps : Piles α) : Multiset (Card Unit) := faces ps.cards

@[simp] theorem faces_nil : faces ([] : List (Card α)) = 0 := rfl

@[simp] theorem faces_append (xs ys : List (Card α)) : faces (xs ++ ys) = faces xs + faces ys := by
  simp [faces]

@[simp] theorem faces_singleton (c : Card α) : faces [c] = {c.face} := rfl

theorem faces_cons (c : Card α) (xs : List (Card α)) : faces (c :: xs) = {c.face} + faces xs :=
  faces_append [c] xs

theorem faces_perm {xs ys : List (Card α)} (h : xs.Perm ys) : faces xs = faces ys :=
  Multiset.coe_eq_coe.mpr (h.map Card.face)

theorem faces_eraseIdx {xs : List (Card α)} {i : Nat} {c : Card α} (h : xs[i]? = some c) :
    faces (xs.eraseIdx i) + {c.face} = faces xs := by
  obtain ⟨hi, rfl⟩ := List.getElem?_eq_some_iff.mp h
  rw [add_comm, ← faces_cons]
  exact faces_perm (List.getElem_cons_eraseIdx_perm hi)

theorem faces_set {xs : List (Card α)} {i : Nat} {c d : Card α} (h : xs[i]? = some c)
    (hface : d.face = c.face) : faces (xs.set i d) = faces xs := by
  rw [faces, faces, map_set_of_eq h hface]

namespace Piles

theorem deck_eq (ps : Piles α) :
    ps.deck = faces ps.hand + faces ps.draw + faces ps.discard + faces ps.exhaust := by
  simp [deck, cards, Pile.all, get, add_assoc]

/-- Exchanging the cards of one pile exchanges their faces. -/
theorem deck_set (ps : Piles α) (p : Pile) (xs : List (Card α)) :
    (ps.set p xs).deck + faces (ps.get p) = ps.deck + faces xs := by
  cases p <;> simp only [deck_eq, set, get] <;> abel

/-- The uids of all cards. -/
def allUids (ps : Piles α) : List Nat := ps.cards.map Card.uid

/-- The deck tells the uids. -/
theorem allUids_perm_of_deck {ps qs : Piles α} (h : qs.deck = ps.deck) :
    qs.allUids.Perm ps.allUids := by
  have hperm : (qs.cards.map Card.face).Perm (ps.cards.map Card.face) := Multiset.coe_eq_coe.mp h
  have huids := hperm.map Card.uid
  rwa [List.map_map, List.map_map] at huids

/-! ## Moving -/

theorem deck_push (ps : Piles α) (p : Pile) (c : Card α) :
    (ps.push p c).deck = ps.deck + {c.face} := by
  have hset := deck_set ps p (ps.get p ++ [c])
  rw [faces_append, faces_singleton, add_comm (faces (ps.get p)), ← add_assoc] at hset
  exact add_right_cancel hset

theorem deck_take {ps : Piles α} {p : Pile} {i : Nat} {c : Card α} (h : (ps.get p)[i]? = some c) :
    (ps.set p ((ps.get p).eraseIdx i)).deck + {c.face} = ps.deck := by
  have hset := deck_set ps p ((ps.get p).eraseIdx i)
  rw [← faces_eraseIdx h, add_comm (faces _), ← add_assoc] at hset
  exact add_right_cancel hset

theorem deck_replace {ps : Piles α} {uid : Nat} {c : Card α} (h : ps.card? uid = some c)
    (d : Card α) (hface : d.face = c.face) : (ps.replace uid d).deck = ps.deck := by
  unfold replace
  split
  · rfl
  · next p i hfind =>
    simp only [card?, hfind, Option.bind_some] at h
    have hset := deck_set ps p ((ps.get p).set i d)
    rw [faces_set h hface] at hset
    exact add_right_cancel hset

theorem length_hand_replace (ps : Piles α) (uid : Nat) (c : Card α) :
    (ps.replace uid c).hand.length = ps.hand.length := by
  unfold replace
  split
  · rfl
  · next p i _ => cases p <;> simp [set, get]

/-- A move takes one card out of its pile and puts it into another. -/
theorem move?_eq_some {ps qs : Piles α} {uid : Nat} {goal p : Pile}
    (h : ps.move? uid goal = some (p, qs)) :
    ∃ i c, (ps.get p)[i]? = some c ∧ qs = (ps.set p ((ps.get p).eraseIdx i)).push goal c := by
  simp only [move?, Option.bind_eq_some_iff, Option.map_eq_some_iff] at h
  obtain ⟨⟨q, i⟩, -, c, hc, heq⟩ := h
  cases heq
  exact ⟨i, c, hc, rfl⟩

theorem deck_move (ps : Piles α) (uid : Nat) (goal : Pile) : (ps.move uid goal).deck = ps.deck := by
  unfold move
  split
  · next p qs hmove =>
    obtain ⟨i, c, hc, rfl⟩ := move?_eq_some hmove
    rw [deck_push, deck_take hc]
  · rfl

theorem length_hand_set_le (ps : Piles α) (p : Pile) (i : Nat) :
    (ps.set p ((ps.get p).eraseIdx i)).hand.length ≤ ps.hand.length := by
  cases p with
  | hand => exact List.length_eraseIdx_le _ _
  | draw | discard | exhaust => exact Nat.le_refl _

theorem length_hand_push (ps : Piles α) (p : Pile) (c : Card α) :
    (ps.push p c).hand.length = ps.hand.length + if p = .hand then 1 else 0 := by
  cases p <;> simp [push, set, get]

/-- A move to the hand needs room there. -/
theorem length_hand_move_le (ps : Piles α) (uid : Nat) (goal : Pile) {limit : Nat}
    (room : goal = .hand → ps.hand.length < limit) :
    (ps.move uid goal).hand.length ≤ max limit ps.hand.length := by
  unfold move
  split
  · next p qs hmove =>
    obtain ⟨i, c, -, rfl⟩ := move?_eq_some hmove
    have hrest := length_hand_set_le ps p i
    rw [length_hand_push]
    split
    · next hgoal =>
      have hroom := room hgoal
      omega
    · omega
  · exact Nat.le_max_right _ _

/-! ## Drawing -/

theorem deck_reshuffle (ps : Piles α) (s : Random.Stream) : (ps.reshuffle s).1.deck = ps.deck := by
  have hshuffled : faces (s.shuffle ps.discard).1 = faces ps.discard :=
    faces_perm (Random.shuffle_perm ps.discard s)
  simp only [reshuffle, deck_eq, faces_append, faces_nil, hshuffled]
  abel

/-- What drawing a card comes to, once the draw pile is filled: there is
none, or the top card goes to the discard pile because the hand is full,
or to the hand. -/
theorem drawOne_cases (ps : Piles α) (limit : Nat) (s : Random.Stream) :
    ∃ (qs : Piles α) (s' : Random.Stream),
      qs.deck = ps.deck ∧ qs.hand = ps.hand ∧ qs.exhaust = ps.exhaust ∧
      (ps.drawOne limit s = (.empty, qs, s') ∨
        ∃ c rest, qs.draw = c :: rest ∧
          (limit ≤ qs.hand.length ∧ ps.drawOne limit s =
              (.burned c.uid, { qs with draw := rest, discard := qs.discard ++ [c] }, s') ∨
            qs.hand.length < limit ∧ ps.drawOne limit s =
              (.drawn c.uid, { qs with draw := rest, hand := qs.hand ++ [c] }, s'))) := by
  rcases hfill : (if ps.draw.isEmpty then ps.reshuffle s else (ps, s)) with ⟨qs, s'⟩
  have hqs : qs.deck = ps.deck ∧ qs.hand = ps.hand ∧ qs.exhaust = ps.exhaust := by
    split at hfill
    · obtain rfl : (ps.reshuffle s).1 = qs := by rw [hfill]
      exact ⟨deck_reshuffle ps s, rfl, rfl⟩
    · cases hfill
      exact ⟨rfl, rfl, rfl⟩
  refine ⟨qs, s', hqs.1, hqs.2.1, hqs.2.2, ?_⟩
  simp only [drawOne, hfill]
  cases hdraw : qs.draw with
  | nil => exact .inl rfl
  | cons c rest =>
    refine .inr ⟨c, rest, rfl, ?_⟩
    dsimp only
    by_cases hfull : limit ≤ qs.hand.length
    · exact .inl ⟨hfull, by rw [if_pos hfull]⟩
    · exact .inr ⟨Nat.lt_of_not_le hfull, by rw [if_neg hfull]⟩

theorem deck_drawOne (ps : Piles α) (limit : Nat) (s : Random.Stream) :
    (ps.drawOne limit s).2.1.deck = ps.deck := by
  obtain ⟨qs, s', hdeck, -, -, h | ⟨c, rest, hdraw, ⟨-, h⟩ | ⟨-, h⟩⟩⟩ := drawOne_cases ps limit s
  · rw [h, hdeck]
  · rw [h, ← hdeck, deck_eq, deck_eq qs, hdraw, faces_cons, faces_append, faces_singleton]
    abel
  · rw [h, ← hdeck, deck_eq, deck_eq qs, hdraw, faces_cons, faces_append, faces_singleton]
    abel

theorem length_hand_drawOne_le (ps : Piles α) (limit : Nat) (s : Random.Stream) :
    (ps.drawOne limit s).2.1.hand.length ≤ max limit ps.hand.length := by
  obtain ⟨qs, s', -, hhand, -, h | ⟨c, rest, -, ⟨-, h⟩ | ⟨hroom, h⟩⟩⟩ := drawOne_cases ps limit s
  · rw [h, hhand]
    exact Nat.le_max_right _ _
  · rw [h, ← hhand]
    exact Nat.le_max_right _ _
  · rw [h, ← hhand, List.length_append, List.length_singleton]
    omega

/-! ## Steps -/

/-- No change of the piles takes a card away or adds one. -/
theorem Step.deck_eq {limit : Nat} {ps qs : Piles α} (h : Step limit ps qs) :
    qs.deck = ps.deck := by
  cases h with
  | move uid goal _ => exact deck_move ps uid goal
  | draw s => exact deck_drawOne ps limit s
  | reprice uid c cost found => exact deck_replace found _ rfl
  | discardHand =>
    simp only [Piles.deck_eq, Piles.discardHand, faces_append, faces_nil]
    abel

/-- No change of the piles fills the hand beyond its limit. -/
theorem Step.length_hand_le {limit : Nat} {ps qs : Piles α} (h : Step limit ps qs) :
    qs.hand.length ≤ max limit ps.hand.length := by
  cases h with
  | move uid goal room => exact length_hand_move_le ps uid goal room
  | draw s => exact length_hand_drawOne_le ps limit s
  | reprice uid c cost _ =>
    rw [length_hand_replace]
    exact Nat.le_max_right _ _
  | discardHand => exact Nat.zero_le _

/-- The cards are those of `start`, and the hand outgrew at most one of
its limit and its size then. -/
structure DealtFrom (limit : Nat) (start ps : Piles α) : Prop where
  deck : ps.deck = start.deck
  hand : ps.hand.length ≤ max limit start.hand.length

theorem DealtFrom.refl (limit : Nat) (ps : Piles α) : DealtFrom limit ps ps :=
  ⟨rfl, Nat.le_max_right _ _⟩

theorem DealtFrom.step {limit : Nat} {start ps qs : Piles α} (hps : DealtFrom limit start ps)
    (h : Step limit ps qs) : DealtFrom limit start qs := by
  refine ⟨h.deck_eq.trans hps.deck, ?_⟩
  have hstep := h.length_hand_le
  have hstart := hps.hand
  omega

theorem DealtFrom.steps {limit : Nat} {start ps qs : Piles α} (hps : DealtFrom limit start ps)
    (h : Steps limit ps qs) : DealtFrom limit start qs := by
  induction h with
  | refl => exact hps
  | tail _ h ih => exact ih.step h

end Piles

/-! ## Battles -/

namespace Battle

variable [Scalar α]

/-- Only changes of the piles touch the piles. -/
theorem keeps_dealtFrom (s : Setting α) (start : Piles α) :
    Keeps s fun b => Piles.DealtFrom s.rules.handLimit start b.piles where
  change h hb := hb.steps h.pileSteps
  verdict _ _ hb := hb

end Battle

/-- **Cards are conserved.** Whatever a host calls for, whatever its
choices are and whatever the effects do: after all calls, and at every
note written meanwhile, the four piles hold exactly the cards that they
held at the start, up to their costs, and the hand is not larger than
its limit unless it was so at the start. -/
theorem Session.cards_conserved [Scalar α] (s : Session α) (calls : List (Call α)) :
    Live.Holds (fun b => Piles.DealtFrom s.rules.handLimit s.live.battle.piles b.piles)
      s.live.journal (s.afterAll calls).live :=
  s.holds_afterAll calls (Battle.keeps_dealtFrom _ _) (.refl _ _)

end DeckDuel
