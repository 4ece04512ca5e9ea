/-
DeckDuel.Proofs.FreshUids — the numbers that cards without uid get when
piles are loaded.

* `Piles.Completes` — a card is the same as another one, or that one had
  no uid and got one.
* `Piles.given` — the uids that cards without uid got, in the order in
  which the cards lie.
* `Piles.given_numberFrom`, `Piles.fst_numberFrom` — numbering gives the
  numbers after the last one, one by one, and stops at the last of them.
* `Piles.assignUids_fresh` — so loaded piles keep their cards and the uids
  they had, the new uids ascend from above all that was there, and no card
  that is put in later without uid gets one that is in use.

Numbering starts above the highest uid of all four piles, and goes on in
each pile where it stopped in the one before: that is why the piles are
numbered like one list (`Piles.cards_assignUids`).
-/
import DeckDuel.Proofs.CardUids

namespace DeckDuel.Piles

variable {α : Type}

/-! ## One list -/

/-- The second card is the first one, which may have had no uid. -/
def Completes (c d : Card α) : Prop := d = if c.uid = 0 then { c with uid := d.uid } else c

/-- The uids of the second cards whose first ones have none. -/
def given (cs ds : List (Card α)) : List Nat :=
  ((cs.zip ds).filter fun e => e.1.uid = 0).map fun e => e.2.uid

theorem completes_numberFrom (last : Nat) (cs : List (Card α)) :
    List.Forall₂ Completes cs (numberFrom last cs).2 := by
  induction cs generalizing last with
  | nil => exact .nil
  | cons c cs ih =>
    unfold numberFrom
    split
    · next hc => exact .cons (by rw [Completes, if_pos hc]) (ih _)
    · next hc => exact .cons (by rw [Completes, if_neg hc]) (ih _)

/-- The counter is moved on by one for each card without uid. -/
theorem fst_numberFrom (last : Nat) (cs : List (Card α)) :
    (numberFrom last cs).1 = last + cs.countP fun c => c.uid = 0 := by
  induction cs generalizing last with
  | nil => rfl
  | cons c cs ih =>
    unfold numberFrom
    split
    · next hc =>
      simp only [ih, List.countP_cons, hc, decide_true, if_true]
      omega
    · next hc => simp only [ih, List.countP_cons, hc, decide_false, Bool.false_eq_true, if_false,
        Nat.add_zero]

/-- The numbers that are given are the ones after the last number. -/
theorem given_numberFrom (last : Nat) (cs : List (Card α)) :
    given cs (numberFrom last cs).2 = List.range' (last + 1) (cs.countP fun c => c.uid = 0) := by
  induction cs generalizing last with
  | nil => rfl
  | cons c cs ih =>
    unfold numberFrom
    split
    · next hc =>
      have hrest := ih (last + 1)
      simp only [given] at hrest
      simp only [given, List.zip_cons_cons, List.filter_cons, List.countP_cons, hc, decide_true,
        if_true, List.map_cons, hrest, List.range'_succ]
    · next hc =>
      have hrest := ih last
      simp only [given] at hrest
      simp only [given, List.zip_cons_cons, List.filter_cons, List.countP_cons, hc, decide_false,
        Bool.false_eq_true, if_false, hrest, Nat.add_zero]

/-! ## Four piles -/

theorem completes_assignUids (ps : Piles α) (p : Pile) :
    List.Forall₂ Completes (ps.get p) (ps.assignUids.get p) := by
  cases p with
  | hand | draw | discard | exhaust => exact completes_numberFrom _ _

theorem allNamed_assignUids (ps : Piles α) : ps.assignUids.AllNamed := by
  intro uid huid
  obtain ⟨c, hc, rfl⟩ := List.mem_map.mp huid
  have hpos := uid_pos_of_mem_numberFrom (max ps.lastUid ps.highestUid) ps.cards
  rw [cards_assignUids] at hpos
  exact Nat.ne_of_gt (hpos c hc)

theorem given_assignUids (ps : Piles α) : given ps.cards ps.assignUids.cards =
    List.range' (max ps.lastUid ps.highestUid + 1) (ps.cards.countP fun c => c.uid = 0) := by
  have hgiven := given_numberFrom (max ps.lastUid ps.highestUid) ps.cards
  rwa [cards_assignUids] at hgiven

theorem uid_le_highestUid {ps : Piles α} {uid : Nat} (h : uid ∈ ps.allUids) :
    uid ≤ ps.highestUid := by
  obtain ⟨c, hc, rfl⟩ := List.mem_map.mp h
  exact uid_le_highestFrom 0 ps.cards c hc

/-- **Loading gives fresh uids.** Every card stays where it lies and as it
is, but for a uid that it gets if it has none. Then all cards have uids.
The uids that were given ascend through hand, draw pile, discard pile and
exhaust pile, and each of them is above every uid that was there and above
the last number given out before. The last number given out is no less
than any uid; so whatever is done with the piles afterwards, a card that
is put in without uid gets one that is not in use, as long as no card
comes with a uid beyond that number. -/
theorem assignUids_fresh (ps : Piles α) :
    (∀ p, List.Forall₂ Completes (ps.get p) (ps.assignUids.get p)) ∧
      (∀ uid ∈ ps.assignUids.allUids, uid ≠ 0) ∧
      (given ps.cards ps.assignUids.cards).Pairwise (· < ·) ∧
      (∀ n ∈ given ps.cards ps.assignUids.cards,
        ps.lastUid < n ∧ ∀ uid ∈ ps.allUids, uid < n) ∧
      (∀ uid ∈ ps.assignUids.allUids, uid ≤ ps.assignUids.lastUid) ∧
      ∀ ops : List (Op α), Along Op.InStep ps.assignUids ops →
        Along Op.FindsUnused ps.assignUids ops := by
  refine ⟨completes_assignUids ps, allNamed_assignUids ps, ?_, fun n hn => ?_,
    caught_assignUids ps,
    fun ops hops => (caught_assignUids ps).along (allNamed_assignUids ps) hops⟩
  · rw [given_assignUids]
    exact List.pairwise_lt_range'
  · rw [given_assignUids, List.mem_range'_1] at hn
    refine ⟨by omega, fun uid huid => ?_⟩
    have hle := uid_le_highestUid huid
    omega

/-- Cards with and without uids in all piles, and a counter that is behind
one of them. -/
def partlyNumbered : Piles Double where
  hand := [.plain "jab" "Jab" 1 "OP.hp-1",
    { Card.plain "guard" "Guard" 1 "ME.block+3" with uid := 7 }]
  draw := [.plain "jab" "Jab" 1 "OP.hp-1", .plain "guard" "Guard" 1 "ME.block+3"]
  discard := [{ Card.plain "jab" "Jab" 1 "OP.hp-1" with uid := 2 }]
  exhaust := [.plain "guard" "Guard" 1 "ME.block+3"]
  lastUid := 4

/-- Afterwards the hand is discarded and cards without uid are put in. -/
theorem assignUids_fresh_partly :
    let ops : List (Op Double) :=
      [.discardHand, .add .hand (.plain "jab" "Jab" 1 "OP.hp-1"),
        .add .draw (.plain "jab" "Jab" 1 "OP.hp-1")]
    partlyNumbered.assignUids.allUids = [8, 7, 9, 10, 2, 11] ∧
      given partlyNumbered.cards partlyNumbered.assignUids.cards = [8, 9, 10, 11] ∧
      Along Op.InStep partlyNumbered.assignUids ops ∧
      Along Op.FindsUnused partlyNumbered.assignUids ops ∧
      (partlyNumbered.assignUids.performAll ops).allUids = [12, 9, 10, 13, 2, 8, 7, 11] := by
  intro ops
  have hops : Along Op.InStep partlyNumbered.assignUids ops :=
    ⟨trivial, Nat.zero_le _, Nat.zero_le _, trivial⟩
  exact ⟨by decide, by decide, hops, (assignUids_fresh partlyNumbered).2.2.2.2.2 ops hops,
    by decide⟩

end DeckDuel.Piles
