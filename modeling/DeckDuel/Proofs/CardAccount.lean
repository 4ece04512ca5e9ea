/-
DeckDuel.Proofs.CardAccount — the events tell which cards are in the hand
and which are exhausted.

* `cardAccount` — a record of where each card lies that is kept from the
  events about moved cards alone. It is right about the hand and the
  exhaust pile. Nothing tells what a reshuffle moves, so it is not right
  about the other two.
* `Battle.Reported.tells_cards` — every change leaves the record right,
  as long as no two cards share a uid and the host chooses among cards
  that are there. Cards move one by one, but are reported in groups.
* `Session.cards_told` — so the record is right after any run.
-/
import DeckDuel.Proofs.Account
import DeckDuel.Proofs.Places
import DeckDuel.Scalar.Double

namespace DeckDuel

variable {α : Type}

/-- The record of where cards lie. -/
def cardAccount : Account α (Pile → Finset Nat) where
  shows b v := SamePlaces v b.piles.uids
  fits _ _ := True
  next v
    | .cardsMoved uids goal => placesAfter v uids goal
    | _ => v

/-! ## Records -/

theorem cardAccount_fits (v : Pile → Finset Nat) (es : List (Event α)) :
    (cardAccount : Account α _).Fits v es := by
  induction es generalizing v with
  | nil => trivial
  | cons e es ih => exact ⟨trivial, ih _⟩

/-- What is known by then decides what is known afterwards. -/
theorem SamePlaces.replay {v w : Pile → Finset Nat} (h : SamePlaces v w) (es : List (Event α)) :
    SamePlaces (cardAccount.replay v es) (cardAccount.replay w es) := by
  induction es generalizing v w with
  | nil => exact h
  | cons e es ih =>
    refine ih ?_
    cases e with
    | cardsMoved uids goal => exact h.placesAfter uids goal
    | _ => exact h

theorem replay_movedReport (v : Pile → Finset Nat) (uids : List Nat) (goal : Pile) :
    cardAccount.replay v (movedReport uids goal : List (Event α)) = placesAfter v uids goal := by
  unfold movedReport
  split
  · next h =>
    rw [List.isEmpty_iff.mp h, placesAfter_nil]
    rfl
  · rfl

theorem replay_drawn (v : Pile → Finset Nat) (d : Drawn) :
    cardAccount.replay v (d.report : List (Event α)) =
      placesAfter (placesAfter v d.toHand .hand) d.burned .discard := by
  rw [Drawn.report, Account.replay_append, replay_movedReport, replay_movedReport]

theorem cardAccount_ignores_aside {e : Event α} (h : e.isAside = true) : cardAccount.Ignores e := by
  cases e <;> first | exact fun v => ⟨trivial, rfl⟩ | cases h

theorem cardAccount_ignores_number (side : Side) (name : String) (x y : α) :
    cardAccount.Ignores (.attributeChanged side name x y) :=
  fun _ => ⟨trivial, rfl⟩

/-! ## Changes -/

namespace Battle

variable {s : Setting α} {turns : Bool} {us : List Nat} {b c : Battle α} {es : List (Event α)}

/-- No card changes its pile, and nothing is told of any. -/
theorem tells_cards_of_same (hb : b.piles.allUids.Perm us)
    (hsame : ∀ p, (c.piles.get p).map Card.uid = (b.piles.get p).map Card.uid)
    (hes : ∀ e ∈ es, cardAccount.Ignores e) :
    c.piles.allUids.Perm us ∧ cardAccount.Tells b es c := by
  have huids : c.piles.uids = b.piles.uids := funext fun p => congrArg List.toFinset (hsame p)
  refine ⟨?_, Account.tells_of_ignores hes fun v hv => ?_⟩
  · simpa only [Piles.allUids, Piles.cards, List.map_flatMap, hsame] using hb
  · show SamePlaces v c.piles.uids
    rw [huids]
    exact hv

/-- Cards change their piles as the events tell. -/
theorem tells_cards_of_deck (hb : b.piles.allUids.Perm us) (hdeck : c.piles.deck = b.piles.deck)
    (hplaces : SamePlaces (cardAccount.replay b.piles.uids es) c.piles.uids) :
    c.piles.allUids.Perm us ∧ cardAccount.Tells b es c :=
  ⟨(Piles.allUids_perm_of_deck hdeck).trans hb,
    fun v hv => ⟨cardAccount_fits v es, (hv.replay es).trans hplaces⟩⟩

variable [Scalar α]

/-- One case for each change. The chooser matters where cards are drawn
by a selector: those are reported without a look whether they are
there. -/
theorem Reported.tells_cards (hus : us.Nodup) (hhonest : s.chooser.Honest us)
    (h : Reported s turns b es c) (hb : b.piles.allUids.Perm us) :
    c.piles.allUids.Perm us ∧ cardAccount.Tells b es c := by
  have hdistinct : b.piles.Distinct := hb.nodup_iff.mpr hus
  have hnone : ∀ e ∈ ([] : List (Event α)), cardAccount.Ignores e := List.forall_mem_nil _
  have hreport := Account.ignores_report (a := cardAccount (α := α)) cardAccount_ignores_number
  have hone {e : Event α} (he : cardAccount.Ignores e) : ∀ e' ∈ [e], cardAccount.Ignores e' :=
    List.forall_mem_singleton.mpr he
  have hsteps {ps : Piles α} (hps : Piles.Steps s.rules.handLimit b.piles ps) :
      ps.deck = b.piles.deck := ((Piles.DealtFrom.refl _ _).steps hps).deck
  cases h with
  | unnoticed h => exact tells_cards_of_same hb h.places hnone
  | aside e he => exact tells_cards_of_same hb (fun _ => rfl) (hone (cardAccount_ignores_aside he))
  | store g x _ =>
    refine tells_cards_of_same hb (fun p => ?_) (hreport g _ x)
    rw [piles_setGauge]
  | settle side =>
    exact tells_cards_of_same hb (fun p => by cases side <;> rfl)
      (List.forall_mem_append.mpr ⟨hreport _ _ _, hreport _ _ _⟩)
  | modifier side name x y =>
    exact tells_cards_of_same hb (fun _ => rfl) (hone (cardAccount_ignores_number side name x y))
  | gain holder | lose holder | restack holder =>
    exact tells_cards_of_same hb (fun p => by cases holder <;> rfl) (hone fun v => ⟨trivial, rfl⟩)
  | draw count =>
    obtain ⟨ps, stream, hps, heq⟩ := drawUpTo_steps s.rules.handLimit count b
    refine tells_cards_of_deck hb (by rw [heq]; exact hsteps hps) ?_
    rw [replay_drawn]
    exact samePlaces_drawUpTo s.rules.handLimit count b hdistinct
  | take uids picked =>
    obtain ⟨hnodup, hthere⟩ := picked.spec hb hhonest
    refine tells_cards_of_deck hb (hsteps (takeIn_steps _ uids b.piles)) ?_
    rw [replay_drawn]
    rw [← hdistinct.uids_takeIn s.rules.handLimit hnodup fun uid h => hb.mem_iff.mpr (hthere uid h)]
    exact fun p _ => rfl
  | put goal uids _ =>
    refine tells_cards_of_deck hb (Piles.deck_moveAll goal uids b.piles) ?_
    rw [replay_movedReport, ← hdistinct.uids_moveAll]
    exact fun p _ => rfl
  | play card goal held =>
    have hthere : card.uid ∈ b.piles.allUids :=
      Piles.mem_allUids.mpr ⟨.hand, Piles.mem_uids.mpr ⟨card, held, rfl⟩⟩
    refine tells_cards_of_deck hb (Piles.deck_move b.piles card.uid goal) ?_
    show SamePlaces (placesAfter b.piles.uids [card.uid] goal) _
    rw [← hdistinct.uids_move hthere]
    exact fun p _ => rfl
  | discardHand =>
    refine tells_cards_of_deck hb (hsteps (.single (.discardHand b.piles))) ?_
    rw [replay_movedReport, ← hdistinct.uids_discardHand]
    exact fun p _ => rfl
  | spend => exact tells_cards_of_same hb (fun _ => rfl) hnone
  | dropBlock side => exact tells_cards_of_same hb (fun p => by cases side <;> rfl) hnone

end Battle

/-! ## Runs -/

variable [Scalar α]

/-- **The events tell which cards are in the hand and which are
exhausted.** At the start no two cards share a uid, and the host only
ever chooses among cards that are there. A listener knows where the
cards lie then, and only hears of cards that are moved from there on.
Whatever is called for, in the end the listener knows the uids in the
hand and in the exhaust pile. -/
theorem Session.cards_told (s : Session α) (calls : List (Call α))
    (hdistinct : s.live.battle.piles.Distinct)
    (hhonest : s.chooser.Honest s.live.battle.piles.allUids) :
    let t := s.afterAll calls
    let v := cardAccount.replay s.live.battle.piles.uids (t.live.events.drop s.live.events.length)
    v .hand = t.live.battle.piles.uids .hand ∧ v .exhaust = t.live.battle.piles.uids .exhaust := by
  intro t v
  have htells := (heard_afterAll s calls).tells (Battle.Reported.tells_cards hdistinct hhonest)
    (.refl _)
  obtain ⟨-, hplaces⟩ := htells s.live.battle.piles.uids fun _ _ => rfl
  exact ⟨(hplaces .hand rfl).symm, (hplaces .exhaust rfl).symm⟩

/-- The duel with four cards, one of them in the hand. -/
def Snapshot.dealing : Snapshot Double :=
  { Snapshot.duel with
    hand := [.plain "sift" "Sift" 1 "draw.draw.rightmost[2], exhaust.leftmost"]
    draw := [.plain "blow" "Blow" 1 "OP.hp-3", .plain "guard" "Guard" 1 "ME.block+3",
      .plain "burn" "Burn" 1 "exhaust.hand.leftmost"] }

/-- The hand takes two cards. In two turns cards are burned more than
once, the discard pile is reshuffled, and the second card is exhausted. -/
theorem Session.cards_told_dealing :
    let s := loadWith .dealing { Rules.standard with handLimit := 2 } .leftmost .standard
    let t := s.afterAll [.start, .playCard 1, .endPlayerTurn]
    let v := cardAccount.replay s.live.battle.piles.uids (t.live.events.drop s.live.events.length)
    v .hand = t.live.battle.piles.uids .hand ∧ v .exhaust = t.live.battle.piles.uids .exhaust ∧
      t.live.battle.piles.uids .hand = {3, 4} ∧ t.live.battle.piles.uids .exhaust = {2} := by
  have htold := cards_told
    (loadWith .dealing { Rules.standard with handLimit := 2 } .leftmost .standard)
    [.start, .playCard 1, .endPlayerTurn] (by unfold Piles.Distinct; decide +kernel)
    (Chooser.honest_leftmost _)
  revert htold
  generalize hs : loadWith Snapshot.dealing { Rules.standard with handLimit := 2 } .leftmost
    .standard = s
  intro htold
  refine ⟨htold.1, htold.2, ?_, ?_⟩
  · rw [← hs]
    decide +kernel
  · rw [← hs]
    decide +kernel

end DeckDuel
