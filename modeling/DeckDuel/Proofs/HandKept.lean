/-
DeckDuel.Proofs.HandKept — which cards a `draw` unit leaves in the hand.

* `Piles.Distinct.mem_uids_takeIn` — of cards that are picked those that
  are burned leave the hand, and no others. Some may be unknown.
* `Piles.Crowded` — a card is picked while the hand is full, with the
  cards before it where they were sent. `Piles.mem_burned_iff` — that is
  when it is burned, also if it lies in the hand itself.
* `Scene.hand_after_draw` — so a card of the hand stays there unless the
  unit picks it at such a moment. A unit that names a number of cards
  picks none.

The host may choose any cards, and the uids in the hand are distinct.
-/
import DeckDuel.Proofs.Draws
import DeckDuel.Proofs.Selection

namespace DeckDuel

variable {α : Type}

namespace Piles

/-! ## One card -/

/-- A move leaves the other cards where they are. -/
theorem Distinct.mem_uids_move {ps : Piles α} (h : ps.Distinct) {uid u : Nat} (hne : uid ≠ u)
    (goal p : Pile) : uid ∈ (ps.move u goal).uids p ↔ uid ∈ ps.uids p := by
  by_cases hu : u ∈ ps.allUids
  · rw [h.uids_move hu, mem_placesAfter]
    split <;> simp [hne]
  · have hstay : ps.move u goal = ps := by
      simp [move, move?, find?_eq_none.mpr hu]
    rw [hstay]

/-- A card that is moved arrives. -/
theorem Distinct.mem_uids_move_self {ps : Piles α} (h : ps.Distinct) {uid : Nat} {q : Pile}
    (huid : uid ∈ ps.uids q) (goal p : Pile) : uid ∈ (ps.move uid goal).uids p ↔ p = goal := by
  have hthere : uid ∈ ps.allUids := mem_allUids.mpr ⟨q, huid⟩
  rw [h.uids_move hthere, mem_placesAfter]
  split
  · next hgoal => simp [hgoal]
  · next hgoal => simp [hgoal]

theorem mem_cards_move {ps : Piles α} {uid : Nat} {goal : Pile} {c : Card α}
    (hc : c ∈ (ps.move uid goal).cards) : c ∈ ps.cards := by
  unfold move at hc
  split at hc
  · next p qs hmove =>
    obtain ⟨i, d, hd, rfl⟩ := move?_eq_some hmove
    obtain ⟨q, hq⟩ := mem_cards.mp hc
    have hrest : ∀ e ∈ (ps.set p ((ps.get p).eraseIdx i)).get q, e ∈ ps.cards := by
      intro e he
      rw [get_set] at he
      split at he
      · exact mem_cards.mpr ⟨p, List.mem_of_mem_eraseIdx he⟩
      · exact mem_cards.mpr ⟨q, he⟩
    rw [push, get_set] at hq
    split at hq
    · next hgoal =>
      rcases List.mem_append.mp hq with hq | hq
      · exact hrest c (hgoal ▸ hq)
      · rw [List.mem_singleton.mp hq]
        exact mem_cards.mpr ⟨p, List.mem_of_getElem? hd⟩
    · exact hrest c hq
  · exact hc

/-- A card is known by its uid. -/
theorem Distinct.eq_of_uid_eq {ps : Piles α} (h : ps.Distinct) {c d : Card α} (hc : c ∈ ps.cards)
    (hd : d ∈ ps.cards) (heq : c.uid = d.uid) : c = d :=
  List.inj_on_of_nodup_map h hc hd heq

/-! ## Cards that are picked -/

/-- The piles after one more card was picked. -/
def takeOne (ps : Piles α) (limit uid : Nat) : Piles α :=
  if ps.hand.length < limit then ps.move uid .hand else ps.move uid .discard

/-- A card is picked while the hand is full: the cards before it were
sent to the hand, or to the discard pile. -/
def Crowded (ps : Piles α) (limit : Nat) (picks : List Nat) (uid : Nat) : Prop :=
  ∃ before after, picks = before ++ uid :: after ∧
    limit ≤ (ps.takeIn limit before).2.hand.length

variable {ps : Piles α} {limit uid : Nat}

theorem takeIn_cons (u : Nat) (us : List Nat) :
    (ps.takeIn limit (u :: us)).2 = ((ps.takeOne limit u).takeIn limit us).2 := by
  simp only [takeIn, takeOne]
  split <;> rfl

theorem Distinct.takeOne (h : ps.Distinct) (u : Nat) : (ps.takeOne limit u).Distinct := by
  unfold Piles.takeOne
  split <;> exact h.of_deck (deck_move ps u _)

theorem crowded_cons {u : Nat} {us : List Nat} :
    ps.Crowded limit (u :: us) uid ↔
      (uid = u ∧ limit ≤ ps.hand.length) ∨ (ps.takeOne limit u).Crowded limit us uid := by
  constructor
  · rintro ⟨before, after, heq, hfull⟩
    cases before with
    | nil =>
      obtain ⟨rfl, -⟩ := List.cons.inj heq
      exact .inl ⟨rfl, hfull⟩
    | cons v before =>
      obtain ⟨rfl, rfl⟩ := List.cons.inj heq
      rw [takeIn_cons] at hfull
      exact .inr ⟨before, after, rfl, hfull⟩
  · rintro (⟨rfl, hfull⟩ | ⟨before, after, rfl, hfull⟩)
    · exact ⟨[], us, rfl, hfull⟩
    · rw [← takeIn_cons] at hfull
      exact ⟨u :: before, after, rfl, hfull⟩

theorem Crowded.mem {us : List Nat} (h : ps.Crowded limit us uid) : uid ∈ us := by
  obtain ⟨before, after, rfl, -⟩ := h
  simp

/-- What is picked while the hand is full is burned. -/
theorem mem_burned_iff (us : List Nat) :
    uid ∈ (ps.takeIn limit us).1.burned ↔ ps.Crowded limit us uid := by
  induction us generalizing ps with
  | nil =>
    constructor
    · intro hmem
      cases hmem
    · intro hcrowded
      cases hcrowded.mem
  | cons u us ih =>
    rw [crowded_cons, ← ih, Piles.takeOne]
    by_cases hroom : ps.hand.length < limit
    · simp [takeIn, hroom, Nat.not_le_of_lt hroom]
    · simp [takeIn, hroom, Nat.le_of_not_lt hroom]

theorem Distinct.mem_uids_takeIn_of_not_mem (h : ps.Distinct) {us : List Nat} (huid : uid ∉ us)
    (p : Pile) : uid ∈ (ps.takeIn limit us).2.uids p ↔ uid ∈ ps.uids p := by
  induction us generalizing ps with
  | nil => exact .rfl
  | cons u us ih =>
    rw [List.mem_cons, not_or] at huid
    obtain ⟨hne, hrest⟩ := huid
    rw [takeIn_cons, ih (h.takeOne u) hrest, Piles.takeOne]
    split <;> exact h.mem_uids_move hne _ p

/-- A card of the hand stays there unless it is burned. It is picked once
at most, so what was burned does not come back. -/
theorem Distinct.mem_uids_takeIn (h : ps.Distinct) {us : List Nat} (hnodup : us.Nodup)
    (huid : uid ∈ ps.uids .hand) :
    uid ∈ (ps.takeIn limit us).2.uids .hand ↔ ¬ps.Crowded limit us uid := by
  induction us generalizing ps with
  | nil =>
    constructor
    · intro _ hcrowded
      cases hcrowded.mem
    · intro _
      exact huid
  | cons u us ih =>
    obtain ⟨hnew, hrest⟩ := List.nodup_cons.mp hnodup
    rw [takeIn_cons, crowded_cons]
    by_cases heq : uid = u
    · subst heq
      have hlater : ¬(ps.takeOne limit uid).Crowded limit us uid := fun hcrowded => hnew hcrowded.mem
      have hhere : uid ∈ (ps.takeOne limit uid).uids .hand ↔ ps.hand.length < limit := by
        unfold Piles.takeOne
        split
        · next hroom => simp [h.mem_uids_move_self huid, hroom]
        · next hfull => simp [h.mem_uids_move_self huid, hfull]
      rw [(h.takeOne uid).mem_uids_takeIn_of_not_mem hnew, hhere]
      simp [hlater]
    · have hstay : uid ∈ (ps.takeOne limit u).uids .hand := by
        unfold Piles.takeOne
        split <;> exact (h.mem_uids_move heq _ _).mpr huid
      rw [ih (h.takeOne u) hrest hstay]
      simp [heq]

theorem mem_cards_takeIn (us : List Nat) {c : Card α} (hc : c ∈ (ps.takeIn limit us).2.cards) :
    c ∈ ps.cards := by
  induction us generalizing ps with
  | nil => exact hc
  | cons u us ih =>
    rw [takeIn_cons] at hc
    have hone := ih hc
    unfold Piles.takeOne at hone
    split at hone <;> exact mem_cards_move hone

/-- The same of the cards themselves. -/
theorem Distinct.mem_hand_takeIn (h : ps.Distinct) {us : List Nat} (hnodup : us.Nodup) {c : Card α}
    (hc : c ∈ ps.hand) :
    c ∈ (ps.takeIn limit us).2.hand ↔ ¬ps.Crowded limit us c.uid := by
  have huid : c.uid ∈ ps.uids .hand := mem_uids.mpr ⟨c, hc, rfl⟩
  rw [← h.mem_uids_takeIn hnodup huid]
  constructor
  · intro hmem
    exact mem_uids.mpr ⟨c, hmem, rfl⟩
  · intro hmem
    obtain ⟨d, hd, heq⟩ := mem_uids.mp hmem
    have hdcards : d ∈ ps.cards := mem_cards_takeIn us (mem_cards.mpr ⟨.hand, hd⟩)
    rwa [← h.eq_of_uid_eq hdcards (mem_cards.mpr ⟨.hand, hc⟩) heq]

/-- A hand that has all its cards is not smaller. -/
theorem Distinct.length_hand_le {qs : Piles α} (h : ps.Distinct) (hsub : ps.hand ⊆ qs.hand) :
    ps.hand.length ≤ qs.hand.length := by
  have hle := ((h.get .hand).subperm (List.map_subset Card.uid hsub)).length_le
  rwa [List.length_map, List.length_map] at hle

/-- Every pick takes up the room of one card at most. -/
theorem length_hand_takeIn_le (us : List Nat) :
    (ps.takeIn limit us).2.hand.length ≤ ps.hand.length + us.length := by
  induction us generalizing ps with
  | nil => exact Nat.le_refl _
  | cons u us ih =>
    rw [takeIn_cons, List.length_cons]
    have hmove (goal : Pile) : (ps.move u goal).hand.length ≤ ps.hand.length + 1 := by
      have hle := length_hand_move_le ps u goal fun _ => Nat.lt_succ_self ps.hand.length
      omega
    have hone : (ps.takeOne limit u).hand.length ≤ ps.hand.length + 1 := by
      unfold Piles.takeOne
      split <;> exact hmove _
    have hrest : ((ps.takeOne limit u).takeIn limit us).2.hand.length ≤
        (ps.takeOne limit u).hand.length + us.length := ih
    omega

/-- With room for all picks the hand is never full. -/
theorem not_crowded_of_room {us : List Nat} (h : us.length ≤ ps.room limit) :
    ¬ps.Crowded limit us uid := by
  rintro ⟨before, after, rfl, hfull⟩
  have hle : (ps.takeIn limit before).2.hand.length ≤ ps.hand.length + before.length :=
    length_hand_takeIn_le before
  simp only [room, List.length_append, List.length_cons] at h
  omega

end Piles

/-! ## Units -/

/-- The cards that a `draw` unit picks: none if it names a number. -/
def Setting.drawPicks (s : Setting α) (c : Clause α) (ctx : Context α) (l : Live α) : List Nat :=
  match c.form.selector? with
  | some selector =>
    ((⟨l.battle.piles, .draw, ctx.card, s.chooser⟩ : Table α).select selector
      ⟨l.battle.stream, l.questions⟩).1
  | none => []

theorem Setting.nodup_drawPicks (s : Setting α) (c : Clause α) (ctx : Context α) (l : Live α) :
    (s.drawPicks c ctx l).Nodup := by
  unfold drawPicks
  split
  · exact Table.nodup_pickAll _ List.nodup_nil _
  · exact List.nodup_nil

/-- Cards came to the end of the hand. -/
def HandGrows (l m : Live α) : Prop := l.battle.piles.hand <+: m.battle.piles.hand

instance : IsPreorder (Live α) HandGrows where
  refl _ := List.prefix_refl _
  trans _ _ _ h h' := List.IsPrefix.trans h h'

theorem Setting.handGrows_drawCards (s : Setting α) (count : Nat) (l : Live α) :
    Tries HandGrows (s.drawCards count) l := by
  obtain ⟨new, hhand, -⟩ := l.battle.hand_drawUpTo s.rules.handLimit count
  show HandGrows l ((s.drawCards count).run.run l).2
  rw [s.run_drawCards, HandGrows, Live.battle_reportDrawn]
  exact ⟨new, hhand.symm⟩

variable [Scalar α]

theorem Setting.handGrows_countOf (s : Setting α) (c : Clause α) (me : Side) (ctx : Context α)
    (l : Live α) : Tries HandGrows (s.countOf c me ctx) l := by
  unfold countOf
  split
  · exact Tries.bind (Tries.get_bind (Tries.ofExcept _ l)) fun _ l => Tries.pure _ l
  · exact Tries.throw _ l

/-- A unit that names a number draws behind the cards of the hand. -/
theorem Setting.handGrows_runDraw (s : Setting α) {c : Clause α} (hnone : c.form.selector? = none)
    (me : Side) (ctx : Context α) (l : Live α) : Tries HandGrows (s.runDraw c me ctx) l := by
  unfold runDraw
  rw [hnone]
  refine Tries.bind (s.handGrows_countOf c me ctx l) fun count l => ?_
  exact Tries.bind (s.handGrows_drawCards count l) fun _ l => Tries.pure _ l

/-- One that names cards takes these in. -/
theorem Setting.hand_runDraw (s : Setting α) {c : Clause α} {selector : Selector}
    (hsome : c.form.selector? = some selector) (me : Side) (ctx : Context α) (l : Live α) :
    ((s.runDraw c me ctx).run.run l).2.battle.piles.hand =
      (l.battle.piles.takeIn s.rules.handLimit (s.drawPicks c ctx l)).2.hand := by
  unfold runDraw drawPicks
  rw [hsome]
  exact congrArg (fun b : Battle α => b.piles.hand) (Live.battle_reportDrawn _ _)

/-- A `draw` unit, by the domain of its attribute. -/
theorem Scene.runClause_draw (sc : Scene α) {c : Clause α} {a : Attribute}
    (hform : c.form.isBranch = false) (hattr : c.attr = "draw")
    (hget : sc.catalog.get? "draw" = some a) (hcard : a.domain = .card) (me : Side)
    (ctx : Context α) : sc.runClause c me ctx = sc.toSetting.runDraw c me ctx := by
  unfold runClause
  split
  · next hbranch => simp [hbranch, Form.isBranch] at hform
  · rw [hattr, hget]
    dsimp only
    rw [hcard]
    simp only [Setting.runCards, hattr]

/-- **A draw leaves the hand alone, as long as it is not full.** A card of
the hand is there after a `draw` unit unless the unit picked it while the
hand was full: then it is burned like a card that comes from elsewhere.
If none is picked so, the hand does not shrink; and if there is room for
all that is picked, or a number of cards is drawn, none is. -/
theorem Scene.hand_after_draw (sc : Scene α) {c : Clause α} {a : Attribute}
    (hform : c.form.isBranch = false) (hattr : c.attr = "draw")
    (hget : sc.catalog.get? "draw" = some a) (hcard : a.domain = .card) (me : Side)
    (ctx : Context α) (l : Live α) (h : l.battle.piles.Distinct) :
    let ps := l.battle.piles
    let qs := ((sc.runClause c me ctx).run.run l).2.battle.piles
    let limit := sc.rules.handLimit
    let picks := sc.toSetting.drawPicks c ctx l
    (∀ card ∈ ps.hand, card ∈ qs.hand ↔ ¬ps.Crowded limit picks card.uid) ∧
    ((∀ card ∈ ps.hand, ¬ps.Crowded limit picks card.uid) → ps.hand.length ≤ qs.hand.length) ∧
    (picks.length ≤ ps.room limit → ps.hand ⊆ qs.hand) ∧
    (c.form.selector? = none → ps.hand <+: qs.hand) := by
  intro ps qs limit picks
  have hrun : qs = ((sc.toSetting.runDraw c me ctx).run.run l).2.battle.piles := by
    show ((sc.runClause c me ctx).run.run l).2.battle.piles = _
    rw [sc.runClause_draw hform hattr hget hcard]
  have hnumber : c.form.selector? = none → ps.hand <+: qs.hand := fun hnone =>
    hrun ▸ sc.toSetting.handGrows_runDraw hnone me ctx l
  have hstays : ∀ card ∈ ps.hand, card ∈ qs.hand ↔ ¬ps.Crowded limit picks card.uid := by
    intro card hc
    cases hselector : c.form.selector? with
    | some selector =>
      rw [hrun, sc.toSetting.hand_runDraw hselector]
      exact h.mem_hand_takeIn (sc.toSetting.nodup_drawPicks c ctx l) hc
    | none =>
      have hpicks : picks = [] := by
        show sc.toSetting.drawPicks c ctx l = []
        rw [Setting.drawPicks, hselector]
      rw [hpicks]
      constructor
      · intro _ hcrowded
        cases hcrowded.mem
      · intro _
        exact (hnumber hselector).subset hc
  refine ⟨hstays, ?_, ?_, hnumber⟩
  · intro hnone
    exact h.length_hand_le fun card hc => (hstays card hc).mpr (hnone card hc)
  · intro hroom card hc
    exact (hstays card hc).mpr (Piles.not_crowded_of_room hroom)

/-- The unit `draw.hand.all`. -/
def Clause.drawHand : Clause Double :=
  ⟨"draw.hand.all", none, "draw", .cards (some ⟨[⟨some .hand, .all⟩]⟩) none, "Draw"⟩

/-- The hand holds one card and has room for another. -/
theorem Scene.hand_after_draw_dealt :
    let s := Setting.dealt [] 2
    let sc : Scene Double := ⟨s.toSetting, s.runWithin 1⟩
    let ps := s.live.battle.piles
    let qs := ((sc.runClause .drawHand .player .plain).run.run s.live).2.battle.piles
    ps.hand.map Card.uid = [1] ∧ ps.hand ⊆ qs.hand ∧ qs.hand.map Card.uid = [1] := by
  intro s sc ps qs
  obtain ⟨-, -, hroom, -⟩ := sc.hand_after_draw (c := .drawHand) (a := ⟨"draw", .card, "Draw", 70⟩)
    rfl rfl (by decide +kernel) rfl .player .plain s.live (by decide +kernel)
  exact ⟨by decide +kernel, hroom (by decide +kernel), by decide +kernel⟩

/-- A card of a full hand is picked and burned. -/
theorem Scene.hand_lost :
    let s := Setting.dealt [] 1
    let sc : Scene Double := ⟨s.toSetting, s.runWithin 1⟩
    let ps := s.live.battle.piles
    let qs := ((sc.runClause .drawHand .player .plain).run.run s.live).2.battle.piles
    ps.Distinct ∧ ps.hand.map Card.uid = [1] ∧ qs.hand.map Card.uid = [] ∧
      qs.discard.map Card.uid = [1] := by
  decide +kernel

end DeckDuel
