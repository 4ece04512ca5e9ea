/-
DeckDuel.Proofs.Turns — what the turns of a battle have in common.

* `Setting.Hosts` — a relation that holds along everything that is done
  between texts, and along texts. `turns` says whether what only turns
  do, to energy and block, is part of it.
* `Setting.leads_startTurn`, … — so it holds along the phases of a turn,
  one lemma for each.
* `Setting.hosts_trace`, `Setting.hosts_heard` — traces are such a
  relation, and so is what the events tell.
-/
import DeckDuel.Proofs.Engine

namespace DeckDuel

open Live

variable {α : Type} [Scalar α] {s : Setting α} {turns i : Bool}

/-! ## What only turns do -/

namespace Live

theorem heard_spend (l : Live α) (x : α) :
    Heard s true l (l.mapBattle fun b => b.setEnergy x) :=
  heard_silent rfl (.one (.spend l.battle x rfl))

theorem heard_dropBlock (l : Live α) (side : Side) (h : s.rules.resetsBlock = true) :
    Heard s true l (l.mapFighter side fun f => { f with block := 0 }) :=
  heard_silent rfl (.one (.dropBlock l.battle side rfl h))

theorem heard_nextTurn (l : Live α) :
    Heard s true l (l.mapBattle fun b => b.nextTurn s.rules.resetsBlock) := by
  have hturn : Heard s true l (l.mapBattle fun b => { b with turn := b.turn + 1 }) :=
    heard_unnoticed rfl (.of_player rfl rfl)
  unfold Battle.nextTurn
  cases hresets : s.rules.resetsBlock with
  | true => exact hturn.trans ((heard_dropBlock _ .player hresets).trans (heard_spend _ _))
  | false => exact hturn.trans (heard_spend _ _)

theorem deed_nextTurn (l : Live α) :
    Deed s true i l (l.mapBattle fun b => b.nextTurn s.rules.resetsBlock) :=
  ⟨.outer (.nextTurn l), ⟨rfl, rfl, rfl, rfl⟩, heard_nextTurn l⟩

theorem deed_dropBlock (l : Live α) (side : Side) (h : s.rules.resetsBlock = true) :
    Deed s true i l (l.mapFighter side fun f => { f with block := 0 }) :=
  ⟨.outer (.dropBlock l side), ⟨rfl, rfl, rfl, rfl⟩, heard_dropBlock l side h⟩

theorem deed_nextAction (l : Live α) :
    Deed s turns i l (l.mapBattle fun b => (b.nextAction s.rules.actionOrder).2) := by
  refine ⟨.outer (.nextAction l), ⟨rfl, rfl, rfl, rfl⟩, heard_unnoticed rfl ?_⟩
  show l.battle.Unnoticed (l.battle.nextAction s.rules.actionOrder).2
  cases s.rules.actionOrder with
  | sequential =>
    simp only [Battle.nextAction]
    split
    · exact .of_player rfl rfl
    · exact .of_player rfl rfl
  | random =>
    simp only [Battle.nextAction]
    split
    · exact .of_player rfl rfl
    · exact .of_player rfl rfl

theorem deed_discardHand (l : Live α) :
    Deed s turns i l ((l.mapBattle fun b => b.setPiles b.piles.discardHand).reportMoved
      (l.battle.piles.hand.map Card.uid) .discard) := by
  refine ⟨.trans (trace_setPiles l (.single (.discardHand _))) (trace_reportMoved _ _ _),
    Mute.trans (m := l.mapBattle _) ⟨rfl, rfl, rfl, rfl⟩ (mute_reportMoved _ _ _),
    _, events_reportMoved _ _ _, ?_⟩
  rw [battle_reportMoved]
  exact .one (.discardHand l.battle)

/-- Paying for a card of the hand and putting it away. -/
theorem deed_putAway (l : Live α) {c : Card α} (held : c ∈ l.battle.piles.hand) {goal : Pile}
    (hgoal : goal ≠ .hand) (afforded : ¬ l.battle.player.energy < c.cost) :
    Deed s true i l ((l.mapBattle fun b =>
      (b.setEnergy (l.battle.player.energy - c.cost)).setPiles (b.piles.move c.uid goal)).emit
        (.cardsMoved [c.uid] goal)) := by
  have hmove : Trace s 0 i (l.mapBattle fun b => b.setEnergy (b.player.energy - c.cost))
      (l.mapBattle fun b => (b.setEnergy (l.battle.player.energy - c.cost)).setPiles
        (b.piles.move c.uid goal)) :=
    trace_setPiles _ (.single (.move _ c.uid goal fun h => absurd h hgoal))
  refine ⟨.trans (.outer (.pay l c.cost afforded)) (.trans hmove (.outer (.note _ _ (by simp)))),
    ⟨rfl, rfl, rfl, rfl⟩, ?_⟩
  refine (heard_spend l (l.battle.player.energy - c.cost)).trans
    ⟨[.cardsMoved [c.uid] goal], events_emit _ _, ?_⟩
  exact .one (.play (l.battle.setEnergy (l.battle.player.energy - c.cost)) c goal held)

end Live

/-! ## Hosts -/

/-- A relation that holds along what is done between texts, and along
texts. -/
structure Setting.Hosts (s : Setting α) (turns : Bool) (R : Live α → Live α → Prop) : Prop where
  deed : ∀ {l m : Live α}, Deed s turns false l m → R l m
  text : ∀ {levels : Nat}, levels ≤ s.rules.maxNesting → ∀ text me ctx l,
    Tries R (s.runWithin levels text me ctx) l

namespace Setting

theorem hosts_trace (s : Setting α) (turns : Bool) :
    s.Hosts turns (Trace s s.rules.maxNesting false) where
  deed h := h.trace.mono (Nat.zero_le _)
  text hle text me ctx l := Trace.mono (tries_runWithin _ text me ctx l) hle

theorem hosts_heard (s : Setting α) (turns : Bool) : s.Hosts turns (Heard s turns) where
  deed h := h.heard
  text _ text me ctx l := heard_runWithin _ text me ctx l

section

variable {R : Live α → Live α → Prop} [IsPreorder (Live α) R]

/-- So it holds along courses that store no number by themselves. -/
theorem Hosts.course (h : s.Hosts turns R) {ctx : Context α} {l m : Live α}
    (hcourse : s.scene.Course ctx false l m) : R l m := by
  generalize hinside : false = inside at hcourse
  induction hcourse with
  | refl l => exact refl_of R l
  | trans _ _ ih₁ ih₂ => exact trans_of R (ih₁ hinside) (ih₂ hinside)
  | deed d =>
    subst hinside
    exact h.deed ⟨d.trace, d.mute, d.heard.mono⟩
  | overflow => cases hinside
  | text effect me _ l => exact h.text (Nat.le_refl _) effect me _ l

variable (h : s.Hosts turns R)
include h

omit [IsPreorder (Live α) R] in
theorem tries_execute (text : String) (me : Side) (ctx : Context α) (l : Live α) :
    Tries R (s.execute text me ctx) l :=
  Tries.get_bind (h.text (Nat.sub_le _ _) text me ctx l)

theorem leads_startTurn (side : Side) (l : Live α) : Leads R (s.startTurn side) l :=
  h.course (Scene.course_fire _ _ _ l)

theorem leads_endTurn (side : Side) (l : Live α) : Leads R (s.endTurn side) l := by
  refine Leads.get_bind (Leads.bind (h.course (Scene.course_tick _ _ _ l)) fun _ l => ?_)
  refine Leads.get_bind ?_
  split
  · exact Leads.pure _ l
  · refine Leads.bind (h.course (Scene.course_fire _ _ _ l)) fun _ l => Leads.get_bind ?_
    split
    · exact Leads.pure _ l
    · exact Leads.get_bind (h.course (Scene.course_decay _ _ _ l))

theorem leads_enemyAction (l : Live α) : Leads R s.enemyAction l := by
  refine Leads.get_bind ?_
  split
  · exact Leads.pure _ l
  · refine Leads.bind (Leads.modifyGet (h.deed (deed_nextAction l))) fun action l => ?_
    split
    · exact Leads.bind (tries_execute h _ _ _ l) fun _ l => Leads.pure _ l
    · exact Leads.pure _ l

theorem leads_battleStarts (sides : List Side) (l : Live α) : Leads R (s.battleStarts sides) l := by
  induction sides generalizing l with
  | nil => exact Leads.pure _ l
  | cons side rest ih =>
    refine Leads.bind (h.course (Scene.course_fire _ _ _ l)) fun _ l => Leads.get_bind ?_
    split
    · exact Leads.pure _ l
    · exact ih l

end

/-! ## Turns -/

section

variable {R : Live α → Live α → Prop} [IsPreorder (Live α) R] (h : s.Hosts true R)
include h

theorem leads_beginPlayerTurn (l : Live α) : Leads R s.beginPlayerTurn l := by
  refine Leads.bind (Leads.modify (h.deed (deed_nextTurn l))) fun _ l => Leads.get_bind ?_
  refine Leads.bind (h.course (course_drawCards _ l : s.scene.Course .plain _ l _)) fun _ l => ?_
  refine Leads.bind (leads_startTurn h _ l) fun _ l => ?_
  exact Leads.get_bind (Leads.pure _ l)

theorem leads_enemyTurn (l : Live α) : Leads R s.enemyTurn l := by
  have hrest (l : Live α) : Leads R (do
      s.startTurn .enemy
      if (← get).battle.isOver then pure ()
      else
        s.enemyAction
        if (← get).battle.isOver then pure () else s.endTurn .enemy) l := by
    refine Leads.bind (leads_startTurn h _ l) fun _ l => Leads.get_bind ?_
    split
    · exact Leads.pure _ l
    · refine Leads.bind (leads_enemyAction h l) fun _ l => Leads.get_bind ?_
      split
      · exact Leads.pure _ l
      · exact leads_endTurn h _ l
  unfold enemyTurn
  split
  · next hresets =>
    exact Leads.bind (Leads.modify (h.deed (deed_dropBlock l .enemy hresets))) fun _ l => hrest l
  · exact hrest l

theorem leads_finishPlayerTurn (l : Live α) : Leads R s.finishPlayerTurn l := by
  refine Leads.bind (Leads.modify (h.deed (deed_discardHand l))) fun _ l => ?_
  refine Leads.bind (leads_endTurn h _ l) fun _ l => Leads.get_bind ?_
  split
  · exact Leads.pure _ l
  · exact leads_enemyTurn h l

theorem leads_playerTurns (more : Nat) (l : Live α) : Leads R (s.playerTurns more) l := by
  induction more generalizing l with
  | zero => exact Leads.pure _ l
  | succ more ih =>
    refine Leads.bind (leads_beginPlayerTurn h l) fun canAct l => Leads.get_bind ?_
    split
    · exact Leads.pure _ l
    · refine Leads.bind (leads_finishPlayerTurn h l) fun _ l => Leads.get_bind ?_
      split
      · exact Leads.pure _ l
      · exact ih l

end

end Setting
end DeckDuel
