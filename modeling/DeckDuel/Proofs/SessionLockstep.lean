/-
DeckDuel.Proofs.SessionLockstep — a host keeps alike sessions alike.

* `Tolerance.SameRunners` — two ways to run texts that cannot be told
  apart from alike battles of a setting, whatever levels are left.
* `Runner.agrees_startTurn`, … — with two such ways the phases of a turn
  answer the same in alike battles, and leave them alike.
* `Tolerance.Twins` — two sessions of one setting whose battles are
  alike.
* `Runner.agree_request` — with two such ways every request answers the
  same in both, and they stay twins.
-/
import DeckDuel.Proofs.FaithfulMemo
import DeckDuel.Proofs.Runner

namespace DeckDuel

open Tolerance

variable {α : Type} [Scalar α]

/-- Two runners that cannot be told apart from alike battles of a
setting. -/
def Tolerance.SameRunners {s : Setting α} (t : Tolerance α s.catalog) (run run' : Runner α) :
    Prop :=
  ∀ d levels, t.SameRuns d (run s levels) (run' s levels)

theorem sameRunners_runWithin {s : Setting α} (t : Tolerance α s.catalog) :
    t.SameRunners Setting.runWithin Setting.runWithin :=
  fun _ levels => Setting.sameRuns_runWithin levels

namespace Runner

section

variable {s : Setting α} {t : Tolerance α s.catalog} {d : Nat} {l m : Live α}
  {run run' : Runner α} (hr : t.SameRunners run run')
include hr

/-! ## Phases -/

theorem sameRuns_execute : t.SameRuns d (run.execute s) (run'.execute s) := by
  intro text me c c' l m hc h
  refine TriesAgree.get_bind ?_
  rw [h.left, h.right]
  exact hr _ _ text me hc h

theorem agrees_fire (side : Side) (trigger : Trigger) (ctx : Context α) (h : t.Alike d l m) :
    Agrees (t.Alike d) ((run.scene s).fire side trigger ctx)
      ((run'.scene s).fire side trigger ctx) l m :=
  Scene.agrees_fire (hr _ _) side trigger (.refl ctx) h

theorem agrees_startTurn (side : Side) (h : t.Alike d l m) :
    Agrees (t.Alike d) (run.startTurn s side) (run'.startTurn s side) l m :=
  agrees_fire hr side .turnStart .plain h

theorem agrees_endTurn (side : Side) (h : t.Alike d l m) :
    Agrees (t.Alike d) (run.endTurn s side) (run'.endTurn s side) l m := by
  refine Agrees.get_bind ?_
  rw [h.fighter]
  refine Agrees.bind (Scene.agrees_tick (hr _ _) side _ (.refl _) h) fun _ l m h => ?_
  refine Agrees.get_bind ?_
  rw [h.battle]
  split
  · exact Agrees.pure _ h
  · refine Agrees.bind (agrees_fire hr side .turnEnd .plain h) fun _ l m h => Agrees.get_bind ?_
    rw [h.battle]
    split
    · exact Agrees.pure _ h
    · refine Agrees.get_bind ?_
      rw [h.fighter]
      exact Scene.agrees_decay (hr _ _) side _ (.refl _) h

theorem agrees_beginPlayerTurn (h : t.Alike d l m) :
    Agrees (t.Alike d) (run.beginPlayerTurn s) (run'.beginPlayerTurn s) l m := by
  refine Agrees.bind (Agrees.modify (h.mapBattle _)) fun _ l m h => Agrees.get_bind ?_
  rw [h.battle]
  have hdrawn := Setting.triesAgree_drawCards (s := s) (s.turnDraw l.battle.turn) h
  refine Agrees.bind hdrawn fun _ l m h => ?_
  refine Agrees.bind (agrees_startTurn hr .player h) fun _ l m h => Agrees.get_bind ?_
  rw [h.battle]
  exact Agrees.pure _ h

theorem agrees_enemyAction (h : t.Alike d l m) :
    Agrees (t.Alike d) (run.enemyAction s) (run'.enemyAction s) l m := by
  refine Agrees.get_bind ?_
  rw [h.battle]
  split
  · exact Agrees.pure _ h
  · have hchosen : (m.battle.nextAction s.rules.actionOrder).1 =
        (l.battle.nextAction s.rules.actionOrder).1 := by rw [h.battle]
    have hnext := h.mapBattle fun _ => (l.battle.nextAction s.rules.actionOrder).2
    refine Agrees.bind (Agrees.modifyGet hchosen ?_) fun action l m h => ?_
    · dsimp only
      rw [h.battle]
      exact hnext
    · cases action with
      | none => exact Agrees.pure _ h
      | some text =>
        exact Agrees.bind (sameRuns_execute hr text .enemy (.refl _) h) fun _ _ _ h => Agrees.pure _ h

theorem agrees_enemyTurn (h : t.Alike d l m) :
    Agrees (t.Alike d) (run.enemyTurn s) (run'.enemyTurn s) l m := by
  unfold enemyTurn
  refine Agrees.ite_bind (Agrees.modify (h.mapFighter _ _)) h fun l m h => ?_
  refine Agrees.bind (agrees_startTurn hr .enemy h) fun _ l m h => Agrees.get_bind ?_
  rw [h.battle]
  split
  · exact Agrees.pure _ h
  · refine Agrees.bind (agrees_enemyAction hr h) fun _ l m h => Agrees.get_bind ?_
    rw [h.battle]
    split
    · exact Agrees.pure _ h
    · exact agrees_endTurn hr .enemy h

theorem agrees_finishPlayerTurn (h : t.Alike d l m) :
    Agrees (t.Alike d) (run.finishPlayerTurn s) (run'.finishPlayerTurn s) l m := by
  have hdiscarded := (h.mapBattle fun b => b.setPiles b.piles.discardHand).reportMoved
    (l.battle.piles.hand.map Card.uid) .discard
  refine Agrees.bind (Agrees.modify ?_) fun _ l m h => ?_
  · dsimp only
    rw [h.battle]
    exact hdiscarded
  · refine Agrees.bind (agrees_endTurn hr .player h) fun _ l m h => Agrees.get_bind ?_
    rw [h.battle]
    split
    · exact Agrees.pure _ h
    · exact agrees_enemyTurn hr h

theorem agrees_playerTurns (more : Nat) (h : t.Alike d l m) :
    Agrees (t.Alike d) (run.playerTurns s more) (run'.playerTurns s more) l m := by
  induction more generalizing l m with
  | zero => exact Agrees.pure _ h
  | succ more ih =>
    refine Agrees.bind (agrees_beginPlayerTurn hr h) fun canAct l m h => Agrees.get_bind ?_
    rw [h.battle]
    split
    · exact Agrees.pure _ h
    · refine Agrees.bind (agrees_finishPlayerTurn hr h) fun _ l m h => Agrees.get_bind ?_
      rw [h.battle]
      split
      · exact Agrees.pure _ h
      · exact ih h

theorem agrees_battleStarts (sides : List Side) (h : t.Alike d l m) :
    Agrees (t.Alike d) (run.battleStarts s sides) (run'.battleStarts s sides) l m := by
  induction sides generalizing l m with
  | nil => exact Agrees.pure _ h
  | cons side rest ih =>
    refine Agrees.bind (agrees_fire hr side .battleStart .plain h) fun _ l m h => Agrees.get_bind ?_
    rw [h.battle]
    split
    · exact Agrees.pure _ h
    · exact ih h

end

/-! ## Twins -/

end Runner

/-- Two sessions of the setting `s` whose battles are alike. -/
structure Tolerance.Twins {s : Setting α} (t : Tolerance α s.catalog) (d : Nat)
    (u v : Session α) : Prop where
  left : u.toSetting = s
  right : v.toSetting = s
  started : v.started = u.started
  live : t.Alike d u.live v.live

namespace Runner

open Session

variable {s : Setting α} {t : Tolerance α s.catalog} {d : Nat} {u v : Session α}

theorem agree_play {β : Type} {step step' : Setting α → Play α β} (h : t.Twins d u v)
    (hstep : Agrees (t.Alike d) (step s) (step' s) u.live v.live) :
    TriesAgree (t.Twins d) (play step) (play step') u v := by
  obtain ⟨rfl, hright, hstarted, -⟩ := h
  have hsame : Agrees (t.Alike d) (step u.toSetting) (step' v.toSetting) u.live v.live := by
    rw [hright]
    exact hstep
  exact ⟨congrArg Except.ok hsame.result, rfl, hright, hstarted, hsame.ends⟩

theorem agree_attempt {β : Type} {step step' : Setting α → Attempt α β} (h : t.Twins d u v)
    (hstep : TriesAgree (t.Alike d) (step s) (step' s) u.live v.live) :
    TriesAgree (t.Twins d) (attempt step) (attempt step') u v := by
  refine TriesAgree.bind (agree_play h hstep) fun r u v h => ?_
  cases r with
  | ok x => exact TriesAgree.pure _ h
  | error r => exact TriesAgree.throw _ h

theorem agree_ensureRunning (h : t.Twins d u v) :
    TriesAgree (t.Twins d) ensureRunning ensureRunning u v := by
  refine TriesAgree.get_bind ?_
  rw [h.live.battle]
  split
  · exact TriesAgree.throw _ h
  · exact TriesAgree.pure _ h

theorem playable?_eq (h : t.Twins d u v) (uid : Nat) : v.playable? uid = u.playable? uid := by
  unfold Session.playable?
  rw [h.left, h.right, h.live.battle]

variable {run run' : Runner α} (hr : t.SameRunners run run')
include hr

/-! ## Requests -/

theorem agree_startPlayerTurn (h : t.Twins d u v) :
    TriesAgree (t.Twins d) run.startPlayerTurn run'.startPlayerTurn u v := by
  refine TriesAgree.bind (agree_ensureRunning h) fun _ u v h => ?_
  exact agree_play h (agrees_playerTurns hr _ h.live)

theorem agree_start (h : t.Twins d u v) : TriesAgree (t.Twins d) run.start run'.start u v := by
  refine TriesAgree.bind (agree_ensureRunning h) fun _ u v h => TriesAgree.get_bind ?_
  rw [h.started]
  split
  · exact TriesAgree.pure _ h
  · have hbegun : t.Twins d { u with started := true } { v with started := true } :=
      { h with started := rfl }
    refine TriesAgree.modify_bind hbegun fun u v h => ?_
    refine TriesAgree.bind (agree_play h (agrees_battleStarts hr _ h.live)) fun _ u v h => ?_
    refine TriesAgree.get_bind ?_
    rw [h.live.battle]
    split
    · exact TriesAgree.pure _ h
    · exact agree_startPlayerTurn hr h

theorem agree_playCard (uid : Nat) (h : t.Twins d u v) :
    TriesAgree (t.Twins d) (run.playCard uid) (run'.playCard uid) u v := by
  refine TriesAgree.bind (agree_ensureRunning h) fun _ u v h => TriesAgree.get_bind ?_
  rw [playable?_eq h uid]
  refine TriesAgree.ofExcept_bind h fun card _ => TriesAgree.get_bind ?_
  rw [h.live.battle]
  have hpaid {f : Battle α → Battle α} {e : Event α} : t.Twins d
      { u with live := (u.live.mapBattle f).emit e }
      { v with live := (v.live.mapBattle f).emit e } :=
    { h with live := (h.live.mapBattle f).emit e }
  refine TriesAgree.modify_bind hpaid fun u v h => ?_
  refine TriesAgree.bind (agree_attempt h (sameRuns_execute hr _ _ (.refl _) h.live)) ?_
  intro _ u v h
  refine TriesAgree.get_bind ?_
  rw [h.live.battle]
  split
  · exact TriesAgree.pure _ h
  · exact agree_play h (agrees_fire hr .player .cardPlayed _ h.live)

theorem agree_endPlayerTurn (h : t.Twins d u v) :
    TriesAgree (t.Twins d) run.endPlayerTurn run'.endPlayerTurn u v := by
  refine TriesAgree.bind (agree_ensureRunning h) fun _ u v h => ?_
  refine TriesAgree.bind (agree_play h (agrees_finishPlayerTurn hr h.live)) fun _ u v h => ?_
  refine TriesAgree.get_bind ?_
  rw [h.live.battle]
  split
  · exact TriesAgree.pure _ h
  · exact agree_startPlayerTurn hr h

theorem agree_runEffect (text : String) (me : Side) (h : t.Twins d u v) :
    TriesAgree (t.Twins d) (run.runEffect text me) (run'.runEffect text me) u v := by
  refine TriesAgree.bind (agree_ensureRunning h) fun _ u v h => ?_
  exact agree_attempt h (sameRuns_execute hr text me (.refl _) h.live)

/-- One case for each call. -/
theorem agree_request (c : Call α) (h : t.Twins d u v) :
    TriesAgree (t.Twins d) (run.request c) (run'.request c) u v := by
  unfold request
  cases c with
  | start => exact agree_start hr h
  | startPlayerTurn => exact agree_startPlayerTurn hr h
  | playCard uid => exact agree_playCard hr uid h
  | endPlayerTurn => exact agree_endPlayerTurn hr h
  | runEffect text me => exact agree_runEffect hr text me h
  | execute text me ctx => exact agree_attempt h (sameRuns_execute hr text me (.refl ctx) h.live)
  | fire side trigger => exact agree_play h (agrees_fire hr side trigger .plain h.live)
  | startTurn side => exact agree_play h (agrees_startTurn hr side h.live)
  | endTurn side => exact agree_play h (agrees_endTurn hr side h.live)
  | applyStatus side id n =>
    exact agree_attempt h (Scene.triesAgree_applyStatus (hr _ _) side id n (.refl _) h.live)
  | removeStatus side id n =>
    exact agree_attempt h (Scene.triesAgree_removeStatus (hr _ _) side id n (.refl _) h.live)
  | setStacks side id n =>
    exact agree_attempt h (Scene.triesAgree_setStacks (hr _ _) side id n (.refl _) h.live)
  | addAbility side effect =>
    refine agree_attempt h (TriesAgree.bind (triesAgree_addAbility side effect h.live) ?_)
    exact fun _ _ _ h => TriesAgree.pure _ h
  | removeAbilities side key =>
    exact agree_play h (Agrees.modify (h.live.removeAbilities side key))
  | drawCards count =>
    refine agree_attempt h (TriesAgree.bind (Setting.triesAgree_drawCards count h.live) ?_)
    exact fun _ _ _ h => TriesAgree.pure _ h

end Runner

/-! ## Sessions -/

namespace Session

variable {s : Setting α} {t : Tolerance α s.catalog} {d : Nat} {u v : Session α}

/-- Twins stay twins whatever a host calls for. -/
theorem twins_afterAll (calls : List (Call α)) (h : t.Twins d u v) :
    t.Twins d (u.afterAll calls) (v.afterAll calls) := by
  induction calls generalizing u v with
  | nil => exact h
  | cons c rest ih =>
    have hfirst := Runner.agree_request (sameRunners_runWithin t) c h
    rw [Runner.request_runWithin] at hfirst
    exact ih hfirst.ends

/-- Every text that the memo of a session knows is kept as it reads,
whatever a host calls for. -/
theorem faithful_afterAll (s : Session α) (calls : List (Call α))
    (h : s.live.memo.Faithful s.catalog) : (s.afterAll calls).live.memo.Faithful s.catalog := by
  have hself : (faithful s.catalog).Twins s.live.depth s s :=
    ⟨rfl, rfl, rfl, .faithful_refl h⟩
  exact (twins_afterAll calls hself).live.memo.1

end Session
end DeckDuel
