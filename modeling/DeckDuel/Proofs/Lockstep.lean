/-
DeckDuel.Proofs.Lockstep — the engine keeps alike battles alike.

* `Tolerance.SameRuns` — two ways to run texts that cannot be told
  apart from alike battles with `d` texts running.
* One lemma for each function of the engine: with two such ways to run
  what it sets off, and contexts that meet, it answers the same in both
  battles and leaves them alike.
* `Setting.within` — a text that is entered, run and left, whatever way
  the texts set off by it are run.
* `Setting.sameRuns_runWithin` — a text with a number of levels left
  runs the same in alike battles, by induction on the number.
-/
import DeckDuel.Proofs.Agrees
import DeckDuel.Proofs.Alike

namespace DeckDuel

variable {α : Type} [Scalar α]

/-- The setting with a way to run the texts that are set off in it. -/
abbrev Setting.running (s : Setting α) (run : String → Side → Context α → Attempt α Unit) :
    Scene α :=
  ⟨s, run⟩

/-- Two ways to run texts that cannot be told apart from alike battles
with `d` texts running. -/
def Tolerance.SameRuns {catalog : Catalog} (t : Tolerance α catalog) (d : Nat)
    (run run' : String → Side → Context α → Attempt α Unit) : Prop :=
  ∀ (text : String) (me : Side) {c c' : Context α} {l m : Live α}, t.Meets c c' → t.Alike d l m →
    TriesAgree (t.Alike d) (run text me c) (run' text me c') l m

open Tolerance

variable {s : Setting α} {t : Tolerance α s.catalog} {d : Nat} {l m : Live α} {c c' : Context α}

theorem agrees_emit (h : t.Alike d l m) (e : Event α) :
    Agrees (t.Alike d) (emit e) (emit e) l m :=
  Agrees.modify (h.emit e)

namespace Scene

section

variable {run run' : String → Side → Context α → Attempt α Unit} (hr : t.SameRuns d run run')
include hr

/-! ## Moments -/

theorem agrees_runLoose (text : String) (me : Side) (hc : t.Meets c c') (h : t.Alike d l m) :
    Agrees (t.Alike d) ((s.running run).runLoose text me c) ((s.running run').runLoose text me c')
      l m :=
  Agrees.bind (hr text me hc h) fun _ _ _ h => Agrees.pure _ h

theorem agrees_runAbilities (side : Side) (trigger : Trigger) (as : List Ability)
    (hc : t.Meets c c') (h : t.Alike d l m) :
    Agrees (t.Alike d) ((s.running run).runAbilities side trigger c as)
      ((s.running run').runAbilities side trigger c' as) l m := by
  induction as generalizing l m with
  | nil => exact Agrees.pure _ h
  | cons a rest ih =>
    refine Agrees.get_bind ?_
    rw [h.battle]
    split
    · exact Agrees.pure _ h
    · split
      · exact ih h
      · refine Agrees.bind (agrees_emit h _) fun _ l m h => ?_
        rw [hc.onTrigger]
        refine Agrees.bind (agrees_runLoose hr _ _ (.refl _) h) fun _ l m h => ?_
        exact Agrees.bind (ih h) fun _ _ _ h => Agrees.pure _ h

theorem agrees_runStatusTexts (holder : Side) (id moment : String) (stackCount : Nat)
    (texts : List String) (hc : t.Meets c c') (h : t.Alike d l m) :
    Agrees (t.Alike d) ((s.running run).runStatusTexts holder id moment stackCount c texts)
      ((s.running run').runStatusTexts holder id moment stackCount c' texts) l m := by
  induction texts generalizing l m with
  | nil => exact Agrees.pure _ h
  | cons text rest ih =>
    unfold runStatusTexts
    rw [hc.onTrigger]
    exact Agrees.bind (agrees_runLoose hr _ _ (.refl _) h) fun _ _ _ h => ih h

theorem agrees_runStatusEvents (side : Side) (trigger : Trigger) (held : List HeldStatus)
    (hc : t.Meets c c') (h : t.Alike d l m) :
    Agrees (t.Alike d) ((s.running run).runStatusEvents side trigger c held)
      ((s.running run').runStatusEvents side trigger c' held) l m := by
  induction held generalizing l m with
  | nil => exact Agrees.pure _ h
  | cons status rest ih =>
    refine Agrees.get_bind ?_
    rw [h.fighter]
    refine Agrees.bind (agrees_runStatusTexts hr _ _ _ _ _ hc h) fun _ l m h => ?_
    exact Agrees.bind (ih h) fun _ _ _ h => Agrees.pure _ h

theorem agrees_runRelics (trigger : Trigger) (segments : List String) (hc : t.Meets c c')
    (h : t.Alike d l m) :
    Agrees (t.Alike d) ((s.running run).runRelics trigger c segments)
      ((s.running run').runRelics trigger c' segments) l m := by
  induction segments generalizing l m with
  | nil => exact Agrees.pure _ h
  | cons inner rest ih =>
    refine Agrees.bind (agrees_emit h _) fun _ l m h => ?_
    rw [hc.onTrigger]
    refine Agrees.bind (agrees_runLoose hr _ _ (.refl _) h) fun _ l m h => ?_
    exact Agrees.bind (ih h) fun _ _ _ h => Agrees.pure _ h

theorem agrees_react (side : Side) (trigger : Trigger) (hc : t.Meets c c') (h : t.Alike d l m) :
    Agrees (t.Alike d) ((s.running run).react side trigger c)
      ((s.running run').react side trigger c') l m := by
  unfold react
  split
  · exact Agrees.pure _ h
  · refine Agrees.bind (Agrees.modify (h.write rfl)) fun _ l m h => Agrees.get_bind ?_
    rw [h.fighter]
    refine Agrees.bind (agrees_runAbilities hr _ _ _ hc h) fun _ l m h => Agrees.get_bind ?_
    rw [h.fighter]
    refine Agrees.bind (agrees_runStatusEvents hr _ _ _ hc h) fun _ l m h => ?_
    cases side with
    | player =>
      refine Agrees.get_bind ?_
      rw [h.battle]
      exact Agrees.bind (agrees_runRelics hr _ _ hc h) fun _ _ _ h => Agrees.pure _ h
    | enemy => exact Agrees.pure _ h

theorem agrees_fire (side : Side) (trigger : Trigger) (hc : t.Meets c c') (h : t.Alike d l m) :
    Agrees (t.Alike d) ((s.running run).fire side trigger c)
      ((s.running run').fire side trigger c') l m :=
  Agrees.bind (agrees_react hr side trigger hc h) fun _ _ _ h => Agrees.pure _ h

/-! ## Stats -/

omit hr in
theorem agrees_adjustment (side : Side) (kind : Modifier) (h : t.Alike d l m) :
    Agrees (t.Alike d) ((s.running run).adjustment side kind) ((s.running run').adjustment side kind)
      l m := by
  refine Agrees.get_bind ?_
  rw [h.battle]
  exact Agrees.pure _ h

omit hr in
theorem agrees_adjusted (side : Side) (kind : Modifier) (x : α) (h : t.Alike d l m) :
    Agrees (t.Alike d) ((s.running run).adjusted side kind x) ((s.running run').adjusted side kind x)
      l m :=
  Agrees.bind (agrees_adjustment side kind h) fun _ _ _ h => Agrees.pure _ h

omit hr in
theorem triesAgree_value (cl : Clause α) (me target : Side) (hc : t.Meets c c')
    (h : t.Alike d l m) :
    TriesAgree (t.Alike d) ((s.running run).value cl me target c)
      ((s.running run').value cl me target c') l m := by
  refine TriesAgree.get_bind ?_
  rw [h.scope s me target hc]
  exact TriesAgree.ofExcept _ h

theorem agrees_damage (source target : Side) (amount : α) (hc : t.Meets c c')
    (h : t.Alike d l m) :
    Agrees (t.Alike d) ((s.running run).damage source target amount c)
      ((s.running run').damage source target amount c') l m := by
  obtain ⟨hhit, hstrike⟩ := h.strike target amount
  refine Agrees.bind (Agrees.modifyGet hhit hstrike) fun hit l m h => ?_
  refine Agrees.ite_bind (agrees_fire hr _ _ hc h) h fun l m h => ?_
  refine Agrees.ite_bind (agrees_fire hr _ _ hc h) h fun l m h => ?_
  split
  · exact agrees_fire hr _ _ hc h
  · exact Agrees.pure _ h

theorem agrees_heal (target : Side) (amount : α) (hc : t.Meets c c') (h : t.Alike d l m) :
    Agrees (t.Alike d) ((s.running run).heal target amount c)
      ((s.running run').heal target amount c') l m := by
  refine Agrees.get_bind ?_
  rw [h.fighter]
  refine Agrees.bind (Agrees.modify (h.commitHp _ _)) fun _ l' m' h => Agrees.get_bind ?_
  dsimp only
  rw [h.fighter]
  split
  · exact Agrees.bind (agrees_emit h _) fun _ l m h => agrees_fire hr _ _ hc h
  · exact Agrees.pure _ h

theorem triesAgree_computeHp (target : Side) (op : Arith) (x : α) (hc : t.Meets c c')
    (h : t.Alike d l m) :
    TriesAgree (t.Alike d) ((s.running run).computeHp target op x c)
      ((s.running run').computeHp target op x c') l m := by
  refine TriesAgree.get_bind ?_
  rw [h.fighter]
  refine TriesAgree.ofExcept_bind h fun next _ => ?_
  refine TriesAgree.bind (TriesAgree.modify (h.commitHp _ _)) fun _ l' m' h => ?_
  refine TriesAgree.get_bind ?_
  dsimp only
  rw [h.fighter]
  split
  · refine TriesAgree.bind (TriesAgree.lift (agrees_emit h _)) fun _ l m h => ?_
    exact TriesAgree.lift (agrees_fire hr _ _ hc h)
  · split
    · refine TriesAgree.bind (TriesAgree.lift (agrees_emit h _)) fun _ l m h => ?_
      exact TriesAgree.lift (agrees_fire hr _ _ hc h)
    · exact TriesAgree.pure _ h

theorem triesAgree_changeHp (me target : Side) (op : Arith) (x : α) (hc : t.Meets c c')
    (h : t.Alike d l m) :
    TriesAgree (t.Alike d) ((s.running run).changeHp me target op x c)
      ((s.running run').changeHp me target op x c') l m := by
  unfold changeHp
  split
  · refine TriesAgree.bind (TriesAgree.lift (agrees_adjustment _ _ h)) fun _ l m h => ?_
    refine TriesAgree.bind (TriesAgree.lift (agrees_adjusted _ _ _ h)) fun _ l m h => ?_
    refine TriesAgree.ofExcept_bind h fun amount _ => ?_
    exact TriesAgree.lift (agrees_damage hr _ _ _ hc h)
  · split
    · exact TriesAgree.lift (agrees_heal hr _ _ hc h)
    · exact triesAgree_computeHp hr _ _ _ hc h

theorem agrees_spillLust (side : Side) (hc : t.Meets c c') (h : t.Alike d l m) :
    Agrees (t.Alike d) ((s.running run).spillLust side c) ((s.running run').spillLust side c')
      l m := by
  refine Agrees.bind (agrees_emit h _) fun _ l m h => Agrees.get_bind ?_
  have hrest {l m : Live α} (h : t.Alike d l m) : Agrees (t.Alike d)
      (do (s.running run).fire side .lustOverflow c; modify fun l => l.clearLust side)
      (do (s.running run').fire side .lustOverflow c'; modify fun l => l.clearLust side) l m :=
    Agrees.bind (agrees_fire hr _ _ hc h) fun _ l m h => Agrees.modify (h.clearLust _)
  rw [h.fighter, hc.onTrigger]
  split
  · exact Agrees.bind (agrees_runLoose hr _ _ (.refl _) h) fun _ l m h => hrest h
  · exact hrest h

theorem agrees_overflowLust (side : Side) (hc : t.Meets c c') (h : t.Alike d l m) :
    Agrees (t.Alike d) ((s.running run).overflowLust side c)
      ((s.running run').overflowLust side c') l m := by
  refine Agrees.get_bind ?_
  rw [h.overflowing]
  split
  · exact Agrees.pure _ h
  · refine Agrees.bind (Agrees.modify (h.markOverflow _ _)) fun _ l m h => ?_
    refine Agrees.bind (agrees_spillLust hr _ hc h) fun _ l m h => ?_
    exact Agrees.modify ((h.markOverflow _ _).write rfl)

omit hr in
theorem triesAgree_nextLust (me target : Side) (op : Arith) (x : α) (h : t.Alike d l m) :
    TriesAgree (t.Alike d) ((s.running run).nextLust me target op x)
      ((s.running run').nextLust me target op x) l m := by
  refine TriesAgree.get_bind ?_
  dsimp only
  rw [h.fighter]
  split
  · refine TriesAgree.bind (TriesAgree.lift (agrees_adjustment _ _ h)) fun _ l' m' h => ?_
    refine TriesAgree.bind (TriesAgree.lift (agrees_adjusted _ _ _ h)) fun _ l' m' h => ?_
    exact TriesAgree.ofExcept _ h
  · exact TriesAgree.ofExcept_bind h fun _ _ => TriesAgree.ofExcept _ h

theorem triesAgree_changeLust (me target : Side) (op : Arith) (x : α) (hc : t.Meets c c')
    (h : t.Alike d l m) :
    TriesAgree (t.Alike d) ((s.running run).changeLust me target op x c)
      ((s.running run').changeLust me target op x c') l m := by
  refine TriesAgree.get_bind ?_
  rw [h.fighter]
  refine TriesAgree.bind (triesAgree_nextLust _ _ _ _ h) fun next l' m' h => ?_
  refine TriesAgree.bind (TriesAgree.modify (h.commitLust _ _)) fun _ l' m' h => ?_
  refine TriesAgree.get_bind ?_
  rw [h.fighter]
  refine TriesAgree.ite_bind (TriesAgree.lift (agrees_fire hr _ _ hc h)) h fun l' m' h => ?_
  refine TriesAgree.get_bind ?_
  rw [h.fighter]
  split
  · exact TriesAgree.lift (agrees_overflowLust hr _ hc h)
  · exact TriesAgree.pure _ h

omit hr in
theorem triesAgree_nextBlock (target : Side) (op : Arith) (x : α) (h : t.Alike d l m) :
    TriesAgree (t.Alike d) ((s.running run).nextBlock target op x)
      ((s.running run').nextBlock target op x) l m := by
  refine TriesAgree.get_bind ?_
  dsimp only
  rw [h.fighter]
  split
  · refine TriesAgree.bind (TriesAgree.lift (agrees_adjusted _ _ _ h)) fun _ l' m' h => ?_
    exact TriesAgree.ofExcept _ h
  · exact TriesAgree.ofExcept_bind h fun _ _ => TriesAgree.ofExcept _ h

theorem triesAgree_changeBlock (target : Side) (op : Arith) (x : α) (hc : t.Meets c c')
    (h : t.Alike d l m) :
    TriesAgree (t.Alike d) ((s.running run).changeBlock target op x c)
      ((s.running run').changeBlock target op x c') l m := by
  refine TriesAgree.get_bind ?_
  rw [h.fighter]
  refine TriesAgree.bind (triesAgree_nextBlock _ _ _ h) fun next l' m' h => ?_
  refine TriesAgree.bind (TriesAgree.modify (h.commitBlock _ _)) fun _ l' m' h => ?_
  refine TriesAgree.get_bind ?_
  dsimp only
  rw [h.fighter]
  split
  · exact TriesAgree.lift (agrees_fire hr _ _ hc h)
  · split
    · exact TriesAgree.lift (agrees_fire hr _ _ hc h)
    · exact TriesAgree.pure _ h

omit hr in
theorem triesAgree_changeEnergy (op : Arith) (x : α) (h : t.Alike d l m) :
    TriesAgree (t.Alike d) (changeEnergy op x) (changeEnergy op x) l m := by
  refine TriesAgree.get_bind ?_
  rw [h.battle]
  exact TriesAgree.ofExcept_bind h fun next _ => TriesAgree.modify (h.commitEnergy _)

omit hr in
theorem triesAgree_changeMaxHp (target : Side) (op : Arith) (x : α) (h : t.Alike d l m) :
    TriesAgree (t.Alike d) (changeMaxHp target op x) (changeMaxHp target op x) l m := by
  refine TriesAgree.get_bind ?_
  rw [h.fighter]
  exact TriesAgree.ofExcept_bind h fun next _ => TriesAgree.modify (h.commitMaxHp _ _)

omit hr in
theorem triesAgree_changeMaxLust (target : Side) (op : Arith) (x : α) (h : t.Alike d l m) :
    TriesAgree (t.Alike d) (changeMaxLust target op x) (changeMaxLust target op x) l m := by
  refine TriesAgree.get_bind ?_
  rw [h.fighter]
  exact TriesAgree.ofExcept_bind h fun next _ => TriesAgree.modify (h.commitMaxLust _ _)

omit hr in
theorem triesAgree_changeMaxEnergy (op : Arith) (x : α) (h : t.Alike d l m) :
    TriesAgree (t.Alike d) (changeMaxEnergy op x) (changeMaxEnergy op x) l m := by
  refine TriesAgree.get_bind ?_
  rw [h.battle]
  exact TriesAgree.ofExcept_bind h fun next _ => TriesAgree.modify (h.commitMaxEnergy _)

theorem triesAgree_runStat (cl : Clause α) (me : Side) (hc : t.Meets c c') (h : t.Alike d l m) :
    TriesAgree (t.Alike d) ((s.running run).runStat cl me c) ((s.running run').runStat cl me c')
      l m := by
  unfold runStat Clause.side
  rw [hc.target]
  refine TriesAgree.ofExcept_bind h fun target _ => ?_
  split
  · exact TriesAgree.throw _ h
  · refine TriesAgree.bind (triesAgree_value _ _ _ hc h) fun _ l m h => ?_
    refine TriesAgree.ofExcept_bind h fun x _ => ?_
    split
    · exact triesAgree_changeHp hr _ _ _ _ hc h
    · exact triesAgree_changeLust hr _ _ _ _ hc h
    · exact triesAgree_changeBlock hr _ _ _ hc h
    · exact triesAgree_changeEnergy _ _ h
    · exact triesAgree_changeMaxHp _ _ _ h
    · exact triesAgree_changeMaxLust _ _ _ h
    · exact triesAgree_changeMaxEnergy _ _ h
    · exact TriesAgree.throw _ h

omit hr in
theorem triesAgree_runModifier (cl : Clause α) (me : Side) (hc : t.Meets c c')
    (h : t.Alike d l m) :
    TriesAgree (t.Alike d) ((s.running run).runModifier cl me c)
      ((s.running run').runModifier cl me c') l m := by
  unfold runModifier Clause.side
  rw [hc.target]
  refine TriesAgree.ofExcept_bind h fun target _ => ?_
  split
  · exact TriesAgree.throw _ h
  · refine TriesAgree.bind (triesAgree_value _ _ _ hc h) fun _ l m h => TriesAgree.get_bind ?_
    dsimp only
    rw [h.fighter]
    split
    · exact TriesAgree.throw _ h
    · refine TriesAgree.ofExcept_bind h fun after _ => ?_
      exact TriesAgree.modify ((h.mapFighter _ _).emit _)

/-! ## Statuses -/

theorem agrees_runLifecycle (holder : Side) (sd : StatusDefinition α) (p : Lifecycle)
    (stackCount : Nat) (hc : t.Meets c c') (h : t.Alike d l m) :
    Agrees (t.Alike d) ((s.running run).runLifecycle holder sd p stackCount c)
      ((s.running run').runLifecycle holder sd p stackCount c') l m :=
  agrees_runStatusTexts hr _ _ _ _ _ hc h

theorem agrees_endStatus (holder : Side) (id : String) (hc : t.Meets c c') (h : t.Alike d l m) :
    Agrees (t.Alike d) ((s.running run).endStatus holder id c)
      ((s.running run').endStatus holder id c') l m := by
  refine Agrees.get_bind ?_
  dsimp only
  rw [h.fighter]
  split
  · refine Agrees.bind (agrees_runLifecycle hr _ _ _ _ hc h) fun _ l m h => ?_
    exact Agrees.modify (h.loseStatus _ _ _)
  · exact Agrees.modify (h.loseStatus _ _ _)

theorem triesAgree_setStacks (holder : Side) (id : String) (stackCount : Nat)
    (hc : t.Meets c c') (h : t.Alike d l m) :
    TriesAgree (t.Alike d) ((s.running run).setStacks holder id stackCount c)
      ((s.running run').setStacks holder id stackCount c') l m := by
  refine TriesAgree.get_bind ?_
  rw [h.fighter]
  split
  · exact TriesAgree.throw _ h
  · split
    · exact TriesAgree.lift (agrees_endStatus hr _ _ hc h)
    · exact TriesAgree.modify (h.commitStacks _ _ _)

theorem triesAgree_applyStatus (holder : Side) (id : String) (stackCount : Nat)
    (hc : t.Meets c c') (h : t.Alike d l m) :
    TriesAgree (t.Alike d) ((s.running run).applyStatus holder id stackCount c)
      ((s.running run').applyStatus holder id stackCount c') l m := by
  unfold applyStatus
  dsimp only
  split
  · exact TriesAgree.throw _ h
  · split
    · exact TriesAgree.pure _ h
    · refine TriesAgree.get_bind ?_
      rw [h.fighter]
      split
      · split
        · exact triesAgree_setStacks hr _ _ _ hc h
        · exact TriesAgree.lift (agrees_runLifecycle hr _ _ _ _ hc h)
      · refine TriesAgree.bind (TriesAgree.modify (h.gainStatus _ _ _)) fun _ l m h => ?_
        refine TriesAgree.bind (TriesAgree.lift (agrees_runLifecycle hr _ _ _ _ hc h)) ?_
        intro _ l m h
        split
        · exact TriesAgree.lift (agrees_fire hr _ _ hc h)
        · exact TriesAgree.pure _ h

theorem triesAgree_removeStatus (holder : Side) (id : String) (amount : Option Nat)
    (hc : t.Meets c c') (h : t.Alike d l m) :
    TriesAgree (t.Alike d) ((s.running run).removeStatus holder id amount c)
      ((s.running run').removeStatus holder id amount c') l m := by
  refine TriesAgree.get_bind ?_
  dsimp only
  rw [h.fighter]
  split
  · exact TriesAgree.throw _ h
  · split
    · exact TriesAgree.lift (agrees_endStatus hr _ _ hc h)
    · exact triesAgree_setStacks hr _ _ _ hc h

theorem agrees_tick (side : Side) (held : List HeldStatus) (hc : t.Meets c c')
    (h : t.Alike d l m) :
    Agrees (t.Alike d) ((s.running run).tick side c held) ((s.running run').tick side c' held)
      l m := by
  induction held generalizing l m with
  | nil => exact Agrees.pure _ h
  | cons status rest ih =>
    refine Agrees.get_bind ?_
    dsimp only
    rw [h.fighter]
    split
    · split
      · exact Agrees.bind (agrees_runLifecycle hr _ _ _ _ hc h) fun _ l m h => ih h
      · exact ih h
    · exact ih h

theorem agrees_decay (side : Side) (held : List HeldStatus) (hc : t.Meets c c')
    (h : t.Alike d l m) :
    Agrees (t.Alike d) ((s.running run).decay side c held) ((s.running run').decay side c' held)
      l m := by
  induction held generalizing l m with
  | nil => exact Agrees.pure _ h
  | cons status rest ih =>
    refine Agrees.get_bind ?_
    dsimp only
    rw [h.fighter]
    split
    · split
      · exact Agrees.bind (triesAgree_setStacks hr _ _ _ hc h) fun _ l m h => ih h
      · exact ih h
    · exact ih h

omit hr in
theorem triesAgree_amountOf (cl : Clause α) (me holder : Side) (hc : t.Meets c c')
    (h : t.Alike d l m) :
    TriesAgree (t.Alike d) ((s.running run).amountOf cl me holder c)
      ((s.running run').amountOf cl me holder c') l m := by
  unfold amountOf
  split
  · exact TriesAgree.pure _ h
  · exact TriesAgree.bind (triesAgree_value _ _ _ hc h) fun _ _ _ h => TriesAgree.pure _ h

theorem triesAgree_changeStacks (cl : Clause α) (id : String) (op : Arith) (me holder : Side)
    (hc : t.Meets c c') (h : t.Alike d l m) :
    TriesAgree (t.Alike d) ((s.running run).changeStacks cl id op me holder c)
      ((s.running run').changeStacks cl id op me holder c') l m := by
  refine TriesAgree.get_bind ?_
  dsimp only
  rw [h.fighter]
  refine TriesAgree.bind (triesAgree_value _ _ _ hc h) fun _ l' m' h => ?_
  refine TriesAgree.ofExcept_bind h fun next _ => ?_
  split
  · split
    · exact TriesAgree.throw _ h
    · exact triesAgree_applyStatus hr _ _ _ hc h
  · exact triesAgree_setStacks hr _ _ _ hc h

theorem triesAgree_runStatus (cl : Clause α) (me : Side) (hc : t.Meets c c')
    (h : t.Alike d l m) :
    TriesAgree (t.Alike d) ((s.running run).runStatus cl me c)
      ((s.running run').runStatus cl me c') l m := by
  unfold runStatus
  split
  · exact TriesAgree.throw _ h
  · refine TriesAgree.ofExcept_bind h fun explicit _ => ?_
    dsimp only
    split
    · split
      · exact TriesAgree.throw _ h
      · refine TriesAgree.bind (triesAgree_amountOf _ _ _ hc h) fun _ l m h => ?_
        exact triesAgree_applyStatus hr _ _ _ hc h
    · refine TriesAgree.bind (triesAgree_amountOf _ _ _ hc h) fun _ l m h => ?_
      exact triesAgree_removeStatus hr _ _ _ hc h
    · exact triesAgree_changeStacks hr _ _ _ _ _ hc h
    · exact TriesAgree.throw _ h

end
end Scene

/-! ## Abilities -/

theorem triesAgree_addAbility (side : Side) (effect : String) (h : t.Alike d l m) :
    TriesAgree (t.Alike d) (addAbility side effect) (addAbility side effect) l m := by
  obtain ⟨hid, hadd⟩ := h.addAbility? side effect
  refine TriesAgree.bind (TriesAgree.lift (Agrees.modifyGet hid hadd)) fun id l m h => ?_
  split
  · exact TriesAgree.pure _ h
  · exact TriesAgree.throw _ h

theorem triesAgree_runAbility (cl : Clause α) (me : Side) (hc : t.Meets c c')
    (h : t.Alike d l m) :
    TriesAgree (t.Alike d) (runAbility cl me c) (runAbility cl me c') l m := by
  unfold runAbility abilitySide
  rw [hc.target]
  refine TriesAgree.ofExcept_bind h fun side _ => ?_
  split
  · exact TriesAgree.bind (triesAgree_addAbility _ _ h) fun _ _ _ h => TriesAgree.pure _ h
  · exact TriesAgree.modify (h.removeAbilities _ _)
  · exact TriesAgree.throw _ h
  · exact TriesAgree.throw _ h

/-! ## Cards -/

namespace Setting

theorem triesAgree_drawCards (count : Nat) (h : t.Alike d l m) :
    TriesAgree (t.Alike d) (s.drawCards count) (s.drawCards count) l m := by
  refine TriesAgree.get_bind ?_
  rw [h.battle]
  refine TriesAgree.bind (TriesAgree.modify (h.mapBattle _)) fun _ l' m' h => ?_
  split
  · exact TriesAgree.throw _ h
  · refine TriesAgree.bind (TriesAgree.modify (h.reportDrawn _)) fun _ _ _ h => ?_
    exact TriesAgree.pure _ h

theorem agrees_select (selector : Selector) (home : Pile) (hc : t.Meets c c')
    (h : t.Alike d l m) :
    Agrees (t.Alike d) (s.select selector home c) (s.select selector home c') l m := by
  refine Agrees.modifyGet ?_ ?_
  · dsimp only
    rw [h.battle, h.questions, hc.card]
  · dsimp only
    rw [h.battle, h.questions, hc.card]
    exact { h.mapBattle fun b => { b with stream := _ } with questions := rfl }

theorem triesAgree_cardValue (cl : Clause α) (me : Side) (hc : t.Meets c c')
    (h : t.Alike d l m) :
    TriesAgree (t.Alike d) (s.cardValue cl me c) (s.cardValue cl me c') l m := by
  refine TriesAgree.get_bind ?_
  rw [h.scope s me .player hc]
  exact TriesAgree.ofExcept _ h

theorem triesAgree_countOf (cl : Clause α) (me : Side) (hc : t.Meets c c') (h : t.Alike d l m) :
    TriesAgree (t.Alike d) (s.countOf cl me c) (s.countOf cl me c') l m := by
  unfold countOf
  split
  · exact TriesAgree.bind (triesAgree_cardValue _ _ hc h) fun _ _ _ h => TriesAgree.pure _ h
  · exact TriesAgree.throw _ h

theorem triesAgree_runDraw (cl : Clause α) (me : Side) (hc : t.Meets c c') (h : t.Alike d l m) :
    TriesAgree (t.Alike d) (s.runDraw cl me c) (s.runDraw cl me c') l m := by
  unfold runDraw
  split
  · refine TriesAgree.bind (TriesAgree.lift (agrees_select _ _ hc h)) fun uids l m h => ?_
    refine TriesAgree.modify ?_
    rw [h.battle]
    exact (h.mapBattle _).reportDrawn _
  · refine TriesAgree.bind (triesAgree_countOf _ _ hc h) fun count l m h => ?_
    exact TriesAgree.bind (triesAgree_drawCards _ h) fun _ _ _ h => TriesAgree.pure _ h

theorem triesAgree_runMove (cl : Clause α) (me : Side) (goal : Pile) (hc : t.Meets c c')
    (h : t.Alike d l m) :
    TriesAgree (t.Alike d) (s.runMove cl me c goal) (s.runMove cl me c' goal) l m := by
  have hmove (selector : Selector) {l m : Live α} (h : t.Alike d l m) :
      let move (c : Context α) : Attempt α Unit := do
        let uids ← s.select selector .hand c
        modify fun l =>
          let moved := l.battle.piles.moveAll goal uids
          (l.mapBattle fun b => b.setPiles moved.2).reportMoved moved.1 goal
      TriesAgree (t.Alike d) (move c) (move c') l m := by
    refine TriesAgree.bind (TriesAgree.lift (agrees_select _ _ hc h)) fun uids l m h => ?_
    refine TriesAgree.modify ?_
    rw [h.battle]
    exact (h.mapBattle _).reportMoved _ _
  unfold runMove
  dsimp only
  split
  · exact TriesAgree.bind (TriesAgree.pure _ h) fun selector _ _ h => hmove selector h
  · refine TriesAgree.bind (triesAgree_countOf _ _ hc h) fun count l m h => ?_
    exact TriesAgree.bind (TriesAgree.pure _ h) fun selector _ _ h => hmove selector h

theorem triesAgree_runCost (cl : Clause α) (me : Side) (hc : t.Meets c c') (h : t.Alike d l m) :
    TriesAgree (t.Alike d) (s.runCost cl me c) (s.runCost cl me c') l m := by
  unfold runCost
  split
  · exact TriesAgree.throw _ h
  · refine TriesAgree.bind (triesAgree_cardValue _ _ hc h) fun x l m h => ?_
    refine TriesAgree.bind (TriesAgree.lift (agrees_select _ _ hc h)) fun uids l m h => ?_
    refine TriesAgree.get_bind ?_
    rw [h.battle]
    refine TriesAgree.bind (TriesAgree.modify (h.mapBattle _)) fun _ l' m' h => ?_
    split
    · exact TriesAgree.throw _ h
    · exact TriesAgree.pure _ h

theorem triesAgree_runCards (cl : Clause α) (me : Side) (hc : t.Meets c c')
    (h : t.Alike d l m) :
    TriesAgree (t.Alike d) (s.runCards cl me c) (s.runCards cl me c') l m := by
  unfold runCards
  split
  · exact triesAgree_runDraw _ _ hc h
  · exact triesAgree_runMove _ _ _ hc h
  · exact triesAgree_runMove _ _ _ hc h
  · exact triesAgree_runCost _ _ hc h
  · exact TriesAgree.throw _ h

end Setting

/-! ## Texts -/

/-- Units are left out in both for the same reason; where they come from
is told as far as it is looked at. -/
theorem agrees_reportSkipped (raw reason : String) (hc : t.Meets c c') (h : t.Alike d l m) :
    Agrees (t.Alike d) (reportSkipped raw reason c) (reportSkipped raw reason c') l m :=
  Agrees.modify (h.write (hc.skipped raw reason))

theorem agrees_reportFaults (units : List (Reading α)) (hc : t.Meets c c') (h : t.Alike d l m) :
    Agrees (t.Alike d) (reportFaults c units) (reportFaults c' units) l m := by
  induction units generalizing l m with
  | nil => exact Agrees.pure _ h
  | cons u rest ih =>
    cases u with
    | clause cl => exact ih h
    | fault raw f => exact Agrees.bind (agrees_reportSkipped _ _ hc h) fun _ _ _ h => ih h

namespace Scene

section

variable {run run' : String → Side → Context α → Attempt α Unit} (hr : t.SameRuns d run run')
include hr

theorem triesAgree_runBranch (condition effect : String) (otherwise : Option String) (me : Side)
    (hc : t.Meets c c') (h : t.Alike d l m) :
    TriesAgree (t.Alike d) ((s.running run).runBranch condition effect otherwise me c)
      ((s.running run').runBranch condition effect otherwise me c') l m := by
  refine TriesAgree.get_bind ?_
  dsimp only
  rw [h.scope s me me hc]
  split
  · split
    · exact TriesAgree.pure _ h
    · exact hr _ _ hc h
  · exact TriesAgree.pure _ h

/-- One case for each form of a unit, and one for each domain of its
attribute. -/
theorem triesAgree_runClause (cl : Clause α) (me : Side) (hc : t.Meets c c')
    (h : t.Alike d l m) :
    TriesAgree (t.Alike d) ((s.running run).runClause cl me c)
      ((s.running run').runClause cl me c') l m := by
  unfold runClause
  dsimp only
  split
  · exact triesAgree_runBranch hr _ _ _ _ hc h
  · split
    · exact TriesAgree.throw _ h
    · split
      · exact triesAgree_runStat hr _ _ hc h
      · exact triesAgree_runModifier _ _ hc h
      · exact triesAgree_runStatus hr _ _ hc h
      · exact triesAgree_runAbility _ _ hc h
      · exact Setting.triesAgree_runCards _ _ hc h
      · exact TriesAgree.pure _ h

theorem triesAgree_runClauses (me : Side) (cls : List (Clause α)) (hc : t.Meets c c')
    (h : t.Alike d l m) :
    TriesAgree (t.Alike d) ((s.running run).runClauses me c cls)
      ((s.running run').runClauses me c' cls) l m := by
  induction cls generalizing l m with
  | nil => exact TriesAgree.pure _ h
  | cons cl rest ih =>
    refine TriesAgree.caught_bind (triesAgree_runClause hr _ _ hc h) fun r l m h => ?_
    cases r with
    | ok _ => exact ih h
    | error r =>
      refine TriesAgree.bind (TriesAgree.modify (h.write rfl)) fun _ l m h => ?_
      split
      · exact TriesAgree.throw _ h
      · exact TriesAgree.bind (TriesAgree.lift (agrees_reportSkipped _ _ hc h)) fun _ _ _ h => ih h

/-- The memos answer alike, so both run the same units. -/
theorem triesAgree_runUnits (text : String) (me : Side) (hc : t.Meets c c')
    (h : t.Alike d l m) :
    TriesAgree (t.Alike d) ((s.running run).runUnits text me c)
      ((s.running run').runUnits text me c') l m := by
  obtain ⟨hunits, hmemo⟩ := t.parse h.memo text
  refine TriesAgree.bind (TriesAgree.lift (Agrees.modifyGet hunits { h with memo := hmemo })) ?_
  intro units l m h
  refine TriesAgree.bind (TriesAgree.lift (agrees_reportFaults _ hc h)) fun _ l m h => ?_
  exact triesAgree_runClauses hr _ _ hc h

end
end Scene

namespace Setting

/-- A text that is entered, run and left; `run` runs the texts that it
sets off. -/
def within (s : Setting α) (run : String → Side → Context α → Attempt α Unit) (text : String)
    (me : Side) (ctx : Context α) : Attempt α Unit := do
  modify fun l => l.enter text me
  let result ← caught ((s.running run).runUnits text me ctx)
  modify Live.leave
  (result : Except Refusal Unit)

theorem runWithin_succ (s : Setting α) (levels : Nat) :
    s.runWithin (levels + 1) = s.within (s.runWithin levels) := rfl

/-- What is set off by a text runs one text deeper. -/
theorem sameRuns_within {run run' : String → Side → Context α → Attempt α Unit}
    (hr : t.SameRuns (d + 1) run run') : t.SameRuns d (s.within run) (s.within run') := by
  intro text me c c' l m hc h
  refine TriesAgree.modify_bind (h.enter text me) fun l m h => ?_
  refine TriesAgree.caught_bind (Scene.triesAgree_runUnits hr text me hc h) fun r l m h => ?_
  exact TriesAgree.modify_bind h.leave fun _ _ h => TriesAgree.ofExcept _ h

/-- A text with some levels left runs the same in alike battles, by
induction on the levels: the texts set off by it have one less. -/
theorem sameRuns_runWithin (levels : Nat) :
    t.SameRuns d (s.runWithin levels) (s.runWithin levels) := by
  induction levels generalizing d with
  | zero => exact fun _ _ _ _ _ _ _ h => TriesAgree.throw _ h
  | succ levels ih => exact sameRuns_within ih

end Setting
end DeckDuel
