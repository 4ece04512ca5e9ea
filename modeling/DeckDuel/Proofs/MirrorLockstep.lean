/-
DeckDuel.Proofs.MirrorLockstep — what a fair battle does in the mirror.

* `MirroredRuns` — two ways to run texts for opposite sides that leave
  mirrored battles mirrored.
* One lemma for each function of the engine that changes a fighter: done
  for one side here, and for the other side in the mirror, it leaves the
  battles mirrored. Which moments come, which texts run and which stacks
  they are given is told from the side that something is done for, never
  from the name of the side.
-/
import DeckDuel.Proofs.Lockstep
import DeckDuel.Proofs.Mirror
import DeckDuel.Proofs.Reflects

namespace DeckDuel

variable {α : Type} [Scalar α]

/-! ## Moments -/

/-- Two ways to run texts for opposite sides: from mirrored battles with
`d` texts running, a text that does not speak of energy or cards leaves
mirrored battles. -/
def MirroredRuns (catalog : Catalog) (d : Nat)
    (run run' : String → Side → Context α → Attempt α Unit) : Prop :=
  ∀ (text : String) (me : Side) {c c' : Context α} {l m : Live α}, Impartial text.toList →
    c.Meets c' → Mirrored catalog d l m →
    Reflects (Mirrored catalog d) (run text me c) (run' text me.opponent c') l m

omit [Scalar α] in
/-- A moment forgets where it comes from, but for the energy. -/
theorem Context.Meets.onTrigger {c c' : Context α} (h : c.Meets c') (trigger : String)
    (status status' : Option StatusSource) (ability : Option String) (relic : Bool) :
    Context.Meets
      { c.onTrigger trigger with status := status, ability := ability, relic := relic }
      { c'.onTrigger trigger with status := status', ability := ability, relic := relic } :=
  ⟨rfl, h.energyBefore⟩

variable {s : Setting α} {d : Nat} {l m : Live α} {c c' : Context α}

theorem mirrors_emit (h : Mirrored s.catalog d l m) (e e' : Event α) :
    Agrees (Mirrored s.catalog d) (emit e) (emit e') l m :=
  Agrees.modify (h.emit e e')

namespace Scene

section

variable {run run' : String → Side → Context α → Attempt α Unit}
  (hr : MirroredRuns s.catalog d run run')
include hr

theorem mirrors_runLoose {text : String} (me : Side) (htext : Impartial text.toList)
    (hc : c.Meets c') (h : Mirrored s.catalog d l m) :
    Agrees (Mirrored s.catalog d) ((s.running run).runLoose text me c)
      ((s.running run').runLoose text me.opponent c') l m :=
  (hr text me htext hc h).forgotten

theorem mirrors_runAbilities (side : Side) (trigger : Trigger) {as : List Ability}
    (has : ∀ a ∈ as, Impartial a.effect.toList) (hc : c.Meets c')
    (h : Mirrored s.catalog d l m) :
    Agrees (Mirrored s.catalog d) ((s.running run).runAbilities side trigger c as)
      ((s.running run').runAbilities side.opponent trigger c' as) l m := by
  induction as generalizing l m with
  | nil => exact Agrees.pure _ h
  | cons a rest ih =>
    have hrest {l m : Live α} := @ih l m fun b hb => has b (List.mem_cons_of_mem a hb)
    refine Agrees.get_bind ?_
    rw [h.battle, Battle.isOver_mirror]
    split
    · exact Agrees.pure _ h
    · split
      · exact hrest h
      · next inner hinner =>
        have htext : Impartial inner.toList :=
          (has a List.mem_cons_self).part (Ability.infix_of_innerFor? hinner)
        refine Agrees.bind (mirrors_emit h _ _) fun _ l m h => ?_
        refine Agrees.bind (mirrors_runLoose hr side htext (hc.onTrigger _ none none _ _) h) ?_
        intro _ l m h
        exact Agrees.bind (hrest h) fun _ _ _ h => Agrees.pure _ h

theorem mirrors_runStatusTexts (holder : Side) (id moment : String) (stackCount : Nat)
    {texts : List String} (htexts : ∀ t ∈ texts, Impartial t.toList) (hc : c.Meets c')
    (h : Mirrored s.catalog d l m) :
    Agrees (Mirrored s.catalog d) ((s.running run).runStatusTexts holder id moment stackCount c texts)
      ((s.running run').runStatusTexts holder.opponent id moment stackCount c' texts) l m := by
  induction texts generalizing l m with
  | nil => exact Agrees.pure _ h
  | cons text rest ih =>
    have hfilled : Impartial (String.ofList (substituteStacks stackCount text.toList)).toList := by
      rw [String.toList_ofList]
      exact (htexts text List.mem_cons_self).substituteStacks stackCount
    refine Agrees.bind (mirrors_runLoose hr holder hfilled (hc.onTrigger _ _ _ none false) h) ?_
    intro _ l m h
    exact ih (fun t ht => htexts t (List.mem_cons_of_mem text ht)) h

variable (hcodex : s.codex.Fair)
include hcodex

theorem mirrors_runStatusEvents (side : Side) (trigger : Trigger) (held : List HeldStatus)
    (hc : c.Meets c') (h : Mirrored s.catalog d l m) :
    Agrees (Mirrored s.catalog d) ((s.running run).runStatusEvents side trigger c held)
      ((s.running run').runStatusEvents side.opponent trigger c' held) l m := by
  induction held generalizing l m with
  | nil => exact Agrees.pure _ h
  | cons status rest ih =>
    refine Agrees.get_bind ?_
    dsimp only
    rw [h.fighter]
    refine Agrees.bind (mirrors_runStatusTexts hr _ _ _ _ ?_ hc h) fun _ l m h => ?_
    · split
      · simp
      · split
        · next sd hsd =>
          cases htexts : sd.triggers.forEvent? trigger.keyword with
          | none => simp
          | some texts => exact hcodex.event hsd htexts
        · simp
    · exact Agrees.bind (ih h) fun _ _ _ h => Agrees.pure _ h

/-- Without relics nothing more runs for the player than for the
enemy. -/
theorem mirrors_react (side : Side) (trigger : Trigger) (hc : c.Meets c')
    (h : Mirrored s.catalog d l m) :
    Agrees (Mirrored s.catalog d) ((s.running run).react side trigger c)
      ((s.running run').react side.opponent trigger c') l m := by
  unfold react
  split
  · exact Agrees.pure _ h
  · refine Agrees.bind (Agrees.modify (h.write _ _)) fun _ l m h => Agrees.get_bind ?_
    rw [h.fighter]
    refine Agrees.bind (mirrors_runAbilities hr _ _ (h.fair.fighter side).abilities hc h) ?_
    intro abilities l m h
    refine Agrees.get_bind ?_
    rw [h.fighter]
    refine Agrees.bind (mirrors_runStatusEvents hr hcodex _ _ _ hc h) fun statuses l m h => ?_
    have hplayer : l.battle.player.relics = [] := h.fair.relics
    have henemy : m.battle.player.relics = [] := by
      rw [h.battle]
      exact h.fair.relics
    cases side with
    | player =>
      refine Agrees.get_left ?_
      rw [hplayer]
      exact Agrees.pure _ h
    | enemy =>
      refine Agrees.get_right ?_
      rw [henemy]
      exact Agrees.pure _ h

theorem mirrors_fire (side : Side) (trigger : Trigger) (hc : c.Meets c')
    (h : Mirrored s.catalog d l m) :
    Agrees (Mirrored s.catalog d) ((s.running run).fire side trigger c)
      ((s.running run').fire side.opponent trigger c') l m :=
  Agrees.bind (mirrors_react hr hcodex side trigger hc h) fun _ _ _ h => Agrees.pure _ h

/-! ## Stats -/

omit hr hcodex in
theorem mirrors_adjustment (side : Side) (kind : Modifier) (h : Mirrored s.catalog d l m) :
    Agrees (Mirrored s.catalog d) ((s.running run).adjustment side kind)
      ((s.running run').adjustment side.opponent kind) l m := by
  refine Agrees.get_bind ?_
  rw [h.battle, Battle.adjustment_mirror h.fair.relics, Side.opponent_opponent]
  exact Agrees.pure _ h

omit hr hcodex in
theorem mirrors_adjusted (side : Side) (kind : Modifier) (x : α) (h : Mirrored s.catalog d l m) :
    Agrees (Mirrored s.catalog d) ((s.running run).adjusted side kind x)
      ((s.running run').adjusted side.opponent kind x) l m :=
  Agrees.bind (mirrors_adjustment side kind h) fun _ _ _ h => Agrees.pure _ h

theorem mirrors_damage (source target : Side) (amount : α) (hc : c.Meets c')
    (h : Mirrored s.catalog d l m) :
    Agrees (Mirrored s.catalog d) ((s.running run).damage source target amount c)
      ((s.running run').damage source.opponent target.opponent amount c') l m := by
  obtain ⟨hhit, hstrike⟩ := h.strike target amount
  refine Agrees.bind (Agrees.modifyGet hhit hstrike) fun hit l m h => ?_
  refine Agrees.ite_bind (mirrors_fire hr hcodex _ _ hc h) h fun l m h => ?_
  refine Agrees.ite_bind (mirrors_fire hr hcodex _ _ hc h) h fun l m h => ?_
  simp only [ne_eq, Side.opponent_inj]
  split
  · exact mirrors_fire hr hcodex _ _ hc h
  · exact Agrees.pure _ h

theorem mirrors_heal (target : Side) (amount : α) (hc : c.Meets c')
    (h : Mirrored s.catalog d l m) :
    Agrees (Mirrored s.catalog d) ((s.running run).heal target amount c)
      ((s.running run').heal target.opponent amount c') l m := by
  refine Agrees.get_bind ?_
  rw [h.fighter]
  refine Agrees.bind (Agrees.modify (h.commitHp _ _)) fun _ l' m' h => Agrees.get_bind ?_
  dsimp only
  rw [h.fighter]
  split
  · exact Agrees.bind (mirrors_emit h _ _) fun _ l m h => mirrors_fire hr hcodex _ _ hc h
  · exact Agrees.pure _ h

theorem mirrors_computeHp (target : Side) (op : Arith) (x : α) (hc : c.Meets c')
    (h : Mirrored s.catalog d l m) :
    Reflects (Mirrored s.catalog d) ((s.running run).computeHp target op x c)
      ((s.running run').computeHp target.opponent op x c') l m := by
  refine Reflects.get_bind ?_
  rw [h.fighter]
  refine Reflects.ofExcept_bind h mirror_of_result fun next _ => ?_
  refine Reflects.bind (Reflects.modify (h.commitHp _ _)) fun _ l' m' h => ?_
  refine Reflects.get_bind ?_
  dsimp only
  rw [h.fighter]
  split
  · refine Reflects.bind (Reflects.lift (mirrors_emit h _ _)) fun _ l m h => ?_
    exact Reflects.lift (mirrors_fire hr hcodex _ _ hc h)
  · split
    · refine Reflects.bind (Reflects.lift (mirrors_emit h _ _)) fun _ l m h => ?_
      exact Reflects.lift (mirrors_fire hr hcodex _ _ hc h)
    · exact Reflects.pure _ h

theorem mirrors_changeHp (me target : Side) (op : Arith) (x : α) (hc : c.Meets c')
    (h : Mirrored s.catalog d l m) :
    Reflects (Mirrored s.catalog d) ((s.running run).changeHp me target op x c)
      ((s.running run').changeHp me.opponent target.opponent op x c') l m := by
  unfold changeHp
  split
  · refine Reflects.bind (Reflects.lift (mirrors_adjustment _ _ h)) fun _ l m h => ?_
    refine Reflects.bind (Reflects.lift (mirrors_adjusted _ _ _ h)) fun _ l m h => ?_
    refine Reflects.ofExcept_bind h mirror_of_ordinary fun amount _ => ?_
    exact Reflects.lift (mirrors_damage hr hcodex _ _ _ hc h)
  · split
    · exact Reflects.lift (mirrors_heal hr hcodex _ _ hc h)
    · exact mirrors_computeHp hr hcodex _ _ _ hc h

/-- The overflow effect that runs is the one of the side that did not
overflow. -/
theorem mirrors_spillLust (side : Side) (hc : c.Meets c') (h : Mirrored s.catalog d l m) :
    Agrees (Mirrored s.catalog d) ((s.running run).spillLust side c)
      ((s.running run').spillLust side.opponent c') l m := by
  refine Agrees.bind (mirrors_emit h _ _) fun _ l m h => Agrees.get_bind ?_
  have hrest {l m : Live α} (h : Mirrored s.catalog d l m) : Agrees (Mirrored s.catalog d)
      (do (s.running run).fire side .lustOverflow c; modify fun l => l.clearLust side)
      (do (s.running run').fire side.opponent .lustOverflow c'
          modify fun l => l.clearLust side.opponent) l m :=
    Agrees.bind (mirrors_fire hr hcodex _ _ hc h) fun _ l m h => Agrees.modify (h.clearLust _)
  rw [h.fighter]
  split
  · next text htext =>
    have hfair : Impartial text.toList := (h.fair.fighter side.opponent).overflow text htext
    refine Agrees.bind (mirrors_runLoose hr side.opponent hfair ?_ h) fun _ l m h => hrest h
    exact hc.onTrigger _ none none none false
  · exact hrest h

theorem mirrors_overflowLust (side : Side) (hc : c.Meets c') (h : Mirrored s.catalog d l m) :
    Agrees (Mirrored s.catalog d) ((s.running run).overflowLust side c)
      ((s.running run').overflowLust side.opponent c') l m := by
  refine Agrees.get_bind ?_
  rw [h.overflowing, Both.get_swap, Side.opponent_opponent]
  split
  · exact Agrees.pure _ h
  · refine Agrees.bind (Agrees.modify (h.markOverflow _ _)) fun _ l m h => ?_
    refine Agrees.bind (mirrors_spillLust hr hcodex _ hc h) fun _ l m h => ?_
    exact Agrees.modify ((h.markOverflow _ _).write _ _)

omit hr hcodex in
theorem mirrors_nextLust (me target : Side) (op : Arith) (x : α) (h : Mirrored s.catalog d l m) :
    Reflects (Mirrored s.catalog d) ((s.running run).nextLust me target op x)
      ((s.running run').nextLust me.opponent target.opponent op x) l m := by
  refine Reflects.get_bind ?_
  dsimp only
  rw [h.fighter]
  split
  · refine Reflects.bind (Reflects.lift (mirrors_adjustment _ _ h)) fun _ l' m' h => ?_
    refine Reflects.bind (Reflects.lift (mirrors_adjusted _ _ _ h)) fun _ l' m' h => ?_
    exact Reflects.ofExcept _ h mirror_of_ordinary
  · refine Reflects.ofExcept_bind h mirror_of_result fun _ _ => ?_
    exact Reflects.ofExcept _ h mirror_of_ordinary

theorem mirrors_changeLust (me target : Side) (op : Arith) (x : α) (hc : c.Meets c')
    (h : Mirrored s.catalog d l m) :
    Reflects (Mirrored s.catalog d) ((s.running run).changeLust me target op x c)
      ((s.running run').changeLust me.opponent target.opponent op x c') l m := by
  refine Reflects.get_bind ?_
  rw [h.fighter]
  refine Reflects.bind (mirrors_nextLust _ _ _ _ h) fun next l' m' h => ?_
  refine Reflects.bind (Reflects.modify (h.commitLust _ _)) fun _ l' m' h => ?_
  refine Reflects.get_bind ?_
  rw [h.fighter]
  refine Reflects.ite_bind (Reflects.lift (mirrors_fire hr hcodex _ _ hc h)) h fun l' m' h => ?_
  refine Reflects.get_bind ?_
  rw [h.fighter]
  split
  · exact Reflects.lift (mirrors_overflowLust hr hcodex _ hc h)
  · exact Reflects.pure _ h

omit hr hcodex in
theorem mirrors_nextBlock (target : Side) (op : Arith) (x : α) (h : Mirrored s.catalog d l m) :
    Reflects (Mirrored s.catalog d) ((s.running run).nextBlock target op x)
      ((s.running run').nextBlock target.opponent op x) l m := by
  refine Reflects.get_bind ?_
  dsimp only
  rw [h.fighter]
  split
  · refine Reflects.bind (Reflects.lift (mirrors_adjusted _ _ _ h)) fun _ l' m' h => ?_
    exact Reflects.ofExcept _ h mirror_of_ordinary
  · refine Reflects.ofExcept_bind h mirror_of_result fun _ _ => ?_
    exact Reflects.ofExcept _ h mirror_of_ordinary

theorem mirrors_changeBlock (target : Side) (op : Arith) (x : α) (hc : c.Meets c')
    (h : Mirrored s.catalog d l m) :
    Reflects (Mirrored s.catalog d) ((s.running run).changeBlock target op x c)
      ((s.running run').changeBlock target.opponent op x c') l m := by
  refine Reflects.get_bind ?_
  rw [h.fighter]
  refine Reflects.bind (mirrors_nextBlock _ _ _ h) fun next l' m' h => ?_
  refine Reflects.bind (Reflects.modify (h.commitBlock _ _)) fun _ l' m' h => ?_
  refine Reflects.get_bind ?_
  dsimp only
  rw [h.fighter]
  split
  · exact Reflects.lift (mirrors_fire hr hcodex _ _ hc h)
  · split
    · exact Reflects.lift (mirrors_fire hr hcodex _ _ hc h)
    · exact Reflects.pure _ h

omit hr hcodex in
theorem mirrors_changeMaxHp (target : Side) (op : Arith) (x : α) (h : Mirrored s.catalog d l m) :
    Reflects (Mirrored s.catalog d) (changeMaxHp target op x) (changeMaxHp target.opponent op x)
      l m := by
  refine Reflects.get_bind ?_
  rw [h.fighter]
  refine Reflects.ofExcept_bind h mirror_of_result fun next _ => ?_
  exact Reflects.modify (h.commitMaxHp _ _)

omit hr hcodex in
theorem mirrors_changeMaxLust (target : Side) (op : Arith) (x : α)
    (h : Mirrored s.catalog d l m) :
    Reflects (Mirrored s.catalog d) (changeMaxLust target op x)
      (changeMaxLust target.opponent op x) l m := by
  refine Reflects.get_bind ?_
  rw [h.fighter]
  refine Reflects.ofExcept_bind h mirror_of_result fun next _ => ?_
  exact Reflects.modify (h.commitMaxLust _ _)

/-! ## Statuses -/

theorem mirrors_runLifecycle (holder : Side) {id : String} {sd : StatusDefinition α}
    (hsd : s.codex.get? id = some sd) (p : Lifecycle) (stackCount : Nat) (hc : c.Meets c')
    (h : Mirrored s.catalog d l m) :
    Agrees (Mirrored s.catalog d) ((s.running run).runLifecycle holder sd p stackCount c)
      ((s.running run').runLifecycle holder.opponent sd p stackCount c') l m :=
  mirrors_runStatusTexts hr _ _ _ _ (hcodex.lifecycle hsd p) hc h

theorem mirrors_endStatus (holder : Side) (id : String) (hc : c.Meets c')
    (h : Mirrored s.catalog d l m) :
    Agrees (Mirrored s.catalog d) ((s.running run).endStatus holder id c)
      ((s.running run').endStatus holder.opponent id c') l m := by
  refine Agrees.get_bind ?_
  dsimp only
  rw [h.fighter]
  split
  · next sd hsd =>
    refine Agrees.bind (mirrors_runLifecycle hr hcodex _ hsd _ _ hc h) fun _ l m h => ?_
    exact Agrees.modify (h.loseStatus _ _ _)
  · exact Agrees.modify (h.loseStatus _ _ _)

/-- The refusal of other stacks than those that are held is the only one
that tells a side. -/
theorem mirrors_setStacks (holder : Side) (id : String) (stackCount : Nat) (hc : c.Meets c')
    (h : Mirrored s.catalog d l m) :
    Reflects (Mirrored s.catalog d) ((s.running run).setStacks holder id stackCount c)
      ((s.running run').setStacks holder.opponent id stackCount c') l m := by
  refine Reflects.get_bind ?_
  rw [h.fighter]
  split
  · exact Reflects.throw (.statusNotHeld id holder) h
  · split
    · exact Reflects.lift (mirrors_endStatus hr hcodex _ _ hc h)
    · exact Reflects.modify (h.commitStacks _ _ _)

theorem mirrors_applyStatus (holder : Side) (id : String) (stackCount : Nat) (hc : c.Meets c')
    (h : Mirrored s.catalog d l m) :
    Reflects (Mirrored s.catalog d) ((s.running run).applyStatus holder id stackCount c)
      ((s.running run').applyStatus holder.opponent id stackCount c') l m := by
  unfold applyStatus
  dsimp only
  split
  · exact Reflects.throw (.unknownStatus id) h
  · next sd hsd =>
    have hlife (p : Lifecycle) (n : Nat) {l m : Live α} (h : Mirrored s.catalog d l m) :=
      mirrors_runLifecycle hr hcodex holder hsd p n hc h
    split
    · exact Reflects.pure _ h
    · refine Reflects.get_bind ?_
      rw [h.fighter]
      split
      · split
        · exact mirrors_setStacks hr hcodex _ _ _ hc h
        · exact Reflects.lift (hlife _ _ h)
      · refine Reflects.bind (Reflects.modify (h.gainStatus _ _ _)) fun _ l m h => ?_
        refine Reflects.bind (Reflects.lift (hlife _ _ h)) fun _ l m h => ?_
        split
        · exact Reflects.lift (mirrors_fire hr hcodex _ _ hc h)
        · exact Reflects.pure _ h

theorem mirrors_removeStatus (holder : Side) (id : String) (amount : Option Nat)
    (hc : c.Meets c') (h : Mirrored s.catalog d l m) :
    Reflects (Mirrored s.catalog d) ((s.running run).removeStatus holder id amount c)
      ((s.running run').removeStatus holder.opponent id amount c') l m := by
  refine Reflects.get_bind ?_
  dsimp only
  rw [h.fighter]
  split
  · exact Reflects.throw (.statusNotHeld id holder) h
  · split
    · exact Reflects.lift (mirrors_endStatus hr hcodex _ _ hc h)
    · exact mirrors_setStacks hr hcodex _ _ _ hc h

end
end Scene

/-! ## Abilities -/

theorem mirrors_addAbility (side : Side) {effect : String} (heffect : Impartial effect.toList)
    (h : Mirrored s.catalog d l m) :
    Reflects (Mirrored s.catalog d) (addAbility side effect) (addAbility side.opponent effect)
      l m := by
  obtain ⟨hid, hadd⟩ := h.addAbility? side heffect
  refine Reflects.bind (Reflects.lift (Agrees.modifyGet hid hadd)) fun id l m h => ?_
  split
  · exact Reflects.pure _ h
  · exact Reflects.throw (.invalidValue effect) h

omit [Scalar α] in
/-- Abilities have no side of their own: a unit that names none acts on
the side that runs it. -/
theorem abilitySide_mirror (cl : Clause α) (me : Side) (htarget : c'.target = c.target) :
    abilitySide cl me.opponent c' = (abilitySide cl me c).map Side.opponent := by
  unfold abilitySide
  rw [htarget]
  cases cl.target.or c.target with
  | none => rfl
  | some t => cases t <;> rfl

theorem mirrors_runAbility {cl : Clause α} (hcl : cl.Impartial) (me : Side) (hc : c.Meets c')
    (h : Mirrored s.catalog d l m) :
    Reflects (Mirrored s.catalog d) (runAbility cl me c) (runAbility cl me.opponent c') l m := by
  refine Reflects.ofExcept_bind_map (abilitySide_mirror cl me hc.target) h mirror_of_abilitySide ?_
  intro side _
  split
  · next key text hform =>
    have htext : Impartial text.toList := hcl.parts text (by
      simp [hform, Form.parts, Form.operand?, Operand.text?])
    exact Reflects.bind (mirrors_addAbility _ htext h) fun _ _ _ h => Reflects.pure _ h
  · exact Reflects.modify (h.removeAbilities _ _)
  · exact Reflects.throw (.unsupportedOperator _ _) h
  · exact Reflects.throw (.invalidValue _) h

end DeckDuel
