/-
DeckDuel.Proofs.Aftermath — what comes after the verdict.

* `Live.Frozen` — the battle is as it was when its end was reported, and
  nothing but moments was noted since.
* `Setting.Quiet` — no status binds a text that runs by itself: at the
  end of a turn, at a moment, or when it fades.
* `Live.Open`, `Live.AtRest` — between texts, no relic binds a text
  either, and the battle is undecided, or frozen if it is decided.
* `Setting.ends_execute` — a text that decides the battle ends with
  the report of it.
* `Session.request_decided` — a decided battle turns every request down.
* `Session.frozen_of_quiet` — where only abilities react, the battle
  freezes when it is over. `Session.exists_event_after_gameOver` — where
  statuses do, it need not: their texts run to the last one.
-/
import DeckDuel.Proofs.Outcome

namespace DeckDuel

variable {α : Type} [Scalar α]

/-! ## Verdicts -/

namespace Live

variable {s : Setting α} {n : Nat} {i : Bool} {l m : Live α}

/-- The battle is as it was when its end was reported, and nothing but
moments was noted since. So no text was entered, and no event followed
the report. -/
def Frozen (l : Live α) : Prop :=
  ∃ w later earlier, l.journal = later ++ ⟨.event (.gameOver w), 0, l.battle⟩ :: earlier ∧
    ∀ e ∈ later, ∃ side t, e.note = .fired side t

omit [Scalar α] in
theorem Frozen.isGameOver_getLast (h : l.Frozen) :
    ∃ e, l.events.getLast? = some e ∧ e.isGameOver = true := by
  obtain ⟨w, later, earlier, hjournal, hlater⟩ := h
  have hsilent : later.filterMap Entry.event? = [] := by
    rw [List.filterMap_eq_nil_iff]
    intro e he
    obtain ⟨side, t, hnote⟩ := hlater e he
    simp only [Entry.event?, hnote]
  refine ⟨.gameOver w, ?_, rfl⟩
  simp [events, hjournal, List.filterMap_append, hsilent, Entry.event?]

omit [Scalar α] in
/-- A moment that comes after the verdict changes nothing. -/
theorem Frozen.fired (h : l.Frozen) (side : Side) (t : Trigger) :
    (l.write (.fired side t)).Frozen := by
  obtain ⟨w, later, earlier, hjournal, hlater⟩ := h
  refine ⟨w, ⟨.fired side t, l.depth, l.battle⟩ :: later, earlier, ?_, ?_⟩
  · simp only [write, hjournal, List.cons_append]
  · exact List.forall_mem_cons.mpr ⟨⟨side, t, rfl⟩, hlater⟩

/-- The battle is decided only where a text ends that runs inside no
other. -/
theorem Trace.outcome_eq (h : Trace s n i l m) (hnone : n = 0 ∨ 0 < l.depth) :
    m.battle.outcome = l.battle.outcome := by
  induction h with
  | refl => rfl
  | trans first _ ih₁ ih₂ =>
    rw [ih₂ (by rwa [first.depth_eq]), ih₁ hnone]
  | outer h => exact (h.touches (i := true)).verdict_eq.1
  | inner h => exact (h.touches (s := s)).verdict_eq.1
  | overflow side _ _ ih => exact ih hnone
  | @text n i l m effect me body ih =>
    have hdepth : m.depth = l.depth + 1 := by rw [body.depth_eq, enter_depth]
    have hrunning : 0 < l.depth := hnone.resolve_left (Nat.succ_ne_zero n)
    have hbody : m.battle.outcome = (l.enter effect me).battle.outcome :=
      ih (.inr (by rw [enter_depth]; omega))
    have hleave := (leave_verdict_eq (l := m) (.inl (by omega)) (by omega)).1
    rw [hleave, hbody, (enter_verdict_eq l effect me).1]

end Live

/-! ## Relics -/

/-- No relic of the player is wrapped in the keyword of a moment. -/
def Battle.RelicsQuiet (b : Battle α) : Prop :=
  ∀ t, b.player.relics.flatMap (Scene.relicSegments t) = []

theorem Battle.Change.relics_eq {s : Setting α} {i : Bool} {b c : Battle α} (h : Change s i b c) :
    c.player.relics = b.player.relics := by
  cases h with
  | attachments _ side | gain _ side | restack _ side | dropBlock _ side | numbers _ side =>
    cases side <;> rfl
  | cards | pay | refill | aside | energy | mark => rfl

theorem Battle.keeps_relicsQuiet (s : Setting α) : Keeps s RelicsQuiet where
  change h hb t := by
    rw [h.relics_eq]
    exact hb t
  verdict _ _ hb := hb

namespace Live

variable {s : Setting α} {n : Nat} {i : Bool} {l m : Live α}

theorem Trace.relicsQuiet (h : Trace s n false l m) (hl : l.battle.RelicsQuiet) :
    m.battle.RelicsQuiet :=
  ((h.steps (by simp)).holds (Battle.keeps_relicsQuiet s) (.start hl)).now

/-! ## Between texts -/

/-- No text runs, no relic binds one, and the battle is undecided. -/
structure Open (l : Live α) : Prop where
  idle : l.depth = 0
  relics : l.battle.RelicsQuiet
  undecided : l.battle.outcome = none

/-- No text runs, no relic binds one, and the battle is frozen if it is
decided. -/
structure AtRest (l : Live α) : Prop where
  idle : l.depth = 0
  relics : l.battle.RelicsQuiet
  frozen : l.battle.isOver = true → l.Frozen

omit [Scalar α] in
theorem Open.isOver_eq (h : l.Open) : l.battle.isOver = false := by
  rw [Battle.isOver, h.undecided]
  rfl

omit [Scalar α] in
theorem Open.atRest (h : l.Open) : l.AtRest :=
  ⟨h.idle, h.relics, fun hover => by simp [h.isOver_eq] at hover⟩

omit [Scalar α] in
theorem AtRest.open_of (h : l.AtRest) (hover : ¬ l.battle.isOver = true) : l.Open :=
  ⟨h.idle, h.relics, by simpa [Battle.isOver] using hover⟩

/-- What runs no text decides nothing. -/
theorem Open.trace (h : l.Open) (ht : Trace s 0 false l m) : m.Open :=
  ⟨ht.depth_eq.trans h.idle, ht.relicsQuiet h.relics,
    (ht.outcome_eq (.inl rfl)).trans h.undecided⟩

/-- An outermost text of an undecided battle ends with the report if it
decides the battle. -/
theorem Open.leave (h : l.Open) (text : String) (me : Side)
    (body : Trace s n true (l.enter text me) m) : m.leave.AtRest := by
  have hdepth : m.depth = 1 := by rw [body.depth_eq, enter_depth, h.idle]
  have hopen : m.battle.outcome = none := by
    rw [body.outcome_eq (.inr (by rw [enter_depth]; omega)), (enter_verdict_eq l text me).1]
    exact h.undecided
  have htext : Trace s (n + 1) false l m.leave := .text text me body
  refine ⟨by rw [leave_depth, hdepth], htext.relicsQuiet h.relics, fun hover => ?_⟩
  -- the report is written by the same step that decides the battle
  rcases (ruled_leave (by omega : 0 < m.depth)).decided hopen with ⟨hnone, -⟩ | hdecided
  · simp [Battle.isOver, hnone] at hover
  · obtain ⟨-, -, -, -, w, -, hjournal⟩ := hdecided
    exact ⟨w, [], m.journal, hjournal, by simp⟩

end Live

/-! ## Reactions -/

/-- A status binds no text that runs by itself: none at the end of a
turn, none at a moment, and none when it fades away. -/
structure StatusDefinition.Quiet (d : StatusDefinition α) : Prop where
  tick : d.triggers.tick = []
  moments : ∀ name, (d.triggers.forEvent? name).getD [] = []
  fades : d.decay = .none ∨ d.triggers.remove = []

/-- No status binds a text that runs by itself. -/
def Setting.Quiet (s : Setting α) : Prop := ∀ id d, s.codex.get? id = some d → d.Quiet

open Live

variable {s : Setting α} {l : Live α}

namespace Setting

/-- A text that runs inside no other leaves the battle at rest. -/
theorem ends_runWithin (levels : Nat) (text : String) (me : Side) (ctx : Context α)
    (h : l.Open) : TriesEnd AtRest (s.runWithin levels text me ctx) l := by
  cases levels with
  | zero => exact h.atRest
  | succ levels =>
    have hr : (⟨s, s.runWithin levels⟩ : Scene α).Runs levels := fun text me ctx i l =>
      tries_runWithin levels text me ctx l
    exact h.leave text me (Scene.tries_runUnits hr text me ctx (l.enter text me))

theorem ends_execute (text : String) (me : Side) (ctx : Context α) (h : l.Open) :
    TriesEnd AtRest (s.execute text me ctx) l :=
  ends_runWithin (s.rules.maxNesting - l.depth) text me ctx h

end Setting

namespace Scene

theorem ends_runAbilities (side : Side) (t : Trigger) (ctx : Context α) (as : List Ability)
    (h : l.AtRest) : Ends AtRest (s.scene.runAbilities side t ctx as) l := by
  induction as generalizing l with
  | nil => exact h
  | cons a rest ih =>
    refine Leads.get_bind ?_
    split
    · exact h
    · next hover =>
      split
      · exact ih h
      · next inner _ =>
        -- each ability is run only if the battle goes on; the loops over
        -- statuses and relics do not look, so their texts have to be missing
        have hopen : l.Open := h.open_of hover
        have hreported : Ends Open (emit (.abilityTriggered side t.keyword inner)) l :=
          hopen.trace (leads_emit (s := s) (by simp) l)
        refine Ends.bind hreported fun _ m hm => ?_
        have hran : Ends AtRest (s.scene.runLoose inner side
            { ctx.onTrigger t.keyword with ability := some a.id }) m :=
          Setting.ends_runWithin _ inner side _ hm
        exact Ends.bind hran fun _ k hk => Ends.bind (ih hk) fun _ _ hend => hend

section

variable (hquiet : s.Quiet)
include hquiet

theorem ends_runStatusEvents (side : Side) (t : Trigger) (ctx : Context α)
    (held : List HeldStatus) : Ends (· = l) (s.scene.runStatusEvents side t ctx held) l := by
  induction held with
  | nil => rfl
  | cons h rest ih =>
    -- which texts there are is computed inside the loop, so they are generalised
    have hrest (texts : List String) (hnone : texts = []) : Ends (· = l) (do
        s.scene.runStatusTexts side h.id t.keyword ((l.fighter side).stacksOf h.id) ctx texts
        let n ← s.scene.runStatusEvents side t ctx rest
        pure (n + texts.length)) l := by
      subst hnone
      show Ends (· = l) (do
        let n ← s.scene.runStatusEvents side t ctx rest
        pure (n + 0)) l
      exact Ends.bind ih fun _ _ hend => hend
    refine Leads.get_bind (hrest _ ?_)
    split
    · rfl
    · split
      · next d hd => exact (hquiet h.id d hd).moments t.keyword
      · rfl

/-- Only abilities react to a moment, and none once the battle is
decided. -/
theorem ends_fire (side : Side) (t : Trigger) (ctx : Context α) (h : l.AtRest) :
    Ends AtRest (s.scene.fire side t ctx) l := by
  refine Ends.bind (P := AtRest) ?_ fun _ _ hend => hend
  unfold react
  split
  · exact h
  · have hnoted : (l.write (.fired side t)).AtRest :=
      ⟨h.idle, h.relics, fun hover => (h.frozen hover).fired side t⟩
    refine Ends.bind (P := AtRest) hnoted fun _ l hl => ?_
    refine Leads.get_bind (Ends.bind (ends_runAbilities side t ctx _ hl) fun _ l hl => ?_)
    refine Leads.get_bind (Ends.bind (ends_runStatusEvents hquiet side t ctx _) fun _ m hm => ?_)
    subst hm
    cases side with
    | enemy => exact hl
    | player =>
      refine Leads.get_bind ?_
      rw [hl.relics t]
      exact hl

/-! ## The end of a turn -/

theorem ends_tick (side : Side) (ctx : Context α) (held : List HeldStatus) :
    Ends (· = l) (s.scene.tick side ctx held) l := by
  induction held with
  | nil => rfl
  | cons h rest ih =>
    refine Leads.get_bind ?_
    dsimp only
    split
    · cases hd : s.scene.codex.get? h.id with
      | none => exact ih
      | some d =>
        have hlifecycle : Ends (· = l) (s.scene.runLifecycle side d .tick
            ((l.fighter side).stacksOf h.id) ctx) l := by
          unfold runLifecycle StatusTriggers.get
          rw [(hquiet h.id d hd).tick]
          rfl
        refine Ends.bind hlifecycle fun _ m hm => ?_
        subst hm
        exact ih
    · exact ih

omit hquiet in
/-- A status that binds no text for its end just goes. -/
theorem ends_endStatus (side : Side) (id : String) (ctx : Context α)
    (hlast : ∀ d, s.codex.get? id = some d → d.triggers.remove = []) (h : l.Open) :
    Ends Open (s.scene.endStatus side id ctx) l := by
  have hgone (d : Option (StatusDefinition α)) (hd : s.codex.get? id = d) :
      (l.loseStatus side id d).Open := by
    subst hd
    exact h.trace (s := s) (.outer (.loseStatus l side id))
  refine Leads.get_bind ?_
  dsimp only
  split
  · next d hd =>
    unfold runLifecycle StatusTriggers.get
    rw [hlast d hd]
    exact hgone (some d) hd
  · next hd => exact hgone none hd

omit hquiet in
theorem ends_setStacks (side : Side) (id : String) (stackCount : Nat) (ctx : Context α)
    (hlast : ∀ d, s.codex.get? id = some d → d.triggers.remove = []) (h : l.Open) :
    TriesEnd Open (s.scene.setStacks side id stackCount ctx) l := by
  refine Tries.get_bind ?_
  split
  · exact h
  · next hheld =>
    split
    · exact ends_endStatus side id ctx hlast h
    · next hzero =>
      have hsome : ((l.fighter side).statusIndex? id).isSome = true := by
        simpa [Option.isSome_iff_ne_none] using hheld
      exact h.trace (s := s)
        (.outer (.commitStacks l side id stackCount hsome (Nat.pos_of_ne_zero hzero)))

theorem ends_decay (side : Side) (ctx : Context α) (held : List HeldStatus) (h : l.Open) :
    Ends Open (s.scene.decay side ctx held) l := by
  induction held generalizing l with
  | nil => exact h
  | cons e rest ih =>
    refine Leads.get_bind ?_
    dsimp only
    split
    · next d hd =>
      split
      · next hfades =>
        have hlast (d' : StatusDefinition α) (hd' : s.codex.get? e.id = some d') :
            d'.triggers.remove = [] := by
          obtain rfl : d = d' := Option.some.inj (hd.symm.trans hd')
          rcases (hquiet e.id d hd).fades with hnone | hlast
          · simp [hnone, Decay.apply] at hfades
          · exact hlast
        exact Ends.bind (ends_setStacks side e.id _ ctx hlast h) fun _ m hm => ih hm
      · exact ih h
    · exact ih h

end

end Scene

/-! ## Turns -/

namespace Setting

variable (hquiet : s.Quiet)
include hquiet

theorem ends_startTurn (side : Side) (h : l.AtRest) : Ends AtRest (s.startTurn side) l :=
  Scene.ends_fire hquiet side .turnStart .plain h

theorem ends_endTurn (side : Side) (h : l.Open) : Ends AtRest (s.endTurn side) l := by
  refine Leads.get_bind (Ends.bind (Scene.ends_tick hquiet side .plain _) fun _ m hm => ?_)
  subst hm
  refine Leads.get_bind ?_
  split
  · exact h.atRest
  · refine Ends.bind (Scene.ends_fire hquiet side .turnEnd .plain h.atRest) fun _ l hl => ?_
    refine Leads.get_bind ?_
    split
    · exact hl
    · next hover =>
      refine Leads.get_bind ?_
      exact (Scene.ends_decay hquiet side .plain _ (hl.open_of hover)).mono fun _ hm => hm.atRest

theorem ends_beginPlayerTurn (h : l.Open) : Ends AtRest s.beginPlayerTurn l := by
  have hturn : (l.mapBattle fun b => b.nextTurn s.rules.resetsBlock).Open :=
    h.trace (s := s) (.outer (.nextTurn l))
  refine Ends.bind (P := Open) hturn fun _ l hl => Leads.get_bind ?_
  have hdrawn : TriesEnd Open (s.drawCards (s.turnDraw l.battle.turn)) l :=
    hl.trace (tries_drawCards _ l)
  refine Ends.bind hdrawn fun _ l hl => ?_
  refine Ends.bind (ends_startTurn hquiet .player hl.atRest) fun _ l hl => ?_
  exact hl

omit hquiet in
theorem ends_enemyAction (h : l.Open) : Ends AtRest s.enemyAction l := by
  refine Leads.get_bind ?_
  split
  · exact h.atRest
  · have hchosen : (l.mapBattle fun b => (b.nextAction s.rules.actionOrder).2).Open :=
      h.trace (s := s) (.outer (.nextAction l))
    refine Ends.bind (P := Open) hchosen fun action l hl => ?_
    cases action with
    | none => exact hl.atRest
    | some text =>
      exact Ends.bind (ends_execute text .enemy .plain hl) fun _ _ hend => hend

theorem ends_enemyTurn (h : l.Open) : Ends AtRest s.enemyTurn l := by
  have hdropped : (l.mapFighter .enemy fun f => { f with block := 0 }).Open :=
    h.trace (s := s) (.outer (.dropBlock l .enemy))
  unfold enemyTurn
  refine Ends.ite_bind (P := Open) hdropped h fun l hl => ?_
  refine Ends.bind (ends_startTurn hquiet .enemy hl.atRest) fun _ l hl => Leads.get_bind ?_
  split
  · exact hl
  · next hover =>
    refine Ends.bind (ends_enemyAction (hl.open_of hover)) fun _ l hl => Leads.get_bind ?_
    split
    · exact hl
    · next hover => exact ends_endTurn hquiet .enemy (hl.open_of hover)

theorem ends_finishPlayerTurn (h : l.Open) : Ends AtRest s.finishPlayerTurn l := by
  have hdiscarded : ((l.mapBattle fun b => b.setPiles b.piles.discardHand).reportMoved
      (l.battle.piles.hand.map Card.uid) .discard).Open :=
    h.trace (s := s) (.trans (trace_setPiles l (.single (.discardHand _))) (trace_reportMoved _ _ _))
  refine Ends.bind (P := Open) hdiscarded fun _ l hl => ?_
  refine Ends.bind (ends_endTurn hquiet .player hl) fun _ l hl => Leads.get_bind ?_
  split
  · exact hl
  · next hover => exact ends_enemyTurn hquiet (hl.open_of hover)

/-- Lost turns follow one another only while the battle is undecided. -/
theorem ends_playerTurns (more : Nat) (h : l.Open) : Ends AtRest (s.playerTurns more) l := by
  induction more generalizing l with
  | zero => exact h.atRest
  | succ more ih =>
    refine Ends.bind (ends_beginPlayerTurn hquiet h) fun canAct l hl => Leads.get_bind ?_
    split
    · exact hl
    · next hgoesOn =>
      have hover : ¬ l.battle.isOver = true := by
        intro hover
        simp [hover] at hgoesOn
      refine Ends.bind (ends_finishPlayerTurn hquiet (hl.open_of hover)) fun _ l hl => ?_
      refine Leads.get_bind ?_
      split
      · exact hl
      · next hover => exact ih (hl.open_of hover)

theorem ends_battleStarts (sides : List Side) (h : l.AtRest) :
    Ends AtRest (s.battleStarts sides) l := by
  induction sides generalizing l with
  | nil => exact h
  | cons side rest ih =>
    refine Ends.bind (Scene.ends_fire hquiet side .battleStart .plain h) fun _ l hl => ?_
    refine Leads.get_bind ?_
    split
    · exact hl
    · exact ih hl

end Setting

/-! ## Requests -/

/-- Is a call a request that a session answers by its own rules? -/
def Call.ofSession : Call α → Bool
  | .start | .startPlayerTurn | .playCard _ | .endPlayerTurn | .runEffect _ _ => true
  | _ => false

namespace Session

variable {s : Session α}

omit [Scalar α] in
theorem run_ensureRunning {β : Type} (f : PUnit → Request α β) :
    (ensureRunning >>= f).run.run s =
      if s.live.battle.isOver then (.error .battleOver, s) else (f ⟨⟩).run.run s := by
  have hcheck : (ensureRunning >>= f).run.run s =
      ((if s.live.battle.isOver then throw .battleOver else pure ⟨⟩ : Request α PUnit) >>= f).run.run
        s := rfl
  rw [hcheck]
  split <;> rfl

/-- A decided battle turns every request down, and stays as it is. -/
theorem request_decided {c : Call α} (hcall : c.ofSession = true)
    (hover : s.live.battle.isOver = true) : c.request.run.run s = (.error .battleOver, s) := by
  have hrefused {β : Type} (f : PUnit → Request α β) :
      (ensureRunning >>= f).run.run s = (.error .battleOver, s) := by
    rw [run_ensureRunning, if_pos hover]
  cases c with
  | start | startPlayerTurn | playCard | endPlayerTurn | runEffect => exact hrefused _
  | _ => cases hcall

/-- Only abilities react, and the battle is at rest. -/
structure AtRest (s : Session α) : Prop where
  quiet : s.toSetting.Quiet
  live : s.live.AtRest

omit [Scalar α] in
theorem ends_play {β : Type} {step : Setting α → Play α β} (hquiet : s.toSetting.Quiet)
    (h : Ends Live.AtRest (step s.toSetting) s.live) : TriesEnd AtRest (play step) s :=
  ⟨hquiet, h⟩

omit [Scalar α] in
theorem ends_attempt {β : Type} {step : Setting α → Attempt α β} (hquiet : s.toSetting.Quiet)
    (h : TriesEnd Live.AtRest (step s.toSetting) s.live) : TriesEnd AtRest (attempt step) s := by
  refine TriesEnd.bind (ends_play hquiet h) (fun _ ht => ht) fun r t ht => ?_
  cases r with
  | ok x => exact ht
  | error r => exact ht

omit [Scalar α] in
/-- A request is answered only while the battle is undecided. -/
theorem ends_ensureRunning {β : Type} {f : PUnit → Request α β} (h : s.AtRest)
    (hf : s.live.Open → TriesEnd AtRest (f ⟨⟩) s) :
    TriesEnd AtRest (ensureRunning >>= f) s := by
  show AtRest ((ensureRunning >>= f).run.run s).2
  rw [run_ensureRunning]
  split
  · exact h
  · next hover => exact hf (h.live.open_of hover)

theorem ends_startPlayerTurn (h : s.AtRest) : TriesEnd AtRest startPlayerTurn s := by
  refine ends_ensureRunning h fun hopen => ?_
  exact ends_play h.quiet (Setting.ends_playerTurns h.quiet _ hopen)

theorem ends_start (h : s.AtRest) : TriesEnd AtRest start s := by
  refine ends_ensureRunning h fun hopen => Tries.get_bind ?_
  split
  · exact h
  · have hstarts : TriesEnd AtRest (play fun s : Setting α => s.battleStarts Side.both)
        { s with started := true } :=
      ends_play h.quiet (Setting.ends_battleStarts h.quiet Side.both h.live)
    refine TriesEnd.modify_bind (TriesEnd.bind hstarts (fun _ ht => ht) fun _ t ht => Tries.get_bind ?_)
    split
    · exact ht
    · exact ends_startPlayerTurn ht

theorem ends_endPlayerTurn (h : s.AtRest) : TriesEnd AtRest endPlayerTurn s := by
  refine ends_ensureRunning h fun hopen => ?_
  have hfinished : TriesEnd AtRest (play fun s : Setting α => s.finishPlayerTurn) s :=
    ends_play h.quiet (Setting.ends_finishPlayerTurn h.quiet hopen)
  refine TriesEnd.bind hfinished (fun _ ht => ht) fun _ t ht => Tries.get_bind ?_
  split
  · exact ht
  · exact ends_startPlayerTurn ht

theorem ends_runEffect (text : String) (me : Side) (h : s.AtRest) :
    TriesEnd AtRest (runEffect text me) s :=
  ends_ensureRunning h fun hopen =>
    ends_attempt h.quiet (Setting.ends_execute text me .plain hopen)

theorem ends_playCard (uid : Nat) (h : s.AtRest) : TriesEnd AtRest (playCard uid) s := by
  refine ends_ensureRunning h fun hopen => Tries.get_bind ?_
  refine TriesEnd.ofExcept_bind h fun card hcard => Tries.get_bind ?_
  have hgoal : (if card.exhausts then Pile.exhaust else Pile.discard) ≠ .hand := by
    split <;> simp
  obtain ⟨hheld, rfl, hcost⟩ := playable?_eq_ok hcard
  have hdeed : Live.Deed s.toSetting true false s.live _ :=
    Live.deed_putAway s.live hheld hgoal hcost
  have hpaid := hopen.trace hdeed.trace
  refine TriesEnd.modify_bind (TriesEnd.bind (P := AtRest) ?_ (fun _ ht => ht) fun _ t ht => ?_)
  · exact ends_attempt h.quiet (Setting.ends_execute card.effect .player _ hpaid)
  · refine Tries.get_bind ?_
    split
    · exact ht
    · exact ends_play ht.quiet (Scene.ends_fire ht.quiet .player .cardPlayed _ ht.live)

/-- One case for each request. -/
theorem ends_request {c : Call α} (hcall : c.ofSession = true) (h : s.AtRest) :
    TriesEnd AtRest c.request s := by
  unfold Call.request
  cases c with
  | start => exact ends_start h
  | startPlayerTurn => exact ends_startPlayerTurn h
  | playCard uid => exact ends_playCard uid h
  | endPlayerTurn => exact ends_endPlayerTurn h
  | runEffect text me => exact ends_runEffect text me h
  | _ => cases hcall

theorem atRest_afterAll {calls : List (Call α)} (hcalls : ∀ c ∈ calls, c.ofSession = true)
    (h : s.AtRest) : (s.afterAll calls).AtRest := by
  induction calls generalizing s with
  | nil => exact h
  | cons c rest ih =>
    have hfirst : (s.after c).AtRest := ends_request (hcalls c List.mem_cons_self) h
    exact ih (fun d hd => hcalls d (List.mem_cons_of_mem c hd)) hfirst

/-- **Where only abilities react, the battle freezes when it is over.**
A host makes requests, in any order, of a battle that is undecided, with
no status and no relic that binds a text of its own. If the battle is
over after them, the report of it is the last event, nothing has changed
or been entered since, and every further request is turned down and
leaves the session as it is. -/
theorem frozen_of_quiet (s : Session α) (hquiet : s.toSetting.Quiet) (hopen : s.live.Open)
    (calls : List (Call α)) (hcalls : ∀ c ∈ calls, c.ofSession = true)
    (hover : (s.afterAll calls).live.battle.isOver = true) :
    (s.afterAll calls).live.Frozen ∧
      ∀ c : Call α, c.ofSession = true →
        c.request.run.run (s.afterAll calls) = (.error .battleOver, s.afterAll calls) := by
  have hcalm : (s.afterAll calls).AtRest := atRest_afterAll hcalls ⟨hquiet, hopen.atRest⟩
  exact ⟨hcalm.live.frozen hover, fun c hcall => request_decided hcall hover⟩

/-- An ability decides the battle at the end of a turn, and the one after
it does not react any more. -/
theorem frozen_of_quiet_duel :
    let s := loadWith (.duel : Snapshot Double) .standard .leftmost .standard
    let calls := [.runEffect "ability.add(turn_end(OP.hp-50))" .player,
      .runEffect "ability.add(turn_end(ME.block+5))" .player, .endPlayerTurn]
    s.toSetting.Quiet ∧ s.live.Open ∧ (s.afterAll calls).live.battle.isOver = true ∧
      (s.afterAll calls).live.Frozen := by
  intro s calls
  have hquiet : s.toSetting.Quiet := by
    intro id d hd
    cases hd
  have hopen : s.live.Open := ⟨rfl, fun _ => rfl, rfl⟩
  have hover : (s.afterAll calls).live.battle.isOver = true := by decide +kernel
  have hcalls : ∀ c ∈ calls, c.ofSession = true := by decide
  exact ⟨hquiet, hopen, hover, (frozen_of_quiet s hquiet hopen calls hcalls hover).1⟩

end Session

/-- A player who burns to death at the end of a turn, and would be
shielded after that. -/
def Snapshot.burning : Snapshot Double :=
  { Snapshot.duel with
    player := { (.plain "Player" (Scalar.ofNat 20) : FighterEntry Double) with
      statuses := [⟨"burn", 1, "Burn", none⟩, ⟨"shield", 1, "Shield", none⟩] }
    definitions := .arr
      [.obj [("id", .str "burn"), ("name", .str "Burn"),
        ("triggers", .obj [("tick", .str "ME.hp-50")])],
       .obj [("id", .str "shield"), ("name", .str "Shield"),
        ("triggers", .obj [("tick", .str "ME.block+5")])]] }

/-- Statuses do not stop: a status ticks after another one has decided
the battle. -/
theorem Session.exists_event_after_gameOver :
    ¬ ∀ (s : Session Double) (calls : List (Call Double)), s.live.Open →
      (∀ c ∈ calls, c.ofSession = true) → (s.afterAll calls).live.battle.isOver = true →
        (s.afterAll calls).live.Frozen := by
  intro h
  obtain ⟨s, hopen, hover, hlast⟩ : ∃ s : Session Double, s.live.Open ∧
      (s.afterAll [.endPlayerTurn]).live.battle.isOver = true ∧
      (s.afterAll [.endPlayerTurn]).live.events.getLast?.map Event.isGameOver = some false := by
    refine ⟨loadWith .burning .standard .leftmost .standard, ⟨rfl, fun _ => rfl, rfl⟩, ?_, ?_⟩
    · decide +kernel
    · decide +kernel
  obtain ⟨e, he, hend⟩ := (h s [.endPlayerTurn] hopen (by decide) hover).isGameOver_getLast
  simp [he, hend] at hlast

end DeckDuel
