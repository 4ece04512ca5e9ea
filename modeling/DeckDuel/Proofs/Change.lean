/-
DeckDuel.Proofs.Change — the steps of a battle, taken apart.

* `Battle.Change` — one thing of the battle changes. What only units do
  is set apart from what comes between texts as well. The piles change
  by their own steps (`Battle.Change.pileSteps`).
* `Live.Touch`, `Live.Touches` — a change of the battle, a note in the
  journal, or a counter.
* `OuterStep.touches`, `InnerStep.touches` — every step but entering,
  leaving and marking an overflow is made of these. So what a step
  leaves alone is read off the few changes, and not off the steps.
* `Battle.Stored`, `InnerStep.stored` — what a unit makes of the battle
  as a whole. Its first touch may leave a fighter out of bounds or
  without hit points and unmarked, its last does not.
* `Trace.steps` — a stretch of a run goes on by single steps.
* `Live.Holds` — a property of the battle, now and at every note
  written since; `Steps.holds` keeps it along a run if every change
  does, whatever it is part of.
* `Battle.Preserves`, `Steps.preserves` — a property that holds between
  units and texts, if not within them.
-/
import DeckDuel.Proofs.Step

namespace DeckDuel

variable {α : Type}

/-! ## Changes of the battle -/

/-- The stats of two fighters are the same. -/
structure Fighter.SameNumbers (f g : Fighter α) : Prop where
  hp : f.hp = g.hp
  maxHp : f.maxHp = g.maxHp
  lust : f.lust = g.lust
  maxLust : f.maxLust = g.maxLust
  block : f.block = g.block

theorem Fighter.SameNumbers.refl (f : Fighter α) : f.SameNumbers f := ⟨rfl, rfl, rfl, rfl, rfl⟩

/-- Other stacks change no stat. -/
theorem Fighter.sameNumbers_setStacks (f : Fighter α) (id : String) (stackCount : Nat) :
    (f.setStacks id stackCount).SameNumbers f := by
  unfold Fighter.setStacks
  split
  · exact ⟨rfl, rfl, rfl, rfl, rfl⟩
  · exact .refl f

theorem Battle.piles_setFighter (b : Battle α) (side : Side) (f : Fighter α) :
    (b.setFighter side f).piles = b.piles := by
  cases side <;> rfl

theorem Battle.setFighter_setFighter (b : Battle α) (side : Side) (f g : Fighter α) :
    (b.setFighter side f).setFighter side g = b.setFighter side g := by
  cases side <;> rfl

/-- What holds of a new fighter and of those before holds of both
fighters then. -/
theorem Battle.forall_setFighter {P : Fighter α → Prop} (b : Battle α) (side : Side)
    {f : Fighter α} (hf : P f) (h : ∀ t, P (b.fighter t)) (t : Side) :
    P ((b.setFighter side f).fighter t) := by
  by_cases ht : t = side
  · subst ht
    rw [Battle.fighter_setFighter_self]
    exact hf
  · obtain rfl : t = side.opponent := by cases t <;> cases side <;> simp_all [Side.opponent]
    rw [Battle.fighter_setFighter_opponent]
    exact h _

variable [Scalar α]

/-- One thing of a battle changes; `inside` tells that units may do
it. -/
inductive Battle.Change (s : Setting α) : (inside : Bool) → Battle α → Battle α → Prop where
  | cards {i : Bool} (b : Battle α) (ps : Piles α)
      (moved : Piles.Steps s.rules.handLimit b.piles ps) : Change s i b (b.setPiles ps)
  /-- The stats of a fighter stay, and it gains no status. -/
  | attachments {i : Bool} (b : Battle α) (side : Side) (f : Fighter α)
      (numbers : f.SameNumbers (b.fighter side))
      (kept : f.statuses.Sublist (b.fighter side).statuses) : Change s i b (b.setFighter side f)
  | gain {i : Bool} (b : Battle α) (side : Side) (d : StatusDefinition α) (stackCount : Nat)
      (defined : s.codex.get? d.id = some d) (positive : 0 < stackCount)
      (capped : stackCount ≤ d.stackCap s.rules.defaultMaxStacks)
      (free : (b.fighter side).stacksOf d.id = 0) :
      Change s i b (b.mapFighter side fun f =>
        { f with statuses := f.statuses ++ [.ofDefinition d stackCount] })
  | restack {i : Bool} (b : Battle α) (side : Side) (id : String) (stackCount : Nat)
      (held : ((b.fighter side).statusIndex? id).isSome) (positive : 0 < stackCount) :
      Change s i b (b.mapFighter side fun f => f.setStacks id (min stackCount (s.stackCap id)))
  | dropBlock {i : Bool} (b : Battle α) (side : Side) :
      Change s i b (b.mapFighter side fun f => { f with block := 0 })
  | pay {i : Bool} (b : Battle α) (cost : α) (afforded : ¬ b.player.energy < cost) :
      Change s i b (b.setEnergy (b.player.energy - cost))
  | refill {i : Bool} (b : Battle α) : Change s i b (b.setEnergy b.player.maxEnergy)
  /-- The random stream, the turn and the enemy's place in its list. -/
  | aside {i : Bool} (b : Battle α) (stream : Random.Stream) (turn next : Nat) :
      Change s i b { b with
        stream := stream, turn := turn, enemy := { b.enemy with nextAction := next } }
  /-- A fighter gains no status. -/
  | numbers (b : Battle α) (side : Side) (f : Fighter α)
      (kept : f.statuses.Sublist (b.fighter side).statuses) : Change s true b (b.setFighter side f)
  | energy (b : Battle α) (energy maxEnergy : α) :
      Change s true b { b with
        player := { b.player with energy := energy, maxEnergy := maxEnergy } }
  | mark (b : Battle α) (side : Side) :
      Change s true b { b with fallen := b.fallen.set side true }

/-- The piles go through any number of their own changes, most often
through none. -/
theorem Battle.Change.pileSteps {s : Setting α} {i : Bool} {b c : Battle α} (h : Change s i b c) :
    Piles.Steps s.rules.handLimit b.piles c.piles := by
  cases h with
  | cards _ _ moved => exact moved
  | attachments | numbers => rw [piles_setFighter]
  | gain | restack | dropBlock => rw [mapFighter, piles_setFighter]
  | pay | refill | aside | energy | mark => exact .refl

namespace Live

variable {s : Setting α} {i : Bool}

/-! ## Touches -/

/-- A change of the battle, a note, or a counter. -/
inductive Touch (s : Setting α) (i : Bool) : Live α → Live α → Prop where
  | note (l : Live α) (n : Note α) (ongoing : ∀ w, n ≠ .event (.gameOver w)) :
      Touch s i l (l.write n)
  | battle (l : Live α) {b : Battle α} (h : Battle.Change s i l.battle b) :
      Touch s i l { l with battle := b }
  | counters (l : Live α) (made questions : Nat) (memo : Memo α) :
      Touch s i l { l with abilitiesMade := made, questions := questions, memo := memo }

/-- Any number of touches. -/
abbrev Touches (s : Setting α) (i : Bool) : Live α → Live α → Prop :=
  Relation.ReflTransGen (Touch s i)

theorem touches_battle (l : Live α) {b : Battle α} (h : Battle.Change s i l.battle b) :
    Touches s i l { l with battle := b } :=
  .single (.battle l h)

theorem touches_emit (l : Live α) {e : Event α} (h : ∀ w, e ≠ .gameOver w) :
    Touches s i l (l.emit e) :=
  .single (.note l _ fun w hw => h w (by injection hw))

theorem touches_reportChange (l : Live α) (side : Side) (attr : String) (x y : α) :
    Touches s i l (l.reportChange side attr x y) := by
  unfold reportChange
  split
  · exact .refl
  · exact touches_emit l (by simp)

omit [Scalar α] in
theorem clearModifiers_kept (names : List String) (f : Fighter α) :
    (names.foldl Fighter.clearModifier f).SameNumbers f ∧
      (names.foldl Fighter.clearModifier f).statuses = f.statuses := by
  induction names generalizing f with
  | nil => exact ⟨.refl f, rfl⟩
  | cons name rest ih =>
    obtain ⟨hnumbers, hstatuses⟩ := ih (f.clearModifier name)
    exact ⟨⟨hnumbers.hp, hnumbers.maxHp, hnumbers.lust, hnumbers.maxLust, hnumbers.block⟩,
      hstatuses⟩

theorem touches_loseStatus (l : Live α) (side : Side) (id : String)
    (d : Option (StatusDefinition α)) : Touches s i l (l.loseStatus side id d) := by
  unfold loseStatus
  split
  · dsimp only
    obtain ⟨hnumbers, hstatuses⟩ := clearModifiers_kept
      ((d.map StatusDefinition.mentionedModifiers).getD []) ((l.fighter side).dropStatus id)
    have hkept : (((d.map StatusDefinition.mentionedModifiers).getD []).foldl Fighter.clearModifier
        ((l.fighter side).dropStatus id)).statuses.Sublist (l.fighter side).statuses := by
      rw [hstatuses]
      exact List.eraseP_sublist
    refine .trans (touches_battle l (.attachments _ side _ ?_ hkept)) (touches_emit _ (by simp))
    exact ⟨hnumbers.hp, hnumbers.maxHp, hnumbers.lust, hnumbers.maxLust, hnumbers.block⟩
  · exact .refl

theorem touches_nextTurn (l : Live α) (resetsBlock : Bool) :
    Touches s i l (l.mapBattle fun b => b.nextTurn resetsBlock) := by
  have hturn := touches_battle (s := s) (i := i) l
    (.aside l.battle l.battle.stream (l.battle.turn + 1) l.battle.enemy.nextAction)
  unfold Battle.nextTurn
  cases resetsBlock with
  | false => exact hturn.trans (touches_battle _ (.refill _))
  | true =>
    have hdrop := touches_battle (s := s) (i := i)
      { l with battle := { l.battle with turn := l.battle.turn + 1 } } (.dropBlock _ .player)
    exact (hturn.trans hdrop).trans (touches_battle _ (.refill _))

theorem touches_addAbility (l : Live α) (side : Side) (effect : String) :
    Touches s i l (l.addAbility? side effect).2 := by
  have hmade : Touches s i l { l with abilitiesMade := l.abilitiesMade + 1 } :=
    .single (.counters l _ l.questions l.memo)
  simp only [addAbility?]
  split
  · exact hmade
  · refine hmade.trans (.trans (touches_battle _ (.attachments _ side _ ?_ ?_))
      (touches_emit _ (by simp)))
    · exact ⟨rfl, rfl, rfl, rfl, rfl⟩
    · exact .refl _

theorem touches_commitStacks (l : Live α) (side : Side) (id : String) (stackCount : Nat)
    (held : ((l.fighter side).statusIndex? id).isSome) (positive : 0 < stackCount) :
    Touches s i l (l.commitStacks side id (min stackCount (s.stackCap id))) := by
  simp only [commitStacks]
  split
  · exact .refl
  · exact (touches_battle l (.restack _ side id stackCount held positive)).trans
      (touches_emit _ (by simp))

theorem touches_nextAction (l : Live α) (order : ActionOrder) :
    Touches s i l (l.mapBattle fun b => (b.nextAction order).2) := by
  obtain ⟨stream, next, heq⟩ : ∃ stream next, (l.battle.nextAction order).2 =
      { l.battle with stream := stream, enemy := { l.battle.enemy with nextAction := next } } := by
    cases order with
    | sequential =>
      simp only [Battle.nextAction]
      split
      · exact ⟨l.battle.stream, l.battle.enemy.nextAction, rfl⟩
      · exact ⟨l.battle.stream, _, rfl⟩
    | random =>
      simp only [Battle.nextAction]
      split
      · exact ⟨l.battle.stream, l.battle.enemy.nextAction, rfl⟩
      · exact ⟨_, l.battle.enemy.nextAction, rfl⟩
  have haside := touches_battle (s := s) (i := i) l
    (.aside l.battle stream l.battle.turn next)
  simp only [mapBattle, heq]
  exact haside

/-- A step that may come between texts changes nothing that only units
change. -/
theorem OuterStep.touches {l m : Live α} (h : OuterStep s l m) : Touches s i l m := by
  cases h with
  | note n ongoing => exact .single (.note l n ongoing)
  | memo m => exact .single (.counters l _ _ m)
  | chance stream questions =>
    exact (touches_battle l (.aside _ stream _ _)).trans (.single (.counters _ _ questions _))
  | cards ps stream moved =>
    exact (touches_battle l (.cards _ ps moved)).trans (touches_battle _ (.aside _ stream _ _))
  | addAbility side effect => exact touches_addAbility l side effect
  | removeAbilities side key =>
    exact touches_battle l (.attachments _ side _ ⟨rfl, rfl, rfl, rfl, rfl⟩ (.refl _))
  | gainStatus holder d n defined positive capped free =>
    exact (touches_battle l (.gain _ holder d n defined positive capped free)).trans
      (touches_emit _ (by simp))
  | loseStatus holder id => exact touches_loseStatus l holder id _
  | commitStacks holder id n held positive =>
    exact touches_commitStacks l holder id n held positive
  | nextTurn => exact touches_nextTurn l _
  | nextAction => exact touches_nextAction l _
  | dropBlock side => exact touches_battle l (.dropBlock _ side)
  | pay cost afforded => exact touches_battle l (.pay _ cost afforded)

/-! ## Units -/

theorem touches_numbers (l : Live α) (side : Side) (f : Fighter α → Fighter α)
    (kept : (f (l.fighter side)).statuses.Sublist (l.fighter side).statuses) :
    Touches s true l (l.mapFighter side f) :=
  touches_battle l (.numbers _ side _ kept)

/-- A number of a fighter is stored and reported. -/
theorem touches_stored (l : Live α) (side : Side) (f : Fighter α → Fighter α)
    (kept : (f (l.fighter side)).statuses.Sublist (l.fighter side).statuses) (attr : String)
    (x y : α) : Touches s true l ((l.mapFighter side f).reportChange side attr x y) :=
  (touches_numbers l side f kept).trans (touches_reportChange _ side attr x y)

theorem touches_markFallen (l : Live α) (side : Side) : Touches s true l (l.markFallen side) := by
  unfold markFallen
  split
  · exact touches_battle l (.mark _ side)
  · exact .refl

theorem touches_settle (l : Live α) (side : Side) : Touches s true l (l.settle side) :=
  (touches_stored l side _ List.filter_sublist _ _ _).trans (touches_reportChange _ _ _ _ _)

/-- A change that a unit makes: numbers are stored and reported. -/
theorem InnerStep.touches {l m : Live α} (h : InnerStep l m) : Touches s true l m := by
  cases h with
  | hp side next =>
    unfold commitHp
    split
    · exact (touches_stored l side _ (.refl _) _ _ _).trans (touches_markFallen _ side)
    · exact .refl
  | lust side next => exact touches_stored l side _ (.refl _) _ _ _
  | block side next => exact touches_stored l side _ (.refl _) _ _ _
  | energy next => exact (touches_battle l (.energy _ _ _)).trans (touches_reportChange _ _ _ _ _)
  | maxHp side next =>
    exact (touches_stored l side _ (.refl _) _ _ _).trans (touches_settle _ side)
  | maxLust side next =>
    exact (touches_stored l side _ (.refl _) _ _ _).trans (touches_settle _ side)
  | maxEnergy next =>
    exact (touches_battle l (.energy _ _ _)).trans (touches_reportChange _ _ _ _ _)
  | clearLust side => exact touches_stored l side _ (.refl _) _ _ _
  | storeModifier side name x => exact touches_numbers l side _ (.refl _)

/-! ## Units as a whole -/

end Live

/-- What a unit makes of a fighter, hit points apart. A new maximum
comes with all stats settled. -/
inductive Fighter.Stored : Fighter α → Fighter α → Prop where
  | lust (f : Fighter α) (next : α) :
      Stored f { f with lust := Scalar.roundTenth (Scalar.clamp 0 f.maxLust next) }
  | block (f : Fighter α) (next : α) :
      Stored f { f with block := Scalar.roundTenth (Scalar.atLeast 0 next) }
  | noLust (f : Fighter α) : Stored f { f with lust := 0 }
  | maxHp (f : Fighter α) (next : α) : Stored f { f with maxHp := maximum next }.settle
  | maxLust (f : Fighter α) (next : α) : Stored f { f with maxLust := maximum next }.settle
  | modifier (f : Fighter α) (name : String) (x : α) : Stored f (f.storeModifier name x)

/-- Stores hit points, and marks the side if none are left. -/
def Battle.storeHp (b : Battle α) (side : Side) (x : α) : Battle α :=
  let b := b.setFighter side { b.fighter side with hp := x }
  if x ≤ 0 then { b with fallen := b.fallen.set side true } else b

theorem Battle.fighter_storeHp (b : Battle α) (side : Side) (x : α) (t : Side) :
    (b.storeHp side x).fighter t =
      (b.setFighter side { b.fighter side with hp := x }).fighter t := by
  unfold Battle.storeHp
  split
  · cases t <;> rfl
  · rfl

theorem Battle.fallen_storeHp (b : Battle α) (side : Side) (x : α) :
    (b.storeHp side x).fallen = if x ≤ 0 then b.fallen.set side true else b.fallen := by
  unfold Battle.storeHp
  split <;> cases side <;> rfl

/-- What a unit makes of the battle. -/
inductive Battle.Stored : Battle α → Battle α → Prop where
  | hp (b : Battle α) (side : Side) (next : α) (number : (next == next) = true) :
      Stored b (b.storeHp side
        (Scalar.roundTenth (Scalar.clamp 0 (b.fighter side).maxHp next)))
  | fighter (b : Battle α) (side : Side) {f : Fighter α} (h : (b.fighter side).Stored f) :
      Stored b (b.setFighter side f)
  | energy (b : Battle α) (next : α) :
      Stored b (b.setEnergy (Scalar.roundTenth (Scalar.atLeast 0 next)))
  | maxEnergy (b : Battle α) (next : α) :
      Stored b { b with player := { b.player with maxEnergy := maximum next } }

namespace Live

@[simp] theorem reportChange_battle (l : Live α) (side : Side) (attr : String) (x y : α) :
    (l.reportChange side attr x y).battle = l.battle := by
  unfold reportChange
  split <;> rfl

/-- A fighter is settled last, so it is stored once, settled. -/
theorem battle_settle (l : Live α) (side : Side) (f : Fighter α → Fighter α) (attr : String)
    (x y : α) : (((l.mapFighter side f).reportChange side attr x y).settle side).battle =
      l.battle.setFighter side (f (l.fighter side)).settle := by
  simp only [settle, reportChange_battle, mapFighter, mapBattle, Battle.mapFighter,
    Battle.fighter_setFighter_self, Battle.setFighter_setFighter]
  rfl

theorem battle_markFallen (l : Live α) (side : Side) : (l.markFallen side).battle =
    if (l.fighter side).hp ≤ 0 then { l.battle with fallen := l.battle.fallen.set side true }
    else l.battle := by
  simp only [markFallen, Fighter.isDead, decide_eq_true_eq]
  split <;> rfl

theorem battle_commitHp (l : Live α) (side : Side) {next : α} (number : (next == next) = true) :
    (l.commitHp side next).battle = l.battle.storeHp side
      (Scalar.roundTenth (Scalar.clamp 0 (l.fighter side).maxHp next)) := by
  unfold commitHp
  rw [if_pos number, battle_markFallen]
  simp only [fighter, reportChange_battle, mapFighter, mapBattle, Battle.mapFighter,
    Battle.fighter_setFighter_self, Battle.storeHp]
  rfl

/-- A change that a unit makes, as a whole. -/
theorem InnerStep.stored {l m : Live α} (h : InnerStep l m) :
    m.battle = l.battle ∨ l.battle.Stored m.battle := by
  cases h with
  | hp side next =>
    by_cases number : (next == next) = true
    · rw [battle_commitHp l side number]
      exact .inr (.hp _ side next number)
    · unfold commitHp
      rw [if_neg number]
      exact .inl rfl
  | lust side next =>
    rw [commitLust, reportChange_battle]
    exact .inr (.fighter _ side (.lust _ next))
  | block side next =>
    rw [commitBlock, reportChange_battle]
    exact .inr (.fighter _ side (.block _ next))
  | energy next =>
    rw [commitEnergy, reportChange_battle]
    exact .inr (.energy _ next)
  | maxHp side next =>
    rw [commitMaxHp, battle_settle]
    exact .inr (.fighter _ side (.maxHp _ next))
  | maxLust side next =>
    rw [commitMaxLust, battle_settle]
    exact .inr (.fighter _ side (.maxLust _ next))
  | maxEnergy next =>
    rw [commitMaxEnergy, reportChange_battle]
    exact .inr (.maxEnergy _ next)
  | clearLust side =>
    rw [Live.clearLust, reportChange_battle]
    exact .inr (.fighter _ side (.noLust _))
  | storeModifier side name x => exact .inr (.fighter _ side (.modifier _ name x))

/-! ## Depth -/

theorem Touches.depth_eq {l m : Live α} (h : Touches s i l m) : m.depth = l.depth := by
  induction h with
  | refl => rfl
  | tail _ h ih => cases h <;> exact ih

@[simp] theorem decideFallen_depth (l : Live α) : l.decideFallen.depth = l.depth := by
  unfold decideFallen
  split
  · rfl
  · split <;> rfl

omit [Scalar α] in
@[simp] theorem enter_depth (l : Live α) (text : String) (me : Side) :
    (l.enter text me).depth = l.depth + 1 := by
  unfold enter
  split <;> rfl

@[simp] theorem leave_depth (l : Live α) : l.leave.depth = l.depth - 1 := by
  simp only [leave]
  split <;> simp

/-- A stretch ends at the depth where it began. -/
theorem Trace.depth_eq {n : Nat} {l m : Live α} (h : Trace s n i l m) : m.depth = l.depth := by
  induction h with
  | refl l => rfl
  | trans _ _ ih₁ ih₂ => exact ih₂.trans ih₁
  | outer h => exact (h.touches (i := true)).depth_eq
  | inner h => exact (h.touches (s := s)).depth_eq
  | overflow side _ _ ih => exact ih
  | text effect me _ ih =>
    rw [leave_depth, ih, enter_depth]
    exact Nat.add_sub_cancel _ _

/-- A stretch that is part of a text only if one is running goes on by
single steps. -/
theorem Trace.steps {n : Nat} {l m : Live α} (h : Trace s n i l m)
    (running : i = true → 0 < l.depth) : Steps s l m := by
  induction h with
  | refl l => exact .refl
  | trans first _ ih₁ ih₂ =>
    have hrest := ih₂ fun hi => by rw [first.depth_eq]; exact running hi
    exact (ih₁ running).trans hrest
  | outer h => exact .single (.outer h)
  | inner h => exact .single (.inner (running rfl) h)
  | @overflow n l m side idle body ih =>
    have hdepth : 0 < l.depth := running rfl
    have hend : 0 < m.depth := by
      rw [body.depth_eq]
      exact hdepth
    have hbody : Steps s (l.markOverflow side true) m := ih fun _ => hdepth
    exact (hbody.head (.overflow l side true hdepth)).tail (.overflow m side false hend)
  | @text n i l m effect me body ih =>
    have hinside : 0 < (l.enter effect me).depth := by simp
    have hend : 0 < m.depth := by
      rw [body.depth_eq]
      exact hinside
    have hbody : Steps s (l.enter effect me) m := ih fun _ => hinside
    exact (hbody.head (.enter l effect me)).tail (.leave m hend)

/-! ## Properties of the battle -/

/-- A property of the battle, now and at every note written since the
journal was `old`. -/
structure Holds (P : Battle α → Prop) (old : List (Entry α)) (l : Live α) : Prop where
  now : P l.battle
  noted : ∃ new, l.journal = new ++ old ∧ ∀ e ∈ new, P e.battle

end Live

/-- Every change of a battle keeps a property, and so does its
verdict. -/
structure Battle.Keeps (s : Setting α) (P : Battle α → Prop) : Prop where
  change : ∀ {i : Bool} {b c : Battle α}, Battle.Change s i b c → P b → P c
  verdict : ∀ {b : Battle α} (fallen : Both Bool) (outcome : Option Outcome),
    P b → P { b with fallen := fallen, outcome := outcome }

/-- Every change between texts keeps a property, and so does every unit
as a whole, and the verdict. Within a unit it may be lost. -/
structure Battle.Preserves (s : Setting α) (P : Battle α → Prop) : Prop where
  change : ∀ {b c : Battle α}, Battle.Change s false b c → P b → P c
  stored : ∀ {b c : Battle α}, b.Stored c → P b → P c
  verdict : ∀ {b : Battle α} (fallen : Both Bool) (outcome : Option Outcome),
    P b → P { b with fallen := fallen, outcome := outcome }

namespace Live

variable {s : Setting α} {i : Bool} {P : Battle α → Prop} {old : List (Entry α)}

omit [Scalar α] in
/-- Entering a text touches nothing of the battle but the marks. -/
theorem battle_enter (l : Live α) (text : String) (me : Side) :
    ∃ fallen, (l.enter text me).battle = { l.battle with fallen := fallen } := by
  unfold Live.enter
  split
  · exact ⟨.same false, rfl⟩
  · exact ⟨l.battle.fallen, rfl⟩

/-- Leaving one touches nothing but the marks and the outcome. -/
theorem battle_leave (l : Live α) : ∃ fallen outcome,
    l.leave.battle = { l.battle with fallen := fallen, outcome := outcome } := by
  simp only [Live.leave]
  split
  · unfold Live.decideFallen
    split
    · exact ⟨.same false, l.battle.outcome, rfl⟩
    · split
      · exact ⟨l.battle.fallen, l.battle.outcome, rfl⟩
      · next side _ => exact ⟨.same false, some (.ofWinner side), rfl⟩
  · exact ⟨l.battle.fallen, l.battle.outcome, rfl⟩

omit [Scalar α] in
theorem Holds.start {l : Live α} (h : P l.battle) : Holds P l.journal l :=
  ⟨h, [], rfl, by simp⟩

omit [Scalar α] in
theorem Holds.write {l : Live α} (h : Holds P old l) (n : Note α) : Holds P old (l.write n) := by
  obtain ⟨new, heq, hnew⟩ := h.noted
  refine ⟨h.now, ⟨n, l.depth, l.battle⟩ :: new, ?_, ?_⟩
  · simp only [Live.write, heq, List.cons_append]
  · exact List.forall_mem_cons.mpr ⟨h.now, hnew⟩

theorem Touches.holds (hP : Battle.Keeps s P) {l m : Live α} (h : Touches s i l m)
    (hl : Holds P old l) : Holds P old m := by
  induction h with
  | refl => exact hl
  | tail _ h ih =>
    cases h with
    | note n _ => exact ih.write n
    | battle hchange => exact ⟨hP.change hchange ih.now, ih.noted⟩
    | counters _ _ _ => exact ⟨ih.now, ih.noted⟩

omit [Scalar α] in
theorem Holds.enter {l : Live α} (hverdict : ∀ {b : Battle α} (fallen : Both Bool), P b →
    P { b with fallen := fallen }) (h : Holds P old l) (text : String) (me : Side) :
    Holds P old (l.enter text me) := by
  simp only [Live.enter]
  split
  · have hcleared : Holds P old (l.mapBattle fun b => { b with fallen := .same false }) :=
      ⟨hverdict _ h.now, h.noted⟩
    exact Holds.write (l := { l.mapBattle _ with depth := l.depth + 1 })
      ⟨hcleared.now, hcleared.noted⟩ _
  · exact Holds.write (l := { l with depth := l.depth + 1 }) ⟨h.now, h.noted⟩ _

theorem Holds.decideFallen (hP : Battle.Keeps s P) {l : Live α} (h : Holds P old l) :
    Holds P old l.decideFallen := by
  unfold Live.decideFallen
  split
  · exact ⟨hP.verdict (.same false) l.battle.outcome h.now, h.noted⟩
  · split
    · exact h
    · next side _ =>
      refine Holds.write ?_ _
      exact ⟨hP.verdict (.same false) (some (.ofWinner side)) h.now, h.noted⟩

theorem Step.holds (hP : Battle.Keeps s P) {l m : Live α} (h : Step s l m)
    (hl : Holds P old l) : Holds P old m := by
  cases h with
  | outer h => exact (h.touches (i := true)).holds hP hl
  | inner _ h => exact h.touches.holds hP hl
  | overflow side begun _ => exact ⟨hl.now, hl.noted⟩
  | enter text me => exact hl.enter (fun fallen hb => hP.verdict fallen _ hb) text me
  | leave _ =>
    have hout : Holds P old { l with depth := l.depth - 1 } := ⟨hl.now, hl.noted⟩
    simp only [Live.leave]
    split
    · exact hout.decideFallen hP
    · exact hout

/-- What every change keeps holds all along a run, and at every note
that is written in it. -/
theorem Steps.holds (hP : Battle.Keeps s P) {l m : Live α} (h : Steps s l m)
    (hl : Holds P old l) : Holds P old m := by
  induction h with
  | refl => exact hl
  | tail _ h ih => exact h.holds hP ih

theorem Touches.preserves (hP : Battle.Preserves s P) {l m : Live α} (h : Touches s false l m)
    (hl : P l.battle) : P m.battle := by
  induction h with
  | refl => exact hl
  | tail _ h ih =>
    cases h with
    | note | counters => exact ih
    | battle hchange => exact hP.change hchange ih

theorem Step.preserves (hP : Battle.Preserves s P) {l m : Live α} (h : Step s l m)
    (hl : P l.battle) : P m.battle := by
  cases h with
  | outer h => exact h.touches.preserves hP hl
  | inner _ h =>
    rcases h.stored with hsame | hstored
    · rw [hsame]
      exact hl
    · exact hP.stored hstored hl
  | overflow => exact hl
  | enter text me =>
    obtain ⟨fallen, heq⟩ := battle_enter l text me
    rw [heq]
    exact hP.verdict fallen l.battle.outcome hl
  | leave =>
    obtain ⟨fallen, outcome, heq⟩ := battle_leave l
    rw [heq]
    exact hP.verdict fallen outcome hl

/-- What is kept between texts and by units as a whole holds all along
a run. -/
theorem Steps.preserves (hP : Battle.Preserves s P) {l m : Live α} (h : Steps s l m)
    (hl : P l.battle) : P m.battle := by
  induction h with
  | refl => exact hl
  | tail _ h ih => exact h.preserves hP ih

end Live
end DeckDuel
