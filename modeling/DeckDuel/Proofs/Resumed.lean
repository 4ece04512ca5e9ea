/-
DeckDuel.Proofs.Resumed — a battle is taken up where it was captured.

* `Fighter.Steady`, `Battle.Steady` — settling changes nothing of stats
  that are finite, and the energy is an amount. This is the invariant;
  `Battle.preserves_steady` keeps it.
* `Battle.keeps_shown`, `Battle.keeps_numbered` — held statuses show
  their definitions, and cards keep their uids.
* `Session.snapshot_resumes` — so what is captured at any moment with
  finite stats is loaded as the battle of that moment, but for what a
  snapshot has no place for: the modifiers that are stored directly, and
  the place in the enemy's list of actions.
* `Session.snapshot_forgets` — both are lost indeed.
-/
import DeckDuel.Proofs.CardConservation
import DeckDuel.Proofs.HeldAbilities
import DeckDuel.Proofs.Reload
import DeckDuel.Proofs.SoundSnapshots
import DeckDuel.Proofs.SpentNumbers

namespace DeckDuel

open Scalar Settling Spending

variable {α : Type}

/-! ## Cards -/

namespace Piles

theorem highestFrom_eq_foldl (n : Nat) (cs : List (Card α)) :
    highestFrom n cs = (cs.map Card.uid).foldl max n := by
  induction cs generalizing n with
  | nil => rfl
  | cons c cs ih => exact ih (max n c.uid)

/-- The highest uid is one of the deck. -/
theorem highestUid_eq_of_deck {ps qs : Piles α} (h : qs.deck = ps.deck) :
    qs.highestUid = ps.highestUid := by
  show highestFrom 0 qs.cards = highestFrom 0 ps.cards
  rw [highestFrom_eq_foldl, highestFrom_eq_foldl]
  exact (allUids_perm_of_deck h).foldl_eq 0

/-- So is every uid. -/
theorem exists_uid_of_deck {ps qs : Piles α} (h : qs.deck = ps.deck) {c : Card α}
    (hc : c ∈ qs.cards) : ∃ d ∈ ps.cards, d.uid = c.uid :=
  List.mem_map.mp ((allUids_perm_of_deck h).mem_iff.mp (List.mem_map_of_mem hc))

theorem lastUid_set (ps : Piles α) (p : Pile) (cards : List (Card α)) :
    (ps.set p cards).lastUid = ps.lastUid := by
  cases p <;> rfl

/-- No change of the piles gives out a uid. -/
theorem Step.lastUid_eq {limit : Nat} {ps qs : Piles α} (h : Step limit ps qs) :
    qs.lastUid = ps.lastUid := by
  cases h with
  | move uid goal _ =>
    unfold Piles.move
    split
    · next p qs hmove =>
      obtain ⟨i, c, -, rfl⟩ := move?_eq_some hmove
      rw [push, lastUid_set, lastUid_set]
    · rfl
  | draw s =>
    simp only [drawOne, reshuffle]
    split <;> split <;> first | rfl | (split <;> rfl)
  | reprice uid c cost _ =>
    unfold replace
    split
    · rfl
    · exact lastUid_set _ _ _
  | discardHand => rfl

theorem Numbered.step {limit : Nat} {ps qs : Piles α} (h : Step limit ps qs) (hps : ps.Numbered) :
    qs.Numbered := by
  refine ⟨fun c hc => ?_, ?_⟩
  · obtain ⟨d, hd, huid⟩ := exists_uid_of_deck h.deck_eq hc
    exact huid ▸ hps.positive d hd
  · rw [h.lastUid_eq, highestUid_eq_of_deck h.deck_eq, hps.last]

theorem Numbered.steps {limit : Nat} {ps qs : Piles α} (h : Steps limit ps qs)
    (hps : ps.Numbered) : qs.Numbered := by
  induction h with
  | refl => exact hps
  | tail _ h ih => exact ih.step h

end Piles

/-- With other stacks, a status is one that was held, or one of them with
other stacks. -/
theorem Fighter.mem_setStacks_eq (f : Fighter α) {id : String} {n : Nat} {s : HeldStatus}
    (hs : s ∈ (f.setStacks id n).statuses) :
    s ∈ f.statuses ∨ ∃ t ∈ f.statuses, s = { t with stackCount := n } := by
  unfold setStacks at hs
  split at hs
  · next i _ =>
    obtain ⟨j, hj, rfl⟩ := List.getElem_of_mem hs
    rw [List.getElem_modify]
    split
    · exact .inr ⟨_, List.getElem_mem _, rfl⟩
    · exact .inl (List.getElem_mem _)
  · exact .inl hs

variable [Scalar α]

namespace Battle

theorem keeps_numbered (s : Setting α) : Keeps s fun b => b.piles.Numbered where
  change h hb := hb.steps h.pileSteps
  verdict _ _ hb := hb

/-! ## Statuses -/

/-- The statuses of both sides show what their definitions say. -/
theorem keeps_shown (s : Setting α) :
    Keeps s fun b => ∀ side, s.codex.Shows (b.fighter side).statuses where
  change {_ b _} h hb := by
    have hset (side : Side) {f : Fighter α} (hf : s.codex.Shows f.statuses) :
        ∀ t, s.codex.Shows ((b.setFighter side f).fighter t).statuses :=
      forall_setFighter (P := fun f => s.codex.Shows f.statuses) b side hf hb
    cases h with
    | cards => exact hb
    | attachments _ side f _ kept | numbers _ side f kept =>
      exact hset side fun t ht => hb side t (kept.subset ht)
    | gain _ side d n defined _ _ _ =>
      refine hset side fun t ht => ?_
      rcases List.mem_append.mp ht with ht | ht
      · exact hb side t ht
      · obtain rfl := List.mem_singleton.mp ht
        exact ⟨d, defined, rfl⟩
    | restack _ side id n _ _ =>
      refine hset side fun t ht => ?_
      rcases (b.fighter side).mem_setStacks_eq ht with ht | ⟨u, hu, rfl⟩
      · exact hb side t ht
      · obtain ⟨d, hd, hu⟩ := hb side u hu
        exact ⟨d, hd, by rw [hu]; rfl⟩
    | dropBlock _ side => exact hset side (hb side)
    | pay | refill | aside | energy | mark => exact hb
  verdict _ _ hb := hb

end Battle

/-! ## Stats -/

/-- Settling changes nothing of a fighter's stats that are finite. -/
structure Fighter.Steady (f : Fighter α) : Prop where
  maxHp : isFinite f.maxHp = true → maximum f.maxHp = f.maxHp
  hp : isFinite f.maxHp = true → isFinite f.hp = true → roundTenth (clamp 0 f.maxHp f.hp) = f.hp
  maxLust : isFinite f.maxLust = true → maximum f.maxLust = f.maxLust
  lust : isFinite f.maxLust = true → isFinite f.lust = true →
    roundTenth (clamp 0 f.maxLust f.lust) = f.lust
  block : isFinite f.block = true → roundTenth (atLeast 0 f.block) = f.block

/-- Both fighters are steady, and so is the energy. -/
structure Battle.Steady (b : Battle α) : Prop where
  fighters : ∀ side, (b.fighter side).Steady
  energy : isFinite b.player.energy = true → IsAmount b.player.energy
  maxEnergy : isFinite b.player.maxEnergy = true → atLeast 1 b.player.maxEnergy = b.player.maxEnergy

namespace Fighter

variable [Spending α]

theorem steady_settle (f : Fighter α) : f.settle.Steady :=
  ⟨maximum_eq_of_isFinite, fun hm h => roundTenth_clamp_eq hm (maximum_eq_of_isFinite hm) h,
    maximum_eq_of_isFinite, fun hm h => roundTenth_clamp_eq hm (maximum_eq_of_isFinite hm) h,
    roundTenth_atLeast_eq⟩

omit [Spending α] in
/-- Being steady is about the stats only. -/
theorem Steady.congr {f g : Fighter α} (h : g.Steady) (hsame : f.SameNumbers g) : f.Steady := by
  obtain ⟨hhp, hmaxHp, hlust, hmaxLust, hblock⟩ := hsame
  refine ⟨?_, ?_, ?_, ?_, ?_⟩
  · rw [hmaxHp]; exact h.maxHp
  · rw [hhp, hmaxHp]; exact h.hp
  · rw [hmaxLust]; exact h.maxLust
  · rw [hlust, hmaxLust]; exact h.lust
  · rw [hblock]; exact h.block

/-- What a unit stores in a steady fighter leaves it steady. -/
theorem Stored.steady {f g : Fighter α} (h : f.Stored g) (hf : f.Steady) : g.Steady := by
  cases h with
  | lust next =>
    exact { hf with lust := fun hm h => roundTenth_clamp_eq hm (hf.maxLust hm) h }
  | block next => exact { hf with block := roundTenth_atLeast_eq }
  | noLust => exact { hf with lust := fun hm _ => roundTenth_clamp_zero hm (hf.maxLust hm) }
  | maxHp next => exact steady_settle _
  | maxLust next => exact steady_settle _
  | modifier name x => exact hf.congr ⟨rfl, rfl, rfl, rfl, rfl⟩

omit [Spending α] in
/-- Settling leaves a steady fighter alone whose stats are finite. -/
theorem Steady.settle_eq {f : Fighter α} (h : f.Steady) (hf : f.Finite)
    (hpositive : ∀ s ∈ f.statuses, 0 < s.stackCount) : f.settle = f := by
  have hmaxHp : roundTenth (atLeast 1 f.maxHp) = f.maxHp := h.maxHp hf.maxHp
  have hmaxLust : roundTenth (atLeast 1 f.maxLust) = f.maxLust := h.maxLust hf.maxLust
  have hstatuses : (f.statuses.filter fun s => decide (0 < s.stackCount)) = f.statuses :=
    List.filter_eq_self.mpr fun s hs => decide_eq_true (hpositive s hs)
  simp only [settle, hmaxHp, hmaxLust, h.hp hf.maxHp hf.hp, h.lust hf.maxLust hf.lust,
    h.block hf.block, hstatuses]

end Fighter

namespace Battle

variable [Spending α] {b c : Battle α}

omit [Spending α] in
theorem Steady.setFighter (h : b.Steady) (side : Side) {f : Fighter α} (hf : f.Steady) :
    (b.setFighter side f).Steady := by
  refine ⟨forall_setFighter b side hf h.fighters, ?_, ?_⟩
  · cases side <;> exact h.energy
  · cases side <;> exact h.maxEnergy

omit [Spending α] in
/-- Only the fighters and the energy count. -/
theorem Steady.congr (h : b.Steady) (hfighters : ∀ side, c.fighter side = b.fighter side)
    (henergy : isFinite c.player.energy = true → IsAmount c.player.energy)
    (hmaxEnergy : isFinite c.player.maxEnergy = true →
      atLeast 1 c.player.maxEnergy = c.player.maxEnergy) : c.Steady := by
  refine ⟨fun side => ?_, henergy, hmaxEnergy⟩
  rw [hfighters side]
  exact h.fighters side

/-- What comes between texts pays what is there, and changes no other
stat but block, which goes. -/
theorem Change.steady {s : Setting α} (h : Change s false b c) (hb : b.Steady) : c.Steady := by
  cases h with
  | cards | aside =>
    exact hb.congr (fun side => by cases side <;> rfl) hb.energy hb.maxEnergy
  | attachments _ side f numbers _ => exact hb.setFighter side ((hb.fighters side).congr numbers)
  | gain _ side => exact hb.setFighter side ((hb.fighters side).congr ⟨rfl, rfl, rfl, rfl, rfl⟩)
  | restack _ side id n =>
    exact hb.setFighter side ((hb.fighters side).congr (Fighter.sameNumbers_setStacks _ _ _))
  | dropBlock _ side =>
    refine hb.setFighter side { hb.fighters side with block := fun _ => ?_ }
    show roundTenth (atLeast 0 (0 : α)) = 0
    rw [IsAmount.atLeast_eq (.inr rfl), roundTenth_zero]
  | pay _ cost afforded =>
    refine hb.congr (fun side => by cases side <;> rfl) (fun h => ?_) hb.maxEnergy
    obtain ⟨henergy, hcost⟩ := isFinite_of_sub h
    exact isAmount_sub henergy hcost (hb.energy henergy) afforded
  | refill =>
    exact hb.congr (fun side => by cases side <;> rfl)
      (fun h => isAmount_of_atLeast_one h (hb.maxEnergy h)) hb.maxEnergy

theorem Steady.storeHp (h : b.Steady) (side : Side) (next : α) :
    (b.storeHp side (roundTenth (clamp 0 (b.fighter side).maxHp next))).Steady := by
  have hf := h.fighters side
  have hset := h.setFighter side
    (f := { b.fighter side with hp := roundTenth (clamp 0 (b.fighter side).maxHp next) })
    { hf with hp := fun hm h => roundTenth_clamp_eq hm (hf.maxHp hm) h }
  unfold Battle.storeHp
  split
  · exact hset.congr (fun side => by cases side <;> rfl) hset.energy hset.maxEnergy
  · exact hset

/-- What a unit stores is settled. -/
theorem Stored.steady (h : b.Stored c) (hb : b.Steady) : c.Steady := by
  cases h with
  | hp side next _ => exact hb.storeHp side next
  | fighter side h => exact hb.setFighter side (h.steady (hb.fighters side))
  | energy next =>
    refine hb.congr (fun side => by cases side <;> rfl) (fun h => ?_) hb.maxEnergy
    exact (isAmount_atLeast next).roundTenth (isFinite_of_roundTenth h)
  | maxEnergy next =>
    refine hb.congr (fun side => by cases side <;> rfl) hb.energy fun h => ?_
    exact atLeast_one_maximum h

theorem preserves_steady (s : Setting α) : Preserves s Steady where
  change := Change.steady
  stored := Stored.steady
  verdict _ _ h := h.congr (fun side => by cases side <;> rfl) h.energy h.maxEnergy

end Battle

/-! ## Abilities -/

omit [Scalar α] in
/-- An ability that was attached during a battle is loaded as it was
stored. -/
theorem Ability.Attached.reloads {a : Ability} (h : a.Attached) : a.Reloads := by
  obtain ⟨n, effect, hmade⟩ := h
  simp only [ofEffect?, Option.map_eq_some_iff] at hmade
  obtain ⟨⟨name, inner⟩, hunwrap, rfl⟩ := hmade
  refine ⟨Bool.eq_false_iff.mpr fun hempty => ?_, ?_⟩
  · have hlength := congrArg String.length (String.isEmpty_iff.mp hempty)
    rw [String.length_append] at hlength
    simp at hlength
  · simp only [ofEffect?, hunwrap, Option.map_some]

/-! ## Modifiers -/

/-- Modifiers are read from the same texts where the definitions agree,
so they are the same if nothing is stored directly. -/
theorem Battle.adjustment_eq_of_agrees {b c : Battle α} {codex codex' : Codex α} {side : Side}
    (hagrees : ∀ s ∈ (b.fighter side).statuses, ∃ d d',
      codex.get? s.id = some d ∧ codex'.get? s.id = some d' ∧ d.Agrees d')
    (hstatuses : (c.fighter side).statuses = (b.fighter side).statuses)
    (hrelics : c.player.relics = b.player.relics) {kind : Modifier}
    (hb : (b.fighter side).modifier? kind.name = none)
    (hc : (c.fighter side).modifier? kind.name = none) :
    c.adjustment codex' side kind = b.adjustment codex side kind := by
  have htexts : modifierTexts codex' c side = modifierTexts codex b side := by
    unfold modifierTexts
    rw [hstatuses, hrelics]
    refine congrArg (_ ++ ·) (List.flatMap_congr fun s hs => ?_)
    obtain ⟨d, d', hd, hd', hsame⟩ := hagrees s hs
    simp only [hd, hd', hsame.triggers]
  rw [adjustment, adjustment, htexts, hb, hc]

/-! ## Captured battles -/

/-- The stats of both sides and the energy are ordinary numbers. -/
structure Battle.Finite (b : Battle α) : Prop where
  fighters : ∀ side, (b.fighter side).Finite
  energy : isFinite b.player.energy = true
  maxEnergy : isFinite b.player.maxEnergy = true

instance (f : Fighter α) : Decidable f.Finite :=
  decidable_of_iff (isFinite f.hp = true ∧ isFinite f.maxHp = true ∧ isFinite f.lust = true ∧
      isFinite f.maxLust = true ∧ isFinite f.block = true)
    ⟨fun ⟨hhp, hmaxHp, hlust, hmaxLust, hblock⟩ => ⟨hhp, hmaxHp, hlust, hmaxLust, hblock⟩,
      fun h => ⟨h.hp, h.maxHp, h.lust, h.maxLust, h.block⟩⟩

instance (b : Battle α) : Decidable b.Finite :=
  decidable_of_iff ((b.fighter .player).Finite ∧ (b.fighter .enemy).Finite ∧
      isFinite b.player.energy = true ∧ isFinite b.player.maxEnergy = true)
    ⟨fun ⟨hplayer, henemy, henergy, hmaxEnergy⟩ =>
        ⟨fun side => by cases side; exacts [hplayer, henemy], henergy, hmaxEnergy⟩,
      fun h => ⟨h.fighters .player, h.fighters .enemy, h.energy, h.maxEnergy⟩⟩

/-- What a run keeps of a battle, so that loading changes little of
it. -/
structure Battle.Capturable (c : Codex α) (maxStacks : Nat) (b : Battle α) : Prop where
  allowed : ∀ side, c.Allows maxStacks (b.fighter side).statuses
  shown : ∀ side, c.Shows (b.fighter side).statuses
  abilities : ∀ side, ∀ a ∈ (b.fighter side).abilities, a.Reloads
  overflow : ∀ side, ((b.fighter side).overflow.filter fun t => !Text.isBlankText t.toList) =
    (b.fighter side).overflow
  numbered : b.piles.Numbered
  steady : b.Steady

/-- The battle without the modifiers that are stored directly, and with
the enemy's list of actions from its start. -/
def Battle.forgetful (b : Battle α) : Battle α :=
  { b with
    player := { b.player with fighter := { b.player.fighter with modifiers := [] } }
    enemy := { b.enemy with
      fighter := { b.enemy.fighter with modifiers := [] }, nextAction := 0 } }

namespace Battle

variable {b : Battle α} {c : Codex α}

/-- A captured battle is loaded as the battle, but for what a snapshot
has no place for. -/
theorem Capturable.load_snapshot [Settling α] {rules : Rules}
    (h : b.Capturable c rules.defaultMaxStacks) (hfinite : b.Finite)
    (hagrees : ∀ {id d}, c.get? id = some d →
      ∃ d', (b.snapshot c).codex.get? id = some d' ∧ d.Agrees d') :
    ((b.snapshot c).load rules).player = b.forgetful.player ∧
      ((b.snapshot c).load rules).enemy = b.forgetful.enemy := by
  have hfighter (side : Side) : (b.fighter side).entry.load (b.snapshot c).codex
      rules.defaultMaxStacks = { b.fighter side with modifiers := [] } :=
    Fighter.load_entry hagrees (h.allowed side) (h.shown side) (h.abilities side)
      (h.overflow side) ((h.steady.fighters side).settle_eq (hfinite.fighters side)
        (h.allowed side).positive)
  have hpiles : Piles.assignUids { b.piles with lastUid := 0 } = b.piles := h.numbered.assignUids
  have henergy : atLeast 0 b.player.energy = b.player.energy :=
    (h.steady.energy hfinite.energy).atLeast_eq
  have hmaxEnergy : atLeast 1 b.player.maxEnergy = b.player.maxEnergy :=
    h.steady.maxEnergy hfinite.maxEnergy
  constructor
  · show Player.mk ((b.fighter .player).entry.load (b.snapshot c).codex rules.defaultMaxStacks)
      (atLeast 0 b.player.energy) (atLeast 1 b.player.maxEnergy) b.player.relics
      (Piles.assignUids { b.piles with lastUid := 0 }) = _
    rw [hfighter .player, henergy, hmaxEnergy, hpiles]
    rfl
  · show Enemy.mk ((b.fighter .enemy).entry.load (b.snapshot c).codex rules.defaultMaxStacks)
      b.enemy.actions 0 = _
    rw [hfighter .enemy]
    rfl

end Battle

/-- Definitions that were loaded are written and loaded again as ones
that agree with them. -/
theorem Snapshot.agrees_codex [Settling α] (snap : Snapshot α) {id : String}
    {d : StatusDefinition α} (hd : snap.codex.get? id = some d) (b : Battle α) :
    ∃ d', (b.snapshot snap.codex).codex.get? id = some d' ∧ d.Agrees d' := by
  obtain ⟨hnodup, hwritable⟩ :
      snap.codex.ids.Nodup ∧ ∀ d ∈ snap.codex.definitions, d.Writable :=
    Document.writable_loadCodex snap.definitions
  obtain ⟨ds, hagrees, hloaded⟩ := Document.loadCodex_writeCodex hwritable hnodup
  have hagain : (b.snapshot snap.codex).codex = ⟨ds⟩ := by
    rw [← hloaded]
    exact congrArg (fun v => (Document.loadCodex .empty v).2) (Json.canonical_canonical _).symm
  rw [hagain]
  exact get?_of_agrees hagrees hd

variable [Spending α]

omit [Spending α] in
/-- Loading settles the fighters and brings the energy into its
bounds. -/
theorem Snapshot.steady_load [Spending α] (snap : Snapshot α) (rules : Rules) :
    (snap.load rules).Steady := by
  refine ⟨fun side => ?_, fun _ => isAmount_atLeast _, fun _ => atLeast_atLeast 1 _⟩
  cases side with
  | player => exact Fighter.steady_settle _
  | enemy => exact Fighter.steady_settle _

namespace Session

/-- Whatever a host calls for, the battle can be captured. -/
theorem capturable_afterAll (snap : Snapshot α) (rules : Rules) (chooser : Chooser α)
    (catalog : Catalog) (calls : List (Call α)) :
    ((loadWith snap rules chooser catalog).afterAll calls).live.battle.Capturable snap.codex
      rules.defaultMaxStacks := by
  have hsteps := steps_afterAll (loadWith snap rules chooser catalog) calls
  have hkept {P : Battle α → Prop}
      (hP : Battle.Keeps (loadWith snap rules chooser catalog).toSetting P)
      (hstart : P (snap.load rules)) :
      P ((loadWith snap rules chooser catalog).afterAll calls).live.battle :=
    (holds_afterAll (loadWith snap rules chooser catalog) calls hP hstart).now
  have hentry (side : Side) : ∃ e : FighterEntry α,
      (snap.load rules).fighter side = e.load snap.codex rules.defaultMaxStacks := by
    cases side
    exacts [⟨snap.player, rfl⟩, ⟨snap.enemy, rfl⟩]
  constructor
  case allowed =>
    refine hkept (Battle.keeps_allowed _) fun side => ?_
    obtain ⟨e, he⟩ := hentry side
    exact he ▸ e.allows_load _ _
  case shown =>
    refine hkept (Battle.keeps_shown _) fun side => ?_
    obtain ⟨e, he⟩ := hentry side
    exact he ▸ e.shows_load _ _
  case abilities =>
    intro side a ha
    obtain ⟨e, he⟩ := hentry side
    rcases (hsteps.inherits side).abilities a ha with hold | hattached
    · exact reloads_of_mem_loadAbilities a (he ▸ hold)
    · exact hattached.reloads
  case overflow =>
    intro side
    obtain ⟨e, he⟩ := hentry side
    have hkeptOverflow := (hsteps.inherits side).overflow
    rw [hkeptOverflow]
    exact he ▸ filter_notBlank_again e.overflow
  case numbered => exact hkept (Battle.keeps_numbered _) (Piles.numbered_assignUids rfl)
  case steady => exact hsteps.preserves (Battle.preserves_steady _) (snap.steady_load rules)

/-- **A captured battle is taken up again.** A stored battle is loaded
and a host calls for anything, in any order. If the stats are finite
then, what is captured is loaded as the same player and the same enemy,
without the modifiers that were stored directly, and with the enemy's
list of actions from its start. So the modifiers of a side are the same
where none is stored directly, and the next action is, if it is the
first. -/
theorem snapshot_resumes (snap : Snapshot α) (rules : Rules) (chooser : Chooser α)
    (catalog : Catalog) (calls : List (Call α)) :
    let s := (loadWith snap rules chooser catalog).afterAll calls
    let b := s.live.battle
    let again := s.snapshot.load rules
    b.Finite →
      again.player = b.forgetful.player ∧ again.enemy = b.forgetful.enemy ∧
      (∀ side kind, (b.fighter side).modifier? kind.name = none →
        again.adjustment s.snapshot.codex side kind = b.adjustment s.codex side kind) ∧
      (b.enemy.nextAction % b.enemy.actions.length = 0 →
        (again.nextAction .sequential).1 = (b.nextAction .sequential).1) := by
  intro s b again hfinite
  have hcapturable : b.Capturable snap.codex rules.defaultMaxStacks :=
    capturable_afterAll snap rules chooser catalog calls
  have hcodex : s.codex = snap.codex :=
    congrArg Setting.codex (advances_afterAll (loadWith snap rules chooser catalog) calls).setting
  have hsnapshot : s.snapshot = b.snapshot snap.codex := congrArg b.snapshot hcodex
  have hagrees {id : String} {d : StatusDefinition α} (hd : snap.codex.get? id = some d) :=
    snap.agrees_codex hd b
  obtain ⟨hplayer, henemy⟩ := hcapturable.load_snapshot hfinite hagrees
  rw [← hsnapshot] at hplayer henemy
  have hforgot (side : Side) : again.fighter side = { b.fighter side with modifiers := [] } := by
    cases side with
    | player => exact congrArg Player.fighter hplayer
    | enemy => exact congrArg Enemy.fighter henemy
  refine ⟨hplayer, henemy, fun side kind hnone => ?_, fun hfirst => ?_⟩
  · refine Battle.adjustment_eq_of_agrees (fun t ht => ?_) ?_ ?_ hnone ?_
    · obtain ⟨d, hd, -⟩ := (hcapturable.allowed side).capped t ht
      obtain ⟨d', hd', hsame⟩ := hagrees hd
      exact ⟨d, d', hcodex ▸ hd, hsnapshot ▸ hd', hsame⟩
    · rw [hforgot]
    · have hrelics : again.player.relics = b.forgetful.player.relics :=
        congrArg Player.relics hplayer
      exact hrelics
    · rw [hforgot]
      rfl
  · have hactions : again.enemy.actions = b.forgetful.enemy.actions :=
      congrArg Enemy.actions henemy
    have hplace : again.enemy.nextAction = b.forgetful.enemy.nextAction :=
      congrArg Enemy.nextAction henemy
    have hactions' : again.enemy.actions = b.enemy.actions := hactions
    have hplace' : again.enemy.nextAction = 0 := hplace
    simp only [Battle.nextAction, hactions', hplace']
    split
    · rfl
    · rw [hfirst, Nat.zero_mod]

end Session

/-- The duel with an enemy of two actions. -/
def Snapshot.alternating : Snapshot Double :=
  { Snapshot.duel with actions := ["OP.hp-5", "ME.block+4"] }

namespace Session

/-- After both actions of the enemy the battle above is taken up. -/
theorem snapshot_resumes_alternating :
    let s := (loadWith .alternating .standard .leftmost .standard).afterAll
      [.runEffect "ME.block+3" .player, .endPlayerTurn, .endPlayerTurn]
    let again := s.snapshot.load .standard
    s.live.battle.Finite ∧ again.player = s.live.battle.forgetful.player ∧
      (again.nextAction .sequential).1 = (s.live.battle.nextAction .sequential).1 := by
  have hresumes := snapshot_resumes .alternating .standard .leftmost .standard
    [.runEffect "ME.block+3" .player, .endPlayerTurn, .endPlayerTurn]
  revert hresumes
  -- The session is a name from here on, so that nothing runs the calls but the two checks.
  generalize hs : (loadWith .alternating .standard .leftmost .standard).afterAll
    [.runEffect "ME.block+3" .player, .endPlayerTurn, .endPlayerTurn] = s
  intro hresumes
  have hfinite : s.live.battle.Finite := by
    rw [← hs]
    decide +kernel
  have hplace : s.live.battle.enemy.nextAction % s.live.battle.enemy.actions.length = 0 := by
    rw [← hs]
    decide +kernel
  obtain ⟨hplayer, -, -, haction⟩ := hresumes hfinite
  exact ⟨hfinite, hplayer, haction hplace⟩

/-- A modifier that was stored and an enemy that has acted once are not
captured: all four of what is kept otherwise are lost. -/
theorem snapshot_forgets :
    let s := (loadWith .alternating .standard .leftmost .standard).afterAll
      [.runEffect "ME.damage_modifier+2" .player, .endPlayerTurn]
    let b := s.live.battle
    let again := s.snapshot.load .standard
    b.Finite ∧ again.player ≠ b.player ∧ again.enemy ≠ b.enemy ∧
      again.adjustment s.snapshot.codex .player .damage ≠ b.adjustment s.codex .player .damage ∧
      (again.nextAction .sequential).1 ≠ (b.nextAction .sequential).1 := by
  intro s b again
  have hfinite : b.Finite := by decide +kernel
  have hnone : again.player.fighter.modifiers.isEmpty = true := by decide +kernel
  have hstored : b.player.fighter.modifiers.isEmpty = false := by decide +kernel
  have hplace : again.enemy.nextAction ≠ b.enemy.nextAction := by decide +kernel
  refine ⟨hfinite, fun h => ?_, fun h => hplace ?_, ?_, ?_⟩
  · rw [h, hstored] at hnone
    cases hnone
  · rw [h]
  · decide +kernel
  · decide +kernel

end Session
end DeckDuel
