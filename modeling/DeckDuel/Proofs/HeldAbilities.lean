/-
DeckDuel.Proofs.HeldAbilities — where abilities come from.

* `Fighter.KeepsAbilities`, `Live.KeepsAbilities` — the abilities stayed,
  and with them the overflow effects and the number of ids given out.
* `Live.Step.abilities_cases` — a step attaches an ability, removes some,
  or keeps them all. What is known of abilities along a run follows from
  these three cases.
* `Fighter.Inherits` — a fighter has the overflow effect of another one,
  and abilities of that one besides some that were attached by a text
  that tells their trigger.
* `Live.Steps.inherits` — a run makes nothing else of a fighter.
-/
import DeckDuel.Proofs.Call

namespace DeckDuel

variable {α : Type}

/-! ## What stays -/

/-- A fighter keeps its overflow effect and its abilities. -/
structure Fighter.KeepsAbilities (f g : Fighter α) : Prop where
  overflow : g.overflow = f.overflow
  abilities : g.abilities = f.abilities

namespace Fighter

theorem KeepsAbilities.refl (f : Fighter α) : f.KeepsAbilities f := ⟨rfl, rfl⟩

theorem KeepsAbilities.trans {f g h : Fighter α} (hfg : f.KeepsAbilities g)
    (hgh : g.KeepsAbilities h) : f.KeepsAbilities h :=
  ⟨hgh.overflow.trans hfg.overflow, hgh.abilities.trans hfg.abilities⟩

theorem keepsAbilities_clearModifiers (names : List String) (f : Fighter α) :
    f.KeepsAbilities (names.foldl clearModifier f) := by
  induction names generalizing f with
  | nil => exact .refl f
  | cons name rest ih =>
    have hfirst : f.KeepsAbilities (f.clearModifier name) := ⟨rfl, rfl⟩
    exact hfirst.trans (ih (f.clearModifier name))

theorem keepsAbilities_setStacks (f : Fighter α) (id : String) (n : Nat) :
    f.KeepsAbilities (f.setStacks id n) := by
  unfold setStacks
  split
  · exact ⟨rfl, rfl⟩
  · exact .refl f

end Fighter

namespace Live

/-- Both sides keep their abilities, no id is given out, and the journal
goes on. -/
structure KeepsAbilities (l m : Live α) : Prop where
  made : m.abilitiesMade = l.abilitiesMade
  fighters : ∀ side, (l.fighter side).KeepsAbilities (m.fighter side)
  grown : l.journal <:+ m.journal

namespace KeepsAbilities

variable {l m k : Live α}

theorem refl (l : Live α) : l.KeepsAbilities l := ⟨rfl, fun _ => .refl _, List.suffix_rfl⟩

theorem trans (h : l.KeepsAbilities m) (h' : m.KeepsAbilities k) : l.KeepsAbilities k :=
  ⟨h'.made.trans h.made, fun side => (h.fighters side).trans (h'.fighters side),
    h.grown.trans h'.grown⟩

end KeepsAbilities

theorem keepsAbilities_write (l : Live α) (n : Note α) : l.KeepsAbilities (l.write n) :=
  ⟨rfl, fun _ => .refl _, List.suffix_cons _ _⟩

theorem keepsAbilities_mapBattle (l : Live α) {f : Battle α → Battle α}
    (h : ∀ side, (l.battle.fighter side).KeepsAbilities ((f l.battle).fighter side)) :
    l.KeepsAbilities (l.mapBattle f) :=
  ⟨rfl, h, List.suffix_rfl⟩

theorem keepsAbilities_mapFighter (l : Live α) (side : Side) {f : Fighter α → Fighter α}
    (h : ∀ g : Fighter α, g.KeepsAbilities (f g)) : l.KeepsAbilities (l.mapFighter side f) := by
  refine l.keepsAbilities_mapBattle fun t => ?_
  cases side <;> cases t
  · exact h _
  · exact .refl _
  · exact .refl _
  · exact h _

variable [Scalar α]

theorem keepsAbilities_reportChange (l : Live α) (side : Side) (attr : String) (x y : α) :
    l.KeepsAbilities (l.reportChange side attr x y) := by
  unfold reportChange
  split
  · exact .refl l
  · exact keepsAbilities_write l _

/-- A number of a fighter is stored and reported. -/
theorem keepsAbilities_stored (l : Live α) (side : Side) {f : Fighter α → Fighter α}
    (h : ∀ g : Fighter α, g.KeepsAbilities (f g)) (attr : String) (x y : α) :
    l.KeepsAbilities ((l.mapFighter side f).reportChange side attr x y) :=
  (l.keepsAbilities_mapFighter side h).trans (keepsAbilities_reportChange _ side attr x y)

theorem keepsAbilities_settle (l : Live α) (side : Side) : l.KeepsAbilities (l.settle side) :=
  (l.keepsAbilities_stored side (fun _ => by exact ⟨rfl, rfl⟩) _ _ _).trans
    (keepsAbilities_reportChange _ side _ _ _)

theorem keepsAbilities_markFallen (l : Live α) (side : Side) :
    l.KeepsAbilities (l.markFallen side) := by
  unfold markFallen
  split
  · exact l.keepsAbilities_mapBattle fun t => by cases t <;> exact .refl _
  · exact .refl l

/-- What a unit stores are numbers. -/
theorem InnerStep.keepsAbilities {l m : Live α} (h : InnerStep l m) : l.KeepsAbilities m := by
  cases h with
  | hp side next =>
    unfold commitHp
    split
    · exact (l.keepsAbilities_stored side (fun _ => by exact ⟨rfl, rfl⟩) _ _ _).trans
        (keepsAbilities_markFallen _ side)
    · exact .refl l
  | lust side next => exact l.keepsAbilities_stored side (fun _ => by exact ⟨rfl, rfl⟩) _ _ _
  | block side next => exact l.keepsAbilities_stored side (fun _ => by exact ⟨rfl, rfl⟩) _ _ _
  | energy next | maxEnergy next =>
    exact (l.keepsAbilities_mapBattle fun t => by cases t <;> exact ⟨rfl, rfl⟩).trans
      (keepsAbilities_reportChange _ _ _ _ _)
  | maxHp side next | maxLust side next =>
    exact (l.keepsAbilities_stored side (fun _ => by exact ⟨rfl, rfl⟩) _ _ _).trans
      (keepsAbilities_settle _ side)
  | clearLust side => exact l.keepsAbilities_stored side (fun _ => by exact ⟨rfl, rfl⟩) _ _ _
  | storeModifier side name x => exact l.keepsAbilities_mapFighter side fun _ => by exact ⟨rfl, rfl⟩

omit [Scalar α] in
theorem keepsAbilities_enter (l : Live α) (text : String) (me : Side) :
    l.KeepsAbilities (l.enter text me) := by
  have hcleared : l.KeepsAbilities (l.mapBattle fun b => { b with fallen := .same false }) :=
    l.keepsAbilities_mapBattle fun t => by cases t <;> exact .refl _
  unfold enter
  split
  · exact hcleared.trans ⟨rfl, fun _ => .refl _, List.suffix_cons _ _⟩
  · exact ⟨rfl, fun _ => .refl _, List.suffix_cons _ _⟩

theorem keepsAbilities_leave (l : Live α) : l.KeepsAbilities l.leave := by
  have hout : l.KeepsAbilities { l with depth := l.depth - 1 } :=
    ⟨rfl, fun _ => .refl _, List.suffix_rfl⟩
  have hmarks (k : Live α) (fallen : Both Bool) (outcome : Option Outcome) : k.KeepsAbilities
      (k.mapBattle fun b => { b with fallen := fallen, outcome := outcome }) :=
    k.keepsAbilities_mapBattle fun t => by cases t <;> exact .refl _
  simp only [leave]
  split
  · refine hout.trans ?_
    unfold decideFallen
    split
    · exact hmarks _ (.same false) l.battle.outcome
    · split
      · exact .refl _
      · next winner _ =>
        exact (hmarks _ (.same false) (some (.ofWinner winner))).trans (keepsAbilities_write _ _)
  · exact hout

/-! ## Steps -/

variable {s : Setting α} {l m : Live α}

/-- Between texts, abilities are attached and removed. -/
theorem OuterStep.abilities_cases (h : OuterStep s l m) :
    (∃ side effect, m = (l.addAbility? side effect).2) ∨
      (∃ side key, m = (l.removeAbilities side key).2) ∨ l.KeepsAbilities m := by
  cases h with
  | addAbility side effect => exact .inl ⟨side, effect, rfl⟩
  | removeAbilities side key => exact .inr (.inl ⟨side, key, rfl⟩)
  | note n => exact .inr (.inr (keepsAbilities_write l n))
  | memo => exact .inr (.inr ⟨rfl, fun _ => .refl _, List.suffix_rfl⟩)
  | chance | cards | pay =>
    exact .inr (.inr ⟨rfl, fun t => by cases t <;> exact .refl _, List.suffix_rfl⟩)
  | gainStatus holder d n =>
    exact .inr (.inr ((l.keepsAbilities_mapFighter holder fun _ => by exact ⟨rfl, rfl⟩).trans
      (keepsAbilities_write _ _)))
  | loseStatus holder id =>
    refine .inr (.inr ?_)
    unfold Live.loseStatus
    split
    · refine (l.keepsAbilities_mapFighter holder fun f => ?_).trans (keepsAbilities_write _ _)
      have hdropped : f.KeepsAbilities (f.dropStatus id) := ⟨rfl, rfl⟩
      exact hdropped.trans (Fighter.keepsAbilities_clearModifiers _ _)
    · exact .refl l
  | commitStacks holder id n =>
    refine .inr (.inr ?_)
    simp only [Live.commitStacks]
    split
    · exact .refl l
    · exact (l.keepsAbilities_mapFighter holder fun f => f.keepsAbilities_setStacks id _).trans
        (keepsAbilities_write _ _)
  | nextTurn =>
    refine .inr (.inr (l.keepsAbilities_mapBattle fun t => ?_))
    unfold Battle.nextTurn
    cases t <;> cases s.rules.resetsBlock <;> exact ⟨rfl, rfl⟩
  | nextAction =>
    refine .inr (.inr (l.keepsAbilities_mapBattle fun t => ?_))
    unfold Battle.nextAction
    repeat' split
    all_goals cases t <;> exact .refl _
  | dropBlock side => exact .inr (.inr (l.keepsAbilities_mapFighter side fun _ => by exact ⟨rfl, rfl⟩))

/-- A step attaches an ability, removes some, or keeps them all. -/
theorem Step.abilities_cases (h : Step s l m) :
    (∃ side effect, m = (l.addAbility? side effect).2) ∨
      (∃ side key, m = (l.removeAbilities side key).2) ∨ l.KeepsAbilities m := by
  cases h with
  | outer h => exact h.abilities_cases
  | inner _ h => exact .inr (.inr h.keepsAbilities)
  | overflow => exact .inr (.inr ⟨rfl, fun _ => .refl _, List.suffix_rfl⟩)
  | enter text me => exact .inr (.inr (l.keepsAbilities_enter text me))
  | leave => exact .inr (.inr l.keepsAbilities_leave)

end Live

/-! ## Origins -/

/-- An ability that was attached during a battle. -/
def Ability.Attached (a : Ability) : Prop :=
  ∃ (n : Nat) (effect : String), Ability.ofEffect? ("ability_" ++ toString n) effect = some a

/-- What became of a fighter: its overflow effect stayed, and abilities
were lost or attached. -/
structure Fighter.Inherits (f g : Fighter α) : Prop where
  overflow : g.overflow = f.overflow
  abilities : ∀ a ∈ g.abilities, a ∈ f.abilities ∨ a.Attached

/-- The same of both fighters. -/
def Battle.Inherits (b c : Battle α) : Prop := ∀ side, (b.fighter side).Inherits (c.fighter side)

namespace Fighter

theorem Inherits.refl (f : Fighter α) : f.Inherits f := ⟨rfl, fun _ ha => .inl ha⟩

theorem Inherits.trans {f g h : Fighter α} (hfg : f.Inherits g) (hgh : g.Inherits h) :
    f.Inherits h := by
  refine ⟨hgh.overflow.trans hfg.overflow, fun a ha => ?_⟩
  rcases hgh.abilities a ha with hg | hattached
  · exact hfg.abilities a hg
  · exact .inr hattached

theorem KeepsAbilities.inherits {f g : Fighter α} (h : f.KeepsAbilities g) : f.Inherits g :=
  ⟨h.overflow, fun _ ha => .inl (h.abilities ▸ ha)⟩

end Fighter

namespace Battle

variable {b c d : Battle α}

theorem Inherits.refl (b : Battle α) : b.Inherits b := fun _ => .refl _

theorem Inherits.trans (hbc : b.Inherits c) (hcd : c.Inherits d) : b.Inherits d := fun side =>
  (hbc side).trans (hcd side)

theorem inherits_setFighter (b : Battle α) (side : Side) {f : Fighter α}
    (h : (b.fighter side).Inherits f) : b.Inherits (b.setFighter side f) := by
  intro t
  cases side <;> cases t
  · exact h
  · exact .refl _
  · exact .refl _
  · exact h

end Battle

namespace Live

variable [Scalar α] {s : Setting α} {l m : Live α}

theorem Step.inherits (h : Step s l m) : l.battle.Inherits m.battle := by
  obtain ⟨side, effect, rfl⟩ | ⟨side, key, rfl⟩ | hkept := h.abilities_cases
  · simp only [addAbility?]
    split
    · exact .refl _
    · next a ha =>
      obtain ⟨hmade, -⟩ := Option.filter_eq_some_iff.mp ha
      refine l.battle.inherits_setFighter side ⟨rfl, fun x hx => ?_⟩
      rcases List.mem_append.mp hx with hx | hx
      · exact .inl hx
      · obtain rfl := List.mem_singleton.mp hx
        exact .inr ⟨_, effect, hmade⟩
  · refine l.battle.inherits_setFighter side ⟨rfl, fun a ha => .inl ?_⟩
    exact (List.mem_filter.mp ha).1
  · exact fun side => (hkept.fighters side).inherits

/-- After any run, a fighter has its overflow effect, and abilities that
it had or that were attached. -/
theorem Steps.inherits (h : Steps s l m) : l.battle.Inherits m.battle := by
  induction h with
  | refl => exact .refl _
  | tail _ h ih => exact ih.trans h.inherits

end Live
end DeckDuel
