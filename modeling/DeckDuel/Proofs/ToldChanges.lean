/-
DeckDuel.Proofs.ToldChanges — which changes of a fighter are told.

* `Fighter.storedHp`, `Fighter.storedBlock`, `Fighter.struck` — what is
  stored for numbers, and what a hit leaves of a fighter.
* `OnceIf` — so often does a moment come that tells of a change.
  `ToldBy` — the moments that came for a side tell how its fighter
  changed. One lemma for each way in which a unit changes a stat.
* `Fighter.Grazed` — a hit that block absorbs without being lowered, as
  what it takes is rounded away. The moment of lost block comes for it.
* `Live.Accounts` — a unit stores what it comes to and then lets moments
  come that tell of it. `Scene.accounts_runStat` — every unit of hit
  points, lust or block does.
* `Setting.changes_told` — so the moments of such a unit are once those
  of the changes that it stored, and of a graze.

A stat that lies outside its bounds is brought into them by any unit that
stores it, and the side that a unit pushes it to is not told then. That
is why some of the moments are told of under a bound.
-/
import DeckDuel.Proofs.LustOverflow
import DeckDuel.Proofs.OwnMoments
import DeckDuel.Proofs.TenthGaps

namespace DeckDuel

open Scalar Graduated Comparable Settling

variable {α : Type} [Scalar α]

/-! ## What is stored -/

namespace Fighter

/-- The hit points that are stored for a number; an undefined one changes
nothing. -/
def storedHp (f : Fighter α) (next : α) : α :=
  if next == next then roundTenth (clamp 0 f.maxHp next) else f.hp

/-- The block that is stored for a number. -/
def storedBlock (next : α) : α := roundTenth (atLeast 0 next)

/-- What damage leaves of a fighter: block absorbs it first. -/
def struck (f : Fighter α) (amount : α) : Fighter α :=
  { f with
    block := storedBlock (f.block - least f.block amount)
    hp := f.storedHp (f.hp - (amount - least f.block amount)) }

@[simp] theorem struck_lust (f : Fighter α) (amount : α) : (f.struck amount).lust = f.lust := rfl

/-- Damage that block absorbs in part without being lowered: what it
takes is rounded away. -/
def Grazed (f : Fighter α) (amount : α) : Prop :=
  0 < least f.block amount ∧ ¬ (f.struck amount).block < f.block

instance (f : Fighter α) (amount : α) : Decidable (f.Grazed amount) :=
  inferInstanceAs (Decidable (_ ∧ _))

/-- The moments that tell of damage: to the side that took it of what it
lost, and to another side of what it dealt. -/
def struckMoments (f : Fighter α) (source target : Side) (amount : α) : List (Side × Trigger) :=
  (if 0 < least f.block amount then [(target, .loseBlock)] else []) ++
    ((if 0 < roundTenth (f.hp - (f.struck amount).hp) then [(target, .takeDamage)] else []) ++
      if source ≠ target && decide (0 < amount) then [(source, .dealDamage)] else [])

/-- Hit points and block are finite numbers to one decimal place, and so
many hit points are the most as are a finite number. -/
structure InTenths (f : Fighter α) : Prop where
  hp : IsTenth f.hp
  maxHp : isFinite f.maxHp = true
  block : IsTenth f.block

end Fighter

/-! ### On which side of the old value -/

namespace Fighter.InTenths

variable [Graduated α] {f : Fighter α} {amount next : α}

theorem isTenth_storedHp (hf : f.InTenths) (next : α) : IsTenth (f.storedHp next) := by
  unfold storedHp
  split
  · next hnumber => exact isTenth_roundTenth_clamp hf.maxHp hnumber
  · exact hf.hp

theorem not_lt_storedHp (hf : f.InTenths) (hzero : ¬ f.hp < 0) (h : ¬ f.hp < next) :
    ¬ f.hp < f.storedHp next := by
  unfold storedHp
  split
  · next hnumber =>
    exact hf.hp.not_lt_roundTenth (isNumber_clamp isNumber_zero hnumber _)
      (not_lt_clamp_of_not_lt hnumber hzero h)
  · exact not_lt_self _

theorem not_storedHp_lt (hf : f.InTenths) (hmax : ¬ f.maxHp < f.hp) (h : ¬ next < f.hp) :
    ¬ f.storedHp next < f.hp := by
  unfold storedHp
  split
  · next hnumber =>
    exact hf.hp.not_roundTenth_lt (isNumber_clamp isNumber_zero hnumber _)
      (not_clamp_lt_of_not_lt hf.hp.finite hmax h)
  · exact not_lt_self _

theorem least_block (hf : f.InTenths) (amount : α) :
    least f.block amount = if amount < f.block then amount else f.block :=
  least_of_isFinite hf.block.finite amount

theorem isFinite_least (hf : f.InTenths) (h : isFinite amount = true) :
    isFinite (least f.block amount) = true := by
  rw [hf.least_block]
  split
  · exact h
  · exact hf.block.finite

/-- Block absorbs no more than the damage. -/
theorem not_lt_struck_hp (hf : f.InTenths) (h : isFinite amount = true) (hzero : ¬ f.hp < 0) :
    ¬ f.hp < (f.struck amount).hp := by
  have hrest : ¬ amount < least f.block amount := by
    rw [hf.least_block]
    split
    · exact not_lt_self _
    · next hless => exact hless
  refine hf.not_lt_storedHp hzero (not_lt_sub hf.hp.finite ?_ ?_)
  · exact isNumber_sub h (hf.isFinite_least h)
  · exact not_sub_lt_zero h (hf.isFinite_least h) hrest

theorem not_lt_struck_block (hf : f.InTenths) (h : isFinite amount = true) (hpos : ¬ amount < 0)
    (hzero : ¬ f.block < 0) : ¬ f.block < (f.struck amount).block := by
  have hleast := hf.isFinite_least h
  have hrest := isNumber_sub hf.block.finite hleast
  have htaken : ¬ least f.block amount < 0 := by
    rw [hf.least_block]
    split
    · exact hpos
    · exact hzero
  have hless := not_lt_sub hf.block.finite (isNumber_of_isFinite hleast) htaken
  exact hf.block.not_lt_roundTenth (isNumber_atLeast isNumber_zero hrest)
    (not_lt_atLeast_of_not_lt hzero hless)

/-- Block absorbs something if it is lowered, or if it is grazed. -/
theorem pos_least_iff (hf : f.InTenths) (h : isFinite amount = true) :
    0 < least f.block amount ↔ (f.struck amount).block < f.block ∨ f.Grazed amount := by
  constructor
  · intro hpos
    by_cases hlost : (f.struck amount).block < f.block
    · exact .inl hlost
    · exact .inr ⟨hpos, hlost⟩
  · rintro (hlost | hgrazed)
    · by_contra hnone
      have hleast := hf.isFinite_least h
      have hrest := isNumber_sub hf.block.finite hleast
      have hmore := not_sub_lt hf.block.finite hleast hnone
      exact hf.block.not_roundTenth_lt (isNumber_atLeast isNumber_zero hrest)
        (not_atLeast_lt_of_not_lt hrest hmore) hlost
    · exact hgrazed.1

end Fighter.InTenths

namespace Live

omit [Scalar α] in
theorem fighter_mapFighter (l : Live α) (side : Side) (f : Fighter α → Fighter α) :
    (l.mapFighter side f).fighter side = f (l.fighter side) := by
  cases side <;> rfl

theorem fighter_markFallen (l : Live α) (side : Side) :
    (l.markFallen side).fighter side = l.fighter side := by
  unfold markFallen
  split
  · cases side <;> rfl
  · rfl

theorem fighter_commitHp (l : Live α) (side : Side) (next : α) :
    (l.commitHp side next).fighter side =
      { l.fighter side with hp := (l.fighter side).storedHp next } := by
  unfold commitHp Fighter.storedHp
  split
  · rw [fighter_markFallen, fighter_reportChange, fighter_mapFighter]
  · rfl

theorem fighter_commitLust (l : Live α) (side : Side) (next : α) :
    (l.commitLust side next).fighter side = { l.fighter side with
      lust := roundTenth (clamp 0 (l.fighter side).maxLust next) } := by
  unfold commitLust
  rw [fighter_reportChange, fighter_mapFighter]

theorem fighter_commitBlock (l : Live α) (side : Side) (next : α) :
    (l.commitBlock side next).fighter side =
      { l.fighter side with block := Fighter.storedBlock next } := by
  unfold commitBlock
  rw [fighter_reportChange, fighter_mapFighter]
  rfl

theorem fighter_strike (l : Live α) (target : Side) (amount : α) :
    (l.strike target amount).2.fighter target = (l.fighter target).struck amount := by
  show ((l.commitBlock target _).commitHp target _).fighter target = _
  rw [fighter_commitHp, fighter_commitBlock]
  rfl

/-- What a hit came to. -/
theorem hit_strike (l : Live α) (target : Side) (amount : α) :
    (l.strike target amount).1 = ⟨least (l.fighter target).block amount,
      roundTenth ((l.fighter target).hp - ((l.fighter target).struck amount).hp)⟩ := by
  rw [← fighter_strike]
  rfl

theorem quiet_markFallen (l : Live α) (side : Side) : Quiet l (l.markFallen side) := by
  unfold markFallen
  split
  · exact quiet_of_eq rfl rfl
  · exact .refl l

theorem quiet_commitHp (l : Live α) (side : Side) (next : α) : Quiet l (l.commitHp side next) := by
  unfold commitHp
  split
  · exact (quiet_stored l side _ _ _ _).trans (quiet_markFallen _ side)
  · exact .refl l

theorem quiet_commitLust (l : Live α) (side : Side) (next : α) :
    Quiet l (l.commitLust side next) := quiet_stored l side _ _ _ _

theorem quiet_commitBlock (l : Live α) (side : Side) (next : α) :
    Quiet l (l.commitBlock side next) := quiet_stored l side _ _ _ _

theorem quiet_strike (l : Live α) (target : Side) (amount : α) :
    Quiet l (l.strike target amount).2 :=
  (quiet_commitBlock l target _).trans
    ((quiet_commitHp _ target _).trans (quiet_emit _ (by simp)))

end Live

/-! ## Changes and moments -/

/-- Once if something is so, and not otherwise. -/
def OnceIf (n : Nat) (p : Prop) : Prop := (p → n = 1) ∧ (¬ p → n = 0)

theorem onceIf_ite {c p : Prop} [Decidable c] (h : c ↔ p) : OnceIf (if c then 1 else 0) p :=
  ⟨fun hp => if_pos (h.mpr hp), fun hp => if_neg fun hc => hp (h.mp hc)⟩

theorem onceIf_zero {p : Prop} (h : ¬ p) : OnceIf 0 p := ⟨fun hp => absurd hp h, fun _ => rfl⟩

/-- The moments that came for a side tell how its fighter changed from
`f` to `g`: each comes once if its stat changed in its direction, and not
otherwise. Lost block is told of a graze too. -/
structure ToldBy (target : Side) (f g : Fighter α) (grazed : Prop) (fs : List (Side × Trigger)) :
    Prop where
  lustIncrease : OnceIf (fs.count (target, .lustIncrease)) (f.lust < g.lust)
  takeDamage : ¬ f.maxHp < f.hp → OnceIf (fs.count (target, .takeDamage)) (g.hp < f.hp)
  takeHeal : ¬ f.hp < 0 → OnceIf (fs.count (target, .takeHeal)) (f.hp < g.hp)
  gainBlock : ¬ f.block < 0 → OnceIf (fs.count (target, .gainBlock)) (f.block < g.block)
  loseBlock : OnceIf (fs.count (target, .loseBlock)) (g.block < f.block ∨ grazed)

/-! ### Counting moments -/

/-- At most one of two moments, as a list of those that come. -/
theorem ite_else_ite_eq_append {β : Type} {c d : Prop} [Decidable c] [Decidable d] (h : c → ¬ d)
    (x y : β) : (if c then [x] else if d then [y] else []) =
      (if c then [x] else []) ++ if d then [y] else [] := by
  by_cases hc : c
  · simp [hc, h hc]
  · simp [hc]

theorem count_ite {c : Prop} [Decidable c] (target side : Side) (t u : Trigger) :
    (if c then [(side, t)] else []).count (target, u) = if c ∧ side = target ∧ t = u then 1 else 0 := by
  by_cases hc : c <;> simp [hc, List.count_cons]

namespace ToldBy

variable {target source : Side} {f g : Fighter α} {grazed : Prop} {amount next : α}

section

variable [Settling α]

/-- Nothing changed, and nothing came. -/
theorem nothing (target : Side) (f : Fighter α) (h : ¬ grazed) : ToldBy target f f grazed [] where
  lustIncrease := onceIf_zero (not_lt_self _)
  takeDamage _ := onceIf_zero (not_lt_self _)
  takeHeal _ := onceIf_zero (not_lt_self _)
  gainBlock _ := onceIf_zero (not_lt_self _)
  loseBlock := onceIf_zero fun hlost => hlost.elim (not_lt_self _) h

/-- A change of lust. Of an overflow of the side, nothing else is told. -/
theorem lust {x : α} {fs : List (Side × Trigger)} (hfs : ∀ e ∈ fs, e = (target, .lustOverflow))
    (h : ¬ grazed) : ToldBy target f { f with lust := x } grazed
      ((if f.lust < x then [(target, .lustIncrease)] else []) ++ fs) := by
  have hnone {t : Trigger} (ht : t ≠ .lustOverflow) : fs.count (target, t) = 0 :=
    List.count_eq_zero.mpr fun hmem => ht (by simpa using hfs _ hmem)
  constructor <;> rw [List.count_append, hnone (by decide), count_ite]
  · simpa using onceIf_ite .rfl
  · simpa using fun _ => onceIf_zero (not_lt_self f.hp)
  · simpa using fun _ => onceIf_zero (not_lt_self f.hp)
  · simpa using fun _ => onceIf_zero (not_lt_self f.block)
  · simpa [h] using onceIf_zero (not_lt_self f.block)

/-- A change of block. -/
theorem block (target : Side) (hg : g = { f with block := g.block }) (h : ¬ grazed) :
    ToldBy target f g grazed (if f.block < g.block then [(target, .gainBlock)]
      else if g.block < f.block then [(target, .loseBlock)] else []) := by
  obtain ⟨x, rfl⟩ : ∃ x, g = { f with block := x } := ⟨_, hg⟩
  rw [ite_else_ite_eq_append Settling.lt_asymm]
  constructor <;> rw [List.count_append, count_ite, count_ite]
  · simpa using onceIf_zero (not_lt_self f.lust)
  · simpa using fun _ => onceIf_zero (not_lt_self f.hp)
  · simpa using fun _ => onceIf_zero (not_lt_self f.hp)
  · simpa using fun _ => onceIf_ite .rfl
  · simpa [h] using onceIf_ite .rfl

/-- A change of hit points that is neither damage nor healing. -/
theorem hp (target : Side) (hg : g = { f with hp := g.hp }) (h : ¬ grazed) :
    ToldBy target f g grazed (if g.hp < f.hp then [(target, .takeDamage)]
      else if f.hp < g.hp then [(target, .takeHeal)] else []) := by
  obtain ⟨x, rfl⟩ : ∃ x, g = { f with hp := x } := ⟨_, hg⟩
  rw [ite_else_ite_eq_append Settling.lt_asymm]
  constructor <;> rw [List.count_append, count_ite, count_ite]
  · simpa using onceIf_zero (not_lt_self f.lust)
  · simpa using fun _ => onceIf_ite .rfl
  · simpa using fun _ => onceIf_ite .rfl
  · simpa using fun _ => onceIf_zero (not_lt_self f.block)
  · simpa [h] using onceIf_zero (not_lt_self f.block)

end

variable [Graduated α]

/-- A change of hit points that gives some, told by what they grew by. -/
theorem healed (hf : f.InTenths) (hadd : ¬ next < f.hp) (h : ¬ grazed) :
    ToldBy target f { f with hp := f.storedHp next } grazed
      (if 0 < roundTenth (f.storedHp next - f.hp) then [(target, .takeHeal)] else []) := by
  have hgain := pos_roundTenth_sub hf.hp (hf.isTenth_storedHp next)
  constructor <;> rw [count_ite]
  · simpa using onceIf_zero (not_lt_self f.lust)
  · simpa using fun hmax => onceIf_zero (hf.not_storedHp_lt hmax hadd)
  · simpa using fun _ => onceIf_ite hgain
  · simpa using fun _ => onceIf_zero (not_lt_self f.block)
  · simpa [h] using onceIf_zero (not_lt_self f.block)

/-- Damage, told by what it took of block and of hit points. -/
theorem struck (hf : f.InTenths) (hamount : isFinite amount = true) (hpos : ¬ amount < 0) :
    ToldBy target f (f.struck amount) (f.Grazed amount)
      (f.struckMoments source target amount) := by
  have hlost : 0 < roundTenth (f.hp - (f.struck amount).hp) ↔ (f.struck amount).hp < f.hp :=
    pos_roundTenth_sub (hf.isTenth_storedHp _) hf.hp
  unfold Fighter.struckMoments
  constructor <;> rw [List.count_append, List.count_append, count_ite, count_ite, count_ite]
  · simpa using onceIf_zero (not_lt_self f.lust)
  · simpa using fun _ => onceIf_ite hlost
  · simpa using fun hp => onceIf_zero (hf.not_lt_struck_hp hamount hp)
  · simpa using fun hblock => onceIf_zero (hf.not_lt_struck_block hamount hpos hblock)
  · simpa using onceIf_ite (hf.pos_least_iff hamount)

end ToldBy

/-! ## Units -/

omit [Scalar α] in
/-- What is refused ends an attempt where it is. -/
theorem run_ofExcept_bind {β : Type} (y : Except Refusal β) (f : β → Attempt α Unit) (l : Live α) :
    ((liftM y : Attempt α β) >>= f).run.run l =
      match y with
      | .error r => (.error r, l)
      | .ok a => (f a).run.run l := by
  cases y <;> rfl

open Live

omit [Scalar α] in
theorem run_get_bind {β : Type} (f : Live α → Attempt α β) (l : Live α) :
    ((get >>= f : Attempt α β).run.run l) = (f l).run.run l := rfl

omit [Scalar α] in
theorem run_modify_bind {β : Type} (g : Live α → Live α) (f : PUnit → Attempt α β) (l : Live α) :
    ((modify g >>= f : Attempt α β).run.run l) = (f ⟨⟩).run.run (g l) := rfl

omit [Scalar α] in
theorem play_get_bind {β : Type} (f : Live α → Play α β) (l : Live α) :
    (get >>= f : Play α β).run l = (f l).run l := rfl

omit [Scalar α] in
theorem play_modify_bind {β : Type} (g : Live α → Live α) (f : PUnit → Play α β) (l : Live α) :
    (modify g >>= f : Play α β).run l = (f ⟨⟩).run (g l) := rfl

/-- Something is stored, and then moments come that tell how the fighter
of a side changed. -/
def Live.Accounts (l : Live α) (target : Side) (grazed : Prop) (m : Live α) : Prop :=
  ∃ stored fs, Quiet l stored ∧ Dispatches stored fs m ∧
    ToldBy target (l.fighter target) (stored.fighter target) grazed fs

section

variable {target : Side} {grazed : Prop} {l stored : Live α}

/-- Nothing comes. -/
theorem Live.Quiet.accounts (hquiet : Quiet l stored)
    (htold : ToldBy target (l.fighter target) (stored.fighter target) grazed []) :
    l.Accounts target grazed stored := ⟨stored, [], hquiet, .nothing, htold⟩

theorem accounts_refl [Settling α] (l : Live α) (h : ¬ grazed) : l.Accounts target grazed l :=
  (Quiet.refl l).accounts (.nothing target _ h)

/-- What is only looked at may come first. -/
theorem accounts_bind [Settling α] {β : Type} {y : Attempt α β} {f : β → Attempt α Unit}
    (hy : Tries Eq y l) (h : ¬ grazed)
    (hf : ∀ a, l.Accounts target grazed ((f a).run.run l).2) :
    l.Accounts target grazed ((y >>= f).run.run l).2 := by
  have hrun : (y >>= f).run.run l = (ExceptT.bindCont f (y.run.run l).1).run (y.run.run l).2 := rfl
  have hstay : (y.run.run l).2 = l := Eq.symm hy
  rw [hrun, hstay]
  cases (y.run.run l).1 with
  | error r => exact accounts_refl l h
  | ok a => exact hf a

/-- What is told depends on a condition, and what is done as well. -/
theorem accounts_ite {c : Prop} [Decidable c] {y z : Attempt α Unit} {fs gs : List (Side × Trigger)}
    (htold : ToldBy target (l.fighter target) (stored.fighter target) grazed (if c then fs else gs))
    (hy : ToldBy target (l.fighter target) (stored.fighter target) grazed fs →
      l.Accounts target grazed (y.run.run stored).2)
    (hz : ToldBy target (l.fighter target) (stored.fighter target) grazed gs →
      l.Accounts target grazed (z.run.run stored).2) :
    l.Accounts target grazed ((if c then y else z).run.run stored).2 := by
  by_cases hc : c
  · rw [if_pos hc] at htold ⊢
    exact hy htold
  · rw [if_neg hc] at htold ⊢
    exact hz htold

end

namespace Scene

/-- The operation of a unit and its value now, or why it is refused. -/
def operation (sc : Scene α) (c : Clause α) (me target : Side) (ctx : Context α) (l : Live α) :
    Except Refusal (Arith × α) :=
  match c.form.arith? with
  | none => .error (unsupported c)
  | some op => do
    let x ← ordinary (← c.value (l.scope sc.toSetting me target ctx))
    .ok (op, x)

/-- The damage of a value after the modifiers of both sides. -/
def modifiedDamage (sc : Scene α) (me target : Side) (l : Live α) (x : α) : α :=
  atLeast 0 ((l.battle.adjustment sc.codex target .damageTaken).apply
    ((l.battle.adjustment sc.codex me .damage).apply x))

/-- The damage that an operation on hit points deals, if it deals any. -/
def damageOf (sc : Scene α) (me target : Side) (l : Live α) : Arith × α → Option α
  | (op, x) => if op = .decrease ∧ 0 < x then finite? (sc.modifiedDamage me target l x) else none

/-- A unit deals damage that grazes block. -/
def Grazes (sc : Scene α) (c : Clause α) (me target : Side) (ctx : Context α) (l : Live α) : Prop :=
  c.attr = "hp" ∧ ∃ o amount, sc.operation c me target ctx l = .ok o ∧
    sc.damageOf me target l o = some amount ∧ (l.fighter target).Grazed amount

variable {sc : Scene α} {me target : Side} {ctx : Context α} {l stored : Live α} {c : Clause α}
  {grazed : Prop} {t : Trigger} {x amount : α}

section

variable (hruns : ∀ text me ctx l, Tries Calm (sc.run text me ctx) l)

include hruns

/-- A moment comes, after it was reported why. -/
theorem accounts_fire (hquiet : Quiet l stored) {e : Event α} (he : ∀ side, e ≠ .lustOverflow side)
    (ht : t ≠ .passive)
    (htold : ToldBy target (l.fighter target) (stored.fighter target) grazed [(target, t)]) :
    l.Accounts target grazed ((sc.fire target t ctx).run (stored.emit e)).2 :=
  ⟨stored.emit e, _, hquiet.trans (quiet_emit stored he), dispatches_fire hruns target ht ctx _, htold⟩

variable [Graduated α]

/-! ### Hit points -/

theorem accounts_damage (hf : (l.fighter target).InTenths) (hamount : isFinite amount = true)
    (hpos : ¬ amount < 0) : l.Accounts target ((l.fighter target).Grazed amount)
      ((sc.damage me target amount ctx).run l).2 := by
  refine ⟨(l.strike target amount).2, (l.fighter target).struckMoments me target amount,
    quiet_strike l target amount, ?_, ?_⟩
  · show Dispatches _ _ ((do
      if 0 < (l.strike target amount).1.blocked then sc.fire target .loseBlock ctx
      if 0 < (l.strike target amount).1.lost then sc.fire target .takeDamage ctx
      if me ≠ target && decide (0 < amount) then sc.fire me .dealDamage ctx :
        Play α Unit).run _).2
    rw [hit_strike]
    refine dispatches_ite_bind hruns target (by decide) ctx (fun k => ?_) _
    refine dispatches_ite_bind hruns target (by decide) ctx (fun k => ?_) _
    exact dispatches_ite hruns me (by decide) ctx k
  · rw [fighter_strike]
    exact .struck hf hamount hpos

theorem accounts_heal (hf : (l.fighter target).InTenths) (hx : isFinite x = true) (hpos : 0 < x)
    (h : ¬ grazed) : l.Accounts target grazed ((sc.heal target x ctx).run l).2 := by
  obtain ⟨next, hnext⟩ : ∃ next, next = (l.fighter target).hp + x := ⟨_, rfl⟩
  have hquiet := quiet_commitHp l target next
  have hstored := fighter_commitHp l target next
  have htold : ToldBy target (l.fighter target) ((l.commitHp target next).fighter target) grazed
      (if 0 < roundTenth (((l.commitHp target next).fighter target).hp - (l.fighter target).hp) then
        [(target, .takeHeal)] else []) := by
    rw [hstored]
    refine .healed hf ?_ h
    rw [hnext]
    exact not_add_lt hf.hp.finite hx (lt_asymm hpos)
  rw [heal, play_get_bind]
  dsimp only
  rw [← hnext, play_modify_bind, play_get_bind]
  generalize l.commitHp target next = stored at hquiet hstored htold ⊢
  split
  · next hgain =>
    rw [if_pos hgain] at htold
    exact accounts_fire hruns hquiet (by simp) (by decide) htold
  · next hgain =>
    rw [if_neg hgain] at htold
    exact hquiet.accounts htold

theorem accounts_computeHp (op : Arith) (x : α) (h : ¬ grazed) :
    l.Accounts target grazed ((sc.computeHp target op x ctx).run.run l).2 := by
  rw [computeHp, run_get_bind]
  refine accounts_bind (Tries.ofExcept _ l) h fun next => ?_
  rw [run_modify_bind, run_get_bind]
  dsimp only
  have hquiet := quiet_commitHp l target next
  have hstored : (l.commitHp target next).fighter target =
      { l.fighter target with hp := ((l.commitHp target next).fighter target).hp } := by
    rw [fighter_commitHp]
  have htold := ToldBy.hp target hstored h
  generalize l.commitHp target next = stored at hquiet htold ⊢
  refine accounts_ite htold (accounts_fire hruns hquiet (by simp) (by decide)) fun htold => ?_
  exact accounts_ite htold (accounts_fire hruns hquiet (by simp) (by decide)) hquiet.accounts

theorem accounts_changeHp (hf : (l.fighter target).InTenths) (op : Arith) (hx : isFinite x = true) :
    l.Accounts target
      (∃ amount, sc.damageOf me target l (op, x) = some amount ∧ (l.fighter target).Grazed amount)
      ((sc.changeHp me target op x ctx).run.run l).2 := by
  by_cases hhit : op = .decrease ∧ 0 < x
  · have hrun : (sc.changeHp me target op x ctx).run.run l =
        ((liftM (ordinary (sc.modifiedDamage me target l x)) : Attempt α α) >>= fun amount =>
          (sc.damage me target amount ctx : Attempt α Unit)).run.run l := by
      rw [changeHp, if_pos (by simpa using hhit)]
      rfl
    have hdamage : sc.damageOf me target l (op, x) = finite? (sc.modifiedDamage me target l x) :=
      if_pos hhit
    rw [hrun, hdamage, run_ofExcept_bind, ordinary, finite?]
    by_cases hfinite : isFinite (sc.modifiedDamage me target l x) = true
    · simp only [if_pos hfinite, Option.some.injEq, exists_eq_left']
      exact accounts_damage hruns hf hfinite (not_atLeast_lt 0 _)
    · simp only [if_neg hfinite]
      exact accounts_refl l (by simp)
  · have hnone : sc.damageOf me target l (op, x) = none := if_neg hhit
    have hfree : ¬ ∃ amount, sc.damageOf me target l (op, x) = some amount ∧
        (l.fighter target).Grazed amount := by simp [hnone]
    rw [changeHp, if_neg (by simpa using hhit)]
    split
    · next hheal =>
      simp only [Bool.and_eq_true, decide_eq_true_eq] at hheal
      exact accounts_heal hruns hf hx hheal.2 hfree
    · exact accounts_computeHp hruns op x hfree

/-! ### Block -/

omit hruns [Graduated α] in
theorem tries_nextBlock (op : Arith) (x : α) (l : Live α) :
    Tries Eq (sc.nextBlock target op x) l := by
  refine Tries.get_bind ?_
  dsimp only
  split
  · refine Tries.bind (Tries.lift (Leads.bind (Leads.get_bind (Leads.pure _ l)) fun _ l => ?_))
      fun _ l => Tries.ofExcept _ l
    exact Leads.pure _ l
  · exact Tries.ofExcept_bind fun _ _ => Tries.ofExcept _ l

theorem accounts_changeBlock (op : Arith) (x : α) (h : ¬ grazed) :
    l.Accounts target grazed ((sc.changeBlock target op x ctx).run.run l).2 := by
  refine accounts_bind (y := sc.nextBlock target op x) (tries_nextBlock op x l) h fun next => ?_
  have hquiet := quiet_commitBlock l target next
  have hstored : (l.commitBlock target next).fighter target =
      { l.fighter target with block := ((l.commitBlock target next).fighter target).block } := by
    rw [fighter_commitBlock]
  have htold := ToldBy.block target hstored h
  have hfires {t : Trigger} (ht : t ≠ .passive) (htold : ToldBy target (l.fighter target)
      ((l.commitBlock target next).fighter target) grazed [(target, t)]) :
      l.Accounts target grazed ((sc.fire target t ctx).run (l.commitBlock target next)).2 :=
    ⟨_, _, hquiet, dispatches_fire hruns target ht ctx _, htold⟩
  show l.Accounts target grazed ((if _ then _ else _ : Attempt α Unit).run.run
    (l.commitBlock target next)).2
  refine accounts_ite htold (hfires (by decide)) fun htold => ?_
  exact accounts_ite htold (hfires (by decide)) hquiet.accounts

/-! ### Lust -/

theorem accounts_of_storesLust {y : Attempt α Unit} (hy : sc.StoresLust target ctx l y)
    (h : ¬ grazed) : l.Accounts target grazed (y.run.run l).2 := by
  rcases hy with ⟨r, hrefused⟩ | ⟨next, hstored⟩
  · rw [hrefused]
    exact accounts_refl l h
  · have hfighter := fighter_commitLust l target next
    have hgain : Dispatches (l.commitLust target next)
        (if (l.fighter target).lust < ((l.commitLust target next).fighter target).lust then
          [(target, .lustIncrease)] else []) (sc.gained target ctx l (l.commitLust target next)) := by
      unfold gained
      split
      · exact dispatches_fire hruns target (by decide) ctx _
      · exact .nothing
    have hoverflow (k : Live α) : ∃ fs, (∀ f ∈ fs, f = (target, Trigger.lustOverflow)) ∧
        Dispatches k fs (if isFull ((l.commitLust target next).fighter target) &&
          isFull (k.fighter target) then ((sc.overflowLust target ctx).run k).2 else k) := by
      split
      · exact dispatches_overflowLust hruns target ctx k
      · exact ⟨[], by simp, .nothing⟩
    obtain ⟨fs, hfs, hspilt⟩ := hoverflow (sc.gained target ctx l (l.commitLust target next))
    rw [hstored]
    refine ⟨_, _, quiet_commitLust l target next, hgain.trans hspilt, ?_⟩
    rw [hfighter]
    exact .lust hfs h

/-! ### By attribute -/

omit hruns [Graduated α] in
theorem isFinite_of_operation {op : Arith} (h : sc.operation c me target ctx l = .ok (op, x)) :
    isFinite x = true := by
  unfold operation at h
  cases hform : c.form.arith? with
  | none => simp [hform] at h
  | some o =>
    cases hvalue : c.value (l.scope sc.toSetting me target ctx) with
    | error r => simp [hform, hvalue, bind, Except.bind] at h
    | ok v =>
      by_cases hfinite : isFinite v = true
      · simp only [hform, hvalue, ordinary, hfinite, bind, Except.bind, if_true, Except.ok.injEq,
          Prod.mk.injEq] at h
        exact h.2 ▸ hfinite
      · simp [hform, hvalue, ordinary, hfinite, bind, Except.bind] at h

omit hruns [Graduated α] in
theorem run_runStat (hside : c.side me ctx = .ok target) {f : Arith → α → Attempt α Unit}
    (hf : c.attr = "hp" ∧ f = (sc.changeHp me target · · ctx) ∨
      c.attr = "block" ∧ f = (sc.changeBlock target · · ctx)) :
    (sc.runStat c me ctx).run.run l =
      match sc.operation c me target ctx l with
      | .error r => (.error r, l)
      | .ok (op, x) => (f op x).run.run l := by
  rw [runStat, run_ofExcept_bind, hside, operation]
  dsimp only
  cases c.form.arith? with
  | none => rfl
  | some op =>
    -- the value is only looked at
    dsimp only
    rw [value, bind_assoc, run_get_bind, run_ofExcept_bind]
    cases c.value (l.scope sc.toSetting me target ctx) with
    | error r => rfl
    | ok v =>
      dsimp only
      rw [run_ofExcept_bind]
      dsimp only [bind, Except.bind]
      cases ordinary v with
      | error r => rfl
      | ok x =>
        rcases hf with ⟨hattr, rfl⟩ | ⟨hattr, rfl⟩
        · rw [hattr]
          rfl
        · rw [hattr]
          rfl

theorem accounts_runStat (hside : c.side me ctx = .ok target) (hf : (l.fighter target).InTenths)
    (hattr : c.attr ∈ ["hp", "lust", "block"]) :
    l.Accounts target (sc.Grazes c me target ctx l) ((sc.runStat c me ctx).run.run l).2 := by
  have hother (hne : c.attr ≠ "hp") : ¬ sc.Grazes c me target ctx l := fun h => hne h.1
  simp only [List.mem_cons, List.not_mem_nil, or_false] at hattr
  rcases hattr with hhp | hlust | hblock
  · rw [run_runStat hside (.inl ⟨hhp, rfl⟩)]
    unfold Grazes
    cases hop : sc.operation c me target ctx l with
    | error r => exact accounts_refl l (by simp)
    | ok o =>
      obtain ⟨op, x⟩ := o
      have hgrazes : (c.attr = "hp" ∧ ∃ o amount, (.ok (op, x) : Except Refusal (Arith × α)) = .ok o ∧
          sc.damageOf me target l o = some amount ∧ (l.fighter target).Grazed amount) ↔
          ∃ amount, sc.damageOf me target l (op, x) = some amount ∧
            (l.fighter target).Grazed amount := by simp [hhp]
      rw [hgrazes]
      exact accounts_changeHp hruns hf op (isFinite_of_operation hop)
  · exact accounts_of_storesLust hruns (sc.storesLust_runStat l hlust hside)
      (hother (by rw [hlust]; decide))
  · have hfree := hother (by rw [hblock]; decide)
    rw [run_runStat hside (.inr ⟨hblock, rfl⟩)]
    cases sc.operation c me target ctx l with
    | error r => exact accounts_refl l hfree
    | ok o => exact accounts_changeBlock hruns o.1 o.2 hfree

end
end Scene

/-- **Changes of stats are told as they are stored.** A unit of hit points,
lust or block acts on a side whose hit points and block are numbers to
one decimal place. Compare its fighter before the unit with what was
stored when the first moment came, and count the moments that the unit
lets come for the side, leaving aside those of texts that are set off.
The moments of lost block, gained block, lost and given hit points and
gained lust come once each if the stored number went that way, and not
otherwise, but for

* a graze: damage of which block absorbs so little that its stored number
  stays. It is told as lost block;
* numbers that were out of their bounds, where bringing them into their
  bounds is not told of. -/
theorem Setting.changes_told [Graduated α] (s : Setting α) (n : Nat) (c : Clause α)
    (me target : Side) (ctx : Context α) (a : Attribute) (l : Live α)
    (hform : c.form.isBranch = false) (hattr : c.attr ∈ ["hp", "lust", "block"])
    (hget : s.catalog.get? c.attr = some a) (hstat : a.domain = .stat)
    (hside : c.side me ctx = .ok target) (hf : (l.fighter target).InTenths) :
    let sc : Scene α := ⟨s, s.runWithin n⟩
    let m := ((sc.runClause c me ctx).run.run l).2
    ToldBy target (l.fighter target) ((l.storedBy m).fighter target)
      (sc.Grazes c me target ctx l) (l.moments m) := by
  intro sc m
  have hrun : sc.runClause c me ctx = sc.runStat c me ctx :=
    sc.runClause_eq_runStat hform hget hstat
  obtain ⟨stored, fs, hquiet, hdispatches, htold⟩ :
      l.Accounts target (sc.Grazes c me target ctx l) m := by
    show l.Accounts target _ ((sc.runClause c me ctx).run.run l).2
    rw [hrun]
    exact Scene.accounts_runStat (s.calm_runWithin n) hside hf hattr
  rw [hdispatches.moments_eq hquiet, hdispatches.storedBy_eq hquiet]
  exact htold

namespace Setting

/-- The duel with an enemy behind a block of five, which reacts to its
loss. -/
def guarded : Session Double :=
  .loadWith { Snapshot.duel with
    enemy := { FighterEntry.plain "Enemy" (Scalar.ofNat 15) with
      block := Scalar.ofNat 5
      abilities := [⟨"flinch", "lose_block", "lose_block(ME.lust+1)", ""⟩] } }
    .standard .leftmost .standard

/-- A unit of damage to the other side. -/
def hit (x : Double) : Clause Double :=
  ⟨"OP.hp-x", some .op, "hp", .change .decrease (.literal x), "x"⟩

/-- A hit of eight takes the block and some hit points, and all of it is
told once. -/
theorem changes_told_guarded :
    let m := ((guarded.scene.runClause (hit (Scalar.ofNat 8)) .player .plain).run.run guarded.live).2
    guarded.live.moments m =
        [(.enemy, .loseBlock), (.enemy, .takeDamage), (.player, .dealDamage)] ∧
      ToldBy .enemy (guarded.live.fighter .enemy) ((guarded.live.storedBy m).fighter .enemy)
        (guarded.scene.Grazes (hit (Scalar.ofNat 8)) .player .enemy .plain guarded.live)
        (guarded.live.moments m) := by
  intro m
  have hhp : Catalog.standard.get? "hp" = some ⟨"hp", .stat, "HP", 30⟩ := by decide
  have htenths : (guarded.live.fighter .enemy).InTenths :=
    ⟨⟨by decide +kernel, by decide +kernel⟩, by decide +kernel, ⟨by decide +kernel, by decide +kernel⟩⟩
  exact ⟨by decide +kernel, changes_told guarded.toSetting guarded.rules.maxNesting
    (hit (Scalar.ofNat 8)) .player .enemy .plain _ guarded.live rfl (by decide) hhp rfl rfl htenths⟩

/-- A hit of a twenty-fifth leaves the stored block at five, and is told
as lost block. -/
theorem graze_told :
    let unit := hit (Scalar.ofNat 1 / Scalar.ofNat 25)
    let m := ((guarded.scene.runClause unit .player .plain).run.run guarded.live).2
    ((guarded.live.storedBy m).fighter .enemy).block = (guarded.live.fighter .enemy).block ∧
      (guarded.live.fighter .enemy).block = Scalar.ofNat 5 ∧
      (guarded.live.moments m).count (.enemy, .loseBlock) = 1 ∧
      (m.battle.fighter .enemy).lust = 1 := by
  decide +kernel

end Setting
end DeckDuel
