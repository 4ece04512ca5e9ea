/-
DeckDuel.Proofs.Rewording — units that differ in their wording alone.

* `Clause.Reworded` — a unit with other words for the same: its text and
  its summary differ, and what it does is the same.
* `Rewords x y` — the attempts do the same from every battle. Where one
  is refused without ending its text, so is the other, though it may be
  told in other words.
* One lemma for each handler that quotes a unit, up to
  `Scene.rewords_runClause`: a unit in other words does the same.
-/
import DeckDuel.Engine.Run

namespace DeckDuel

variable {α β γ : Type}

/-- A unit with other words for the same. -/
structure Clause.Reworded (c c' : Clause α) : Prop where
  target : c'.target = c.target
  attr : c'.attr = c.attr
  form : c'.form = c.form

theorem Clause.Reworded.refl (c : Clause α) : c.Reworded c := ⟨rfl, rfl, rfl⟩

/-- Results that are the same, or causes that both concern their own unit
only. -/
inductive SameCheck : Except Refusal β → Except Refusal β → Prop where
  | refl (x : Except Refusal β) : SameCheck x x
  | mild {r r' : Refusal} (left : r.isFatal = false) (right : r'.isFatal = false) :
      SameCheck (.error r) (.error r')

/-! ## Attempts -/

/-- Attempts that do the same, but for the words of a cause. -/
structure Rewords (x y : Attempt α β) : Prop where
  result (l : Live α) : SameCheck (x.run.run l).1 (y.run.run l).1
  ends (l : Live α) : (y.run.run l).2 = (x.run.run l).2

namespace Rewords

theorem refl (x : Attempt α β) : Rewords x x := ⟨fun _ => .refl _, fun _ => rfl⟩

theorem check {x y : Except Refusal β} (h : SameCheck x y) :
    Rewords (liftM x : Attempt α β) (liftM y) := by
  cases h with
  | refl x => exact .refl _
  | mild left right => exact ⟨fun _ => .mild left right, fun _ => rfl⟩

theorem throw {r r' : Refusal} (h : r.isFatal = false) (h' : r'.isFatal = false) :
    Rewords (throw r : Attempt α β) (throw r') :=
  check (.mild h h')

theorem bind {x y : Attempt α β} {f g : β → Attempt α γ} (h : Rewords x y)
    (hf : ∀ a, Rewords (f a) (g a)) : Rewords (x >>= f) (y >>= g) := by
  -- what comes after a result, from one battle
  have hafter {r r' : Except Refusal β} (hr : SameCheck r r') (m : Live α) :
      SameCheck ((ExceptT.bindCont f r).run m).1 ((ExceptT.bindCont g r').run m).1 ∧
        ((ExceptT.bindCont g r').run m).2 = ((ExceptT.bindCont f r).run m).2 := by
    cases hr with
    | refl r =>
      cases r with
      | ok a => exact ⟨(hf a).result m, (hf a).ends m⟩
      | error e => exact ⟨.refl _, rfl⟩
    | mild left right => exact ⟨.mild left right, rfl⟩
  have hrun (l : Live α) :
      ((y >>= g).run.run l) = (ExceptT.bindCont g (y.run.run l).1).run (x.run.run l).2 := by
    rw [← h.ends l]
    rfl
  constructor
  · intro l
    rw [hrun l]
    exact (hafter (h.result l) _).1
  · intro l
    rw [hrun l]
    exact (hafter (h.result l) _).2

theorem get_bind {f g : Live α → Attempt α β} (h : ∀ l, Rewords (f l) (g l)) :
    Rewords (get >>= f) (get >>= g) :=
  ⟨fun l => (h l).result l, fun l => (h l).ends l⟩

end Rewords

/-! ## Checks of a unit -/

section

variable {c c' : Clause α} (h : c.Reworded c') (me : Side) (ctx : Context α)
include h

theorem sameCheck_side : SameCheck (c.side me ctx) (c'.side me ctx) := by
  unfold Clause.side
  rw [h.target, h.attr]
  split
  · exact .mild rfl rfl
  · exact .refl _

theorem sameCheck_abilitySide : SameCheck (abilitySide c me ctx) (abilitySide c' me ctx) := by
  unfold abilitySide
  rw [h.target]
  split
  · exact .mild rfl rfl
  · exact .refl _
  · exact .refl _
  · exact .refl _

theorem sameCheck_explicitSide? :
    SameCheck (Scene.explicitSide? c me) (Scene.explicitSide? c' me) := by
  unfold Scene.explicitSide?
  rw [h.target]
  split
  · exact .refl _
  · exact .refl _
  · exact .refl _
  · exact .mild rfl rfl

omit me ctx in
theorem sameCheck_value [Scalar α] (sc : Scope α) : SameCheck (c.value sc) (c'.value sc) := by
  unfold Clause.value
  rw [h.form]
  split
  · exact .refl _
  · exact .refl _
  · exact .refl _
  · exact .refl _
  · exact .mild rfl rfl

end

/-! ## Handlers -/

variable [Scalar α] {c c' : Clause α}

namespace Scene

section

variable {sc : Scene α} (h : c.Reworded c') (me target : Side) (ctx : Context α)
include h

theorem rewords_value : Rewords (sc.value c me target ctx) (sc.value c' me target ctx) := by
  unfold value
  exact .get_bind fun l => .check (sameCheck_value h _)

theorem rewords_runStat : Rewords (sc.runStat c me ctx) (sc.runStat c' me ctx) := by
  unfold runStat unsupported
  rw [h.form, h.attr]
  refine .bind (.check (sameCheck_side h me ctx)) fun target => ?_
  split
  · exact .refl _
  · exact .bind (rewords_value h me target ctx) fun x => .refl _

theorem rewords_runModifier : Rewords (sc.runModifier c me ctx) (sc.runModifier c' me ctx) := by
  unfold runModifier
  rw [h.form, h.attr]
  refine .bind (.check (sameCheck_side h me ctx)) fun target => ?_
  split
  · exact .throw rfl rfl
  · exact .bind (rewords_value h me target ctx) fun x => .refl _

theorem rewords_amountOf : Rewords (sc.amountOf c me target ctx) (sc.amountOf c' me target ctx) := by
  unfold amountOf
  rw [h.form]
  split
  · exact .refl _
  · exact .bind (rewords_value h me target ctx) fun x => .refl _

theorem rewords_changeStacks (id : String) (op : Arith) :
    Rewords (sc.changeStacks c id op me target ctx) (sc.changeStacks c' id op me target ctx) := by
  unfold changeStacks
  refine .get_bind fun l => ?_
  exact .bind (rewords_value h me target ctx) fun x => .refl _

theorem rewords_runStatus : Rewords (sc.runStatus c me ctx) (sc.runStatus c' me ctx) := by
  unfold runStatus unsupported
  rw [h.form, h.attr]
  split
  · exact .throw rfl rfl
  · refine .bind (.check (sameCheck_explicitSide? h me)) fun explicit => ?_
    dsimp only
    split
    · split
      · exact .refl _
      · exact .bind (rewords_amountOf h me _ ctx) fun amount => .refl _
    · exact .bind (rewords_amountOf h me _ ctx) fun amount => .refl _
    · exact rewords_changeStacks h me _ ctx _ _
    · exact .refl _

end
end Scene

omit [Scalar α] in
theorem rewords_runAbility (h : c.Reworded c') (me : Side) (ctx : Context α) :
    Rewords (runAbility c me ctx) (runAbility c' me ctx) := by
  unfold runAbility
  rw [h.form]
  refine .bind (.check (sameCheck_abilitySide h me ctx)) fun side => ?_
  split
  · exact .refl _
  · exact .refl _
  · exact .refl _
  · exact .throw rfl rfl

namespace Setting

section

variable {s : Setting α} (h : c.Reworded c') (me : Side) (ctx : Context α)
include h

theorem rewords_cardValue : Rewords (s.cardValue c me ctx) (s.cardValue c' me ctx) := by
  unfold cardValue
  exact .get_bind fun l => .check (sameCheck_value h _)

theorem rewords_countOf : Rewords (s.countOf c me ctx) (s.countOf c' me ctx) := by
  unfold countOf unsupported
  rw [h.form, h.attr]
  split
  · exact .bind (rewords_cardValue h me ctx) fun x => .refl _
  · exact .refl _

theorem rewords_runDraw : Rewords (s.runDraw c me ctx) (s.runDraw c' me ctx) := by
  unfold runDraw
  rw [h.form]
  split
  · exact .refl _
  · exact .bind (rewords_countOf h me ctx) fun n => .refl _

theorem rewords_runMove (goal : Pile) :
    Rewords (s.runMove c me ctx goal) (s.runMove c' me ctx goal) := by
  unfold runMove
  rw [h.form]
  dsimp only
  split
  · exact .refl _
  · exact .bind (rewords_countOf h me ctx) fun n => .refl _

theorem rewords_runCost : Rewords (s.runCost c me ctx) (s.runCost c' me ctx) := by
  unfold runCost unsupported
  rw [h.form, h.attr]
  split
  · exact .refl _
  · exact .bind (rewords_cardValue h me ctx) fun x => .refl _

theorem rewords_runCards : Rewords (s.runCards c me ctx) (s.runCards c' me ctx) := by
  unfold runCards
  rw [h.attr]
  split
  · exact rewords_runDraw h me ctx
  · exact rewords_runMove h me ctx _
  · exact rewords_runMove h me ctx _
  · exact rewords_runCost h me ctx
  · exact .refl _

end
end Setting

/-- One case for each form of a unit, and one for each domain of its
attribute. -/
theorem Scene.rewords_runClause {sc : Scene α} (h : c.Reworded c') (me : Side) (ctx : Context α) :
    Rewords (sc.runClause c me ctx) (sc.runClause c' me ctx) := by
  unfold runClause
  rw [h.form, h.attr]
  split
  · exact .refl _
  · split
    · exact .refl _
    · split
      · exact rewords_runStat h me ctx
      · exact rewords_runModifier h me ctx
      · exact rewords_runStatus h me ctx
      · exact rewords_runAbility h me ctx
      · exact Setting.rewords_runCards h me ctx
      · exact .refl _

end DeckDuel
