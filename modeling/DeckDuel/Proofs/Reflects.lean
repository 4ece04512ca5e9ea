/-
DeckDuel.Proofs.Reflects — attempts of opposite sides.

* `Refusal.mirror` — a refusal as it is for the other side. One cause
  tells a side, that of a status which the side does not hold.
* `Reflects` — two attempts from two states: both succeed with one
  result, or both are refused, for causes that mirror each other. What
  attempts are put together from reflects if its parts do.
* `mirror_of_value`, `mirror_of_result`, … — checks whose refusals tell
  no side.
-/
import DeckDuel.Proofs.Agrees

namespace DeckDuel

variable {α : Type} [Scalar α]

/-! ## A look at one of two states -/

namespace Agrees

variable {σ β : Type} {R : σ → σ → Prop} {l m : σ}

theorem get_left {f : σ → StateM σ β} {y : StateM σ β} (h : Agrees R (f l) y l m) :
    Agrees R (get >>= f) y l m :=
  ⟨h.result, h.ends⟩

theorem get_right {x : StateM σ β} {g : σ → StateM σ β} (h : Agrees R x (g m) l m) :
    Agrees R x (get >>= g) l m :=
  ⟨h.result, h.ends⟩

end Agrees

/-! ## Attempts of opposite sides -/

/-- The refusal as it is for the other side. -/
def Refusal.mirror : Refusal → Refusal
  | .statusNotHeld id side => .statusNotHeld id side.opponent
  | r => r

omit [Scalar α] in
theorem Refusal.isFatal_mirror (r : Refusal) : r.mirror.isFatal = r.isFatal := by
  cases r <;> rfl

/-- Running `x` from `l` and `y` from `m` gives one result, or refusals
that mirror each other, and ends in states that `R` relates. -/
structure Reflects {β : Type} (R : Live α → Live α → Prop) (x y : Attempt α β) (l m : Live α) :
    Prop where
  result : (y.run.run m).1 = (x.run.run l).1.mapError Refusal.mirror
  ends : R (x.run.run l).2 (y.run.run m).2

namespace Reflects

variable {β γ δ : Type} {R S : Live α → Live α → Prop} {l m : Live α}

omit [Scalar α]

theorem pure (a : β) (h : R l m) : Reflects R (pure a) (pure a) l m := ⟨rfl, h⟩

theorem throw (e : Refusal) (h : R l m) :
    Reflects R (throw e : Attempt α β) (throw e.mirror) l m := ⟨rfl, h⟩

theorem modify {f g : Live α → Live α} (h : R (f l) (g m)) :
    Reflects R (modify f : Attempt α PUnit) (modify g) l m := ⟨rfl, h⟩

/-- Both states answer `a`. -/
theorem modifyGet_bind {f g : Live α → γ × Live α} {p q : γ → Attempt α β} {a : γ}
    (hf : (f l).1 = a) (hg : (g m).1 = a) (h : Reflects R (p a) (q a) (f l).2 (g m).2) :
    Reflects R ((modifyGet f : Attempt α γ) >>= p) (modifyGet g >>= q) l m := by
  obtain rfl := hf
  have hy : ((modifyGet g : Attempt α γ) >>= q).run.run m = (q (g m).1).run.run (g m).2 := rfl
  rw [hg] at hy
  exact ⟨hy ▸ h.result, hy ▸ h.ends⟩

theorem get_bind {f g : Live α → Attempt α β} (h : Reflects R (f l) (g m) l m) :
    Reflects R (get >>= f) (get >>= g) l m := ⟨h.result, h.ends⟩

theorem lift {x y : Play α β} (h : Agrees R x y l m) :
    Reflects R (liftM x : Attempt α β) (liftM y) l m :=
  ⟨congrArg Except.ok h.result, h.ends⟩

theorem bind {x y : Attempt α β} {f g : β → Attempt α γ} (hx : Reflects R x y l m)
    (hf : ∀ a l m, R l m → Reflects R (f a) (g a) l m) :
    Reflects R (x >>= f) (y >>= g) l m := by
  have hx' : (x >>= f).run.run l = (ExceptT.bindCont f (x.run.run l).1).run (x.run.run l).2 := rfl
  have hy' : (y >>= g).run.run m = (ExceptT.bindCont g (y.run.run m).1).run (y.run.run m).2 := rfl
  rw [hx.result] at hy'
  cases hr : (x.run.run l).1 with
  | ok a =>
    rw [hr] at hx' hy'
    have hrest := hf a _ _ hx.ends
    exact ⟨hx' ▸ hy' ▸ hrest.result, hx' ▸ hy' ▸ hrest.ends⟩
  | error e =>
    rw [hr] at hx' hy'
    exact ⟨hx' ▸ hy' ▸ rfl, hx' ▸ hy' ▸ hx.ends⟩

theorem ite_bind {c : Prop} [Decidable c] {x y : Attempt α PUnit} {f g : PUnit → Attempt α γ}
    (hx : Reflects R x y l m) (h : R l m) (hf : ∀ l m, R l m → Reflects R (f ⟨⟩) (g ⟨⟩) l m) :
    Reflects R (if c then x >>= f else f ⟨⟩) (if c then y >>= g else g ⟨⟩) l m := by
  split
  · exact bind hx fun _ l m h => hf l m h
  · exact hf l m h

/-- A check whose refusals tell no side; its answer may be another one
for the other side. -/
theorem ofExcept_bind_map {x : Except Refusal γ} {y : Except Refusal δ} {f : γ → Attempt α β}
    {g : δ → Attempt α β} {k : γ → δ} (hy : y = x.map k) (h : R l m)
    (hx : ∀ e, x = .error e → e.mirror = e)
    (hf : ∀ a, x = .ok a → Reflects R (f a) (g (k a)) l m) :
    Reflects R ((liftM x : Attempt α γ) >>= f) (liftM y >>= g) l m := by
  subst hy
  cases x with
  | ok a =>
    have hrest := hf a rfl
    exact ⟨hrest.result, hrest.ends⟩
  | error e => exact ⟨congrArg Except.error (hx e rfl).symm, h⟩

theorem ofExcept_bind {x : Except Refusal γ} {f g : γ → Attempt α β} (h : R l m)
    (hx : ∀ e, x = .error e → e.mirror = e)
    (hf : ∀ a, x = .ok a → Reflects R (f a) (g a) l m) :
    Reflects R ((liftM x : Attempt α γ) >>= f) (liftM x >>= g) l m :=
  ofExcept_bind_map (k := id) (by cases x <;> rfl) h hx hf

theorem ofExcept (x : Except Refusal β) (h : R l m) (hx : ∀ e, x = .error e → e.mirror = e) :
    Reflects R (liftM x : Attempt α β) (liftM x) l m := by
  cases x with
  | ok a => exact ⟨rfl, h⟩
  | error e => exact ⟨congrArg Except.error (hx e rfl).symm, h⟩

theorem caught_bind {x y : Attempt α β} {f g : Except Refusal β → Attempt α γ}
    (hx : Reflects S x y l m)
    (hf : ∀ r l m, S l m → Reflects R (f r) (g (r.mapError Refusal.mirror)) l m) :
    Reflects R (caught x >>= f) (caught y >>= g) l m := by
  have hrest := hf (x.run.run l).1 _ _ hx.ends
  have hy : (caught y >>= g).run.run m =
      (g ((x.run.run l).1.mapError Refusal.mirror)).run.run (y.run.run m).2 := by
    rw [← hx.result]
    rfl
  exact ⟨hy ▸ hrest.result, hy ▸ hrest.ends⟩

/-- What came of an attempt that nobody waits for. -/
theorem forgotten {x y : Attempt α β} (hx : Reflects R x y l m) :
    Agrees R (do let _ ← x.run; Pure.pure ()) (do let _ ← y.run; Pure.pure ()) l m :=
  ⟨rfl, hx.ends⟩

end Reflects

/-! ### Checks that know no side -/

section

theorem mirror_of_result {op : Arith} {current x : α} :
    ∀ e, op.result current x = .error e → e.mirror = e := by
  intro e he
  unfold Arith.result at he
  split at he
  · cases he
  · cases he
    rfl

theorem mirror_of_ordinary {x : α} : ∀ e, ordinary x = .error e → e.mirror = e := by
  intro e he
  unfold ordinary at he
  split at he
  · cases he
  · cases he
    rfl

theorem mirror_of_value {c : Clause α} {sc : Scope α} :
    ∀ e, c.value sc = .error e → e.mirror = e := by
  intro e he
  unfold Clause.value at he
  split at he
  · cases he
  · split at he
    · cases he
    · cases he
      rfl
  · cases he
  · cases he
    rfl
  · cases he
    rfl

omit [Scalar α]

theorem mirror_of_side {c : Clause α} {me : Side} {ctx : Context α} :
    ∀ e, c.side me ctx = .error e → e.mirror = e := by
  intro e he
  unfold Clause.side at he
  split at he
  · cases he
    rfl
  · split at he
    · cases he
    · split at he <;> cases he
      rfl

theorem mirror_of_abilitySide {c : Clause α} {me : Side} {ctx : Context α} :
    ∀ e, abilitySide c me ctx = .error e → e.mirror = e := by
  intro e he
  unfold abilitySide at he
  split at he <;> cases he
  rfl

theorem mirror_of_explicitSide? {c : Clause α} {me : Side} :
    ∀ e, Scene.explicitSide? c me = .error e → e.mirror = e := by
  intro e he
  unfold Scene.explicitSide? at he
  split at he <;> cases he
  rfl

end

end DeckDuel
