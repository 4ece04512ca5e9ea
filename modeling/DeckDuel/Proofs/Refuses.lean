/-
DeckDuel.Proofs.Refuses — what is known when an attempt is refused.

* `Refuses Q x s` — if `x` is refused from `s`, then `Q` holds of the
  cause and of the state in which it was refused.

Steps that cannot be refused count for nothing here, so only the checks
of an attempt are left to look at, each with the state that it is made
in.
-/
import DeckDuel.Session

namespace DeckDuel

variable {σ β γ ε : Type} {Q : ε → σ → Prop} {s : σ}

/-- If `x` is refused from `s`, then `Q` holds of the cause and of the
state in which it was refused. -/
def Refuses (Q : ε → σ → Prop) (x : ExceptT ε (StateM σ) β) (s : σ) : Prop :=
  ∀ e, (x.run.run s).1 = .error e → Q e (x.run.run s).2

namespace Refuses

/-- A change is never refused; the rest starts from the changed state. -/
theorem modify_bind {g : σ → σ} {f : PUnit → ExceptT ε (StateM σ) β} (h : Refuses Q (f ⟨⟩) (g s)) :
    Refuses Q ((modify g : ExceptT ε (StateM σ) PUnit) >>= f) s := h

theorem modify (g : σ → σ) : Refuses Q (modify g : ExceptT ε (StateM σ) PUnit) s := by
  intro e he
  cases he

theorem get_bind {f : σ → ExceptT ε (StateM σ) β} (h : Refuses Q (f s) s) :
    Refuses Q (get >>= f) s := h

theorem lift (x : StateM σ β) : Refuses Q (liftM x : ExceptT ε (StateM σ) β) s := by
  intro e he
  cases he

theorem lift_bind {x : StateM σ β} {f : β → ExceptT ε (StateM σ) γ}
    (h : Refuses Q (f (x.run s).1) (x.run s).2) :
    Refuses Q ((liftM x : ExceptT ε (StateM σ) β) >>= f) s := h

theorem pure (a : β) : Refuses Q (pure a : ExceptT ε (StateM σ) β) s := by
  intro e he
  cases he

theorem throw {e : ε} (h : Q e s) : Refuses Q (throw e : ExceptT ε (StateM σ) β) s := by
  intro e' he
  cases he
  exact h

theorem ofExcept {x : Except ε β} (h : ∀ e, x = .error e → Q e s) :
    Refuses Q (liftM x : ExceptT ε (StateM σ) β) s := by
  cases x with
  | ok a => exact pure a
  | error e => exact throw (h e rfl)

/-- A check leaves the state as it is. -/
theorem ofExcept_bind {x : Except ε β} {f : β → ExceptT ε (StateM σ) γ}
    (h : ∀ e, x = .error e → Q e s) (hf : ∀ a, x = .ok a → Refuses Q (f a) s) :
    Refuses Q ((liftM x : ExceptT ε (StateM σ) β) >>= f) s := by
  cases x with
  | ok a => exact hf a rfl
  | error e => exact throw (h e rfl)

theorem bind {x : ExceptT ε (StateM σ) β} {f : β → ExceptT ε (StateM σ) γ}
    (hx : Refuses Q x s) (hf : ∀ a t, x.run.run s = (.ok a, t) → Refuses Q (f a) t) :
    Refuses Q (x >>= f) s := by
  intro e he
  have hrun : (x >>= f).run.run s = (ExceptT.bindCont f (x.run.run s).1).run (x.run.run s).2 := rfl
  rw [hrun] at he ⊢
  rcases hx' : x.run.run s with ⟨r, t⟩
  rw [hx'] at he
  cases r with
  | ok a => exact hf a t hx' e he
  | error e' =>
    cases he
    have hQ := hx e (by rw [hx'])
    rwa [hx'] at hQ

theorem mono {Q' : ε → σ → Prop} {x : ExceptT ε (StateM σ) β} (h : Refuses Q x s)
    (hQ : ∀ e t, Q e t → Q' e t) : Refuses Q' x s :=
  fun e he => hQ e _ (h e he)

end Refuses

/-- What came of an attempt is looked at in the state that it left. -/
theorem Refuses.caught_bind {α : Type} {Q : Refusal → Live α → Prop} {l : Live α}
    {x : Attempt α β} {f : Except Refusal β → Attempt α γ}
    (h : Refuses Q (f (x.run.run l).1) (x.run.run l).2) : Refuses Q (caught x >>= f) l := h

end DeckDuel
