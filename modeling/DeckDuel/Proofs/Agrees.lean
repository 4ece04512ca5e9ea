/-
DeckDuel.Proofs.Agrees — two runs side by side.

* `Agrees R x y l m` — running `x` from `l` and running `y` from `m`
  gives one result, and ends in states that `R` relates; for an attempt,
  refused or not.

The rules take two programs apart at once. What is different about them
is in the states alone, so they are written with one shape.
-/
import DeckDuel.Session

namespace DeckDuel

variable {σ β γ ε : Type} {R : σ → σ → Prop} {l m : σ}

/-- Running `x` from `l` and running `y` from `m` gives one result, and
ends in states that `R` relates. -/
structure Agrees (R : σ → σ → Prop) (x y : StateM σ β) (l m : σ) : Prop where
  result : (y.run m).1 = (x.run l).1
  ends : R (x.run l).2 (y.run m).2

/-- The same for attempts, refused or not. -/
def TriesAgree (R : σ → σ → Prop) (x y : ExceptT ε (StateM σ) β) (l m : σ) : Prop :=
  Agrees R x.run y.run l m

namespace Agrees

theorem pure (a : β) (h : R l m) : Agrees R (pure a : StateM σ β) (pure a) l m := ⟨rfl, h⟩

theorem modify {f g : σ → σ} (h : R (f l) (g m)) :
    Agrees R (modify f : StateM σ PUnit) (modify g) l m :=
  ⟨rfl, h⟩

theorem modifyGet {f g : σ → β × σ} (hresult : (g m).1 = (f l).1) (h : R (f l).2 (g m).2) :
    Agrees R (modifyGet f : StateM σ β) (modifyGet g) l m :=
  ⟨hresult, h⟩

theorem get_bind {f g : σ → StateM σ β} (h : Agrees R (f l) (g m) l m) :
    Agrees R (get >>= f) (get >>= g) l m :=
  ⟨h.result, h.ends⟩

/-- The rest may be compared by another relation than the states that it
starts from. -/
theorem bind_of {S : σ → σ → Prop} {x y : StateM σ β} {f g : β → StateM σ γ}
    (h : Agrees S x y l m) (hf : ∀ a l m, S l m → Agrees R (f a) (g a) l m) :
    Agrees R (x >>= f) (y >>= g) l m := by
  have hrest := hf (x.run l).1 _ _ h.ends
  have hg : (y >>= g).run m = (g (x.run l).1).run (y.run m).2 := by
    rw [← h.result]
    rfl
  refine ⟨?_, ?_⟩
  · rw [hg]
    exact hrest.result
  · rw [hg]
    exact hrest.ends

theorem bind {x y : StateM σ β} {f g : β → StateM σ γ} (h : Agrees R x y l m)
    (hf : ∀ a l m, R l m → Agrees R (f a) (g a) l m) : Agrees R (x >>= f) (y >>= g) l m :=
  bind_of h hf

/-- A step that is left out in both runs, or in neither. -/
theorem ite_bind {c : Prop} [Decidable c] {x y : StateM σ PUnit} {f g : PUnit → StateM σ γ}
    (hx : Agrees R x y l m) (h : R l m) (hf : ∀ l m, R l m → Agrees R (f ⟨⟩) (g ⟨⟩) l m) :
    Agrees R (if c then x >>= f else f ⟨⟩) (if c then y >>= g else g ⟨⟩) l m := by
  split
  · exact bind hx fun _ l m h => hf l m h
  · exact hf l m h

end Agrees

namespace TriesAgree

/-- A change is never refused. -/
theorem modify_bind {S : σ → σ → Prop} {f g : σ → σ} {p q : PUnit → ExceptT ε (StateM σ) β}
    (h : S (f l) (g m)) (hp : ∀ l m, S l m → TriesAgree R (p ⟨⟩) (q ⟨⟩) l m) :
    TriesAgree R ((modify f : ExceptT ε (StateM σ) PUnit) >>= p) (modify g >>= q) l m := by
  have hrest := hp _ _ h
  exact ⟨hrest.result, hrest.ends⟩

theorem modify {f g : σ → σ} (h : R (f l) (g m)) :
    TriesAgree R (modify f : ExceptT ε (StateM σ) PUnit) (modify g) l m :=
  ⟨rfl, h⟩

theorem get_bind {f g : σ → ExceptT ε (StateM σ) β} (h : TriesAgree R (f l) (g m) l m) :
    TriesAgree R (get >>= f) (get >>= g) l m :=
  ⟨h.result, h.ends⟩

theorem lift {x y : StateM σ β} (h : Agrees R x y l m) :
    TriesAgree R (liftM x : ExceptT ε (StateM σ) β) (liftM y) l m :=
  ⟨congrArg Except.ok h.result, h.ends⟩

theorem pure (a : β) (h : R l m) :
    TriesAgree R (pure a : ExceptT ε (StateM σ) β) (pure a) l m :=
  ⟨rfl, h⟩

theorem throw (e : ε) (h : R l m) :
    TriesAgree R (throw e : ExceptT ε (StateM σ) β) (throw e) l m :=
  ⟨rfl, h⟩

theorem bind {x y : ExceptT ε (StateM σ) β} {f g : β → ExceptT ε (StateM σ) γ}
    (hx : TriesAgree R x y l m) (hf : ∀ a l m, R l m → TriesAgree R (f a) (g a) l m) :
    TriesAgree R (x >>= f) (y >>= g) l m := by
  refine @Agrees.bind _ _ _ _ _ _ _ _ (ExceptT.bindCont f) (ExceptT.bindCont g) hx ?_
  intro r l m h
  cases r with
  | ok a => exact hf a l m h
  | error e => exact ⟨rfl, h⟩

theorem ite_bind {c : Prop} [Decidable c] {x y : ExceptT ε (StateM σ) PUnit}
    {f g : PUnit → ExceptT ε (StateM σ) γ} (hx : TriesAgree R x y l m) (h : R l m)
    (hf : ∀ l m, R l m → TriesAgree R (f ⟨⟩) (g ⟨⟩) l m) :
    TriesAgree R (if c then x >>= f else f ⟨⟩) (if c then y >>= g else g ⟨⟩) l m := by
  split
  · exact bind hx fun _ l m h => hf l m h
  · exact hf l m h

theorem ofExcept (x : Except ε β) (h : R l m) :
    TriesAgree R (liftM x : ExceptT ε (StateM σ) β) (liftM x) l m := by
  cases x with
  | ok a => exact ⟨rfl, h⟩
  | error e => exact ⟨rfl, h⟩

theorem ofExcept_bind {x : Except ε β} {f g : β → ExceptT ε (StateM σ) γ} (h : R l m)
    (hf : ∀ a, x = .ok a → TriesAgree R (f a) (g a) l m) :
    TriesAgree R ((liftM x : ExceptT ε (StateM σ) β) >>= f) (liftM x >>= g) l m := by
  cases x with
  | ok a =>
    have hrest := hf a rfl
    exact ⟨hrest.result, hrest.ends⟩
  | error e => exact ⟨rfl, h⟩

end TriesAgree

theorem TriesAgree.caught_bind {α : Type} {R S : Live α → Live α → Prop} {l m : Live α}
    {x y : Attempt α β} {f g : Except Refusal β → Attempt α γ} (hx : TriesAgree S x y l m)
    (hf : ∀ r l m, S l m → TriesAgree R (f r) (g r) l m) :
    TriesAgree R (caught x >>= f) (caught y >>= g) l m := by
  have h : Agrees R (x.run >>= fun r => (f r).run) (y.run >>= fun r => (g r).run) l m :=
    Agrees.bind_of hx hf
  exact ⟨h.result, h.ends⟩

end DeckDuel
