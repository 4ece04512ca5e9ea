/-
DeckDuel.Proofs.Leads — where the steps of a running battle lead.

* `Leads R x s` — running `x` from `s` ends in a state that `R` relates
  to `s`; for an attempt, whether it is refused or not.
* `Ends Q x s` — it ends in a state with `Q`, wherever it started; so
  what each step may count on is what the one before it ended in.
-/
import DeckDuel.Session
import Mathlib.Order.Defs.Unbundled

namespace DeckDuel

variable {σ β γ ε : Type} {R : σ → σ → Prop}

/-- Running `x` from `s` ends in a state that `R` relates to `s`. -/
def Leads (R : σ → σ → Prop) (x : StateM σ β) (s : σ) : Prop := R s (x.run s).2

/-- The same for an attempt, refused or not. -/
def Tries (R : σ → σ → Prop) (x : ExceptT ε (StateM σ) β) (s : σ) : Prop := Leads R x.run s

namespace Leads

theorem modify {s : σ} {f : σ → σ} (h : R s (f s)) : Leads R (modify f) s := h

theorem modifyGet {s : σ} {f : σ → β × σ} (h : R s (f s).2) :
    Leads R (modifyGet f : StateM σ β) s := h

theorem get_bind {s : σ} {f : σ → StateM σ β} (h : Leads R (f s) s) :
    Leads R (get >>= f) s := h

variable [IsPreorder σ R]

theorem pure (a : β) (s : σ) : Leads R (pure a : StateM σ β) s := refl_of R s

theorem bind {s : σ} {x : StateM σ β} {f : β → StateM σ γ} (hx : Leads R x s)
    (hf : ∀ a t, Leads R (f a) t) : Leads R (x >>= f) s :=
  trans_of R hx (hf _ _)

/-- A step that is left out unless a condition holds, and what follows
in either case. -/
theorem ite_bind {s : σ} {c : Prop} [Decidable c] {x : StateM σ PUnit} {f : PUnit → StateM σ γ}
    (hx : Leads R x s) (hf : ∀ t, Leads R (f ⟨⟩) t) :
    Leads R (if c then x >>= f else f ⟨⟩) s := by
  split
  · exact bind hx fun _ t => hf t
  · exact hf s

end Leads

namespace Tries

theorem modify {s : σ} {f : σ → σ} (h : R s (f s)) :
    Tries R (modify f : ExceptT ε (StateM σ) PUnit) s := h

theorem get_bind {s : σ} {f : σ → ExceptT ε (StateM σ) β} (h : Tries R (f s) s) :
    Tries R (get >>= f) s := h

theorem lift {s : σ} {x : StateM σ β} (h : Leads R x s) :
    Tries R (liftM x : ExceptT ε (StateM σ) β) s := h

variable [IsPreorder σ R]

theorem pure (a : β) (s : σ) : Tries R (pure a : ExceptT ε (StateM σ) β) s := refl_of R s

theorem throw (e : ε) (s : σ) : Tries R (throw e : ExceptT ε (StateM σ) β) s := refl_of R s

theorem bind {s : σ} {x : ExceptT ε (StateM σ) β} {f : β → ExceptT ε (StateM σ) γ}
    (hx : Tries R x s) (hf : ∀ a t, Tries R (f a) t) : Tries R (x >>= f) s := by
  refine @Leads.bind _ _ _ _ _ _ _ (ExceptT.bindCont f) hx fun r t => ?_
  cases r with
  | ok a => exact hf a t
  | error e => exact refl_of R t

/-- What is handed on is known to what follows. -/
theorem modifyGet_bind {s : σ} {g : σ → β × σ} {f : β → ExceptT ε (StateM σ) γ} (hg : R s (g s).2)
    (hf : Tries R (f (g s).1) (g s).2) :
    Tries R ((modifyGet g : ExceptT ε (StateM σ) β) >>= f) s :=
  trans_of R hg hf

theorem ite_bind {s : σ} {c : Prop} [Decidable c] {x : ExceptT ε (StateM σ) PUnit}
    {f : PUnit → ExceptT ε (StateM σ) γ} (hx : Tries R x s) (hf : ∀ t, Tries R (f ⟨⟩) t) :
    Tries R (if c then x >>= f else f ⟨⟩) s := by
  split
  · exact bind hx fun _ t => hf t
  · exact hf s

theorem ofExcept (x : Except ε β) (s : σ) :
    Tries R (liftM x : ExceptT ε (StateM σ) β) s := by
  cases x with
  | ok a => exact refl_of R s
  | error e => exact refl_of R s

theorem ofExcept_bind {s : σ} {x : Except ε β} {f : β → ExceptT ε (StateM σ) γ}
    (hf : ∀ a, x = .ok a → Tries R (f a) s) :
    Tries R ((liftM x : ExceptT ε (StateM σ) β) >>= f) s := by
  cases x with
  | ok a => exact hf a rfl
  | error e => exact refl_of R s

end Tries

/-! ## Endings -/

section

variable {P Q : σ → Prop} {s : σ}

/-- Running `x` from `s` ends in a state with `Q`. -/
abbrev Ends (Q : σ → Prop) (x : StateM σ β) (s : σ) : Prop := Leads (fun _ t => Q t) x s

/-- The same for an attempt, refused or not. -/
abbrev TriesEnd (Q : σ → Prop) (x : ExceptT ε (StateM σ) β) (s : σ) : Prop :=
  Tries (fun _ t => Q t) x s

namespace Ends

theorem bind {x : StateM σ β} {f : β → StateM σ γ} (hx : Ends P x s)
    (hf : ∀ a t, P t → Ends Q (f a) t) : Ends Q (x >>= f) s := hf _ _ hx

/-- A step that is left out unless a condition holds, and what follows
in either case. -/
theorem ite_bind {c : Prop} [Decidable c] {x : StateM σ PUnit} {f : PUnit → StateM σ γ}
    (hx : Ends P x s) (hs : P s) (hf : ∀ t, P t → Ends Q (f ⟨⟩) t) :
    Ends Q (if c then x >>= f else f ⟨⟩) s := by
  split
  · exact bind hx fun _ t ht => hf t ht
  · exact hf s hs

theorem mono {x : StateM σ β} (h : Ends P x s) (hPQ : ∀ t, P t → Q t) : Ends Q x s := hPQ _ h

end Ends

namespace TriesEnd

theorem modify_bind {g : σ → σ} {f : PUnit → ExceptT ε (StateM σ) β}
    (h : TriesEnd Q (f ⟨⟩) (g s)) :
    TriesEnd Q ((modify g : ExceptT ε (StateM σ) PUnit) >>= f) s := h

/-- What is refused half-way ends there. -/
theorem bind {x : ExceptT ε (StateM σ) β} {f : β → ExceptT ε (StateM σ) γ}
    (hx : TriesEnd P x s) (hPQ : ∀ t, P t → Q t) (hf : ∀ a t, P t → TriesEnd Q (f a) t) :
    TriesEnd Q (x >>= f) s := by
  refine @Ends.bind σ _ _ P Q s x.run (ExceptT.bindCont f) hx fun r t ht => ?_
  cases r with
  | ok a => exact hf a t ht
  | error e => exact hPQ t ht

theorem ofExcept_bind {x : Except ε β} {f : β → ExceptT ε (StateM σ) γ} (hs : Q s)
    (hf : ∀ a, x = .ok a → TriesEnd Q (f a) s) :
    TriesEnd Q ((liftM x : ExceptT ε (StateM σ) β) >>= f) s := by
  cases x with
  | ok a => exact hf a rfl
  | error e => exact hs

end TriesEnd

end

variable {α : Type}

/-- What came of an attempt is known to what follows. -/
theorem Tries.caught_bind {R : Live α → Live α → Prop} [IsPreorder (Live α) R] {x : Attempt α β}
    {f : Except Refusal β → Attempt α γ} {l : Live α} (hx : Tries R x l)
    (hf : ∀ r t, x.run.run l = (r, t) → Tries R (f r) t) : Tries R (caught x >>= f) l :=
  trans_of R hx (hf _ _ rfl)

end DeckDuel
