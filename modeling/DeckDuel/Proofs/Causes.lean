/-
DeckDuel.Proofs.Causes — what attempts are refused for.

* `Refusal.isPlain` — the causes that lie in the battle and in the value
  of a unit, and not in its attribute, its target or its operation. The
  checks of values and of results are refused for these only
  (`…_plain`).
* `Raises P x` — wherever it starts, `x` is refused for causes with `P`
  only.
-/
import DeckDuel.Proofs.Refuses

namespace DeckDuel

variable {α : Type}

/-- Causes that lie in the battle or in the value of a unit. -/
def Refusal.isPlain : Refusal → Bool
  | .unknownStatus _ | .statusNotHeld .. | .invalidValue _ | .emptyPile _ => true
  | .unknownAttribute _ | .missingTarget _ | .unexpandedAll _ | .unsupportedOperator ..
  | .nestingLimit _ => false

/-- Plain causes end no text. -/
theorem Refusal.isFatal_of_isPlain {r : Refusal} (h : r.isPlain = true) : r.isFatal = false := by
  cases r with
  | nestingLimit limit => cases h
  | _ => rfl

/-- Wherever it starts, `x` is refused for causes with `P` only. -/
def Raises {β : Type} (P : Refusal → Prop) (x : Attempt α β) : Prop :=
  ∀ l, Refuses (fun r _ => P r) x l

namespace Raises

variable {β γ : Type} {P : Refusal → Prop}

theorem pure (a : β) : Raises P (pure a : Attempt α β) := fun _ => Refuses.pure a

theorem throw {r : Refusal} (h : P r) : Raises P (throw r : Attempt α β) := fun _ => Refuses.throw h

theorem lift (x : Play α β) : Raises P (liftM x : Attempt α β) := fun _ => Refuses.lift x

theorem modify (g : Live α → Live α) : Raises P (modify g : Attempt α PUnit) :=
  fun _ => Refuses.modify g

theorem ofExcept {x : Except Refusal β} (h : ∀ r, x = .error r → P r) :
    Raises P (liftM x : Attempt α β) := fun _ => Refuses.ofExcept h

theorem get_bind {f : Live α → Attempt α β} (h : ∀ l, Raises P (f l)) : Raises P (get >>= f) :=
  fun l => Refuses.get_bind (h l l)

theorem bind {x : Attempt α β} {f : β → Attempt α γ} (hx : Raises P x) (hf : ∀ a, Raises P (f a)) :
    Raises P (x >>= f) :=
  fun l => Refuses.bind (hx l) fun a t _ => hf a t

theorem mono {Q : Refusal → Prop} {x : Attempt α β} (h : Raises P x) (hPQ : ∀ r, P r → Q r) :
    Raises Q x :=
  fun l => (h l).mono fun r _ => hPQ r

end Raises

/-! ## Checks -/

variable [Scalar α]

theorem Clause.value_plain {c : Clause α} {scope : Scope α} {r : Refusal}
    (h : c.value scope = .error r) : r.isPlain = true := by
  unfold Clause.value at h
  split at h
  · cases h
  · split at h <;> cases h
    rfl
  · cases h
  · cases h
    rfl
  · cases h
    rfl

theorem ordinary_plain {x : α} {r : Refusal} (h : ordinary x = .error r) : r.isPlain = true := by
  unfold ordinary at h
  split at h <;> cases h
  rfl

theorem Arith.result_plain {op : Arith} {current x : α} {r : Refusal}
    (h : op.result current x = .error r) : r.isPlain = true := by
  unfold Arith.result at h
  split at h <;> cases h
  rfl

theorem Piles.changeCosts_plain {op : Arith} {x : α} {uids : List Nat} {ps : Piles α} {r : Refusal}
    (h : (ps.changeCosts op x uids).1 = some r) : r.isPlain = true := by
  induction uids generalizing ps with
  | nil => cases h
  | cons uid rest ih =>
    simp only [Piles.changeCosts] at h
    split at h
    · exact ih h
    · split at h
      · next hr =>
        cases h
        exact Arith.result_plain hr
      · exact ih h

end DeckDuel
