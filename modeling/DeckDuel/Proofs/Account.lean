/-
DeckDuel.Proofs.Account — what a listener makes of the events.

* `Account` — a record that is kept from events alone: when it is right
  about a battle, which events do not contradict it, and what each makes
  of it. `Account.Fits`, `Account.replay` — the same for many events.
* `Account.Tells` — from every record that is right about a battle, the
  events fit and lead to one that is right about the next.
* `Battle.Told.tells` — along changes with their events it is enough to
  look at one change. `Live.Heard.tells` — so it is for a stretch of a
  run.
-/
import DeckDuel.Proofs.Call

namespace DeckDuel

variable {α β : Type}

/-- A record that is kept from events. -/
structure Account (α β : Type) where
  /-- The record is right about a battle. -/
  shows : Battle α → β → Prop
  /-- The event does not contradict the record. -/
  fits : β → Event α → Prop
  /-- The record after an event. -/
  next : β → Event α → β

namespace Account

/-- No event contradicts the record as it is by then. -/
def Fits (a : Account α β) : β → List (Event α) → Prop
  | _, [] => True
  | v, e :: es => a.fits v e ∧ a.Fits (a.next v e) es

instance decidableFits (a : Account α β) [∀ v e, Decidable (a.fits v e)] :
    ∀ v es, Decidable (a.Fits v es)
  | _, [] => inferInstanceAs (Decidable True)
  | v, e :: es =>
    have := decidableFits a (a.next v e) es
    inferInstanceAs (Decidable (a.fits v e ∧ a.Fits (a.next v e) es))

/-- The record after events. -/
def replay (a : Account α β) (v : β) (es : List (Event α)) : β := es.foldl a.next v

variable {a : Account α β} {b c d : Battle α} {es es' : List (Event α)} {v : β}

theorem replay_append (a : Account α β) (v : β) (es es' : List (Event α)) :
    a.replay v (es ++ es') = a.replay (a.replay v es) es' :=
  List.foldl_append

theorem fits_append : a.Fits v (es ++ es') ↔ a.Fits v es ∧ a.Fits (a.replay v es) es' := by
  induction es generalizing v with
  | nil => exact (true_and _).symm.to_iff
  | cons e es ih => exact (and_congr_right fun _ => ih).trans and_assoc.symm

/-- The event says nothing to the record. -/
def Ignores (a : Account α β) (e : Event α) : Prop := ∀ v, a.fits v e ∧ a.next v e = v

theorem fits_of_ignores (h : ∀ e ∈ es, a.Ignores e) (v : β) : a.Fits v es ∧ a.replay v es = v := by
  induction es with
  | nil => exact ⟨trivial, rfl⟩
  | cons e es ih =>
    obtain ⟨he, hes⟩ := List.forall_mem_cons.mp h
    obtain ⟨hfits, hnext⟩ := he v
    obtain ⟨hrest, hreplay⟩ := ih hes
    exact ⟨⟨hfits, hnext.symm ▸ hrest⟩, (congrArg (es.foldl a.next) hnext).trans hreplay⟩

/-! ## Telling -/

/-- The events lead from every record that is right about the one battle
to a record that is right about the other, without contradiction. -/
def Tells (a : Account α β) (b : Battle α) (es : List (Event α)) (c : Battle α) : Prop :=
  ∀ v, a.shows b v → a.Fits v es ∧ a.shows c (a.replay v es)

theorem Tells.append (h : a.Tells b es c) (h' : a.Tells c es' d) : a.Tells b (es ++ es') d := by
  intro v hv
  obtain ⟨hfits, hshows⟩ := h v hv
  obtain ⟨hfits', hshows'⟩ := h' _ hshows
  refine ⟨fits_append.mpr ⟨hfits, hfits'⟩, ?_⟩
  rw [replay_append]
  exact hshows'

/-- The record is about nothing that changed. -/
theorem tells_of_ignores (h : ∀ e ∈ es, a.Ignores e) (hshows : ∀ v, a.shows b v → a.shows c v) :
    a.Tells b es c := by
  intro v hv
  obtain ⟨hfits, hreplay⟩ := fits_of_ignores h v
  exact ⟨hfits, hreplay.symm ▸ hshows v hv⟩

theorem tells_one {e : Event α} (h : ∀ v, a.shows b v → a.fits v e ∧ a.shows c (a.next v e)) :
    a.Tells b [e] c := by
  intro v hv
  obtain ⟨hfits, hshows⟩ := h v hv
  exact ⟨⟨hfits, trivial⟩, hshows⟩

end Account

/-! ## Reports -/

theorem mem_movedReport {uids : List Nat} {goal : Pile} {e : Event α}
    (h : e ∈ movedReport uids goal) : e = .cardsMoved uids goal := by
  unfold movedReport at h
  split at h
  · cases h
  · exact List.mem_singleton.mp h

variable [Scalar α]

theorem Gauge.mem_report {g : Gauge} {x y : α} {e : Event α} (h : e ∈ g.report x y) :
    e = .attributeChanged g.side g.name x y := by
  unfold Gauge.report at h
  split at h
  · cases h
  · exact List.mem_singleton.mp h

namespace Account

variable {a : Account α β}

omit [Scalar α] in
/-- A record that no moved card matters to. -/
theorem ignores_moved (h : ∀ uids goal, a.Ignores (.cardsMoved uids goal)) (uids : List Nat)
    (goal : Pile) : ∀ e ∈ movedReport uids goal, a.Ignores e := by
  intro e he
  rw [mem_movedReport he]
  exact h uids goal

omit [Scalar α] in
theorem ignores_drawn (h : ∀ uids goal, a.Ignores (.cardsMoved uids goal)) (d : Drawn) :
    ∀ e ∈ d.report, a.Ignores e :=
  List.forall_mem_append.mpr ⟨ignores_moved h d.toHand .hand, ignores_moved h d.burned .discard⟩

/-- A record that no number matters to. -/
theorem ignores_report (h : ∀ side name x y, a.Ignores (.attributeChanged side name x y))
    (g : Gauge) (x y : α) : ∀ e ∈ g.report x y, a.Ignores e := by
  intro e he
  rw [Gauge.mem_report he]
  exact h g.side g.name x y

end Account

/-! ## Runs -/

variable {s : Setting α} {turns : Bool} {a : Account α β} {I : Battle α → Prop}

/-- What one change with its events keeps and tells, many do. -/
theorem Battle.Told.tells {b c : Battle α} {es : List (Event α)} (h : Battle.Told s turns b es c)
    (hstep : ∀ {b es c}, Battle.Reported s turns b es c → I b → I c ∧ a.Tells b es c)
    (hb : I b) : I c ∧ a.Tells b es c := by
  induction h with
  | nil b => exact ⟨hb, fun v hv => ⟨trivial, hv⟩⟩
  | one h => exact hstep h hb
  | append _ _ ih₁ ih₂ =>
    obtain ⟨hc, hfirst⟩ := ih₁ hb
    obtain ⟨hd, hrest⟩ := ih₂ hc
    exact ⟨hd, hfirst.append hrest⟩

/-- The events of a stretch of a run tell of it. -/
theorem Live.Heard.tells {l m : Live α} (h : Live.Heard s turns l m)
    (hstep : ∀ {b es c}, Battle.Reported s turns b es c → I b → I c ∧ a.Tells b es c)
    (hl : I l.battle) : a.Tells l.battle (m.events.drop l.events.length) m.battle := by
  obtain ⟨es, hevents, htold⟩ := h
  rw [hevents, List.drop_left]
  exact (htold.tells hstep hl).2

end DeckDuel
