/-
DeckDuel.Proofs.Provenance — where an effect comes from changes nothing.

A context tells two kinds of things. What units read is the target, the
card in play and the energy before it was paid. The rest is bookkeeping:
the moment, the status, the ability or the relic that set the effect
off. Only the origin of a unit that was left out is told from it.

* `Context.attributed` — the context with other bookkeeping.
* `Event.anonymous`, `Note.anonymous` — an event or a note without the
  origin that it names.
* `Tolerance.anonymous` — runs may differ in the origins that they name.
* `Setting.execute_attributed` — they differ in nothing else, however
  deep the texts go that a text sets off.
-/
import DeckDuel.Proofs.Reentrance

namespace DeckDuel

variable {α : Type}

/-! ## Bookkeeping -/

/-- The context of an effect that another moment, status, ability or
relic set off. -/
def Context.attributed (c : Context α) (trigger : Option String) (status : Option StatusSource)
    (ability : Option String) (relic : Bool) : Context α :=
  { c with trigger := trigger, status := status, ability := ability, relic := relic }

/-- The event without the origin that it names. -/
def Event.anonymous : Event α → Event α
  | .skipped raw reason _ => .skipped raw reason none
  | e => e

/-- The note without the origin that it names. -/
def Note.anonymous : Note α → Note α
  | .event e => .event e.anonymous
  | n => n

/-- The entry without the origin that it names. -/
def Entry.anonymous (e : Entry α) : Entry α := { e with note := e.note.anonymous }

/-- What is told from the origin is told from it alone. -/
theorem Entry.event?_anonymous (e : Entry α) :
    e.anonymous.event? = e.event?.map Event.anonymous := by
  obtain ⟨note, depth, battle⟩ := e
  cases note <;> rfl

/-- The journal tells the events, and the anonymous journal the
anonymous events. -/
theorem Live.map_anonymous_events (l : Live α) :
    l.events.map Event.anonymous =
      ((l.journal.map Entry.anonymous).filterMap Entry.event?).reverse := by
  have hevents : (l.journal.map Entry.anonymous).filterMap Entry.event? =
      (l.journal.filterMap Entry.event?).map Event.anonymous := by
    rw [List.filterMap_map, List.map_filterMap]
    exact congrFun (congrArg List.filterMap (funext Entry.event?_anonymous)) l.journal
  rw [hevents, Live.events, List.map_reverse]

variable [Scalar α]

/-! ## Runs that name different origins -/

namespace Tolerance

/-- Runs may differ in the origins that they name. -/
def anonymous (catalog : Catalog) : Tolerance α catalog where
  memo := Eq
  look := Note.anonymous
  parse := (none catalog).parse

variable {catalog : Catalog}

theorem seen_anonymous (e : Entry α) : (anonymous catalog).seen e = e.anonymous := rfl

/-- Units read no bookkeeping. -/
theorem Meets.attributed (c : Context α) (trigger : Option String) (status : Option StatusSource)
    (ability : Option String) (relic : Bool) :
    (anonymous catalog).Meets c (c.attributed trigger status ability relic) :=
  ⟨rfl, rfl, rfl, fun _ _ => rfl⟩

theorem Alike.anonymous_refl (l : Live α) : (anonymous catalog).Alike l.depth l l :=
  ⟨rfl, rfl, rfl, rfl, rfl, rfl, rfl, rfl⟩

end Tolerance

open Tolerance

/-- **Bookkeeping never influences a battle.** Run twice from one state,
in contexts that differ in the moment, the status, the ability or the
relic that is said to have set it off, a text comes to the same: it is
refused or not alike, the battles are the same, and so is everything
else that is kept while effects run. The two journals tell the same
events and notes, those of all texts that were set off among them, but
for the origins of the units that were left out. -/
theorem Setting.execute_attributed (s : Setting α) (text : String) (me : Side) (l : Live α)
    (c : Context α) (trigger : Option String) (status : Option StatusSource)
    (ability : Option String) (relic : Bool) :
    let r := (s.execute text me c).run.run l
    let r' := (s.execute text me (c.attributed trigger status ability relic)).run.run l
    r'.1 = r.1 ∧ r'.2.battle = r.2.battle ∧
      r'.2.events.map Event.anonymous = r.2.events.map Event.anonymous ∧
      r'.2.journal.map Entry.anonymous = r.2.journal.map Entry.anonymous ∧
      r'.2 = { r.2 with journal := r'.2.journal } := by
  intro r r'
  have hruns : TriesAgree ((anonymous s.catalog).Alike l.depth) (s.execute text me c)
      (s.execute text me (c.attributed trigger status ability relic)) l l :=
    sameRuns_execute text me (.attributed c trigger status ability relic) (.anonymous_refl l)
  have hends : (anonymous s.catalog).Alike l.depth r.2 r'.2 := hruns.ends
  have hjournal : r'.2.journal.map Entry.anonymous = r.2.journal.map Entry.anonymous := by
    have hlook : (anonymous s.catalog).seen = Entry.anonymous (α := α) := funext seen_anonymous
    rw [← hlook]
    exact hends.journal
  refine ⟨hruns.result, hends.battle, ?_, hjournal, ?_⟩
  · rw [Live.map_anonymous_events, Live.map_anonymous_events, hjournal]
  · exact Live.mk.injEq .. ▸ ⟨hends.battle, hends.right.trans hends.left.symm, hends.overflowing,
      hends.abilitiesMade, hends.questions, Eq.symm hends.memo, rfl⟩

end DeckDuel
