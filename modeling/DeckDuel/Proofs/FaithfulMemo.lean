/-
DeckDuel.Proofs.FaithfulMemo — a memo changes nothing.

* `Memo.Faithful` — every text that a memo knows is kept as it reads.
  The empty memo is faithful, and asking a faithful one gives what
  reading gives and leaves it faithful.
* `Tolerance.faithful` — runs may differ in faithful memos.
* `Setting.faithful_runClause`, `Setting.faithful_runWithin` — units
  and texts leave a faithful memo.
-/
import DeckDuel.Proofs.Lockstep

namespace DeckDuel

variable {α : Type} [Scalar α] {catalog : Catalog}

/-- Every text that a memo knows is kept as it reads. -/
def Memo.Faithful (catalog : Catalog) (m : Memo α) : Prop :=
  ∀ text units, m.entries.lookup text = some units → units = Effect.parseEffect catalog text

theorem Memo.faithful_empty (catalog : Catalog) : (Memo.empty : Memo α).Faithful catalog := by
  intro text units h
  cases h

/-- A faithful memo gives what reading gives, and stays faithful. -/
theorem Memo.Faithful.parse {m : Memo α} (h : m.Faithful catalog) (text : String) :
    (m.parse catalog text).1 = Effect.parseEffect catalog text ∧
      (m.parse catalog text).2.Faithful catalog := by
  unfold Memo.parse
  split
  · next units hknown => exact ⟨h text units hknown, h⟩
  · refine ⟨rfl, fun other units hlookup => ?_⟩
    rw [List.lookup_cons] at hlookup
    split at hlookup
    · next hsame =>
      cases hlookup
      rw [eq_of_beq hsame]
    · exact h other units hlookup

namespace Tolerance

/-- Runs may differ in faithful memos. -/
def faithful (catalog : Catalog) : Tolerance α catalog :=
  .inMemos (fun a b => a.Faithful catalog ∧ b.Faithful catalog) fun a b h text => by
    obtain ⟨hunits, ha⟩ := h.1.parse text
    obtain ⟨hunits', hb⟩ := h.2.parse text
    exact ⟨hunits'.trans hunits.symm, ha, hb⟩

theorem Alike.faithful_refl {l : Live α} (h : l.memo.Faithful catalog) :
    (faithful catalog).Alike l.depth l l :=
  ⟨rfl, rfl, rfl, rfl, rfl, rfl, ⟨h, h⟩, rfl⟩

end Tolerance

open Tolerance

namespace Setting

variable {s : Setting α} {l : Live α}

theorem faithful_reportFaults (ctx : Context α) (units : List (Reading α))
    (h : l.memo.Faithful s.catalog) :
    ((reportFaults ctx units).run l).2.memo.Faithful s.catalog := by
  have hsame : Agrees ((faithful s.catalog).Alike l.depth) (reportFaults ctx units)
      (reportFaults ctx units) l l :=
    agrees_reportFaults units (.refl ctx) (.faithful_refl h)
  exact hsame.ends.memo.1

theorem faithful_runClause (levels : Nat) (c : Clause α) (me : Side) (ctx : Context α)
    (h : l.memo.Faithful s.catalog) :
    (((s.running (s.runWithin levels)).runClause c me ctx).run.run l).2.memo.Faithful
      s.catalog := by
  have hruns : (faithful s.catalog).SameRuns l.depth (s.runWithin levels) (s.runWithin levels) :=
    sameRuns_runWithin levels
  exact (Scene.triesAgree_runClause hruns c me (.refl ctx) (.faithful_refl h)).ends.memo.1

theorem faithful_runWithin (levels : Nat) (text : String) (me : Side) (ctx : Context α)
    (h : l.memo.Faithful s.catalog) :
    ((s.runWithin levels text me ctx).run.run l).2.memo.Faithful s.catalog := by
  have hruns : (faithful s.catalog).SameRuns l.depth (s.runWithin levels) (s.runWithin levels) :=
    sameRuns_runWithin levels
  exact (hruns text me (.refl ctx) (.faithful_refl h)).ends.memo.1

end Setting
end DeckDuel
