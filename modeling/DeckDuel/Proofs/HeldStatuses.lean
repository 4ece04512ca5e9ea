/-
DeckDuel.Proofs.HeldStatuses — held statuses stay well formed.

* `Codex.Fits` — no id is held twice, and every held status is defined
  and within its cap.
* `Codex.Allows` — the same, and every held status has stacks.
* `FighterEntry.allows_load` — loading drops what is not allowed.
* `Battle.keeps_allows` — gaining, losing and changing statuses keep to
  it, and nothing else touches them.
* `Session.statuses_allowed` — so a loaded battle keeps to it in every
  run.
-/
import DeckDuel.Proofs.Call

namespace DeckDuel

variable {α : Type}

/-! ## Other stacks -/

namespace Fighter

/-- Other stacks change no id. -/
theorem map_id_setStacks (f : Fighter α) (id : String) (stackCount : Nat) :
    (f.setStacks id stackCount).statuses.map HeldStatus.id = f.statuses.map HeldStatus.id := by
  unfold setStacks
  split
  · next i _ =>
    refine List.ext_getElem? fun j => ?_
    simp only [List.getElem?_map, List.getElem?_modify]
    cases f.statuses[j]? with
    | none => rfl
    | some s => by_cases hj : i = j <;> simp [hj]
  · rfl

/-- Each status is one that was held, or has the id and the stacks that
were asked for. -/
theorem mem_setStacks (f : Fighter α) {id : String} {stackCount : Nat} {s : HeldStatus}
    (hs : s ∈ (f.setStacks id stackCount).statuses) :
    s ∈ f.statuses ∨
      ∃ t ∈ f.statuses, t.id = s.id ∧ s.id = id ∧ s.stackCount = stackCount := by
  unfold setStacks at hs
  split at hs
  · next i hi =>
    obtain ⟨hlt, hid, -⟩ := List.findIdx?_eq_some_iff_getElem.mp hi
    obtain ⟨j, hj, rfl⟩ := List.getElem_of_mem hs
    rw [List.getElem_modify]
    by_cases hij : i = j
    · subst hij
      rw [if_pos rfl]
      exact .inr ⟨_, List.getElem_mem hlt, rfl, by simpa using hid, rfl⟩
    · rw [if_neg hij]
      exact .inl (List.getElem_mem _)
  · exact .inl hs

end Fighter

/-! ## Well-formed lists of statuses -/

namespace Codex

/-- What may be held with a codex and a standard stack cap, statuses
without stacks included. -/
structure Fits (c : Codex α) (maxStacks : Nat) (held : List HeldStatus) : Prop where
  /-- No id is held twice. -/
  distinct : (held.map HeldStatus.id).Nodup
  /-- Every status is defined and within its cap. -/
  capped : ∀ h ∈ held, ∃ d, c.get? h.id = some d ∧ h.stackCount ≤ d.stackCap maxStacks

/-- What may be held. -/
structure Allows (c : Codex α) (maxStacks : Nat) (held : List HeldStatus) : Prop
    extends Fits c maxStacks held where
  /-- Every status has stacks. -/
  positive : ∀ h ∈ held, 0 < h.stackCount

variable {c : Codex α} {maxStacks : Nat} {held : List HeldStatus}

theorem fits_nil (c : Codex α) (maxStacks : Nat) : Fits c maxStacks [] := ⟨.nil, by simp⟩

theorem Fits.sublist (h : Fits c maxStacks held) {kept : List HeldStatus}
    (hkept : kept.Sublist held) : Fits c maxStacks kept :=
  ⟨h.distinct.sublist (hkept.map _), fun s hs => h.capped s (hkept.subset hs)⟩

theorem Allows.sublist (h : Allows c maxStacks held) {kept : List HeldStatus}
    (hkept : kept.Sublist held) : Allows c maxStacks kept :=
  ⟨h.toFits.sublist hkept, fun s hs => h.positive s (hkept.subset hs)⟩

/-- A status that is not held comes to those that are. -/
theorem Fits.append (h : Fits c maxStacks held) {d : StatusDefinition α} {stackCount : Nat}
    (hdefined : c.get? d.id = some d) (hcapped : stackCount ≤ d.stackCap maxStacks)
    (hfree : d.id ∉ held.map HeldStatus.id) :
    Fits c maxStacks (held ++ [.ofDefinition d stackCount]) := by
  constructor
  · rw [List.map_append, List.nodup_append]
    refine ⟨h.distinct, by simp, ?_⟩
    intro a ha b hb heq
    have hid : b = d.id := List.mem_singleton.mp hb
    exact hfree (hid ▸ heq ▸ ha)
  · intro s hs
    rcases List.mem_append.mp hs with hs | hs
    · exact h.capped s hs
    · obtain rfl := List.mem_singleton.mp hs
      exact ⟨d, hdefined, hcapped⟩

/-- A status that has no stacks is not held. -/
theorem Allows.not_mem {f : Fighter α} (h : Allows c maxStacks f.statuses) {id : String}
    (hfree : f.stacksOf id = 0) : id ∉ f.statuses.map HeldStatus.id := by
  intro hmem
  obtain ⟨s, hs, hid⟩ := List.mem_map.mp hmem
  cases hfind : f.status? id with
  | none =>
    have hnone := List.find?_eq_none.mp hfind s hs
    simp [hid] at hnone
  | some t =>
    have hpositive := h.positive t (List.mem_of_find?_eq_some hfind)
    simp only [Fighter.stacksOf, hfind] at hfree
    omega

/-- Other stacks, within the cap, for a status that is held. -/
theorem Allows.setStacks {f : Fighter α} (h : Allows c maxStacks f.statuses) {id : String}
    {stackCount : Nat} (hpositive : 0 < stackCount)
    (hcapped : ∀ d, c.get? id = some d → stackCount ≤ d.stackCap maxStacks) :
    Allows c maxStacks (f.setStacks id stackCount).statuses := by
  refine ⟨⟨?_, ?_⟩, ?_⟩
  · rw [f.map_id_setStacks]
    exact h.distinct
  · intro s hs
    rcases f.mem_setStacks hs with hs | ⟨t, ht, htid, hid, hcount⟩
    · exact h.capped s hs
    · obtain ⟨d, hd, -⟩ := h.capped t ht
      rw [htid, hid] at hd
      exact ⟨d, hid ▸ hd, hcount ▸ hcapped d hd⟩
  · intro s hs
    rcases f.mem_setStacks hs with hs | ⟨_, _, _, _, hcount⟩
    · exact h.positive s hs
    · exact hcount ▸ hpositive

end Codex

/-! ## Loading -/

theorem Codex.Fits.load {c : Codex α} {maxStacks : Nat} {held : List HeldStatus}
    (h : c.Fits maxStacks held) (e : StatusEntry) :
    c.Fits maxStacks (loadStatus c maxStacks held e) := by
  unfold loadStatus
  split
  · exact h
  · next d hd =>
    have hid : d.id = e.id := by simpa using List.find?_some hd
    split
    · exact h
    · next hnew =>
      refine h.append (hid ▸ hd) (Nat.min_le_right _ _) ?_
      intro hmem
      obtain ⟨s, hs, hsid⟩ := List.mem_map.mp hmem
      simp only [Bool.or_eq_true, List.any_eq_true, beq_iff_eq, not_or, not_exists] at hnew
      exact hnew.2 s ⟨hs, hsid.trans hid⟩

variable [Scalar α]

/-- Of the statuses that are stored, those are loaded that may be
held. -/
theorem FighterEntry.allows_load (e : FighterEntry α) (c : Codex α) (maxStacks : Nat) :
    c.Allows maxStacks (e.load c maxStacks).statuses := by
  have hfits (entries : List StatusEntry) {held : List HeldStatus} (h : c.Fits maxStacks held) :
      c.Fits maxStacks (entries.foldl (loadStatus c maxStacks) held) := by
    induction entries generalizing held with
    | nil => exact h
    | cons e rest ih => exact ih (h.load e)
  refine ⟨(hfits e.statuses (c.fits_nil maxStacks)).sublist List.filter_sublist, ?_⟩
  intro s hs
  have hpositive := (List.mem_filter.mp hs).2
  simpa using hpositive

/-! ## Battles -/

namespace Battle

/-- The statuses of both sides may be held. -/
def Allowed (s : Setting α) (b : Battle α) : Prop :=
  ∀ side, s.codex.Allows s.rules.defaultMaxStacks (b.fighter side).statuses

omit [Scalar α] in
theorem Allowed.setFighter {s : Setting α} {b : Battle α} (h : b.Allowed s) (side : Side)
    {f : Fighter α} (hf : s.codex.Allows s.rules.defaultMaxStacks f.statuses) :
    (b.setFighter side f).Allowed s :=
  forall_setFighter (P := fun f => s.codex.Allows s.rules.defaultMaxStacks f.statuses) b side hf h

omit [Scalar α] in
/-- A cap that lets a held status have stacks does not cut them all
off. -/
theorem Allowed.min_stackCap_pos {s : Setting α} {b : Battle α} (h : b.Allowed s) {side : Side}
    {id : String} {stackCount : Nat} (hheld : ((b.fighter side).statusIndex? id).isSome)
    (hpositive : 0 < stackCount) : 0 < min stackCount (s.stackCap id) := by
  obtain ⟨i, hi⟩ := Option.isSome_iff_exists.mp hheld
  obtain ⟨hlt, hid, -⟩ := List.findIdx?_eq_some_iff_getElem.mp hi
  have hmem := List.getElem_mem hlt
  obtain ⟨d, hd, hcap⟩ := (h side).capped _ hmem
  have hstacks := (h side).positive _ hmem
  rw [eq_of_beq hid] at hd
  simp only [Setting.stackCap, hd]
  omega

theorem keeps_allowed (s : Setting α) : Keeps s (Allowed s) where
  change {_ b _} h hb := by
    cases h with
    | cards => exact hb
    | attachments _ side f _ kept | numbers _ side f kept =>
      exact hb.setFighter side ((hb side).sublist kept)
    | gain _ side d n defined positive capped free =>
      refine hb.setFighter side ⟨?_, ?_⟩
      · exact (hb side).toFits.append defined capped ((hb side).not_mem free)
      · intro t ht
        rcases List.mem_append.mp ht with ht | ht
        · exact (hb side).positive t ht
        · obtain rfl := List.mem_singleton.mp ht
          exact positive
    | restack _ side id n held positive =>
      have hpositive := hb.min_stackCap_pos held positive
      refine hb.setFighter side ((hb side).setStacks hpositive ?_)
      intro d hd
      simp only [Setting.stackCap, hd]
      exact Nat.min_le_right _ _
    | dropBlock _ side => exact hb.setFighter side (hb side)
    | pay | refill | aside | energy | mark => exact hb
  verdict _ _ hb := hb

end Battle

/-- **Held statuses stay well formed.** A stored battle is loaded and a
host calls for anything, in any order: after all calls, and at every
note of the journal, each side holds statuses with different ids, which
are defined and have stacks, up to their caps. -/
theorem Session.statuses_allowed (snap : Snapshot α) (rules : Rules) (chooser : Chooser α)
    (catalog : Catalog) (calls : List (Call α)) :
    Live.Holds (fun b => ∀ side,
        snap.codex.Allows rules.defaultMaxStacks (b.fighter side).statuses) []
      ((Session.loadWith snap rules chooser catalog).afterAll calls).live := by
  refine (Session.loadWith snap rules chooser catalog).holds_afterAll calls
    (Battle.keeps_allowed _) ?_
  intro side
  cases side with
  | player => exact snap.player.allows_load _ _
  | enemy => exact snap.enemy.allows_load _ _

end DeckDuel
