/-
DeckDuel.Proofs.Fitting — units as their handlers expect them.

* `Attribute.Fits` — the forms that a unit of an attribute may have: each
  with the fields that the handler of its domain looks at.
* `Clause.Fits` — a unit is a branch, or names a built-in attribute that
  its form fits.
* `Effect.fits_of_mem_parseEffect`, `fits_of_mem_plan` — every unit that
  is read fits, and so does every unit that is planned; and what is
  planned acts on one side.
-/
import DeckDuel.Proofs.Nesting

namespace DeckDuel

open DeckDuel.Text

variable {α : Type}

/-- The forms that a unit of an attribute may have. -/
inductive Attribute.Fits (a : Attribute) : Form α → Prop where
  | change (op : Arith) (value : Operand α) (domain : a.domain = .stat ∨ a.domain = .modifier) :
      Fits a (.change op value)
  | stackChange (id : String) (op : Arith) (value : Operand α) (domain : a.domain = .status)
      (name : a.name ≠ "status") : Fits a (.stackChange id op value)
  | apply (id : String) (amount : Option (Operand α)) (duration : Option Nat)
      (domain : a.domain = .status) (name : a.name = "status") : Fits a (.apply id amount duration)
  | remove (id : String) (amount : Option (Operand α)) (duration : Option Nat)
      (domain : a.domain = .status) (name : a.name = "status") : Fits a (.remove id amount duration)
  | grant (trigger text : String) (domain : a.domain = .ability) : Fits a (.grant trigger text)
  | revoke (key : String) (domain : a.domain = .ability) : Fits a (.revoke key)
  /-- Costs are changed; other cards are picked or counted. -/
  | cards (selector : Option Selector) (change : Option (Arith × Operand α))
      (domain : a.domain = .card) (given : selector.isSome ∨ change.isSome)
      (cost : a.name = "cost" → change.isSome) : Fits a (.cards selector change)
  | passive (inner : String) (domain : a.domain = .special) : Fits a (.passive inner)

/-- The form fits the built-in attribute of a name. -/
def Form.FitsName (form : Form α) (name : String) : Prop :=
  ∃ a ∈ Catalog.standard.attributes, name = a.name ∧ a.Fits form

/-- A unit is a branch, or names a built-in attribute that its form
fits. -/
def Clause.Fits (c : Clause α) : Prop := c.form.isBranch = true ∨ c.form.FitsName c.attr

/-! ## Names -/

theorem canonicalName_idem (name : String) : canonicalName (canonicalName name) = canonicalName name := by
  have halias : ∀ p ∈ attributeAliases, canonicalName p.2 = p.2 := by decide
  cases hlookup : attributeAliases.lookup name with
  | none => simp [canonicalName, hlookup]
  | some target =>
    have hname : canonicalName name = target := by simp [canonicalName, hlookup]
    rw [hname]
    obtain ⟨before, after, hmem, -⟩ := List.lookup_eq_some_iff.mp hlookup
    exact halias (name, target) (by rw [hmem]; simp)

/-- An attribute is found under its own name. -/
theorem name_of_get? {catalog : Catalog} {name : String} {a : Attribute}
    (h : catalog.get? (canonicalName name) = some a) :
    a ∈ catalog.attributes ∧ canonicalName name = a.name := by
  have hname : a.name = canonicalName (canonicalName name) := by simpa using List.find?_some h
  exact ⟨List.mem_of_find?_eq_some h, (hname.trans (canonicalName_idem name)).symm⟩

namespace Effect

/-! ## Bodies -/

variable [Scalar α] {a : Attribute}

theorem fits_readStatusVerb (hdomain : a.domain = .status) (hname : a.name = "status")
    (cs : List Char) : Yields (a.Fits (α := α)) (readStatusVerb cs) := by
  unfold readStatusVerb
  refine Yields.bind fun r _ => ?_
  obtain ⟨v, payload⟩ := r
  cases v with
  | apply => exact Yields.bind fun _ _ => .ok (.apply _ _ _ hdomain hname)
  | remove => exact Yields.bind fun _ _ => .ok (.remove _ _ _ hdomain hname)
  | add => exact .error _

theorem fits_readStacks (hdomain : a.domain = .status) (hname : a.name ≠ "status")
    (cs : List Char) : Yields (a.Fits (α := α)) (readStacks cs) := by
  unfold readStacks
  split
  · exact Yields.bind fun _ _ => Yields.bind fun _ _ => .ok (.stackChange _ _ _ hdomain hname)
  · exact .error _

omit [Scalar α] in
theorem fits_readAbilityVerb (hdomain : a.domain = .ability) (cs : List Char) :
    Yields (a.Fits (α := α)) (readAbilityVerb cs) := by
  unfold readAbilityVerb
  refine Yields.bind fun r _ => ?_
  obtain ⟨v, payload⟩ := r
  cases v with
  | add =>
    refine Yields.bind fun r _ => ?_
    dsimp only
    split
    · exact .ok (.grant _ _ hdomain)
    · exact .error _
  | remove =>
    dsimp only
    split
    · exact .error _
    · exact .ok (.revoke _ hdomain)
  | apply => exact .error _

theorem fits_readCards (hdomain : a.domain = .card) (cs : List Char) :
    Yields (a.Fits (α := α)) (readCards a.name cs) := by
  unfold readCards
  refine Yields.bind fun r _ => ?_
  obtain ⟨selector, rest⟩ := r
  dsimp only
  split
  · split
    · exact .error _
    · next hsome =>
      split
      · exact .error _
      · next hcost =>
        refine .ok (.cards _ _ hdomain (.inl ?_) fun h => absurd h hcost)
        simpa [Option.isSome_iff_ne_none] using hsome
  · exact Yields.bind fun _ _ => .ok (.cards _ _ hdomain (.inr rfl) fun _ => rfl)

/-- What is read as the body of an attribute fits it; one case for each
domain. -/
theorem fits_readBody (a : Attribute) (cs : List Char) :
    Yields (a.Fits (α := α)) (readBody a.domain a.name cs) := by
  cases hdomain : a.domain with
  | status =>
    unfold readBody
    dsimp only
    split
    · next hname => exact fits_readStatusVerb hdomain hname cs
    · next hname => exact fits_readStacks hdomain hname cs
  | ability => exact fits_readAbilityVerb hdomain cs
  | card => exact fits_readCards hdomain cs
  | special => exact .error _
  | stat => exact Yields.bind fun _ _ => .ok (.change _ _ (.inl hdomain))
  | modifier => exact Yields.bind fun _ _ => .ok (.change _ _ (.inr hdomain))

/-! ## Units -/

omit [Scalar α] in
theorem fitsName_readWrapper (name body : List Char) :
    Yields (fun r : String × Form α => r.2.FitsName r.1) (readWrapper name body) := by
  unfold readWrapper
  dsimp only
  split
  · refine Yields.bind fun inner _ => ?_
    split
    · exact .ok ⟨⟨"passive", .special, "Passive", 90⟩, by decide, rfl, .passive _ rfl⟩
    · exact .ok ⟨⟨"ability", .ability, "Ability", 60⟩, by decide, rfl, .grant _ _ rfl⟩
  · exact .error _

theorem fitsName_readPlain (cs : List Char) :
    Yields (fun r : Option Target × String × Form α => r.2.2.FitsName r.2.1)
      (readPlain Catalog.standard cs) := by
  unfold readPlain
  dsimp only
  refine Yields.bind fun r _ => ?_
  obtain ⟨name, rest⟩ := r
  dsimp only
  split
  · exact Yields.bind fun r hr => .ok (fitsName_readWrapper _ _ r hr)
  · refine Yields.bind fun known hknown => Yields.bind fun form hform => ?_
    obtain ⟨hmem, hname⟩ := name_of_get? (need_eq_ok hknown)
    rw [hname] at hform ⊢
    exact .ok ⟨known, hmem, rfl, fits_readBody known _ form hform⟩

omit [Scalar α] in
theorem isBranch_readBranch (cs : List Char) :
    Yields (fun form : Form α => form.isBranch = true) (readBranch cs) := by
  unfold readBranch
  refine Yields.bind fun r _ => ?_
  obtain ⟨first, groups, rest⟩ := r
  have hend (c : List Char) {form : Form α} (h : form.isBranch = true) :
      Yields (fun form : Form α => form.isBranch = true)
        (if c.isEmpty then .error .emptyCondition else .ok form) := by
    split
    · exact .error _
    · exact .ok h
  dsimp only
  split
  · exact .error _
  · split
    · exact hend _ rfl
    · exact hend _ rfl
    · exact .error _

theorem fits_readUnit (cs : List Char) :
    Yields (fun r : Option Target × String × Form α =>
      r.2.2.isBranch = true ∨ r.2.2.FitsName r.2.1) (readUnit Catalog.standard cs) := by
  have hplain : Yields (fun r : Option Target × String × Form α =>
      r.2.2.isBranch = true ∨ r.2.2.FitsName r.2.1) (readPlain Catalog.standard cs) :=
    fun r hr => .inr (fitsName_readPlain cs r hr)
  unfold readUnit
  split
  · split
    · exact Yields.map fun form hform => .inl (isBranch_readBranch _ form hform)
    · exact hplain
  · exact hplain

theorem fits_of_parseUnit {raw : List Char} {c : Clause α}
    (h : parseUnit Catalog.standard raw = .clause c) : c.Fits :=
  fits_readUnit _ _ (readUnit_of_parseUnit h)

/-- Every unit of every text fits. -/
theorem fits_of_mem_parseEffect {text : String} {c : Clause α}
    (h : .clause c ∈ parseEffect Catalog.standard text) : c.Fits := by
  obtain ⟨u, -, hparse⟩ := List.mem_map.mp h
  exact fits_of_parseUnit hparse

end Effect

/-! ## Plans -/

/-- A unit on both sides becomes one on each. -/
theorem Clause.of_mem_expand {c d : Clause α} (h : d ∈ c.expand) :
    d.attr = c.attr ∧ d.form = c.form ∧ d.target ≠ some .all := by
  unfold expand at h
  split at h
  · rcases List.mem_cons.mp h with rfl | h
    · exact ⟨rfl, rfl, by simp [aim]⟩
    · rw [List.mem_singleton.mp h]
      exact ⟨rfl, rfl, by simp [aim]⟩
  · next htarget =>
    rw [List.mem_singleton.mp h]
    exact ⟨rfl, rfl, htarget⟩

/-- What is planned was read, with another target at most, and acts on
one side. -/
theorem exists_of_mem_plan {catalog : Catalog} {units : List (Reading α)} {c : Clause α}
    (h : c ∈ plan catalog units) :
    ∃ read, .clause read ∈ units ∧ c.attr = read.attr ∧ c.form = read.form ∧
      c.target ≠ some .all := by
  obtain ⟨read, hread, hexpand⟩ := List.mem_flatMap.mp (mem_sortByPriority h)
  obtain ⟨reading, hreading, hclause⟩ := List.mem_filterMap.mp hread
  cases reading with
  | clause _ =>
    cases hclause
    exact ⟨read, hreading, Clause.of_mem_expand hexpand⟩
  | fault _ _ => cases hclause

/-- What is planned fits, and acts on one side. -/
theorem fits_of_mem_plan [Scalar α] {text : String} {c : Clause α}
    (h : c ∈ plan Catalog.standard (Effect.parseEffect Catalog.standard text)) :
    c.Fits ∧ c.target ≠ some .all := by
  obtain ⟨read, hread, hattr, hform, htarget⟩ := exists_of_mem_plan h
  have hfits : read.Fits := Effect.fits_of_mem_parseEffect hread
  refine ⟨?_, htarget⟩
  unfold Clause.Fits
  rw [hattr, hform]
  exact hfits

end DeckDuel
