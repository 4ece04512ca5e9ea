/-
DeckDuel.Proofs.Reading — what effect texts read as.

* `Yields P x` — whatever a reader answers without a fault, `P` holds of
  it.
* `Effect.yields_readPlain` — a unit without `if` and bracket is no
  branch.
* `Effect.length_lt_of_mem_branches` — the texts of a branch are shorter
  than the text that it stands in. So texts that stand in texts come to
  an end.
-/
import DeckDuel.Proofs.Infixes

namespace DeckDuel

open DeckDuel.Text

/-- Whatever a reader answers without a fault, `P` holds of it. -/
def Yields {β : Type} (P : β → Prop) (x : Parse β) : Prop := ∀ a, x = .ok a → P a

namespace Yields

variable {β γ : Type} {P : β → Prop}

theorem ok {a : β} (h : P a) : Yields P (.ok a) := by
  intro b hb
  cases hb
  exact h

theorem error (f : ClauseFault) : Yields P (.error f) := by
  intro b hb
  cases hb

/-- Only the last step of a reader decides. -/
theorem bind {x : Parse γ} {f : γ → Parse β} (hf : ∀ a, x = .ok a → Yields P (f a)) :
    Yields P (x >>= f) := by
  cases x with
  | ok a => exact hf a rfl
  | error e => exact error e

theorem map {x : Parse γ} {f : γ → β} (h : Yields (fun a => P (f a)) x) :
    Yields P (x.map f) := by
  cases x with
  | ok a => exact ok (h a rfl)
  | error e => exact error e

end Yields

/-- The texts of a branch that are not blank; any other unit has none. -/
def Form.branches {α : Type} : Form α → List String
  | .branch _ effect otherwise =>
    (effect :: otherwise.toList).filter fun t => !isBlankText t.toList
  | _ => []

namespace Effect

/-! ## Groups of a branch -/

variable {α : Type} [Scalar α]

omit [Scalar α] in
theorem eq_of_mem_branches {condition effect : String} {otherwise : Option String} {t : String}
    (h : t ∈ (.branch condition effect otherwise : Form α).branches) :
    t = effect ∨ otherwise = some t := by
  have hmem := (List.mem_filter.mp h).1
  rcases List.mem_cons.mp hmem with rfl | hmem
  · exact .inl rfl
  · exact .inr (by simpa using hmem)

theorem need_eq_ok {β : Type} {f : ClauseFault} {x : Option β} {a : β} (h : need f x = .ok a) :
    x = some a := by
  cases x with
  | none => cases h
  | some b =>
    cases h
    rfl

omit [Scalar α] in
/-- A branch is made of groups. -/
theorem yields_readBranch (cs : List Char) :
    Yields (fun form : Form α => ∀ t ∈ form.branches, t.toList.length ≤ cs.length)
      (readBranch cs) := by
  unfold readBranch
  refine Yields.bind fun r hr => ?_
  have hgroups : ∀ g ∈ r.2.1.map trim, g.length ≤ cs.length := by
    intro g hg
    obtain ⟨p, hp, rfl⟩ := List.mem_map.mp hg
    exact ((infix_trim p).trans ((infix_readGroups (need_eq_ok hr)).2.2 p hp)).length_le
  obtain ⟨first, groups, rest⟩ := r
  dsimp only at hgroups ⊢
  split
  · exact .error _
  · have hend (c : List Char) (form : Form α)
        (h : ∀ t ∈ form.branches, t.toList.length ≤ cs.length) :
        Yields (fun form : Form α => ∀ t ∈ form.branches, t.toList.length ≤ cs.length)
          (if c.isEmpty then .error .emptyCondition else .ok form) := by
      split
      · exact .error _
      · exact .ok h
    split
    · next c effect hmap =>
      refine hend c _ fun t ht => ?_
      rcases eq_of_mem_branches ht with rfl | h
      · rw [String.toList_ofList]
        exact hgroups _ (by simp [hmap])
      · cases h
    · next c effect otherwise hmap =>
      refine hend c _ fun t ht => ?_
      rcases eq_of_mem_branches ht with rfl | h
      · rw [String.toList_ofList]
        exact hgroups _ (by simp [hmap])
      · cases h
        rw [String.toList_ofList]
        exact hgroups _ (by simp [hmap])
    · exact .error _

/-! ## Forms -/

/-- A reader that makes no branch. -/
abbrev Unbranched (x : Parse (Form α)) : Prop := Yields (fun form => form.isBranch = false) x

theorem unbranched_readStatusVerb (cs : List Char) : Unbranched (readStatusVerb cs : Parse (Form α)) := by
  unfold readStatusVerb
  refine Yields.bind fun r _ => ?_
  obtain ⟨v, payload⟩ := r
  cases v with
  | apply => exact Yields.bind fun _ _ => .ok rfl
  | remove => exact Yields.bind fun _ _ => .ok rfl
  | add => exact .error _

theorem unbranched_readStacks (cs : List Char) : Unbranched (readStacks cs : Parse (Form α)) := by
  unfold readStacks
  split
  · exact Yields.bind fun _ _ => Yields.bind fun _ _ => .ok rfl
  · exact .error _

omit [Scalar α] in
theorem unbranched_readAbilityVerb (cs : List Char) :
    Unbranched (readAbilityVerb cs : Parse (Form α)) := by
  unfold readAbilityVerb
  refine Yields.bind fun r _ => ?_
  obtain ⟨v, payload⟩ := r
  cases v with
  | add =>
    refine Yields.bind fun r _ => ?_
    dsimp only
    split
    · exact .ok rfl
    · exact .error _
  | remove =>
    dsimp only
    split
    · exact .error _
    · exact .ok rfl
  | apply => exact .error _

theorem unbranched_readCards (attr : String) (cs : List Char) :
    Unbranched (readCards attr cs : Parse (Form α)) := by
  unfold readCards
  refine Yields.bind fun r _ => ?_
  obtain ⟨selector, rest⟩ := r
  dsimp only
  split
  · split
    · exact .error _
    · split
      · exact .error _
      · exact .ok rfl
  · exact Yields.bind fun _ _ => .ok rfl

/-- One case for each domain. -/
theorem unbranched_readBody (domain : Domain) (attr : String) (cs : List Char) :
    Unbranched (readBody domain attr cs : Parse (Form α)) := by
  cases domain with
  | status =>
    unfold readBody
    dsimp only
    split
    · exact unbranched_readStatusVerb cs
    · exact unbranched_readStacks cs
  | ability => exact unbranched_readAbilityVerb cs
  | card => exact unbranched_readCards attr cs
  | special => exact .error _
  | stat => exact Yields.bind fun _ _ => .ok rfl
  | modifier => exact Yields.bind fun _ _ => .ok rfl

omit [Scalar α] in
theorem yields_readWrapper (name body : List Char) :
    Yields (fun r : String × Form α => r.2.isBranch = false) (readWrapper name body) := by
  unfold readWrapper
  dsimp only
  split
  · refine Yields.bind fun inner _ => ?_
    split
    · exact .ok rfl
    · exact .ok rfl
  · exact .error _

theorem yields_readPlain (catalog : Catalog) (cs : List Char) :
    Yields (fun r : Option Target × String × Form α => r.2.2.isBranch = false)
      (readPlain catalog cs) := by
  unfold readPlain
  dsimp only
  refine Yields.bind fun r _ => ?_
  obtain ⟨name, rest⟩ := r
  dsimp only
  split
  · exact Yields.bind fun r hr => .ok (yields_readWrapper _ _ r hr)
  · refine Yields.bind fun known _ => Yields.bind fun form hform => ?_
    exact .ok (unbranched_readBody _ _ _ form hform)

/-! ## Branches -/

omit [Scalar α] in
theorem branches_eq_nil {form : Form α} (h : form.isBranch = false) : form.branches = [] := by
  cases form <;> first | rfl | cases h

/-- A branch is shorter by its `if`. -/
theorem yields_readUnit (catalog : Catalog) (cs : List Char) :
    Yields (fun r : Option Target × String × Form α =>
      ∀ t ∈ r.2.2.branches, t.toList.length < cs.length) (readUnit catalog cs) := by
  have hplain : Yields (fun r : Option Target × String × Form α =>
      ∀ t ∈ r.2.2.branches, t.toList.length < cs.length) (readPlain catalog cs) := by
    intro r hr t ht
    rw [branches_eq_nil (yields_readPlain catalog cs r hr)] at ht
    cases ht
  unfold readUnit
  split
  · next rest hif =>
    have hlength : cs.length = rest.length + 2 := by
      rw [eq_append_of_after? hif]
      simp
    split
    · refine Yields.map fun form hform t ht => ?_
      have ht' := yields_readBranch rest form hform t ht
      omega
    · exact hplain
  · exact hplain

/-- A unit is made of what its trimmed text reads as. -/
theorem readUnit_of_parseUnit {catalog : Catalog} {raw : List Char} {c : Clause α}
    (h : parseUnit catalog raw = .clause c) :
    readUnit catalog (trim raw) = .ok (c.target, c.attr, c.form) := by
  unfold parseUnit at h
  dsimp only at h
  split at h
  · next hread =>
    cases h
    exact hread
  · cases h

/-- The texts of branches are shorter than the text that they stand
in. -/
theorem length_lt_of_mem_branches {catalog : Catalog} {text t : String} {c : Clause α}
    (hc : .clause c ∈ parseEffect catalog text) (ht : t ∈ c.form.branches) :
    t.toList.length < text.toList.length := by
  obtain ⟨u, hu, hparse⟩ := List.mem_map.mp hc
  have hunit : trim u <:+: text.toList := (infix_trim u).trans (infix_of_mem_split hu)
  exact Nat.lt_of_lt_of_le
    (yields_readUnit catalog (trim u) _ (readUnit_of_parseUnit hparse) t ht) hunit.length_le

end Effect
end DeckDuel
