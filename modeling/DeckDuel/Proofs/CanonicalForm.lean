/-
DeckDuel.Proofs.CanonicalForm — values with their members by name.

* `Json.Ascending` — the names of a record ascend. Sorting a record makes
  them (`Json.ascending_sortMembers`), keeps what is found under a name
  (`Json.lookup_sortMembers`), and changes nothing where they do already
  (`Json.sortMembers_eq_self`). Members may be chosen by name before or
  after (`Json.filter_sortMembers`), so two kinds of members come apart
  again (`Json.filter_sortMembers_append`).
* `Json.canonical_canonical` — the canonical form of a canonical value is
  the value.
* `Json.levels`, `Json.leaves` — how deep a value is, and the values
  without parts in it. The canonical form has no more levels and no
  other leaves.
-/
import Mathlib.Data.List.Nodup
import DeckDuel.Json

namespace DeckDuel.Json

/-! ## Members by ascending name -/

section Members

variable {β γ : Type} {ms sorted : List (String × β)} {k : String} {v : β}

/-- The names of the members ascend. -/
def Ascending (ms : List (String × β)) : Prop := ms.Pairwise fun m n => m.1 < n.1

theorem Ascending.nodup (h : Ascending ms) : (ms.map Prod.fst).Nodup := by
  rw [List.Nodup, List.pairwise_map]
  refine h.imp fun {m n} hlt heq => ?_
  rw [heq] at hlt
  exact String.lt_irrefl _ hlt

theorem mem_insertMember {m : String × β} (h : m ∈ insertMember k v ms) : m = (k, v) ∨ m ∈ ms := by
  induction ms with
  | nil => exact .inl (List.mem_singleton.mp h)
  | cons n ms ih =>
    unfold insertMember at h
    split at h
    · exact (List.mem_cons.mp h).imp id (List.mem_cons_of_mem n)
    · split at h
      · exact List.mem_cons.mp h
      · rcases List.mem_cons.mp h with rfl | h
        · exact .inr List.mem_cons_self
        · exact (ih h).imp id (List.mem_cons_of_mem n)

theorem Ascending.insertMember (h : Ascending ms) (k : String) (v : β) :
    Ascending (insertMember k v ms) := by
  induction ms with
  | nil => exact List.pairwise_singleton _ _
  | cons n ms ih =>
    obtain ⟨hn, hms⟩ := List.pairwise_cons.mp h
    unfold Json.insertMember
    split
    · next heq => exact List.pairwise_cons.mpr ⟨fun m hm => heq ▸ hn m hm, hms⟩
    · next hne =>
      split
      · next hlt =>
        refine List.pairwise_cons.mpr ⟨fun m hm => ?_, h⟩
        rcases List.mem_cons.mp hm with rfl | hm
        · exact hlt
        · exact String.lt_trans hlt (hn m hm)
      · next hge =>
        refine List.pairwise_cons.mpr ⟨fun m hm => ?_, ih hms⟩
        rcases mem_insertMember hm with rfl | hm
        · -- neither equal nor below: the name stands behind the first one
          rcases String.le_total n.1 k with hle | hle
          · exact String.not_le.mp fun hle' => hne (String.le_antisymm hle' hle)
          · exact absurd (String.not_le.mp fun hle' => hne (String.le_antisymm hle hle')) hge
        · exact hn m hm

theorem lookup_insertMember (ms : List (String × β)) (k : String) (v : β) (name : String) :
    (insertMember k v ms).lookup name = if name = k then some v else ms.lookup name := by
  have hcons {k : String} {v : β} {ms : List (String × β)} :
      ((k, v) :: ms).lookup name = if name = k then some v else ms.lookup name := by
    rw [List.lookup_cons]
    by_cases h : name = k
    · rw [if_pos h, beq_iff_eq.mpr h]
    · rw [if_neg h, beq_eq_false_iff_ne.mpr h]
  induction ms with
  | nil => exact hcons
  | cons n ms ih =>
    obtain ⟨k', v'⟩ := n
    unfold insertMember
    split
    · next heq =>
      rw [hcons, hcons, heq]
      split <;> rfl
    · next hne =>
      split
      · exact hcons
      · rw [hcons, ih, hcons]
        by_cases h : name = k'
        · rw [if_pos h, if_pos h, if_neg fun h' => hne (h'.symm.trans h)]
        · rw [if_neg h, if_neg h]

theorem ascending_sortMembers (ms : List (String × β)) : Ascending (sortMembers ms) := by
  have hfold {sorted : List (String × β)} (h : Ascending sorted) :
      Ascending (ms.foldl (fun sorted m => insertMember m.1 m.2 sorted) sorted) := by
    induction ms generalizing sorted with
    | nil => exact h
    | cons m ms ih => exact ih (h.insertMember m.1 m.2)
  exact hfold List.Pairwise.nil

theorem mem_of_mem_sortMembers {m : String × β} (h : m ∈ sortMembers ms) : m ∈ ms := by
  have hfold (ms sorted : List (String × β))
      (hm : m ∈ ms.foldl (fun sorted m => insertMember m.1 m.2 sorted) sorted) :
      m ∈ sorted ∨ m ∈ ms := by
    induction ms generalizing sorted with
    | nil => exact .inl hm
    | cons n ms ih =>
      rcases ih _ hm with hmem | hmem
      · rcases mem_insertMember hmem with rfl | hmem
        · exact .inr List.mem_cons_self
        · exact .inl hmem
      · exact .inr (List.mem_cons_of_mem n hmem)
  rcases hfold ms [] h with hmem | hmem
  · cases hmem
  · exact hmem

/-- If no name comes twice, sorting keeps what is found under a name. -/
theorem lookup_sortMembers (h : (ms.map Prod.fst).Nodup) (name : String) :
    (sortMembers ms).lookup name = ms.lookup name := by
  have hfold {sorted : List (String × β)} :
      (ms.foldl (fun sorted m => insertMember m.1 m.2 sorted) sorted).lookup name =
        (ms.lookup name).or (sorted.lookup name) := by
    induction ms generalizing sorted with
    | nil => rfl
    | cons m ms ih =>
      obtain ⟨k, v⟩ := m
      obtain ⟨hk, hms⟩ := List.nodup_cons.mp h
      rw [List.foldl_cons, ih hms, lookup_insertMember, List.lookup_cons]
      by_cases heq : name = k
      · have hnone : ms.lookup name = none := by
          rw [List.lookup_eq_none_iff]
          intro m hm
          rw [heq]
          exact bne_iff_ne.mpr fun hmk => hk (List.mem_map.mpr ⟨m, hm, hmk.symm⟩)
        rw [if_pos heq, hnone, beq_iff_eq.mpr heq]
        rfl
      · rw [if_neg heq, beq_eq_false_iff_ne.mpr heq]
  rw [sortMembers, hfold, List.lookup_nil, Option.or_none]

/-- Nothing is left to sort where the names ascend. -/
theorem sortMembers_eq_self (h : Ascending ms) : sortMembers ms = ms := by
  have hinsert {k : String} {v : β} {sorted : List (String × β)} (h : ∀ m ∈ sorted, m.1 < k) :
      insertMember k v sorted = sorted ++ [(k, v)] := by
    induction sorted with
    | nil => rfl
    | cons m sorted ih =>
      obtain ⟨hm, hsorted⟩ := List.forall_mem_cons.mp h
      unfold insertMember
      rw [if_neg fun heq : k = m.1 => String.lt_irrefl _ (heq ▸ hm), if_neg (String.lt_asymm hm),
        ih hsorted]
      rfl
  have hfold (ms sorted : List (String × β)) (h : Ascending (sorted ++ ms)) :
      ms.foldl (fun sorted m => insertMember m.1 m.2 sorted) sorted = sorted ++ ms := by
    induction ms generalizing sorted with
    | nil => exact (List.append_nil sorted).symm
    | cons m ms ih =>
      obtain ⟨-, -, hbefore⟩ := List.pairwise_append.mp h
      have hsplit : sorted ++ m :: ms = sorted ++ [m] ++ ms := by
        rw [List.append_assoc, List.singleton_append]
      rw [hsplit] at h ⊢
      rw [List.foldl_cons, hinsert fun n hn => hbefore n hn m List.mem_cons_self, ih _ h]
  exact hfold ms [] h

/-- Values may be changed before sorting or after it. -/
theorem sortMembers_map (f : β → γ) (ms : List (String × β)) :
    sortMembers (ms.map fun m => (m.1, f m.2)) = (sortMembers ms).map fun m => (m.1, f m.2) := by
  have hinsert (k : String) (v : β) (sorted : List (String × β)) :
      insertMember k (f v) (sorted.map fun m => (m.1, f m.2)) =
        (insertMember k v sorted).map fun m => (m.1, f m.2) := by
    induction sorted with
    | nil => rfl
    | cons m sorted ih =>
      rw [List.map_cons]
      unfold insertMember
      split
      · rfl
      · split
        · rfl
        · rw [ih]
          rfl
  have hfold (sorted : List (String × β)) :
      (ms.map fun m => (m.1, f m.2)).foldl (fun sorted m => insertMember m.1 m.2 sorted)
          (sorted.map fun m => (m.1, f m.2)) =
        (ms.foldl (fun sorted m => insertMember m.1 m.2 sorted) sorted).map
          fun m => (m.1, f m.2) := by
    induction ms generalizing sorted with
    | nil => rfl
    | cons m ms ih =>
      rw [List.map_cons, List.foldl_cons, List.foldl_cons, hinsert, ih]
  exact hfold []

theorem insertMember_of_forall_lt (h : ∀ m ∈ sorted, k < m.1) :
    insertMember k v sorted = (k, v) :: sorted := by
  cases sorted with
  | nil => rfl
  | cons m sorted =>
    have hlt := h m List.mem_cons_self
    unfold insertMember
    rw [if_neg fun heq : k = m.1 => String.lt_irrefl _ (heq ▸ hlt), if_pos hlt]

/-- Members may be chosen by name before sorting or after it. -/
theorem filter_sortMembers (p : String → Bool) (ms : List (String × β)) :
    (sortMembers ms).filter (fun m => p m.1) = sortMembers (ms.filter fun m => p m.1) := by
  have hinsert (k : String) (v : β) {sorted : List (String × β)} (h : Ascending sorted) :
      (insertMember k v sorted).filter (fun m => p m.1) =
        if p k then insertMember k v (sorted.filter fun m => p m.1)
        else sorted.filter fun m => p m.1 := by
    induction sorted with
    | nil => cases hk : p k <;> simp [insertMember, hk]
    | cons m sorted ih =>
      obtain ⟨hm, hsorted⟩ := List.pairwise_cons.mp h
      have hcons (ms : List (String × β)) : insertMember k v (m :: ms) =
          if k = m.1 then (k, v) :: ms
          else if k < m.1 then (k, v) :: m :: ms else m :: insertMember k v ms := rfl
      have hfilter : (m :: sorted).filter (fun m => p m.1) =
          if p m.1 then m :: sorted.filter (fun m => p m.1) else sorted.filter fun m => p m.1 :=
        List.filter_cons
      rw [hcons]
      split
      · next heq =>
        subst heq
        cases hk : p m.1 <;> simp [hk, insertMember]
      · next hne =>
        split
        · next hlt =>
          have hbelow : ∀ n ∈ (m :: sorted).filter fun m => p m.1, k < n.1 := by
            intro n hn
            rcases List.mem_cons.mp (List.mem_of_mem_filter hn) with rfl | hn
            · exact hlt
            · exact String.lt_trans hlt (hm n hn)
          rw [insertMember_of_forall_lt hbelow, List.filter_cons]
        · next hge =>
          rw [List.filter_cons, ih hsorted, hfilter]
          cases p k <;> cases p m.1 <;> simp [hcons, hne, hge]
  have hfold {sorted : List (String × β)} (h : Ascending sorted) :
      (ms.foldl (fun sorted m => insertMember m.1 m.2 sorted) sorted).filter (fun m => p m.1) =
        (ms.filter fun m => p m.1).foldl (fun sorted m => insertMember m.1 m.2 sorted)
          (sorted.filter fun m => p m.1) := by
    induction ms generalizing sorted with
    | nil => rfl
    | cons m ms ih =>
      rw [List.foldl_cons, ih (h.insertMember m.1 m.2), hinsert m.1 m.2 h, List.filter_cons]
      cases hm : p m.1 <;> rfl
  exact hfold List.Pairwise.nil

/-- Members of two kinds come apart again, each kind in its order. -/
theorem filter_sortMembers_append {p : String → Bool} {xs ys : List (String × β)}
    (hxs : ∀ m ∈ xs, p m.1 = true) (hys : ∀ m ∈ ys, p m.1 = false) :
    (sortMembers (xs ++ ys)).filter (fun m => p m.1) = sortMembers xs ∧
      (sortMembers (xs ++ ys)).filter (fun m => !p m.1) = sortMembers ys := by
  have hnone : ∀ m ∈ ys, ¬p m.1 = true := fun m hm => by simp [hys m hm]
  have hnone' : ∀ m ∈ xs, ¬(!p m.1) = true := fun m hm => by simp [hxs m hm]
  have hall : ∀ m ∈ ys, (!p m.1) = true := fun m hm => by simp [hys m hm]
  constructor
  · rw [filter_sortMembers p, List.filter_append, List.filter_eq_self.mpr hxs,
      List.filter_eq_nil_iff.mpr hnone, List.append_nil]
  · rw [filter_sortMembers fun name => !p name, List.filter_append,
      List.filter_eq_nil_iff.mpr hnone', List.filter_eq_self.mpr hall, List.nil_append]

end Members

/-! ## Canonical values -/

variable {α : Type}

theorem canonicalItems_eq (vs : List (Json α)) : canonicalItems vs = vs.map canonical := by
  induction vs with
  | nil => rfl
  | cons v vs ih => rw [canonicalItems, ih, List.map_cons]

theorem canonicalMembers_eq (ms : List (String × Json α)) :
    canonicalMembers ms = ms.map fun m => (m.1, m.2.canonical) := by
  induction ms with
  | nil => rfl
  | cons m ms ih => rw [canonicalMembers, ih, List.map_cons]

mutual

/-- The canonical form of a canonical value is the value. -/
theorem canonical_canonical : ∀ v : Json α, v.canonical.canonical = v.canonical
  | .arr items => by
    rw [canonical, canonical, canonicalItems_canonicalItems items]
  | .obj members => by
    have hsorted := ascending_sortMembers (canonicalMembers members)
    rw [canonical, canonical, canonicalMembers_eq, ← sortMembers_map, ← canonicalMembers_eq,
      canonicalMembers_canonicalMembers members, sortMembers_eq_self hsorted]
  | .null => rfl
  | .bool _ => rfl
  | .int _ => rfl
  | .real _ => rfl
  | .str _ => rfl

theorem canonicalItems_canonicalItems : ∀ vs : List (Json α),
    canonicalItems (canonicalItems vs) = canonicalItems vs
  | [] => rfl
  | v :: vs => by
    rw [canonicalItems, canonicalItems, canonical_canonical v, canonicalItems_canonicalItems vs]

theorem canonicalMembers_canonicalMembers : ∀ ms : List (String × Json α),
    canonicalMembers (canonicalMembers ms) = canonicalMembers ms
  | [] => rfl
  | (k, v) :: ms => by
    rw [canonicalMembers, canonicalMembers, canonical_canonical v,
      canonicalMembers_canonicalMembers ms]

end

/-! ## Levels -/

mutual

/-- How many levels of lists and records a value has. -/
def levels : Json α → Nat
  | .arr items => levelsItems items + 1
  | .obj members => levelsMembers members + 1
  | .null => 0
  | .bool _ => 0
  | .int _ => 0
  | .real _ => 0
  | .str _ => 0

/-- The most levels of the items of a list. -/
def levelsItems : List (Json α) → Nat
  | [] => 0
  | v :: vs => max v.levels (levelsItems vs)

/-- The most levels of the members of a record. -/
def levelsMembers : List (String × Json α) → Nat
  | [] => 0
  | (_, v) :: ms => max v.levels (levelsMembers ms)

end

theorem levelsItems_le {vs : List (Json α)} {n : Nat} (h : ∀ v ∈ vs, v.levels ≤ n) :
    levelsItems vs ≤ n := by
  induction vs with
  | nil => exact Nat.zero_le n
  | cons v vs ih =>
    obtain ⟨hv, hvs⟩ := List.forall_mem_cons.mp h
    exact Nat.max_le.mpr ⟨hv, ih hvs⟩

theorem levelsMembers_le {ms : List (String × Json α)} {n : Nat} (h : ∀ m ∈ ms, m.2.levels ≤ n) :
    levelsMembers ms ≤ n := by
  induction ms with
  | nil => exact Nat.zero_le n
  | cons m ms ih =>
    obtain ⟨hm, hms⟩ := List.forall_mem_cons.mp h
    exact Nat.max_le.mpr ⟨hm, ih hms⟩

theorem levels_le_of_mem {ms : List (String × Json α)} {m : String × Json α} (h : m ∈ ms) :
    m.2.levels ≤ levelsMembers ms := by
  induction ms with
  | nil => cases h
  | cons n ms ih =>
    rcases List.mem_cons.mp h with rfl | h
    · exact Nat.le_max_left _ _
    · exact Nat.le_trans (ih h) (Nat.le_max_right _ _)

mutual

theorem levels_canonical_le : ∀ v : Json α, v.canonical.levels ≤ v.levels
  | .arr items => by
    rw [canonical, levels, levels]
    exact Nat.succ_le_succ (levelsItems_canonicalItems_le items)
  | .obj members => by
    rw [canonical, levels, levels]
    refine Nat.succ_le_succ (Nat.le_trans (levelsMembers_le fun m hm => ?_)
      (levelsMembers_canonicalMembers_le members))
    exact levels_le_of_mem (mem_of_mem_sortMembers hm)
  | .null => Nat.le_refl _
  | .bool _ => Nat.le_refl _
  | .int _ => Nat.le_refl _
  | .real _ => Nat.le_refl _
  | .str _ => Nat.le_refl _

theorem levelsItems_canonicalItems_le : ∀ vs : List (Json α),
    levelsItems (canonicalItems vs) ≤ levelsItems vs
  | [] => Nat.le_refl _
  | v :: vs => by
    rw [canonicalItems, levelsItems, levelsItems]
    have hv := levels_canonical_le v
    have hvs := levelsItems_canonicalItems_le vs
    omega

theorem levelsMembers_canonicalMembers_le : ∀ ms : List (String × Json α),
    levelsMembers (canonicalMembers ms) ≤ levelsMembers ms
  | [] => Nat.le_refl _
  | (k, v) :: ms => by
    rw [canonicalMembers, levelsMembers, levelsMembers]
    have hv := levels_canonical_le v
    have hms := levelsMembers_canonicalMembers_le ms
    omega

end

/-! ## Leaves -/

mutual

/-- The values without parts in a value. -/
def leaves : Json α → List (Json α)
  | .arr items => leavesItems items
  | .obj members => leavesMembers members
  | .null => [.null]
  | .bool b => [.bool b]
  | .int n => [.int n]
  | .real x => [.real x]
  | .str s => [.str s]

/-- The leaves of the items of a list. -/
def leavesItems : List (Json α) → List (Json α)
  | [] => []
  | v :: vs => v.leaves ++ leavesItems vs

/-- The leaves of the members of a record. -/
def leavesMembers : List (String × Json α) → List (Json α)
  | [] => []
  | (_, v) :: ms => v.leaves ++ leavesMembers ms

end

theorem leavesItems_eq (vs : List (Json α)) : leavesItems vs = vs.flatMap leaves := by
  induction vs with
  | nil => rfl
  | cons v vs ih => rw [leavesItems, ih, List.flatMap_cons]

theorem leavesMembers_eq (ms : List (String × Json α)) :
    leavesMembers ms = ms.flatMap fun m => m.2.leaves := by
  induction ms with
  | nil => rfl
  | cons m ms ih => rw [leavesMembers, ih, List.flatMap_cons]

mutual

/-- The canonical form of a value has no other leaves. -/
theorem mem_leaves_of_canonical : ∀ (v : Json α) {leaf : Json α}, leaf ∈ v.canonical.leaves →
    leaf ∈ v.leaves
  | .arr items, _, h => by
    rw [canonical, leaves] at h
    exact mem_leaves_of_canonicalItems items h
  | .obj members, leaf, h => by
    rw [canonical, leaves, leavesMembers_eq, List.mem_flatMap] at h
    obtain ⟨m, hm, hleaf⟩ := h
    refine mem_leaves_of_canonicalMembers members ?_
    rw [leavesMembers_eq]
    exact List.mem_flatMap.mpr ⟨m, mem_of_mem_sortMembers hm, hleaf⟩
  | .null, _, h => h
  | .bool _, _, h => h
  | .int _, _, h => h
  | .real _, _, h => h
  | .str _, _, h => h

theorem mem_leaves_of_canonicalItems : ∀ (vs : List (Json α)) {leaf : Json α},
    leaf ∈ leavesItems (canonicalItems vs) → leaf ∈ leavesItems vs
  | [], _, h => h
  | v :: vs, _, h => by
    rw [canonicalItems, leavesItems, List.mem_append] at h
    exact List.mem_append.mpr
      (h.imp (mem_leaves_of_canonical v) (mem_leaves_of_canonicalItems vs))

theorem mem_leaves_of_canonicalMembers : ∀ (ms : List (String × Json α)) {leaf : Json α},
    leaf ∈ leavesMembers (canonicalMembers ms) → leaf ∈ leavesMembers ms
  | [], _, h => h
  | (k, v) :: ms, _, h => by
    rw [canonicalMembers, leavesMembers, List.mem_append] at h
    exact List.mem_append.mpr
      (h.imp (mem_leaves_of_canonical v) (mem_leaves_of_canonicalMembers ms))

end

end DeckDuel.Json
