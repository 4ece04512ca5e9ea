/-
DeckDuel.Proofs.NestedEntries — definitions in lists of lists.

* `Json.at?` — the value at a place, which has a number for each list on
  the way. Places in their order by the first different number are the
  order of the document.
* `Document.entries_eq_places` — the entries of a value are its records,
  place by place.
* `DefinesInTurn` — what one definition after another makes of a codex or
  a shelf: new ids come behind the old ones, and the last definition of
  an id counts.
* `Json.flat` — what lists in lists hold, as one list; `Json.without` —
  a value without one of its items.
* `Document.loadCodex_by_place` — loading is defining, place by place,
  what can be read. So it is the same for the flat list, and an item that
  holds no definition can be taken out.
-/
import DeckDuel.Document.Status
import DeckDuel.Scalar.Double
import Mathlib.Data.List.Basic
import Mathlib.Data.List.Lex

namespace DeckDuel

/-! ## Places -/

namespace Json

variable {α : Type}

/-- The value at a place: from list to list, the item with each of the
numbers. -/
def at? : List Nat → Json α → Option (Json α)
  | [], v => some v
  | i :: place, .arr items => items[i]?.bind (at? place)
  | _ :: _, _ => none

/-- What is no list in a value that has lists on some levels, as one
list; lists on deeper levels are left out. -/
def flat : Nat → Json α → List (Json α)
  | levels + 1, .arr items => items.flatMap (flat levels)
  | 0, .arr _ => []
  | _, v => [v]

/-- The value without the item at a place. -/
def without : List Nat → Json α → Json α
  | [], v => v
  | [i], .arr items => .arr (items.eraseIdx i)
  | i :: j :: place, .arr items => .arr (items.modify i (without (j :: place)))
  | _ :: _, v => v

end Json

namespace Document

open Decode

variable {α : Type}

theorem itemEntries_eq_flatMap (levels : Nat) (items : List (Json α)) :
    itemEntries levels items = items.flatMap (entries levels) := by
  induction items with
  | nil => rfl
  | cons v items ih => rw [itemEntries, ih, List.flatMap_cons]

@[simp] theorem entries_list (levels : Nat) (items : List (Json α)) :
    entries (levels + 1) (.arr items) = items.flatMap (entries levels) := by
  rw [entries, if_neg (Nat.succ_ne_zero levels), Nat.add_sub_cancel, itemEntries_eq_flatMap]

@[simp] theorem entries_zero (items : List (Json α)) : entries 0 (.arr items) = [] := by
  rw [entries, if_pos rfl]

/-- The places of the records of a value, looking into lists on some
levels. -/
def recordPlaces : Nat → Json α → List (List Nat)
  | levels + 1, .arr items =>
    items.zipIdx.flatMap fun e => (recordPlaces levels e.1).map (e.2 :: ·)
  | _, .obj _ => [[]]
  | _, _ => []

theorem pairwise_recordPlaces (levels : Nat) (v : Json α) :
    (recordPlaces levels v).Pairwise (· < ·) := by
  induction levels generalizing v with
  | zero => cases v <;> simp [recordPlaces]
  | succ levels ih =>
    cases v with
    | arr items =>
      rw [recordPlaces, List.pairwise_flatMap]
      constructor
      · intro e _
        exact List.pairwise_map.mpr
          ((ih e.1).imp fun h => List.cons_lt_cons_iff.mpr (.inr ⟨rfl, h⟩))
      · have hnumbers : (items.zipIdx.map Prod.snd).Pairwise (· < ·) := by
          rw [List.zipIdx_map_snd]
          exact List.pairwise_lt_range'
        refine (List.pairwise_map.mp hnumbers).imp fun {e f} hlt p hp q hq => ?_
        obtain ⟨p, -, rfl⟩ := List.mem_map.mp hp
        obtain ⟨q, -, rfl⟩ := List.mem_map.mp hq
        exact List.cons_lt_cons_iff.mpr (.inl hlt)
    | null | bool | int | real | str | obj => simp [recordPlaces]

theorem mem_recordPlaces {levels : Nat} {v : Json α} {place : List Nat} :
    place ∈ recordPlaces levels v ↔
      place.length ≤ levels ∧ ∃ members, v.at? place = some (.obj members) := by
  induction levels generalizing v place with
  | zero => 
    cases place with
    | nil => cases v <;> simp [recordPlaces, Json.at?]
    | cons => cases v <;> simp [recordPlaces]
  | succ levels ih =>
    cases v with
    | arr items =>
      rw [recordPlaces, List.mem_flatMap]
      cases place with
      | nil => simp [Json.at?]
      | cons i place =>
        simp only [List.mem_map, List.cons.injEq, exists_eq_right_right, Prod.exists, ih, Json.at?,
          Option.bind_eq_some_iff, List.length_cons, Nat.add_le_add_iff_right]
        constructor
        · rintro ⟨v, hitem, hlength, members, hat⟩
          exact ⟨hlength, members, v, List.mk_mem_zipIdx_iff_getElem?.mp hitem, hat⟩
        · rintro ⟨hlength, members, v, hitem, hat⟩
          exact ⟨v, List.mk_mem_zipIdx_iff_getElem?.mpr hitem, hlength, members, hat⟩
    | null | bool | int | real | str | obj =>
      cases place <;> simp [recordPlaces, Json.at?]

/-- The records of a value stand at these places, in the order of the
document. -/
structure RecordsAt (levels : Nat) (v : Json α) (places : List (List Nat)) : Prop where
  ascending : places.Pairwise (· < ·)
  mem_iff : ∀ place, place ∈ places ↔
    place.length ≤ levels ∧ ∃ members, v.at? place = some (.obj members)

theorem recordsAt_recordPlaces (levels : Nat) (v : Json α) :
    RecordsAt levels v (recordPlaces levels v) :=
  ⟨pairwise_recordPlaces levels v, fun _ => mem_recordPlaces⟩

theorem entries_eq_places (levels : Nat) (v : Json α) :
    entries levels v = (recordPlaces levels v).filterMap fun place => v.at? place := by
  induction levels generalizing v with
  | zero => cases v <;> simp [recordPlaces, entries, Json.at?]
  | succ levels ih =>
    cases v with
    | arr items =>
      rw [entries_list, recordPlaces, List.filterMap_flatMap]
      conv_lhs => rw [← List.zipIdx_map_fst 0 items, List.flatMap_map]
      refine List.flatMap_congr fun e he => ?_
      have hitem : items[e.2]? = some e.1 := List.mem_zipIdx_iff_getElem?.mp he
      rw [List.filterMap_map, ih]
      refine List.filterMap_congr fun place _ => ?_
      rw [Function.comp_apply, Json.at?, hitem, Option.bind_some]
    | null | bool | int | real | str | obj => simp [recordPlaces, entries, Json.at?]

/-! ## What comes of an item -/

/-- As one list, the items hold the same records, whatever levels are
looked into. -/
theorem entries_flat (levels inner : Nat) (v : Json α) :
    (v.flat levels).flatMap (entries inner) = entries levels v := by
  induction levels generalizing v with
  | zero => cases v <;> simp [Json.flat, entries]
  | succ levels ih =>
    cases v with
    | arr items =>
      rw [Json.flat, List.flatMap_assoc, entries_list]
      exact List.flatMap_congr fun e _ => ih e
    | null | bool | int | real | str | obj => simp [Json.flat, entries]

/-- An item with nothing of a kind in its records leaves no trace of
that kind. -/
theorem filterMap_entries_without {β : Type} (read : Json α → Option β) {levels : Nat}
    {v e : Json α} {place : List Nat} (hat : v.at? place = some e)
    (hnone : place.length ≤ levels → (entries (levels - place.length) e).filterMap read = []) :
    (entries levels (v.without place)).filterMap read = (entries levels v).filterMap read := by
  induction place generalizing levels v with
  | nil => rfl
  | cons i place ih =>
    cases v with
    | arr items =>
      obtain ⟨w, hitem, hat⟩ := Option.bind_eq_some_iff.mp hat
      obtain ⟨hi, rfl⟩ := List.getElem?_eq_some_iff.mp hitem
      cases levels with
      | zero => cases place <;> simp [Json.without]
      | succ levels =>
        simp only [List.length_cons, Nat.add_le_add_iff_right, Nat.add_sub_add_right] at hnone
        have hitems : items = items.take i ++ items[i] :: items.drop (i + 1) := by
          rw [List.getElem_cons_drop, List.take_append_drop]
        cases place with
        | nil =>
          cases hat
          have hnone : (entries levels items[i]).filterMap read = [] := hnone (Nat.zero_le _)
          conv_rhs => rw [hitems]
          rw [Json.without, List.eraseIdx_eq_take_drop_succ, entries_list, entries_list]
          simp only [List.flatMap_append, List.flatMap_cons, List.filterMap_append, hnone,
            List.nil_append]
        | cons j place =>
          conv_rhs => rw [hitems]
          rw [Json.without, List.modify_eq_take_cons_drop hi, entries_list, entries_list]
          simp only [List.flatMap_append, List.flatMap_cons, List.filterMap_append, ih hat hnone]
    | null | bool | int | real | str | obj => cases hat

end Document

/-! ## Definitions one after another -/

namespace Codex

variable {α : Type} {c : Codex α} {d : StatusDefinition α} {id : String}

theorem contains_iff_mem_ids : c.contains id = true ↔ id ∈ c.ids := by
  rw [contains, get?, List.find?_isSome, ids, List.mem_map]
  simp only [beq_iff_eq]

theorem get?_eq_none_iff : c.get? id = none ↔ id ∉ c.ids := by
  rw [← contains_iff_mem_ids, contains, Bool.not_eq_true, Option.isSome_eq_false_iff,
    Option.isNone_iff_eq_none]

theorem id_of_get? (h : c.get? id = some d) : d.id = id :=
  eq_of_beq (List.find?_some (p := fun e : StatusDefinition α => e.id == id) h)

/-- A definition that takes the place of another one has its id. -/
theorem id_replaced (e : StatusDefinition α) : (if e.id = d.id then d else e).id = e.id := by
  split
  · next h => exact h.symm
  · rfl

theorem ids_define : (c.define d).ids = if d.id ∈ c.ids then c.ids else c.ids ++ [d.id] := by
  rw [define]
  simp only [contains_iff_mem_ids]
  split
  · rw [ids, List.map_map]
    exact List.map_congr_left fun e _ => id_replaced e
  · rw [ids, List.map_append, List.map_singleton, ids]

theorem get?_define : (c.define d).get? id = if d.id = id then some d else c.get? id := by
  rw [define]
  simp only [contains_iff_mem_ids]
  split
  · next hmem =>
    have hfind : (⟨c.definitions.map fun e => if e.id = d.id then d else e⟩ : Codex α).get? id =
        (c.get? id).map fun e => if e.id = d.id then d else e := by
      rw [get?, get?, List.find?_map]
      simp only [Function.comp_def, id_replaced]
    rw [hfind]
    cases hget : c.get? id with
    | none =>
      have hother : d.id ≠ id := by
        rintro rfl
        exact get?_eq_none_iff.mp hget hmem
      rw [if_neg hother, Option.map_none]
    | some e =>
      rw [Option.map_some, id_of_get? hget]
      by_cases heq : id = d.id
      · rw [if_pos heq, if_pos heq.symm]
      · rw [if_neg heq, if_neg (Ne.symm heq)]
  · next hnew =>
    have hfind : (⟨c.definitions ++ [d]⟩ : Codex α).get? id =
        (c.get? id).or (if d.id = id then some d else none) := by
      rw [get?, get?, List.find?_append, List.find?_singleton]
      simp only [beq_iff_eq]
    rw [hfind]
    split
    · next heq => rw [get?_eq_none_iff.mpr (heq ▸ hnew), Option.none_or]
    · rw [Option.or_none]

end Codex

namespace Shelf

variable {α : Type} {s : Shelf α} {d : StatusDefinition α} {id : String}

theorem lookup_others {other : String} (h : other ≠ id) :
    (s.others other).lookup id = s.byId.lookup id := by
  rw [others]
  induction s.byId with
  | nil => rfl
  | cons e entries ih =>
    rw [List.filter_cons]
    by_cases heq : e.1 = other
    · have hid : (id == e.1) = false := beq_eq_false_iff_ne.mpr fun hid => h (hid.trans heq).symm
      rw [if_neg (by simpa using heq), ih, List.lookup_cons, hid]
    · rw [if_pos (by simpa using heq), List.lookup_cons, List.lookup_cons, ih]

theorem get?_define : (s.define d).2.get? id = if d.id = id then some d else s.get? id := by
  rw [define, get?, List.lookup_cons]
  by_cases heq : d.id = id
  · rw [beq_iff_eq.mpr heq.symm, if_pos heq]
  · rw [beq_eq_false_iff_ne.mpr (Ne.symm heq), if_neg heq]
    exact lookup_others heq

end Shelf

/-- What definitions make, one after another, of what is found under the
ids and of the order of the ids: new ids come behind the old ones, each
where it was first, and of the definitions of an id the last one
counts. -/
structure DefinesInTurn {α : Type} (ds : List (StatusDefinition α))
    (found found' : String → Option (StatusDefinition α)) (order order' : List String) : Prop where
  order_eq : order' = order ++ ((ds.map (·.id)).filter fun id => (found id).isNone).eraseDups
  found_eq : ∀ id, found' id = (ds.findRev? fun d => d.id == id).or (found id)

/-- What holds of one definition holds of several. -/
theorem definesInTurn_foldl {α σ : Type} {define : σ → StatusDefinition α → σ}
    {found : σ → String → Option (StatusDefinition α)} {order : σ → List String}
    (hfound : ∀ s d id, found (define s d) id = if d.id = id then some d else found s id)
    (horder : ∀ s d, order (define s d) =
      if (found s d.id).isNone then order s ++ [d.id] else order s)
    (ds : List (StatusDefinition α)) (s : σ) :
    DefinesInTurn ds (found s) (found (ds.foldl define s)) (order s)
      (order (ds.foldl define s)) := by
  induction ds generalizing s with
  | nil => exact ⟨(List.append_nil _).symm, fun _ => rfl⟩
  | cons d ds ih =>
    obtain ⟨hlast, hget⟩ := ih (define s d)
    constructor
    · rw [List.foldl_cons, hlast, horder, List.map_cons, List.filter_cons]
      simp only [hfound]
      cases hnew : (found s d.id).isNone with
      | false =>
        have hfilter : ∀ id ∈ ds.map (·.id),
            (if d.id = id then some d else found s id).isNone = (found s id).isNone := by
          intro id _
          split
          · next heq => rw [← heq, hnew, Option.isNone_some]
          · rfl
        rw [List.filter_congr hfilter]
        rfl
      | true =>
        have hfilter : ∀ id ∈ ds.map (·.id),
            (if d.id = id then some d else found s id).isNone =
              (!id == d.id && (found s id).isNone) := by
          intro id _
          by_cases heq : d.id = id
          · rw [if_pos heq, beq_iff_eq.mpr heq.symm]
            rfl
          · rw [if_neg heq, beq_eq_false_iff_ne.mpr (Ne.symm heq), Bool.not_false, Bool.true_and]
        rw [if_pos rfl, if_pos rfl, List.eraseDups_cons, List.filter_filter,
          List.filter_congr hfilter, List.append_assoc, List.singleton_append]
    · intro id
      rw [List.foldl_cons, hget, hfound, List.findRev?_eq_find?_reverse,
        List.findRev?_eq_find?_reverse, List.reverse_cons, List.find?_append, Option.or_assoc,
        List.find?_singleton]
      simp only [beq_iff_eq]
      split
      · rfl
      · rw [Option.none_or]

theorem Codex.definesInTurn {α : Type} (ds : List (StatusDefinition α)) (c : Codex α) :
    DefinesInTurn ds c.get? (ds.foldl .define c).get? c.ids (ds.foldl .define c).ids := by
  refine definesInTurn_foldl (fun c d id => get?_define) (fun c d => ?_) ds c
  rw [ids_define]
  simp only [Option.isNone_iff_eq_none, get?_eq_none_iff, ite_not]

theorem Shelf.definesInTurn {α : Type} (ds : List (StatusDefinition α)) (s : Shelf α) :
    DefinesInTurn ds s.get? (ds.foldl (fun s d => (s.define d).2) s).get? s.order
      (ds.foldl (fun s d => (s.define d).2) s).order :=
  definesInTurn_foldl (fun _ _ _ => get?_define) (fun _ _ => rfl) ds s

/-! ## Loading -/

namespace Document

open Decode

variable {α : Type} [Scalar α]

/-- The definition that a value is read as. -/
def definition? (v : Json α) : Option (StatusDefinition α) := (ofHeld readDefinition v).toOption

/-- The definitions that a value holds, in the order of the document. -/
def definitionsIn (v : Json α) : List (StatusDefinition α) :=
  (entries maxListLevels v).filterMap definition?

theorem defineAll_eq (c : Codex α) (vs : List (Json α)) :
    defineAll c vs =
      ((vs.filterMap definition?).length, (vs.filterMap definition?).foldl .define c) := by
  induction vs generalizing c with
  | nil => rfl
  | cons v vs ih =>
    rw [defineAll, List.filterMap_cons, definition?]
    cases ofHeld readDefinition v with
    | ok d =>
      simp only [ih]
      rfl
    | error => exact ih c

theorem shelveAll_eq (s : Shelf α) (vs : List (Json α)) :
    shelveAll s vs = ((vs.filterMap definition?).length,
      (vs.filterMap definition?).foldl (fun s d => (s.define d).2) s) := by
  induction vs generalizing s with
  | nil => rfl
  | cons v vs ih =>
    rw [shelveAll, List.filterMap_cons, definition?]
    cases ofHeld readDefinition v with
    | ok d =>
      simp only [ih]
      rfl
    | error => exact ih s

theorem loadCodex_eq (c : Codex α) (v : Json α) :
    loadCodex c v = ((definitionsIn v).length, (definitionsIn v).foldl .define c) :=
  defineAll_eq c _

theorem loadShelf_eq (s : Shelf α) (v : Json α) :
    loadShelf s v = ((definitionsIn v).length,
      (definitionsIn v).foldl (fun s d => (s.define d).2) s) :=
  shelveAll_eq s _

theorem definitionsIn_eq_places (v : Json α) :
    definitionsIn v =
      (recordPlaces maxListLevels v).filterMap fun place => (v.at? place).bind definition? := by
  rw [definitionsIn, entries_eq_places, List.filterMap_filterMap]

/-- What holds no definition inside so many lists: a list on a level that
is not looked into, a record that is on none or is no definition, and
what is neither a list nor a record. -/
def Futile (depth : Nat) : Json α → Prop
  | .arr _ => maxListLevels ≤ depth
  | .obj members => maxListLevels < depth ∨ definition? (.obj members) = none
  | _ => True

theorem definitionsIn_flat (v : Json α) :
    definitionsIn (.arr (v.flat 4)) = definitionsIn v := by
  rw [definitionsIn, definitionsIn, maxListLevels, entries_list, entries_flat]

theorem definitionsIn_without {v e : Json α} {place : List Nat} (hat : v.at? place = some e)
    (hfutile : Futile place.length e) : definitionsIn (v.without place) = definitionsIn v := by
  refine filterMap_entries_without definition? hat fun hplace => ?_
  cases e with
  | arr items =>
    have hdepth : maxListLevels - place.length = 0 := Nat.sub_eq_zero_of_le hfutile
    rw [hdepth, entries_zero, List.filterMap_nil]
  | obj members =>
    obtain hdeep | hnone := hfutile
    · exact absurd hplace (Nat.not_le.mpr hdeep)
    · rw [entries, List.filterMap_cons, hnone, List.filterMap_nil]
  | null | bool | int | real | str => rw [entries] <;> simp

/-- **Loading is defining, place by place.** The records within four
levels of lists stand at places in the order of the document. Loading a
value defines, in this order, each of them that can be read as a
definition, and counts them: the ids that are new come behind the ids
that were defined, and of the definitions of an id the last one counts.
So the lists make no difference: what they hold can as well be one list.
And an item without a definition makes none: the value without it
defines the same. -/
theorem loadCodex_by_place (v : Json α) :
    ∃ places, RecordsAt 4 v places ∧
      let read := places.filterMap fun place => (v.at? place).bind definition?
      (∀ c : Codex α, loadCodex c v = (read.length, read.foldl .define c) ∧
        DefinesInTurn read c.get? (loadCodex c v).2.get? c.ids (loadCodex c v).2.ids ∧
        loadCodex c (.arr (v.flat 4)) = loadCodex c v ∧
        ∀ place e, v.at? place = some e → Futile place.length e →
          loadCodex c (v.without place) = loadCodex c v) ∧
      ∀ s : Shelf α, loadShelf s v = (read.length, read.foldl (fun s d => (s.define d).2) s) ∧
        DefinesInTurn read s.get? (loadShelf s v).2.get? s.order (loadShelf s v).2.order ∧
        loadShelf s (.arr (v.flat 4)) = loadShelf s v ∧
        ∀ place e, v.at? place = some e → Futile place.length e →
          loadShelf s (v.without place) = loadShelf s v := by
  refine ⟨recordPlaces maxListLevels v, recordsAt_recordPlaces maxListLevels v, ?_⟩
  rw [← definitionsIn_eq_places]
  constructor
  · refine fun c => ⟨loadCodex_eq c v, ?_, ?_, fun place e hat hfutile => ?_⟩
    · rw [loadCodex_eq]
      exact c.definesInTurn _
    · rw [loadCodex_eq, loadCodex_eq, definitionsIn_flat v]
    · rw [loadCodex_eq, loadCodex_eq, definitionsIn_without hat hfutile]
  · refine fun s => ⟨loadShelf_eq s v, ?_, ?_, fun place e hat hfutile => ?_⟩
    · rw [loadShelf_eq]
      exact s.definesInTurn _
    · rw [loadShelf_eq, loadShelf_eq, definitionsIn_flat v]
    · rw [loadShelf_eq, loadShelf_eq, definitionsIn_without hat hfutile]

/-- A burn in three lists, a chill in two, a record without an id, a
list that is too deep, and another burn. -/
def nested : Json Double :=
  .arr
    [.arr [.arr [.obj [("id", .str "burn"), ("name", .str "Burn")]], .null,
        .obj [("id", .str "chill"), ("name", .str "Chill")]],
      .obj [("name", .str "Nothing")], .int 5,
      .arr [.arr [.arr [.arr [.obj [("id", .str "deep"), ("name", .str "Deep")]]]]],
      .obj [("id", .str "burn"), ("name", .str "Blaze")]]

theorem loadCodex_by_place_nested :
    nested.at? [1] = some (.obj [("name", .str "Nothing")]) ∧
      Futile 1 (.obj [("name", .str "Nothing")] : Json Double) ∧
      loadCodex .empty (nested.without [1]) = loadCodex .empty nested ∧
      (loadCodex .empty nested).1 = 3 ∧
      (loadCodex .empty nested).2.definitions.map (fun d => (d.id, d.name)) =
        [("burn", "Blaze"), ("chill", "Chill")] := by
  obtain ⟨places, -, hcodex, -⟩ := loadCodex_by_place nested
  obtain ⟨-, -, -, hwithout⟩ := hcodex .empty
  have hat : nested.at? [1] = some (.obj [("name", .str "Nothing")]) := rfl
  have hfutile : Futile 1 (.obj [("name", .str "Nothing")] : Json Double) := .inr (by decide)
  exact ⟨hat, hfutile, hwithout [1] _ hat hfutile, by decide, by decide⟩

end Document
end DeckDuel
