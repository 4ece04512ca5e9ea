/-
DeckDuel.Proofs.WrittenRecords — reading records that were written.

* `Decode.Reads` — a written value is read as a value of a type. One law
  for each way of reading single values and lists.
* `Decode.members_ofMembers` — the members of a written record are
  sorted by the fields of the record that reads it, if no name comes
  twice and every field reads its member.
* `Decode.record_reads`, `Decode.openRecord_reads`,
  `Decode.within_reads` — so what a record is built from are its
  members, looked up by name (`Record.need_written`,
  `Record.get_written`).
* `Doc.hold_ofJson` — a value with few enough levels is held as it is.
-/
import DeckDuel.Json.Decode
import DeckDuel.Proofs.CanonicalForm

namespace DeckDuel

namespace Doc

open Json

variable {α : Type}

mutual

/-- A value with few enough levels is held as it is. -/
theorem hold_ofJson : ∀ (v : Json α) {room : Nat}, v.levels ≤ room → (ofJson v).hold room = .ok v
  | .null, _, _ => rfl
  | .bool _, _, _ => rfl
  | .int _, _, _ => rfl
  | .real _, _, _ => rfl
  | .str _, _, _ => rfl
  | .arr items, room, h => by
    rw [levels] at h
    have hroom : levelsItems items ≤ room - 1 := by omega
    have hitems := holdItems_ofItems items hroom
    rw [ofJson, hold, if_neg (by omega), hitems]
    rfl
  | .obj members, room, h => by
    rw [levels] at h
    have hroom : levelsMembers members ≤ room - 1 := by omega
    have hmembers := holdMembers_ofMembers members hroom
    rw [ofJson, hold, if_neg (by omega), hmembers]
    rfl

theorem holdItems_ofItems : ∀ (vs : List (Json α)) {room : Nat}, levelsItems vs ≤ room →
    holdItems room (ofItems vs) = .ok vs
  | [], _, _ => rfl
  | v :: vs, room, h => by
    obtain ⟨hv, hvs⟩ := Nat.max_le.mp h
    rw [ofItems, holdItems, hold_ofJson v hv, holdItems_ofItems vs hvs]
    rfl

theorem holdMembers_ofMembers : ∀ (ms : List (String × Json α)) {room : Nat},
    levelsMembers ms ≤ room → holdMembers room (ofMembers ms) = .ok ms
  | [], _, _ => rfl
  | (k, v) :: ms, room, h => by
    obtain ⟨hv, hms⟩ := Nat.max_le.mp h
    rw [ofMembers, holdMembers, hold_ofJson v hv, holdMembers_ofMembers ms hms]
    rfl

end

end Doc

namespace Decode

open Json

variable {α β γ : Type} {src inside : Source} {x : β} {v : Json α}

/-! ## Single values -/

/-- The written value is read as a value of a type. -/
def Reads (d : Decoder α β) (src : Source) (v : Json α) (x : β) : Prop := d src (.ofJson v) = .ok x

theorem reads_text (s : String) : Reads (text : Decoder α String) src (.str s) s := rfl

theorem reads_flag (b : Bool) : Reads (flag : Decoder α Bool) src (.bool b) b := rfl

theorem reads_natural {bound n : Nat} (h : n < bound) :
    Reads (natural bound : Decoder α Nat) src (.nat n) n := by
  have hbounds : (decide (0 ≤ (n : Int)) && decide ((n : Int) < bound)) = true := by
    simp only [Bool.and_eq_true, decide_eq_true_eq]
    omega
  exact if_pos hbounds

theorem reads_number [Scalar α] {x : α} (h : Scalar.isFinite x = true) :
    Reads number src (.ofNumber x) x := by
  rw [Reads, ofNumber, if_pos h]
  rfl

/-- A value that is there is read as one that may be missing. -/
theorem Reads.nullable {d : Decoder α β} (h : Reads d src v x) (hv : v ≠ .null) :
    Reads (nullable d) src v (some x) := by
  have hsome : (d src (.ofJson v)).map some = .ok (some x) := by
    rw [h]
    rfl
  cases v with
  | null => exact absurd rfl hv
  | bool _ => exact hsome
  | int _ => exact hsome
  | real _ => exact hsome
  | str _ => exact hsome
  | arr _ => exact hsome
  | obj _ => exact hsome

theorem reads_choice {names : List (String × β)} {name : String} (h : names.lookup name = some x) :
    Reads (choice names : Decoder α β) src (.str name) x := by
  show named names name = .ok x
  rw [named, h]

theorem items_ofItems {d : Decoder α β} {write : β → Json α} {xs : List β}
    (h : ∀ x ∈ xs, Reads d src (write x) x) :
    items d src (Doc.ofItems (xs.map write)) = .ok xs := by
  induction xs with
  | nil => rfl
  | cons x xs ih =>
    obtain ⟨hx, hxs⟩ := List.forall_mem_cons.mp h
    rw [List.map_cons, Doc.ofItems, items, hx, ih hxs]
    rfl

theorem reads_listOf {d : Decoder α β} {write : β → Json α} {xs : List β}
    (henter : src.enter = .ok inside) (h : ∀ x ∈ xs, Reads d inside (write x) x) :
    Reads (listOf d) src (.arr (xs.map write)) xs := by
  show (do
    let inside ← src.enter
    let xs ← items d inside (Doc.ofItems (xs.map write))
    Doc.closed none
    .ok xs) = .ok xs
  rw [henter]
  show (do
    let xs ← items d inside (Doc.ofItems (xs.map write))
    Doc.closed none
    .ok xs) = .ok xs
  rw [items_ofItems h]
  rfl

theorem reads_texts (henter : src.enter = .ok inside) (ss : List String) :
    Reads (listOf text : Decoder α (List String)) src (.strs ss) ss :=
  reads_listOf henter fun s _ => reads_text s

/-- A value with few enough levels is read as its canonical form. -/
theorem reads_any (h : v.levels ≤ src.room) : Reads any src v v.canonical := by
  show ((Doc.ofJson v).hold src.room).map Json.canonical = .ok v.canonical
  rw [Doc.hold_ofJson v h]
  rfl

/-! ## Members -/

/-- Does the name belong to one of the fields? -/
def isField (fields : List (Field α)) (name : String) : Bool :=
  (fields.find? fun f => f.names.contains name).isSome

/-- The member is one of a field, under the name that it is filed under,
and the field reads it. -/
def FieldReads (fields : List (Field α)) (src : Source) (m : String × Json α) : Prop :=
  ∃ f, (fields.find? fun f => f.names.contains m.1) = some f ∧ f.name = m.1 ∧
    f.check src (.ofJson m.2) = .ok ()

theorem Reads.field {fields : List (Field α)} {d : Decoder α β} {name : String}
    {names : List String} (h : Reads d src v x)
    (hfind : (fields.find? fun f => f.names.contains name) = some (.of names d))
    (hname : names.headD "" = name) : FieldReads fields src (name, v) := by
  refine ⟨_, hfind, hname, ?_⟩
  show (d src (.ofJson v)).map (fun _ => ()) = .ok ()
  rw [h]
  rfl

/-- The members as documents. -/
def docs (ms : List (String × Json α)) : List (String × Doc α) := ms.map fun m => (m.1, .ofJson m.2)

theorem lookup_docs (ms : List (String × Json α)) (name : String) :
    (docs ms).lookup name = (ms.lookup name).map .ofJson := by
  induction ms with
  | nil => rfl
  | cons m ms ih =>
    rw [docs, List.map_cons, List.lookup_cons, List.lookup_cons]
    split
    · rfl
    · exact ih

/-- The members of a written record are sorted by the fields that read
them; the others go where others go. -/
theorem members_ofMembers {fields : List (Field α)}
    {other : Source → Doc α → Decoded (Option (Json α))} {ms : List (String × Json α)}
    (h : ∀ m ∈ ms, FieldReads fields src m ∨
      isField fields m.1 = false ∧ other src (.ofJson m.2) = .ok (some m.2))
    (hnodup : (ms.map Prod.fst).Nodup) {seen : List String} (hseen : ∀ m ∈ ms, m.1 ∉ seen) :
    members fields other src seen (Doc.ofMembers ms) =
      .ok (docs (ms.filter fun m => isField fields m.1),
        ms.filter fun m => !isField fields m.1) := by
  induction ms generalizing seen with
  | nil => rfl
  | cons m ms ih =>
    obtain ⟨name, v⟩ := m
    obtain ⟨hm, hms⟩ := List.forall_mem_cons.mp h
    obtain ⟨hname, hnodup'⟩ := List.nodup_cons.mp hnodup
    obtain ⟨hseen₁, hseen'⟩ := List.forall_mem_cons.mp hseen
    have hne : ∀ m ∈ ms, m.1 ≠ name := by
      rintro m hmem rfl
      exact hname (List.mem_map.mpr ⟨m, hmem, rfl⟩)
    rcases hm with ⟨f, hfind, hf, hcheck⟩ | ⟨hfield, hother⟩
    · have hfind' : (fields.find? fun f => f.names.contains name) = some f := hfind
      have hcheck' : f.check src (.ofJson v) = .ok () := hcheck
      have hf' : f.name = name := hf
      have hfield : isField fields name = true := by rw [isField, hfind']; rfl
      have hseen'' : ∀ m ∈ ms, m.1 ∉ name :: seen := fun m hm hmem => by
        rcases List.mem_cons.mp hmem with heq | hmem
        · exact hne m hm heq
        · exact hseen' m hm hmem
      have hrest := ih hms hnodup' hseen''
      have hcontains : seen.contains name = false := by simpa using hseen₁
      rw [Doc.ofMembers, members, hfind']
      simp only [hf', hcontains, hcheck', hrest, hfield, List.filter_cons_of_pos, Bool.not_true,
        Bool.false_eq_true, not_false_eq_true, List.filter_cons_of_neg, if_false]
      rfl
    · have hfind : (fields.find? fun f => f.names.contains name) = none := by
        simpa [isField] using hfield
      have hfield' : isField fields name = false := hfield
      have hother' : other src (.ofJson v) = .ok (some v) := hother
      have hrest := ih hms hnodup' hseen'
      rw [Doc.ofMembers, members, hfind]
      simp only [hother', hrest, hfield', List.filter_cons_of_pos, Bool.not_false,
        Bool.false_eq_true, not_false_eq_true, List.filter_cons_of_neg]
      rfl

/-- All members belong to fields. -/
theorem members_known {fields : List (Field α)}
    {other : Source → Doc α → Decoded (Option (Json α))} {ms : List (String × Json α)}
    (h : ∀ m ∈ ms, FieldReads fields src m) (hnodup : (ms.map Prod.fst).Nodup) :
    members fields other src [] (Doc.ofMembers ms) = .ok (docs ms, []) := by
  have hfield : ∀ m ∈ ms, isField fields m.1 = true := by
    intro m hm
    obtain ⟨f, hfind, -, -⟩ := h m hm
    rw [isField, hfind]
    rfl
  rw [members_ofMembers (fun m hm => .inl (h m hm)) hnodup (by simp),
    List.filter_eq_self.mpr hfield, List.filter_eq_nil_iff.mpr (by simpa using hfield)]

/-! ## Records -/

theorem record_reads {fields : List (Field α)} {build : Record α → Decoded β}
    {ms : List (String × Json α)} (henter : src.enter = .ok inside)
    (h : ∀ m ∈ ms, FieldReads fields inside m) (hnodup : (ms.map Prod.fst).Nodup)
    (hbuild : build ⟨inside, docs ms, false⟩ = .ok x) :
    Reads (record fields build) src (.obj ms) x := by
  rw [Reads, Doc.ofJson, record, henter]
  show (do
    let r ← members fields ignored inside [] (Doc.ofMembers ms)
    Doc.closed none
    build ⟨inside, r.1, false⟩) = .ok x
  rw [members_known h hnodup]
  exact hbuild

/-- A record that keeps the members which belong to no field of it. -/
theorem openRecord_reads {fields : List (Field α)}
    {build : Record α → List (String × Json α) → Decoded β} {known rest : List (String × Json α)}
    {ms : List (String × Json α)} (henter : src.enter = .ok inside)
    (hknown : ms.filter (fun m => isField fields m.1) = known)
    (hrest : ms.filter (fun m => !isField fields m.1) = rest)
    (h : ∀ m ∈ known, FieldReads fields inside m) (hlevels : ∀ m ∈ rest, m.2.levels ≤ inside.room)
    (hnodup : (ms.map Prod.fst).Nodup) (hbuild : build ⟨inside, docs known, false⟩ rest = .ok x) :
    Reads (openRecord fields build) src (.obj ms) x := by
  have hmembers : ∀ m ∈ ms, FieldReads fields inside m ∨
      isField fields m.1 = false ∧ kept inside (.ofJson m.2) = .ok (some m.2) := by
    intro m hm
    cases hfield : isField fields m.1 with
    | true => exact .inl (h m (hknown ▸ List.mem_filter.mpr ⟨hm, hfield⟩))
    | false =>
      refine .inr ⟨rfl, ?_⟩
      have hmem : m ∈ rest := hrest ▸ List.mem_filter.mpr ⟨hm, by rw [hfield]; rfl⟩
      show ((Doc.ofJson m.2).hold inside.room).map some = .ok (some m.2)
      rw [Doc.hold_ofJson m.2 (hlevels m hmem)]
      rfl
  rw [Reads, Doc.ofJson, openRecord, henter]
  show (do
    let r ← members fields kept inside [] (Doc.ofMembers ms)
    Doc.closed none
    build ⟨inside, r.1, false⟩ r.2) = .ok x
  rw [members_ofMembers hmembers hnodup (by simp), hknown, hrest]
  exact hbuild

/-- The fields of a record among the members that were kept. -/
theorem within_reads {fields : List (Field α)} {build : Record α → Decoded β}
    {ms : List (String × Json α)} (h : ∀ m ∈ ms, FieldReads fields .kept m)
    (hnodup : (ms.map Prod.fst).Nodup) (hbuild : build ⟨.kept, docs ms, false⟩ = .ok x) :
    within fields ms build = .ok x := by
  rw [within, members_known h hnodup]
  exact hbuild

end Decode

namespace Record

open Decode

variable {α β : Type} {src : Source} {ms : List (String × Json α)} {listed : Bool}
  {name : String} {v : Json α} {d : Decoder α β} {x : β}

theorem need_written (hlookup : ms.lookup name = some v) (h : Reads d src v x) :
    need ⟨src, docs ms, listed⟩ name d = .ok x := by
  simp only [need, lookup_docs, hlookup, Option.map_some]
  exact h

theorem get_written (hlookup : ms.lookup name = some v) (h : Reads d src v x) (standard : β) :
    get ⟨src, docs ms, listed⟩ name d standard = .ok x := by
  simp only [get, lookup_docs, hlookup, Option.map_some]
  exact h

theorem get_unwritten (hlookup : ms.lookup name = none) (d : Decoder α β) (standard : β) :
    get ⟨src, docs ms, listed⟩ name d standard = .ok standard := by
  simp only [get, lookup_docs, hlookup, Option.map_none]

end Record
end DeckDuel
