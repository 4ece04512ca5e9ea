/-
DeckDuel.Proofs.OrderedCodex — definitions in the order of arrival.

A shelf keeps its definitions in a part without an order, and its ids in
a list beside it. A codex keeps the definitions in a list. Both are
compared with a ledger, which is a list of ids with their definitions:

* `Ledger.put` — a new id is written at the end; the definition of a
  known one is written over, where it stands.
* `Ledger.take` — an id is crossed out with its definition.
* `Shelf.Keeps`, `Codex.Keeps` — the parts of a shelf, and the list of a
  codex, are those of a ledger. Every act keeps this, and has the same
  answer on both sides (`Shelf.Keeps.perform`, `Codex.Keeps.perform`).
* `performAll_agrees` — so do any acts, one after another.
* `Ledger.shown_after` — whatever was done, a shelf and a codex show what
  the ledger holds, and list each definition once.
-/
import DeckDuel.Proofs.NestedEntries
import Mathlib.Data.List.Nodup

namespace DeckDuel

/-! ## Lists by key -/

section Keyed

variable {β : Type} {l l' : List (String × β)} {k : String} {v : β}

theorem lookup_eq_none_iff_not_mem : l.lookup k = none ↔ k ∉ l.map Prod.fst := by
  rw [List.lookup_eq_none_iff, List.mem_map]
  simp only [bne_iff_ne, ne_eq, not_exists, not_and]
  exact forall₂_congr fun _ _ => not_congr eq_comm

/-- If no key comes twice, each entry is found under its key. -/
theorem lookup_eq_some_iff_mem (h : (l.map Prod.fst).Nodup) :
    l.lookup k = some v ↔ (k, v) ∈ l := by
  induction l with
  | nil => simp
  | cons e l ih =>
    obtain ⟨k', v'⟩ := e
    obtain ⟨hk, hl⟩ := List.nodup_cons.mp h
    rw [List.lookup_cons, List.mem_cons, Prod.mk.injEq]
    by_cases heq : k = k'
    · have hnot : (k, v) ∉ l := fun hmem => hk (List.mem_map.mpr ⟨_, hmem, heq⟩)
      rw [beq_iff_eq.mpr heq, or_iff_left hnot, and_iff_right heq]
      exact Option.some_inj.trans eq_comm
    · rw [beq_eq_false_iff_ne.mpr heq, or_iff_right fun h => heq h.1]
      exact ih hl

/-- If no key comes twice, the order makes no difference to what is
found. -/
theorem lookup_eq_of_perm (h : (l.map Prod.fst).Nodup) (hperm : l.Perm l') :
    l.lookup k = l'.lookup k := by
  have h' : (l'.map Prod.fst).Nodup := (hperm.map Prod.fst).nodup_iff.mp h
  refine Option.ext fun v => ?_
  rw [lookup_eq_some_iff_mem h, lookup_eq_some_iff_mem h', hperm.mem_iff]

end Keyed

/-! ## Ledgers -/

/-- Definitions with their ids, in the order in which the ids came. -/
abbrev Ledger (α : Type) := List (String × StatusDefinition α)

namespace Ledger

variable {α : Type} {l : Ledger α} {d : StatusDefinition α} {id : String}

/-- The ids. -/
def ids (l : Ledger α) : List String := l.map Prod.fst

/-- Writes a definition over the one of its id, where that stands, and
gives that back. A new id is written at the end. -/
def put (d : StatusDefinition α) : Ledger α → Option (StatusDefinition α) × Ledger α
  | [] => (none, [(d.id, d)])
  | e :: l =>
    if e.1 = d.id then (some e.2, (d.id, d) :: l)
    else ((put d l).1, e :: (put d l).2)

/-- Crosses out an id with its definition, and gives that back. -/
def take (id : String) : Ledger α → Option (StatusDefinition α) × Ledger α
  | [] => (none, [])
  | e :: l => if e.1 = id then (some e.2, l) else ((take id l).1, e :: (take id l).2)

/-- No id is written twice, and each definition stands with its own. -/
structure Sound (l : Ledger α) : Prop where
  nodup : l.ids.Nodup
  own : ∀ e ∈ l, e.2.id = e.1

theorem put_fst : (put d l).1 = l.lookup d.id := by
  induction l with
  | nil => rfl
  | cons e l ih =>
    rw [put, List.lookup_cons]
    by_cases heq : e.1 = d.id
    · rw [if_pos heq, beq_iff_eq.mpr heq.symm]
    · rw [if_neg heq, beq_eq_false_iff_ne.mpr (Ne.symm heq)]
      exact ih

theorem take_fst : (take id l).1 = l.lookup id := by
  induction l with
  | nil => rfl
  | cons e l ih =>
    rw [take, List.lookup_cons]
    by_cases heq : e.1 = id
    · rw [if_pos heq, beq_iff_eq.mpr heq.symm]
    · rw [if_neg heq, beq_eq_false_iff_ne.mpr (Ne.symm heq)]
      exact ih

/-- Without an id that it does not have, a ledger is as it was. -/
theorem filter_eq_self_of_not_mem (h : id ∉ l.ids) : (l.filter fun e => e.1 ≠ id) = l := by
  refine List.filter_eq_self.mpr fun e he => decide_eq_true fun heq => h ?_
  exact heq ▸ List.mem_map_of_mem he

theorem take_snd (h : l.ids.Nodup) : (take id l).2 = l.filter fun e => e.1 ≠ id := by
  induction l with
  | nil => rfl
  | cons e l ih =>
    obtain ⟨he, hl⟩ := List.nodup_cons.mp h
    rw [take, List.filter_cons]
    by_cases heq : e.1 = id
    · rw [if_pos heq, if_neg (by simpa using heq), filter_eq_self_of_not_mem (heq ▸ he)]
    · rw [if_neg heq, if_pos (by simpa using heq), ← ih hl]

theorem ids_put : (put d l).2.ids = if d.id ∈ l.ids then l.ids else l.ids ++ [d.id] := by
  induction l with
  | nil => rfl
  | cons e l ih =>
    rw [put]
    by_cases heq : e.1 = d.id
    · have hmem : d.id ∈ ids (e :: l) := heq ▸ List.mem_cons_self
      rw [if_pos heq, if_pos hmem, ids, ids, List.map_cons, List.map_cons, heq]
    · have hmem : d.id ∈ ids (e :: l) ↔ d.id ∈ ids l :=
        List.mem_cons.trans (or_iff_right (Ne.symm heq))
      rw [if_neg heq]
      simp only [hmem]
      show e.1 :: (put d l).2.ids = _
      rw [ih]
      split <;> rfl

/-- What was written is an entry, and so is all that stood under other
ids. -/
theorem perm_put (h : l.ids.Nodup) :
    (put d l).2.Perm ((d.id, d) :: l.filter fun e => e.1 ≠ d.id) := by
  induction l with
  | nil => exact .refl _
  | cons e l ih =>
    obtain ⟨he, hl⟩ := List.nodup_cons.mp h
    rw [put, List.filter_cons]
    by_cases heq : e.1 = d.id
    · rw [if_pos heq, if_neg (by simpa using heq), filter_eq_self_of_not_mem (heq ▸ he)]
    · rw [if_neg heq, if_pos (by simpa using heq)]
      exact ((ih hl).cons e).trans (.swap _ _ _)

theorem put_of_mem (h : l.ids.Nodup) (hmem : d.id ∈ l.ids) :
    (put d l).2 = l.map fun e => if e.1 = d.id then (d.id, d) else e := by
  induction l with
  | nil => cases hmem
  | cons e l ih =>
    obtain ⟨he, hl⟩ := List.nodup_cons.mp h
    rw [put, List.map_cons]
    by_cases heq : e.1 = d.id
    · have hrest : (l.map fun e => if e.1 = d.id then (d.id, d) else e) = l := by
        refine (List.map_congr_left fun f hf => if_neg fun hid => he ?_).trans (List.map_id l)
        exact List.mem_map.mpr ⟨f, hf, hid.trans heq.symm⟩
      rw [if_pos heq, if_pos heq, hrest]
    · have hmem : d.id ∈ ids l := (List.mem_cons.mp hmem).resolve_left (Ne.symm heq)
      rw [if_neg heq, if_neg heq, ih hl hmem]

theorem put_of_not_mem (hnew : d.id ∉ l.ids) : (put d l).2 = l ++ [(d.id, d)] := by
  induction l with
  | nil => rfl
  | cons e l ih =>
    obtain ⟨hne, hnew⟩ := not_or.mp fun h => hnew (List.mem_cons.mpr h)
    rw [put, if_neg (Ne.symm hne), ih hnew, List.cons_append]

theorem sound_nil : Sound ([] : Ledger α) := ⟨.nil, by simp⟩

theorem Sound.put (h : l.Sound) : (put d l).2.Sound := by
  constructor
  · rw [ids_put]
    split
    · exact h.nodup
    · next hnew =>
      rw [← List.concat_eq_append]
      exact h.nodup.concat hnew
  · intro e he
    rcases List.mem_cons.mp ((perm_put h.nodup).mem_iff.mp he) with rfl | he
    · rfl
    · exact h.own e (List.mem_of_mem_filter he)

theorem Sound.take (h : l.Sound) : (take id l).2.Sound := by
  rw [take_snd h.nodup]
  exact ⟨h.nodup.sublist (List.filter_sublist.map Prod.fst),
    fun e he => h.own e (List.mem_of_mem_filter he)⟩

end Ledger

/-! ## Acts -/

/-- What a keeper of definitions is asked to do. -/
inductive Shelf.Act (α : Type) where
  | define (d : StatusDefinition α)
  | defineGenerated (d : StatusDefinition α) (createdAt : Nat)
  | remove (id : String)
  | load (v : Json α)

/-- What a keeper of definitions answers. -/
inductive Shelf.Answer (α : Type) where
  | given (back : Option (StatusDefinition α))
  | counted (n : Nat)
  | nothing

/-- Acts on a keeper of any kind, one after another. -/
def performAll {α σ : Type} (perform : Shelf.Act α → σ → Shelf.Answer α × σ) :
    List (Shelf.Act α) → σ → List (Shelf.Answer α) × σ
  | [], s => ([], s)
  | a :: acts, s =>
    let r := perform a s
    let rs := performAll perform acts r.2
    (r.1 :: rs.1, rs.2)

/-- If every act keeps a relation between two keepers and has the same
answer from both, then so do all acts together. -/
theorem performAll_agrees {α σ τ : Type} {p : Shelf.Act α → σ → Shelf.Answer α × σ}
    {q : Shelf.Act α → τ → Shelf.Answer α × τ} {R : σ → τ → Prop}
    (hstep : ∀ {s t}, R s t → ∀ a, (p a s).1 = (q a t).1 ∧ R (p a s).2 (q a t).2) {s : σ} {t : τ}
    (h : R s t) (acts : List (Shelf.Act α)) :
    (performAll p acts s).1 = (performAll q acts t).1 ∧
      R (performAll p acts s).2 (performAll q acts t).2 := by
  induction acts generalizing s t with
  | nil => exact ⟨rfl, h⟩
  | cons a acts ih =>
    obtain ⟨hanswer, h⟩ := hstep h a
    obtain ⟨hanswers, h⟩ := ih h
    refine ⟨?_, h⟩
    rw [performAll, performAll, hanswer, hanswers]

section Performers

variable {α : Type} [Scalar α]

open Document

/-- An act on a ledger. To load a value is to put the definitions that it
holds, one by one. -/
def Ledger.perform : Shelf.Act α → Ledger α → Shelf.Answer α × Ledger α
  | .define d, l => (.given (l.put d).1, (l.put d).2)
  | .defineGenerated d createdAt, l =>
    (.nothing, (l.put { d with origin := .ai, createdAt := createdAt }).2)
  | .remove id, l => (.given (l.take id).1, (l.take id).2)
  | .load v, l =>
    (.counted (definitionsIn v).length, (definitionsIn v).foldl (fun l d => (l.put d).2) l)

/-- An act on a shelf. -/
def Shelf.perform : Shelf.Act α → Shelf α → Shelf.Answer α × Shelf α
  | .define d, s => (.given (s.define d).1, (s.define d).2)
  | .defineGenerated d createdAt, s => (.nothing, s.defineGenerated d createdAt)
  | .remove id, s => (.given (s.remove id).1, (s.remove id).2)
  | .load v, s => (.counted (loadShelf s v).1, (loadShelf s v).2)

/-- An act on a codex, which gives back what it knew before. -/
def Codex.perform : Shelf.Act α → Codex α → Shelf.Answer α × Codex α
  | .define d, c => (.given (c.get? d.id), c.define d)
  | .defineGenerated d createdAt, c => (.nothing, c.defineGenerated d createdAt)
  | .remove id, c => (.given (c.get? id), c.remove id)
  | .load v, c => (.counted (loadCodex c v).1, (loadCodex c v).2)

end Performers

/-! ## Shelves -/

namespace Shelf

variable {α : Type} {s : Shelf α} {l : Ledger α} {id : String}

/-- The two parts of a shelf are those of a ledger: its ids in order, and
its entries in any. -/
structure Keeps (s : Shelf α) (l : Ledger α) : Prop where
  sound : l.Sound
  order : s.order = l.ids
  entries : l.Perm s.byId

namespace Keeps

theorem empty : Keeps (.empty : Shelf α) [] := ⟨Ledger.sound_nil, rfl, .nil⟩

theorem get?_eq (h : s.Keeps l) : s.get? id = l.lookup id :=
  (lookup_eq_of_perm h.sound.nodup h.entries).symm

theorem others (h : s.Keeps l) : (l.filter fun e => e.1 ≠ id).Perm (s.others id) :=
  h.entries.filter _

theorem define (h : s.Keeps l) (d : StatusDefinition α) :
    (s.define d).1 = (l.put d).1 ∧ (s.define d).2.Keeps (l.put d).2 := by
  refine ⟨h.get?_eq.trans Ledger.put_fst.symm, h.sound.put, ?_,
    (Ledger.perm_put h.sound.nodup).trans (h.others.cons _)⟩
  have hnew : (s.get? d.id).isNone = true ↔ d.id ∉ l.ids := by
    rw [h.get?_eq, Option.isNone_iff_eq_none, lookup_eq_none_iff_not_mem, Ledger.ids]
  rw [Ledger.ids_put, Shelf.define]
  simp only [hnew, h.order, ite_not]

theorem remove (h : s.Keeps l) (id : String) :
    (s.remove id).1 = (l.take id).1 ∧ (s.remove id).2.Keeps (l.take id).2 := by
  have hget : s.get? id = l.lookup id := h.get?_eq
  rw [Ledger.take_fst, Ledger.take_snd h.sound.nodup, Shelf.remove]
  cases hlookup : l.lookup id with
  | none =>
    have hnot : id ∉ l.ids := lookup_eq_none_iff_not_mem.mp hlookup
    rw [hget, hlookup, Ledger.filter_eq_self_of_not_mem hnot]
    exact ⟨rfl, h⟩
  | some d =>
    rw [hget, hlookup, ← Ledger.take_snd h.sound.nodup]
    refine ⟨rfl, h.sound.take, ?_, ?_⟩
    · rw [Ledger.take_snd h.sound.nodup, Ledger.ids, h.order, Ledger.ids, List.filter_map]
      rfl
    · rw [Ledger.take_snd h.sound.nodup]
      exact h.others

theorem define_all (h : s.Keeps l) (ds : List (StatusDefinition α)) :
    Keeps (ds.foldl (fun s d => (s.define d).2) s) (ds.foldl (fun l d => (l.put d).2) l) := by
  induction ds generalizing s l with
  | nil => exact h
  | cons d ds ih => exact ih (h.define d).2

/-- Every act has the answer of the ledger, and keeps its parts. -/
theorem perform [Scalar α] (h : s.Keeps l) (a : Act α) :
    (s.perform a).1 = (l.perform a).1 ∧ (s.perform a).2.Keeps (l.perform a).2 := by
  cases a with
  | define d =>
    obtain ⟨hback, h⟩ := h.define d
    exact ⟨congrArg Answer.given hback, h⟩
  | defineGenerated d createdAt => exact ⟨rfl, (h.define _).2⟩
  | remove id =>
    obtain ⟨hback, h⟩ := h.remove id
    exact ⟨congrArg Answer.given hback, h⟩
  | load v =>
    rw [Shelf.perform, Ledger.perform, Document.loadShelf_eq]
    exact ⟨rfl, h.define_all _⟩

theorem contains_eq (h : s.Keeps l) : s.contains id = (l.lookup id).isSome := by
  rw [← h.get?_eq, Bool.eq_iff_iff, Shelf.contains, Shelf.get?, List.any_eq_true,
    List.lookup_isSome_iff]
  simp only [beq_iff_eq]
  exact exists_congr fun _ => and_congr_right fun _ => eq_comm

theorem definitions_eq (h : s.Keeps l) : s.definitions = l.map Prod.snd := by
  rw [Shelf.definitions, h.order, Ledger.ids, List.filterMap_map]
  have hfound : ∀ e ∈ l, (s.get? ∘ Prod.fst) e = some e.2 := fun e he => by
    rw [Function.comp_apply, h.get?_eq]
    exact (lookup_eq_some_iff_mem h.sound.nodup).mpr he
  rw [List.filterMap_congr hfound, ← List.filterMap_eq_map']

end Keeps
end Shelf

/-! ## Codices -/

namespace Codex

variable {α : Type} {c : Codex α} {l : Ledger α} {id : String}

/-- The list of a codex is that of a ledger. -/
structure Keeps (c : Codex α) (l : Ledger α) : Prop where
  sound : l.Sound
  definitions : c.definitions = l.map Prod.snd

namespace Keeps

theorem empty : Keeps (.empty : Codex α) [] := ⟨Ledger.sound_nil, rfl⟩

theorem ids_eq (h : c.Keeps l) : c.ids = l.ids := by
  rw [ids, h.definitions, List.map_map, Ledger.ids]
  exact List.map_congr_left h.sound.own

theorem get?_eq (h : c.Keeps l) : c.get? id = l.lookup id := by
  have hown := h.sound.own
  rw [get?, h.definitions]
  clear h
  induction l with
  | nil => rfl
  | cons e l ih =>
    obtain ⟨he, hl⟩ := List.forall_mem_cons.mp hown
    rw [List.map_cons, List.find?_cons, List.lookup_cons, he, ih hl, Bool.beq_comm]

theorem define (h : c.Keeps l) (d : StatusDefinition α) : (c.define d).Keeps (l.put d).2 := by
  refine ⟨h.sound.put, ?_⟩
  rw [Codex.define]
  simp only [contains_iff_mem_ids, h.ids_eq]
  split
  · next hmem =>
    rw [Ledger.put_of_mem h.sound.nodup hmem, h.definitions, List.map_map, List.map_map]
    refine List.map_congr_left fun e he => ?_
    rw [Function.comp_apply, Function.comp_apply, h.sound.own e he]
    split <;> rfl
  · next hnew =>
    rw [Ledger.put_of_not_mem hnew, h.definitions, List.map_append]
    rfl

theorem remove (h : c.Keeps l) (id : String) : (c.remove id).Keeps (l.take id).2 := by
  refine ⟨h.sound.take, ?_⟩
  rw [Codex.remove, h.definitions, Ledger.take_snd h.sound.nodup, List.filter_map]
  refine congrArg (List.map Prod.snd) (List.filter_congr fun e he => ?_)
  rw [Function.comp_apply, h.sound.own e he]

theorem define_all (h : c.Keeps l) (ds : List (StatusDefinition α)) :
    Keeps (ds.foldl .define c) (ds.foldl (fun l d => (l.put d).2) l) := by
  induction ds generalizing c l with
  | nil => exact h
  | cons d ds ih => exact ih (h.define d)

/-- Every act has the answer of the ledger, and keeps its list. -/
theorem perform [Scalar α] (h : c.Keeps l) (a : Shelf.Act α) :
    (c.perform a).1 = (l.perform a).1 ∧ (c.perform a).2.Keeps (l.perform a).2 := by
  cases a with
  | define d =>
    exact ⟨congrArg Shelf.Answer.given (h.get?_eq.trans Ledger.put_fst.symm), h.define d⟩
  | defineGenerated d createdAt => exact ⟨rfl, h.define _⟩
  | remove id =>
    exact ⟨congrArg Shelf.Answer.given (h.get?_eq.trans Ledger.take_fst.symm), h.remove id⟩
  | load v =>
    rw [Codex.perform, Ledger.perform, Document.loadCodex_eq]
    exact ⟨rfl, h.define_all _⟩

end Keeps
end Codex

/-! ## What is shown -/

/-- What can be seen of a keeper of definitions is what a ledger holds:
what is found under an id, how many definitions there are, and which ones
are listed. Each definition that is found is listed once. -/
structure Ledger.ShownBy {α : Type} (l : Ledger α) (find : String → Option (StatusDefinition α))
    (has : String → Bool) (size : Nat) (listed : List (StatusDefinition α)) : Prop where
  find_eq : ∀ id, find id = l.lookup id
  has_eq : ∀ id, has id = (l.lookup id).isSome
  size_eq : size = l.length
  listed_eq : listed = l.map Prod.snd
  own : ∀ id d, find id = some d → d.id = id
  held : ∀ d, d ∈ listed ↔ find d.id = some d
  once : (listed.map (·.id)).Nodup
  counted : listed.length = size

theorem Ledger.Sound.shownBy {α : Type} {l : Ledger α} (h : l.Sound)
    {find : String → Option (StatusDefinition α)} {has : String → Bool} {size : Nat}
    {listed : List (StatusDefinition α)} (hfind : ∀ id, find id = l.lookup id)
    (hhas : ∀ id, has id = (l.lookup id).isSome) (hsize : size = l.length)
    (hlisted : listed = l.map Prod.snd) : l.ShownBy find has size listed := by
  have hfound {id : String} {d : StatusDefinition α} : find id = some d ↔ (id, d) ∈ l := by
    rw [hfind, lookup_eq_some_iff_mem h.nodup]
  refine ⟨hfind, hhas, hsize, hlisted, fun id d hd => h.own _ (hfound.mp hd), fun d => ?_, ?_, ?_⟩
  · rw [hfound, hlisted, List.mem_map]
    constructor
    · rintro ⟨⟨id, d⟩, hmem, rfl⟩
      obtain rfl : d.id = id := h.own _ hmem
      exact hmem
    · exact fun hmem => ⟨_, hmem, rfl⟩
  · have hids : listed.map (·.id) = l.ids := by
      rw [hlisted, List.map_map]
      exact List.map_congr_left h.own
    rw [hids]
    exact h.nodup
  · rw [hlisted, hsize, List.length_map]

/-- **Definitions stay in the order of their arrival.** Whatever is done
with a shelf, with a codex and with a ledger, from none of them holding
anything: every act has the same answer from the three, and the shelf and
the codex show what the ledger holds, each definition once. What the
shelf gives a battle is the codex. -/
theorem Ledger.shown_after {α : Type} [Scalar α] (acts : List (Shelf.Act α)) :
    let ledger := performAll Ledger.perform acts []
    let shelf := performAll Shelf.perform acts .empty
    let codex := performAll Codex.perform acts .empty
    shelf.1 = ledger.1 ∧ codex.1 = ledger.1 ∧
      ledger.2.ShownBy shelf.2.get? shelf.2.contains shelf.2.size shelf.2.definitions ∧
      ledger.2.ShownBy codex.2.get? codex.2.contains codex.2.size codex.2.definitions ∧
      shelf.2.codex = codex.2 := by
  intro ledger shelf codex
  obtain ⟨hshelf, hs⟩ := performAll_agrees Shelf.Keeps.perform Shelf.Keeps.empty acts
  obtain ⟨hcodex, hc⟩ := performAll_agrees Codex.Keeps.perform Codex.Keeps.empty acts
  refine ⟨hshelf, hcodex, ?_, ?_, ?_⟩
  · exact hs.sound.shownBy (fun _ => hs.get?_eq) (fun _ => hs.contains_eq) hs.entries.length_eq.symm
      hs.definitions_eq
  · have hsize : codex.2.size = ledger.2.length := by
      rw [Codex.size, hc.definitions, List.length_map]
    exact hc.sound.shownBy (fun _ => hc.get?_eq) (fun _ => congrArg Option.isSome hc.get?_eq) hsize
      hc.definitions
  · rw [Shelf.codex, hs.definitions_eq, ← hc.definitions]

-- what is defined again stays where it is, what comes back arrives last
example :
    let status (id name : String) : StatusDefinition Double := .plain id name .neutral
    let acts : List (Shelf.Act Double) :=
      [.define (status "a" "A"), .define (status "b" "B"), .define (status "c" "C"),
        .define (status "b" "Bee"), .remove "a", .define (status "a" "Aye")]
    (performAll Shelf.perform acts .empty).2.definitions.map (·.name) = ["Bee", "C", "Aye"] := by
  decide

end DeckDuel
