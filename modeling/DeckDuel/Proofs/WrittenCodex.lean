/-
DeckDuel.Proofs.WrittenCodex — written definitions are read again.

* `StatusDefinition.Agrees` — two definitions have the same id, name,
  kind and whatever else a held status takes from its definition, the
  same most stacks, and the same triggers.
* `Document.readTriggers_writeTriggers` — triggers are read as they were
  written.
* `Document.readDefinition_written` — a written definition is read as one
  that agrees with it. A decay by an amount that is not finite is written
  as none, and so it may not be read as the same definition.
* `Document.loadCodex_writeCodex` — the definitions of a codex are read
  in their order.
-/
import DeckDuel.Proofs.NestedEntries
import DeckDuel.Proofs.StoredNumbers
import DeckDuel.Proofs.WrittenSnapshot

namespace DeckDuel

open Scalar Decode

variable {α : Type}

/-- Two definitions say the same, their decay apart. -/
structure StatusDefinition.Agrees (d d' : StatusDefinition α) : Prop where
  id : d'.id = d.id
  name : d'.name = d.name
  emoji : d'.emoji = d.emoji
  description : d'.description = d.description
  kind : d'.kind = d.kind
  maxStacks : d'.maxStacks = d.maxStacks
  triggers : d'.triggers = d.triggers

/-- The names of the moments ascend, and none of them is the name of a
point of life. -/
structure StatusTriggers.Ordered (t : StatusTriggers) : Prop where
  ascending : Json.Ascending t.events
  apart : ∀ e ∈ t.events, Lifecycle.ofName? e.1 = none

/-- The counts of a definition can be written, and its triggers can be
told apart. -/
structure StatusDefinition.Writable (d : StatusDefinition α) : Prop where
  maxStacks : ∀ n ∈ d.maxStacks, n < 1 <<< 32
  createdAt : d.createdAt < 1 <<< 64
  triggers : d.triggers.Ordered

namespace Document

open Json Record

variable [Scalar α] {src inside : Source}

/-! ## Decay -/

/-- A finite amount is read as it was written. -/
theorem readDecay_amount {x : α} (hx : isFinite x = true) :
    Reads readDecay .held (writeDecay (.amount x)).canonical (.amount x) := by
  rw [writeDecay, ofNumber, if_pos hx]
  rfl

/-- A factor is read as the number that its text is read as. -/
theorem readDecay_factor [Settling α] {f g : α} (hg : ofText (Scalar.text f).toList = some g) :
    Reads readDecay .held (writeDecay (.factor f)).canonical (.factor g) := by
  have hblank : ∀ c ∈ (Scalar.text f).toList, Text.isBlank c = false := fun c hc =>
    Settling.isBlank_of_mem_text hc
  have htrim : Text.trim ('x' :: (Scalar.text f).toList) = 'x' :: (Scalar.text f).toList :=
    Text.trimmed_of_forall (List.forall_mem_cons.mpr ⟨by decide, hblank⟩)
  have hread : Decay.read ('x' :: (Scalar.text f).toList) = .ok (.factor g) := by
    have htail : Text.trim (Scalar.text f).toList = (Scalar.text f).toList :=
      Text.trimmed_of_forall hblank
    simp [Decay.read, htrim, htail, hg]
  have htext : ("x" ++ Scalar.text f).toList = 'x' :: (Scalar.text f).toList := by
    rw [String.toList_append]
    rfl
  show readDecay .held (.str (some ("x" ++ Scalar.text f))) = .ok (.factor g)
  simp only [readDecay, whole, htext, hread]

/-- Whatever a decay rule is written as can be read. -/
theorem exists_readDecay [Settling α] (d : Decay α) :
    ∃ d', Reads readDecay .held (writeDecay d).canonical d' := by
  cases d with
  | none => exact ⟨.none, rfl⟩
  | amount x =>
    by_cases hx : isFinite x = true
    · exact ⟨.amount x, readDecay_amount hx⟩
    · refine ⟨.none, ?_⟩
      rw [writeDecay, ofNumber, if_neg hx]
      rfl
  | factor f =>
    obtain ⟨g, hg⟩ := Settling.ofText_text f
    exact ⟨.factor g, readDecay_factor hg⟩

/-! ## Triggers -/

omit [Scalar α] in
theorem readTexts_strs (ss : List String) : Reads (readTexts : Decoder α (List String)) .held
    (.strs ss) ss :=
  reads_texts rfl ss

omit [Scalar α] in
theorem readMoments_written (events : List (String × List String)) :
    readMoments (events.map fun e => (e.1, (strs e.2 : Json α))) = .ok events := by
  induction events with
  | nil => rfl
  | cons e events ih =>
    have hread : ofHeld readTexts (strs e.2 : Json α) = .ok e.2 := readTexts_strs e.2
    rw [List.map_cons, readMoments, hread, ih]
    rfl

omit [Scalar α] in
theorem canonical_strs (ss : List String) : (strs ss : Json α).canonical = .strs ss := by
  rw [strs, canonical, canonicalItems_eq, List.map_map]
  rfl

omit [Scalar α] in
/-- The fields of triggers are the points of life. -/
theorem isField_triggersFields (name : String) :
    isField (triggersFields (α := α)) name = (Lifecycle.ofName? name).isSome := by
  have hnames (p : Lifecycle) : [p.name].contains name = (p.name == name) := by
    rw [List.contains_cons, List.contains_nil, Bool.or_false, Bool.beq_comm]
  simp only [isField, triggersFields, List.find?_map, Option.isSome_map, Lifecycle.ofName?]
  exact congrArg (fun p => (Lifecycle.all.find? p).isSome) (funext hnames)

omit [Scalar α] in
theorem fieldReads_triggers (p : Lifecycle) (ss : List String) :
    FieldReads triggersFields .held (p.name, (strs ss : Json α)) := by
  cases p <;> exact (readTexts_strs ss).field rfl rfl

omit [Scalar α] in
/-- Triggers are read as they were written. The texts for the points of
life and those for the moments are told apart by their names. -/
theorem readTriggers_writeTriggers {t : StatusTriggers} (ht : t.Ordered) :
    Reads readTriggers .held (writeTriggers t : Json α).canonical t := by
  obtain ⟨points, hpoints⟩ : ∃ points : List (String × Json α),
      points = Lifecycle.all.map fun p => (p.name, strs (t.get p)) := ⟨_, rfl⟩
  obtain ⟨moments, hmoments⟩ : ∃ moments : List (String × Json α),
      moments = t.events.map fun e => (e.1, strs e.2) := ⟨_, rfl⟩
  have hknown : ∀ m ∈ points, isField (triggersFields (α := α)) m.1 = true := by
    rw [hpoints]
    intro m hm
    obtain ⟨p, -, rfl⟩ := List.mem_map.mp hm
    cases p <;> rfl
  have hrest : ∀ m ∈ moments, isField (triggersFields (α := α)) m.1 = false := by
    rw [hmoments]
    intro m hm
    obtain ⟨e, he, rfl⟩ := List.mem_map.mp hm
    rw [isField_triggersFields, ht.apart e he]
    rfl
  have hascending : Ascending moments := by
    rw [hmoments]
    exact List.pairwise_map.mpr ht.ascending
  have hnodup : (points.map Prod.fst).Nodup := by
    rw [hpoints, List.map_map]
    show (Lifecycle.all.map Lifecycle.name).Nodup
    decide
  have hwrite : (writeTriggers t : Json α).canonical = .obj (sortMembers (points ++ moments)) := by
    rw [writeTriggers, canonical, canonicalMembers_eq, List.map_append, hpoints, hmoments,
      List.map_map, List.map_map]
    simp only [Function.comp_def, canonical_strs]
  obtain ⟨hfields, hothers⟩ := filter_sortMembers_append hknown hrest
  rw [sortMembers_eq_self hascending] at hothers
  rw [hwrite]
  refine openRecord_reads rfl hfields hothers (fun m hm => ?_) (fun m hm => ?_)
    (ascending_sortMembers _).nodup ?_
  · have hmem := mem_of_mem_sortMembers hm
    rw [hpoints] at hmem
    obtain ⟨p, -, rfl⟩ := List.mem_map.mp hmem
    exact fieldReads_triggers p _
  · rw [hmoments] at hm
    obtain ⟨e, -, rfl⟩ := List.mem_map.mp hm
    exact Nat.succ_le_of_lt (Nat.lt_of_le_of_lt
      (levelsItems_le (List.forall_mem_map.mpr fun _ _ => Nat.le_refl 0)) (by decide))
  · have hget (p : Lifecycle) : get ⟨.held, docs (sortMembers points), false⟩ p.name readTexts [] =
        .ok (t.get p) := by
      refine get_written ?_ (readTexts_strs (t.get p)) []
      rw [lookup_sortMembers hnodup, hpoints]
      cases p <;> rfl
    have hevents : readMoments moments = .ok t.events := by
      rw [hmoments]
      exact readMoments_written t.events
    simp only [hget, hevents]
    show Except.ok _ = _
    rw [sortMembers_eq_self ht.ascending]
    rfl

/-! ## Definitions -/

omit [Scalar α] in
theorem lookup_statusOrigin (o : StatusOrigin) : StatusOrigin.names.lookup o.name = some o := by
  cases o <;> rfl

omit [Scalar α] in
theorem reads_maxStacks {n : Option Nat} (h : ∀ k ∈ n, k < 1 <<< 32) :
    Reads (nullable count32 : Decoder α (Option Nat)) .held (opt .nat n).canonical n := by
  cases n with
  | none => rfl
  | some k => exact (reads_natural (h k rfl)).nullable (by simp [nat])

/-- A written definition is read as it was, but for its decay, which is
read as what was written of it. -/
theorem readDefinition_of_decay {d : StatusDefinition α} (hd : d.Writable) {decay : Decay α}
    (hdecay : Reads readDecay .held (writeDecay d.decay).canonical decay) :
    Reads readDefinition .held (writeDefinition d).canonical { d with decay := decay } := by
  have htriggers := readTriggers_writeTriggers (α := α) hd.triggers
  have htext (s : String) : Reads (text : Decoder α String) .held (.str s) s := reads_text s
  have hkind : Reads (choice StatusKind.names : Decoder α StatusKind) .held (.str d.kind.name)
      d.kind := reads_choice (lookup_statusKind d.kind)
  have hmax := reads_maxStacks (α := α) hd.maxStacks
  have horigin : Reads (choice StatusOrigin.names : Decoder α StatusOrigin) .held
      (.str d.origin.name) d.origin := reads_choice (lookup_statusOrigin d.origin)
  have hcreated : Reads (count64 : Decoder α Nat) .held (.nat d.createdAt) d.createdAt :=
    reads_natural hd.createdAt
  obtain ⟨ms, hms, hwrite⟩ : ∃ ms : List (String × Json α),
      ms = [("id", .str d.id), ("name", .str d.name), ("emoji", .str d.emoji),
        ("description", .str d.description), ("type", .str d.kind.name),
        ("stacks_change", (writeDecay d.decay).canonical),
        ("maxStacks", (opt .nat d.maxStacks).canonical),
        ("triggers", (writeTriggers d.triggers).canonical), ("source", .str d.origin.name),
        ("createdAt", .nat d.createdAt)] ∧
      (writeDefinition d).canonical = .obj (sortMembers ms) := ⟨_, rfl, rfl⟩
  have hnodup : (ms.map Prod.fst).Nodup := by simp [hms]
  have hlookup {name : String} {v : Json α} (h : ms.lookup name = some v) :
      (sortMembers ms).lookup name = some v := (lookup_sortMembers hnodup name).trans h
  rw [hwrite]
  refine record_reads rfl (fun m hm => ?_) (ascending_sortMembers ms).nodup ?_
  · have hfields : ∀ m ∈ ms, FieldReads definitionFields .held m := by
      rw [hms]
      simp only [List.forall_mem_cons, List.not_mem_nil, false_imp_iff, implies_true, and_true]
      exact ⟨(htext d.id).field rfl rfl, (htext d.name).field rfl rfl,
        (htext d.emoji).field rfl rfl, (htext d.description).field rfl rfl, hkind.field rfl rfl,
        hdecay.field rfl rfl, hmax.field rfl rfl, htriggers.field rfl rfl, horigin.field rfl rfl,
        hcreated.field rfl rfl⟩
    exact hfields m (mem_of_mem_sortMembers hm)
  · subst hms
    rw [need_written (hlookup rfl) (htext d.id), need_written (hlookup rfl) (htext d.name),
      get_written (hlookup rfl) (htext d.emoji), get_written (hlookup rfl) (htext d.description),
      get_written (hlookup rfl) hkind, get_written (hlookup rfl) hdecay,
      get_written (hlookup rfl) hmax, get_written (hlookup rfl) htriggers,
      get_written (hlookup rfl) horigin, get_written (hlookup rfl) hcreated]
    rfl

/-- A written definition is read as one that agrees with it. -/
theorem readDefinition_written [Settling α] {d : StatusDefinition α} (hd : d.Writable) :
    ∃ d', Reads readDefinition .held (writeDefinition d).canonical d' ∧ d.Agrees d' := by
  obtain ⟨decay, hdecay⟩ := exists_readDecay d.decay
  exact ⟨{ d with decay := decay }, readDefinition_of_decay hd hdecay,
    ⟨rfl, rfl, rfl, rfl, rfl, rfl, rfl⟩⟩

/-! ## Codices -/

omit [Scalar α] in
/-- Ids that are new are defined behind the others. -/
theorem define_of_new {c : Codex α} {d : StatusDefinition α} (h : d.id ∉ c.ids) :
    c.define d = ⟨c.definitions ++ [d]⟩ := by
  rw [Codex.define, if_neg (mt Codex.contains_iff_mem_ids.mp h)]

/-- A definition is written and read as another one of its id. -/
structure ReadsAs (d d' : StatusDefinition α) : Prop where
  reads : Reads readDefinition .held (writeDefinition d).canonical d'
  id : d'.id = d.id

/-- Written definitions are read in their order, and counted. -/
theorem defineAll_of_readsAs {ds ds' : List (StatusDefinition α)} (h : List.Forall₂ ReadsAs ds ds')
    {c : Codex α} (hnodup : (c.ids ++ ds.map (·.id)).Nodup) :
    defineAll c (ds.map fun d => (writeDefinition d).canonical) =
      (ds.length, ⟨c.definitions ++ ds'⟩) := by
  induction h generalizing c with
  | nil => rw [List.append_nil]; rfl
  | @cons d d' ds ds' hd _ ih =>
    have hnew : d'.id ∉ c.ids := by
      rw [hd.id]
      intro hmem
      exact (List.nodup_append.mp hnodup).2.2 _ hmem _ List.mem_cons_self rfl
    have hids : (c.define d').ids = c.ids ++ [d.id] := by
      rw [define_of_new hnew, Codex.ids, List.map_append, List.map_singleton, hd.id]
      rfl
    have hnodup' : ((c.define d').ids ++ ds.map (·.id)).Nodup := by
      rw [hids, List.append_assoc]
      exact hnodup
    have hheld : ofHeld readDefinition (writeDefinition d).canonical = .ok d' := hd.reads
    rw [List.map_cons, defineAll, hheld]
    show ((defineAll (c.define d') _).1 + 1, (defineAll (c.define d') _).2) = _
    rw [ih hnodup', define_of_new hnew, List.append_assoc]
    rfl

omit [Scalar α] in
theorem itemEntries_of_records {levels : Nat} {vs : List (Json α)} (h : ∀ v ∈ vs, ∃ ms, v = .obj ms) :
    itemEntries levels vs = vs := by
  induction vs with
  | nil => rfl
  | cons v vs ih =>
    obtain ⟨⟨ms, rfl⟩, hvs⟩ := List.forall_mem_cons.mp h
    rw [itemEntries, entries, ih hvs]
    rfl

/-- The definitions of a codex are read in their order, and counted. -/
theorem loadCodex_of_readsAs {c : Codex α} {ds : List (StatusDefinition α)}
    (h : List.Forall₂ ReadsAs c.definitions ds) (hnodup : c.ids.Nodup) :
    loadCodex .empty (writeCodex c) = (c.size, ⟨ds⟩) := by
  have hrecords : ∀ v ∈ c.definitions.map fun d => (writeDefinition d).canonical,
      ∃ ms, v = .obj ms := by
    intro v hv
    obtain ⟨d, -, rfl⟩ := List.mem_map.mp hv
    exact ⟨_, rfl⟩
  have hwrite : writeCodex c = .arr (c.definitions.map fun d => (writeDefinition d).canonical) := by
    rw [writeCodex, canonical, canonicalItems_eq, List.map_map]
    rfl
  have hentries : entries maxListLevels (writeCodex c) =
      c.definitions.map fun d => (writeDefinition d).canonical := by
    rw [hwrite]
    exact itemEntries_of_records hrecords
  rw [loadCodex, hentries, defineAll_of_readsAs h (c := .empty) (by simpa [Codex.empty, Codex.ids])]
  rfl

/-- The definitions of a codex are read in their order, and agree with
those that were written. -/
theorem loadCodex_writeCodex [Settling α] {c : Codex α} (hc : ∀ d ∈ c.definitions, d.Writable)
    (hnodup : c.ids.Nodup) :
    ∃ ds', List.Forall₂ StatusDefinition.Agrees c.definitions ds' ∧
      (loadCodex .empty (writeCodex c).canonical).2 = ⟨ds'⟩ := by
  have hexists : ∀ ds : List (StatusDefinition α), (∀ d ∈ ds, d.Writable) →
      ∃ ds', List.Forall₂ StatusDefinition.Agrees ds ds' ∧ List.Forall₂ ReadsAs ds ds' := by
    intro ds hds
    induction ds with
    | nil => exact ⟨[], .nil, .nil⟩
    | cons d ds ih =>
      obtain ⟨hd, hds⟩ := List.forall_mem_cons.mp hds
      obtain ⟨d', hread, hagrees⟩ := readDefinition_written hd
      obtain ⟨ds', hall, hreads⟩ := ih hds
      exact ⟨d' :: ds', .cons hagrees hall, .cons ⟨hread, hagrees.id⟩ hreads⟩
  obtain ⟨ds', hagrees, hreads⟩ := hexists c.definitions hc
  have hcanonical : (writeCodex c).canonical = writeCodex c := canonical_canonical _
  exact ⟨ds', hagrees, by rw [hcanonical, loadCodex_of_readsAs hreads hnodup]⟩

end Document
end DeckDuel
