/-
DeckDuel.Proofs.SoundSnapshots — what is read can be written.

* `Document.bounded_of_decodeText` — the numbers of a snapshot that was
  read from a text are finite, and its counts have 32 bits.
* `Document.writable_loadCodex` — definitions that were read can be
  written, and no id is defined twice.
-/
import DeckDuel.Proofs.SoundDocuments
import DeckDuel.Proofs.WrittenCodex

namespace DeckDuel.Document

open Scalar Settling Decode Doc

variable {α : Type} [Scalar α]

/-! ## Snapshots -/

section Snapshots

variable {S : Doc α → Prop}

omit [Scalar α] in
theorem admits_count32 : Admits S (count32 : Decoder α Nat) (· < 1 <<< 32) := admits_natural _

variable [Settling α]

theorem admits_readCard : Admits Sound (readCard : Decoder α (Card α)) Card.Writable := by
  refine admits_record hereditary_sound fun r c hr h => ?_
  simp only [bind_eq_ok] at h
  obtain ⟨uid, huid, id, -, name, -, cost, hcost, effect, -, kind, -, exhausts, -, description, -,
    h⟩ := h
  cases h
  have huid := hr.get admits_count32 (by decide) huid
  have hcost := hr.get admits_number isFinite_zero hcost
  exact ⟨huid, hcost⟩

/-- The stacks of a stored status can be written. -/
def StatusEntry.Writable (e : StatusEntry) : Prop := e.stackCount < 1 <<< 32

omit [Settling α] in
theorem admits_readStatusEntry :
    Admits Sound (readStatusEntry : Decoder α StatusEntry) StatusEntry.Writable := by
  refine admits_record hereditary_sound fun r e hr h => ?_
  simp only [bind_eq_ok] at h
  obtain ⟨id, -, stackCount, hstacks, name, -, kind, -, h⟩ := h
  cases h
  have hstacks := hr.get admits_count32 (by decide) hstacks
  exact hstacks

theorem writable_of_readStats {rest : List (String × Json α)}
    (hrest : ∀ m ∈ rest, (ofJson m.2).Sound) {e : FighterEntry α} (h : readStats rest = .ok e) :
    e.Writable := by
  refine of_within hrest (fun r e hr h => ?_) h
  simp only [bind_eq_ok] at h
  obtain ⟨name, -, maxHp, hmaxHp, hp, hhp, maxLust, hmaxLust, lust, hlust, block, hblock,
    statuses, hstatuses, abilities, -, overflow, -, h⟩ := h
  cases h
  have hhundred : isFinite (standardMaxLust : α) = true := isFinite_ofNat (by decide)
  have hmaxHp := hr.need admits_number hmaxHp
  have hhp := hr.get admits_number.nullable (by nofun) hhp
  have hmaxLust := hr.get admits_number hhundred hmaxLust
  have hlust := hr.get admits_number isFinite_zero hlust
  have hblock := hr.get admits_number isFinite_zero hblock
  have hstatuses := hr.get (admits_readStatusEntry.listOf hereditary_sound) (by simp) hstatuses
  exact ⟨hmaxHp, hhp, hmaxLust, hlust, hblock, hstatuses⟩

/-- The numbers of a player's part can be written. -/
structure PlayerPart.Writable (p : PlayerPart α) : Prop where
  stats : p.stats.Writable
  maxEnergy : isFinite p.maxEnergy = true
  energy : ∀ x ∈ p.energy, isFinite x = true
  hand : ∀ c ∈ p.hand, c.Writable
  draw : ∀ c ∈ p.draw, c.Writable
  discard : ∀ c ∈ p.discard, c.Writable
  exhaust : ∀ c ∈ p.exhaust, c.Writable

theorem admits_readPlayer :
    Admits Sound (readPlayer : Decoder α (PlayerPart α)) PlayerPart.Writable := by
  refine admits_openRecord hereditary_sound fun r rest p hr hrest h => ?_
  simp only [bind_eq_ok] at h
  obtain ⟨stats, hstats, maxEnergy, hmaxEnergy, energy, henergy, relics, -, hand, hhand, draw,
    hdraw, discard, hdiscard, exhaust, hexhaust, h⟩ := h
  cases h
  have hthree : isFinite (standardMaxEnergy : α) = true := isFinite_ofNat (by decide)
  have hcards {name : String} {cs : List (Card α)} (h : r.get name (listOf readCard) [] = .ok cs) :
      ∀ c ∈ cs, c.Writable := hr.get (admits_readCard.listOf hereditary_sound) (by simp) h
  have hmaxEnergy := hr.get admits_number hthree hmaxEnergy
  have henergy := hr.get admits_number.nullable (by nofun) henergy
  have hstats := writable_of_readStats (fun m hm => (hrest m hm).2) hstats
  exact ⟨hstats, hmaxEnergy, henergy, hcards hhand, hcards hdraw,
    hcards hdiscard, hcards hexhaust⟩

/-- The numbers of an enemy's part can be written. -/
def EnemyPart.Writable (p : FighterEntry α × List String) : Prop := p.1.Writable

theorem admits_readEnemy :
    Admits Sound (readEnemy : Decoder α (FighterEntry α × List String)) EnemyPart.Writable := by
  refine admits_openRecord hereditary_sound fun r rest p _ hrest h => ?_
  simp only [bind_eq_ok] at h
  obtain ⟨stats, hstats, actions, -, h⟩ := h
  cases h
  exact writable_of_readStats (fun m hm => (hrest m hm).2) hstats

theorem admits_readSnapshot :
    Admits Sound (readSnapshot : Decoder α (Snapshot α)) Snapshot.Bounded := by
  refine admits_record hereditary_sound fun r s hr h => ?_
  simp only [bind_eq_ok] at h
  obtain ⟨p, hp, ⟨enemy, actions⟩, henemy, definitions, -, turn, hturn, h⟩ := h
  cases h
  have hplayer := hr.need admits_readPlayer hp
  have henemy := hr.need admits_readEnemy henemy
  have hturn := hr.get admits_count32 (by decide) hturn
  exact ⟨hplayer.stats, henemy, hplayer.maxEnergy, hplayer.energy, hplayer.hand, hplayer.draw,
    hplayer.discard, hplayer.exhaust, hturn⟩

/-- The numbers of a snapshot that was read from a text can be
written. -/
theorem bounded_of_decodeText {cs : List Char} {s : Snapshot α}
    (h : decodeText readSnapshot cs = .ok s) : s.Bounded := by
  unfold decodeText ofWhole at h
  split at h
  · cases h
  · next hread =>
    split at h
    · cases h
    · cases h
      exact admits_readSnapshot _ _ _ (sound_scanAll cs) hread

end Snapshots

/-! ## Definitions -/

omit [Scalar α] in
/-- The moments are named as their members are. -/
theorem keys_readMoments {rest : List (String × Json α)} {moments : List (String × List String)}
    (h : readMoments rest = .ok moments) : moments.map Prod.fst = rest.map Prod.fst := by
  induction rest generalizing moments with
  | nil =>
    cases h
    rfl
  | cons m rest ih =>
    rw [readMoments] at h
    simp only [bind_eq_ok] at h
    obtain ⟨texts, -, moments', hmoments, h⟩ := h
    cases h
    rw [List.map_cons, List.map_cons, ih hmoments]

omit [Scalar α] in
theorem admits_readTriggers : Admits (fun _ => True) (readTriggers : Decoder α StatusTriggers)
    StatusTriggers.Ordered := by
  refine admits_openRecord hereditary_true fun r rest t _ hrest h => ?_
  simp only [bind_eq_ok] at h
  obtain ⟨apply, -, tick, -, remove, -, stack, -, hold, -, moments, hmoments, h⟩ := h
  cases h
  refine ⟨Json.ascending_sortMembers moments, fun e he => ?_⟩
  have hkeys : e.1 ∈ rest.map Prod.fst := by
    rw [← keys_readMoments hmoments]
    exact List.mem_map_of_mem (Json.mem_of_mem_sortMembers he)
  obtain ⟨m, hm, hname⟩ := List.mem_map.mp hkeys
  have hfield := (hrest m hm).1
  rw [isField_triggersFields, hname] at hfield
  exact Option.not_isSome_iff_eq_none.mp (Bool.eq_false_iff.mp hfield)

theorem admits_readDefinition :
    Admits (fun _ => True) (readDefinition : Decoder α (StatusDefinition α))
      StatusDefinition.Writable := by
  refine admits_record hereditary_true fun r d hr h => ?_
  simp only [bind_eq_ok] at h
  obtain ⟨id, -, name, -, emoji, -, description, -, kind, -, decay, -, maxStacks, hmax, triggers,
    htriggers, origin, -, createdAt, hcreated, h⟩ := h
  cases h
  have hmax := hr.get admits_count32.nullable (by nofun) hmax
  have hcreated := hr.get (admits_natural (1 <<< 64)) (by decide) hcreated
  have hempty : StatusTriggers.empty.Ordered := ⟨List.Pairwise.nil, by simp [StatusTriggers.empty]⟩
  have htriggers := hr.get admits_readTriggers hempty htriggers
  exact ⟨hmax, hcreated, htriggers⟩

omit [Scalar α] in
/-- Defining keeps every id once. -/
theorem nodup_ids_define {c : Codex α} (h : c.ids.Nodup) (d : StatusDefinition α) :
    (c.define d).ids.Nodup := by
  rw [Codex.ids_define]
  split
  · exact h
  · next hnew =>
    rw [← List.concat_eq_append]
    exact h.concat hnew

omit [Scalar α] in
theorem mem_define {c : Codex α} {d e : StatusDefinition α} (h : e ∈ (c.define d).definitions) :
    e = d ∨ e ∈ c.definitions := by
  unfold Codex.define at h
  split at h
  · obtain ⟨f, hf, rfl⟩ := List.mem_map.mp h
    split
    · exact .inl rfl
    · exact .inr hf
  · rcases List.mem_append.mp h with h | h
    · exact .inr h
    · exact .inl (List.mem_singleton.mp h)

/-- Definitions that are read can be written, and no id is defined
twice. -/
theorem writable_defineAll {c : Codex α} (hnodup : c.ids.Nodup)
    (hc : ∀ d ∈ c.definitions, d.Writable) (vs : List (Json α)) :
    (defineAll c vs).2.ids.Nodup ∧ ∀ d ∈ (defineAll c vs).2.definitions, d.Writable := by
  induction vs generalizing c with
  | nil => exact ⟨hnodup, hc⟩
  | cons v vs ih =>
    rw [defineAll]
    split
    · next d hd =>
      refine ih (nodup_ids_define hnodup d) fun e he => ?_
      rcases mem_define he with rfl | he
      · exact admits_readDefinition _ _ _ trivial hd
      · exact hc e he
    · exact ih hnodup hc

theorem writable_loadCodex (v : Json α) :
    (loadCodex .empty v).2.ids.Nodup ∧ ∀ d ∈ (loadCodex .empty v).2.definitions, d.Writable :=
  have hnodup : (Codex.empty : Codex α).ids.Nodup := .nil
  writable_defineAll hnodup (by simp [Codex.empty]) _

end DeckDuel.Document
