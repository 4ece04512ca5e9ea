/-
DeckDuel.Proofs.Reload — a battle that was stored is loaded as it was.

What loading does to each part is done to no effect a second time:

* `foldl_loadStatus_entries` — held statuses that fit their definitions
  and show them are loaded in their order.
* `Ability.Reloads`, `loadAbilities_entries` — abilities that have an id
  and a trigger in their text are loaded in their order.
* `Piles.Numbered`, `Piles.Numbered.assignUids` — numbered cards keep
  their uids, and the last uid is found again as the highest one.
* `Fighter.load_entry` — all of this for a fighter.
-/
import DeckDuel.Proofs.HeldStatuses
import DeckDuel.Proofs.SettledStats
import DeckDuel.Proofs.WrittenCodex

namespace DeckDuel

open Scalar Settling

variable {α : Type}

/-! ## Definitions -/

section Codices

variable {c c' : Codex α} {ds ds' : List (StatusDefinition α)}

theorem get?_of_agrees (h : List.Forall₂ StatusDefinition.Agrees ds ds') {id : String}
    {d : StatusDefinition α} (hd : (⟨ds⟩ : Codex α).get? id = some d) :
    ∃ d', (⟨ds'⟩ : Codex α).get? id = some d' ∧ d.Agrees d' := by
  induction h with
  | nil => cases hd
  | @cons e e' es es' he _ ih =>
    simp only [Codex.get?, List.find?_cons] at hd ⊢
    rw [he.id]
    split at hd
    · next heq =>
      cases hd
      exact ⟨e', rfl, he⟩
    · next heq =>
      obtain ⟨d', hd', hagrees⟩ := ih hd
      exact ⟨d', hd', hagrees⟩

theorem ids_of_agrees (h : List.Forall₂ StatusDefinition.Agrees ds ds') :
    (⟨ds'⟩ : Codex α).ids = (⟨ds⟩ : Codex α).ids := by
  induction h with
  | nil => rfl
  | cons he _ ih =>
    simp only [Codex.ids, List.map_cons] at ih ⊢
    rw [he.id, ih]

end Codices

/-! ## Statuses -/

/-- Every status shows what its definition says. -/
def Codex.Shows (c : Codex α) (held : List HeldStatus) : Prop :=
  ∀ s ∈ held, ∃ d, c.get? s.id = some d ∧ s = .ofDefinition d s.stackCount

/-- A held status as it is stored. -/
def HeldStatus.entry (s : HeldStatus) : StatusEntry := ⟨s.id, s.stackCount, s.name, some s.kind⟩

theorem StatusDefinition.Agrees.ofDefinition {d d' : StatusDefinition α} (h : d.Agrees d')
    (n : Nat) : HeldStatus.ofDefinition d' n = HeldStatus.ofDefinition d n := by
  simp only [HeldStatus.ofDefinition, h.id, h.name, h.emoji, h.description, h.kind]

/-- Held statuses that were stored are held again, in their order. -/
theorem foldl_loadStatus_entries {c c' : Codex α} {maxStacks : Nat} {held : List HeldStatus}
    (hallows : c.Allows maxStacks held) (hshows : c.Shows held)
    (hagrees : ∀ {id d}, c.get? id = some d → ∃ d', c'.get? id = some d' ∧ d.Agrees d') :
    (held.map HeldStatus.entry).foldl (loadStatus c' maxStacks) [] = held := by
  have hfold (before rest : List HeldStatus) (hsplit : before ++ rest = held) :
      (rest.map HeldStatus.entry).foldl (loadStatus c' maxStacks) before = held := by
    induction rest generalizing before with
    | nil => rwa [List.append_nil] at hsplit
    | cons s rest ih =>
      have hs : s ∈ held := hsplit ▸ List.mem_append_right _ List.mem_cons_self
      obtain ⟨d, hd, hcap⟩ := hallows.capped s hs
      obtain ⟨d₁, hd₁, hshown⟩ := hshows s hs
      obtain rfl : d = d₁ := Option.some.inj (hd.symm.trans hd₁)
      obtain ⟨d', hd', hagree⟩ := hagrees hd
      have hpositive := hallows.positive s hs
      have hfree : (before.any fun t => t.id == s.id) = false := by
        have hdistinct := hallows.distinct
        rw [← hsplit, List.map_append, List.nodup_append] at hdistinct
        rw [List.any_eq_false]
        intro t ht heq
        exact hdistinct.2.2 _ (List.mem_map_of_mem ht) _ (List.mem_map_of_mem List.mem_cons_self)
          (eq_of_beq heq)
      have hstacks : min s.stackCount (d'.stackCap maxStacks) = s.stackCount := by
        refine Nat.min_eq_left ?_
        rw [StatusDefinition.stackCap, hagree.maxStacks]
        exact hcap
      have hload : loadStatus c' maxStacks before s.entry = before ++ [s] := by
        have hzero : (s.stackCount = 0) = False := eq_false (by omega)
        simp only [loadStatus, HeldStatus.entry, hd', hfree, hzero, decide_false, Bool.or_false,
          Bool.false_eq_true, if_false, hstacks, hagree.ofDefinition]
        rw [← hshown]
      rw [List.map_cons, List.foldl_cons, hload]
      exact ih (before ++ [s]) (by rw [List.append_assoc, List.singleton_append, hsplit])
  exact hfold [] held rfl

/-- What is loaded shows what its definition says. -/
theorem Codex.Shows.load {c : Codex α} {maxStacks : Nat} {held : List HeldStatus}
    (h : c.Shows held) (e : StatusEntry) : c.Shows (loadStatus c maxStacks held e) := by
  unfold loadStatus
  split
  · exact h
  · next d hd =>
    have hid : d.id = e.id := by simpa using List.find?_some hd
    split
    · exact h
    · intro s hs
      rcases List.mem_append.mp hs with hs | hs
      · exact h s hs
      · obtain rfl := List.mem_singleton.mp hs
        have hd' : c.get? d.id = some d := hid ▸ hd
        exact ⟨d, hd', rfl⟩

/-- No status is loaded with more stacks than were stored. -/
theorem stackCount_lt_of_mem_loadStatus {c : Codex α} {maxStacks bound : Nat}
    {held : List HeldStatus} (h : ∀ s ∈ held, s.stackCount < bound) {e : StatusEntry}
    (he : e.stackCount < bound) : ∀ s ∈ loadStatus c maxStacks held e, s.stackCount < bound := by
  unfold loadStatus
  split
  · exact h
  · split
    · exact h
    · intro s hs
      rcases List.mem_append.mp hs with hs | hs
      · exact h s hs
      · obtain rfl := List.mem_singleton.mp hs
        exact Nat.lt_of_le_of_lt (Nat.min_le_left _ _) he

/-! ## Abilities -/

/-- An ability that is loaded as it was stored: it has an id, and its
text tells its trigger. -/
def Ability.Reloads (a : Ability) : Prop :=
  a.id.isEmpty = false ∧
    (Ability.ofEffect? a.id a.effect).map (fun b => { b with description := a.description }) = some a

theorem reloads_of_mem_loadAbilities {place : Nat} {es : List AbilityEntry} :
    ∀ a ∈ loadAbilities place es, a.Reloads := by
  induction es generalizing place with
  | nil => simp [loadAbilities]
  | cons e es ih =>
    intro a ha
    rcases List.mem_append.mp ha with ha | ha
    · simp only [Option.mem_toList, Option.map_eq_some_iff, Ability.ofEffect?] at ha
      obtain ⟨b, ⟨⟨name, inner⟩, hunwrap, rfl⟩, rfl⟩ := ha
      refine ⟨?_, ?_⟩
      · dsimp only
        split
        · exact Bool.eq_false_iff.mpr fun hempty => by
            have hlength := congrArg String.length (String.isEmpty_iff.mp hempty)
            rw [String.length_append] at hlength
            simp at hlength
        · next hid => exact Bool.eq_false_iff.mpr hid
      · simp only [Ability.ofEffect?, hunwrap, Option.map_some]
    · exact ih a ha

/-- Abilities that were stored are loaded again, in their order. -/
theorem loadAbilities_entries {place : Nat} {as : List Ability} (h : ∀ a ∈ as, a.Reloads) :
    loadAbilities place (as.map Ability.entry) = as := by
  induction as generalizing place with
  | nil => rfl
  | cons a as ih =>
    obtain ⟨⟨hid, hload⟩, has⟩ := List.forall_mem_cons.mp h
    rw [List.map_cons, loadAbilities, ih has]
    simp only [Ability.entry, hid, Bool.false_eq_true, if_false, hload, Option.toList_some,
      List.singleton_append]

/-! ## Piles -/

namespace Piles

/-- The highest uid in a list of cards, or a number that is higher. -/
def highestFrom (n : Nat) (cs : List (Card α)) : Nat := cs.foldl (fun n c => max n c.uid) n

theorem highestFrom_eq_max (n : Nat) (cs : List (Card α)) :
    highestFrom n cs = max n (highestFrom 0 cs) := by
  induction cs generalizing n with
  | nil => exact (Nat.max_zero n).symm
  | cons c cs ih =>
    show highestFrom (max n c.uid) cs = max n (highestFrom (max 0 c.uid) cs)
    rw [ih, ih (max 0 c.uid)]
    omega

theorem uid_le_highestFrom (n : Nat) (cs : List (Card α)) : ∀ c ∈ cs, c.uid ≤ highestFrom n cs := by
  induction cs generalizing n with
  | nil => simp
  | cons c cs ih =>
    refine List.forall_mem_cons.mpr ⟨?_, ih _⟩
    show c.uid ≤ highestFrom (max n c.uid) cs
    rw [highestFrom_eq_max]
    omega

/-- Numbering leaves no card without uid. -/
theorem uid_pos_of_mem_numberFrom (last : Nat) (cs : List (Card α)) :
    ∀ c ∈ (numberFrom last cs).2, 0 < c.uid := by
  induction cs generalizing last with
  | nil => simp [numberFrom]
  | cons c cs ih =>
    unfold numberFrom
    split
    · exact List.forall_mem_cons.mpr ⟨Nat.succ_pos last, ih _⟩
    · next hc => exact List.forall_mem_cons.mpr ⟨Nat.pos_of_ne_zero hc, ih _⟩

/-- Cards that have uids keep them. -/
theorem numberFrom_of_pos {cs : List (Card α)} (h : ∀ c ∈ cs, 0 < c.uid) (last : Nat) :
    numberFrom last cs = (last, cs) := by
  induction cs with
  | nil => rfl
  | cons c cs ih =>
    obtain ⟨hc, hcs⟩ := List.forall_mem_cons.mp h
    rw [numberFrom, if_neg (by omega), ih hcs]

/-- Numbering goes on where it stopped. -/
theorem numberFrom_append (last : Nat) (cs cs' : List (Card α)) :
    numberFrom last (cs ++ cs') = ((numberFrom (numberFrom last cs).1 cs').1,
      (numberFrom last cs).2 ++ (numberFrom (numberFrom last cs).1 cs').2) := by
  induction cs generalizing last with
  | nil => rfl
  | cons c cs ih =>
    rw [List.cons_append, numberFrom, numberFrom]
    split <;> simp only [ih, List.cons_append]

theorem highestFrom_numberFrom {last : Nat} {cs : List (Card α)} (hcs : ∀ c ∈ cs, c.uid ≤ last) :
    highestFrom last (numberFrom last cs).2 = (numberFrom last cs).1 := by
  induction cs generalizing last with
  | nil => rfl
  | cons c cs ih =>
    obtain ⟨hc, hcs⟩ := List.forall_mem_cons.mp hcs
    unfold numberFrom
    split
    · show highestFrom (max last (last + 1)) _ = _
      rw [Nat.max_eq_right (Nat.le_succ last)]
      exact ih fun c hc => Nat.le_succ_of_le (hcs c hc)
    · show highestFrom (max last c.uid) _ = _
      rw [Nat.max_eq_left hc]
      exact ih hcs

theorem highestFrom_le_numberFrom {n n' : Nat} (h : n ≤ n') (last : Nat) (cs : List (Card α)) :
    highestFrom n cs ≤ highestFrom n' (numberFrom last cs).2 := by
  induction cs generalizing n n' last with
  | nil => exact h
  | cons c cs ih =>
    unfold numberFrom
    split
    · next hc =>
      exact ih (show max n c.uid ≤ max n' (last + 1) by omega) (last + 1)
    · exact ih (show max n c.uid ≤ max n' c.uid by omega) last

theorem cards_assignUids (ps : Piles α) :
    (numberFrom (max ps.lastUid ps.highestUid) ps.cards) =
      (ps.assignUids.lastUid, ps.assignUids.cards) := by
  have hcards (qs : Piles α) : qs.cards = qs.hand ++ (qs.draw ++ (qs.discard ++ qs.exhaust)) := by
    simp [cards, Pile.all, get]
  rw [hcards, hcards, numberFrom_append, numberFrom_append, numberFrom_append]
  rfl

/-- Where every card has a uid, none is given one. -/
theorem assignUids_of_pos {ps : Piles α} (h : ∀ p, ∀ c ∈ ps.get p, 0 < c.uid) :
    ps.assignUids = { ps with lastUid := max ps.lastUid ps.highestUid } := by
  have hhand : ∀ c ∈ ps.hand, 0 < c.uid := h .hand
  have hdraw : ∀ c ∈ ps.draw, 0 < c.uid := h .draw
  have hdiscard : ∀ c ∈ ps.discard, 0 < c.uid := h .discard
  have hexhaust : ∀ c ∈ ps.exhaust, 0 < c.uid := h .exhaust
  simp only [assignUids, numberFrom_of_pos hhand, numberFrom_of_pos hdraw,
    numberFrom_of_pos hdiscard, numberFrom_of_pos hexhaust]

/-- Every card has a uid, and the last uid given out is the highest. -/
structure Numbered (ps : Piles α) : Prop where
  positive : ∀ c ∈ ps.cards, 0 < c.uid
  last : ps.lastUid = ps.highestUid

/-- Numbering the cards of stored piles. -/
theorem numbered_assignUids {ps : Piles α} (h : ps.lastUid = 0) : ps.assignUids.Numbered := by
  have hcards := cards_assignUids ps
  rw [h, Nat.zero_max] at hcards
  constructor
  · have hnumbered := uid_pos_of_mem_numberFrom ps.highestUid ps.cards
    rwa [hcards] at hnumbered
  · have hlast := highestFrom_numberFrom (uid_le_highestFrom 0 ps.cards)
    have hle := highestFrom_le_numberFrom (Nat.le_refl 0) ps.highestUid ps.cards
    have hmax := highestFrom_eq_max ps.highestUid ps.assignUids.cards
    have hsame : highestFrom 0 ps.cards = ps.highestUid := rfl
    rw [hsame] at hlast hle
    rw [hcards] at hlast hle
    show _ = highestFrom 0 ps.assignUids.cards
    dsimp only at hlast hle
    omega

/-- Numbered cards keep their uids, and the last uid is found again. -/
theorem Numbered.assignUids {ps : Piles α} (h : ps.Numbered) :
    Piles.assignUids { ps with lastUid := 0 } = ps := by
  have hstored (p : Pile) : ∀ c ∈ ({ ps with lastUid := 0 } : Piles α).get p, 0 < c.uid := by
    intro c hc
    have hmem : c ∈ ps.get p := by cases p <;> exact hc
    exact h.positive c (mem_cards.mpr ⟨p, hmem⟩)
  have hlast : ({ ps with lastUid := 0 } : Piles α).highestUid = ps.lastUid := h.last.symm
  rw [assignUids_of_pos hstored, hlast, Nat.zero_max]

end Piles

variable [Scalar α]

/-! ## Fighters -/

/-- The numbers of a fighter are ordinary. -/
structure Fighter.Finite (f : Fighter α) : Prop where
  hp : isFinite f.hp = true
  maxHp : isFinite f.maxHp = true
  lust : isFinite f.lust = true
  maxLust : isFinite f.maxLust = true
  block : isFinite f.block = true

/-- Stats that were settled are settled. -/
theorem Fighter.settle_settle [Settling α] {f : Fighter α} (hf : f.Finite) :
    f.settle.settle = f.settle := by
  have hhp := roundTenth_clamp_again (isFinite_maximum hf.maxHp) (not_maximum_lt_one hf.maxHp)
    (roundTenth_maximum_of_isFinite hf.maxHp) hf.hp
  have hlust := roundTenth_clamp_again (isFinite_maximum hf.maxLust)
    (not_maximum_lt_one hf.maxLust) (roundTenth_maximum_of_isFinite hf.maxLust) hf.lust
  have hmaxHp := maximum_maximum hf.maxHp
  have hmaxLust := maximum_maximum hf.maxLust
  simp only [maximum] at hhp hlust hmaxHp hmaxLust
  simp only [settle, hmaxHp, hmaxLust, hhp, hlust, roundTenth_atLeast_zero_again hf.block,
    List.filter_filter, Bool.and_self]

/-- A text that was not left out because it is blank is not left out
again. -/
theorem filter_notBlank_again (o : Option String) :
    (o.filter fun t => !Text.isBlankText t.toList).filter (fun t => !Text.isBlankText t.toList) =
      o.filter fun t => !Text.isBlankText t.toList := by
  rw [Option.filter_filter]
  simp only [Bool.and_self]

namespace FighterEntry

/-- The fighter that is stored, before it is settled. -/
def unsettled (e : FighterEntry α) (c : Codex α) (maxStacks : Nat) : Fighter α where
  name := e.name
  hp := e.hp.getD (atLeast 1 e.maxHp)
  maxHp := atLeast 1 e.maxHp
  lust := e.lust
  maxLust := atLeast 1 e.maxLust
  block := e.block
  statuses := e.statuses.foldl (loadStatus c maxStacks) []
  abilities := loadAbilities 0 e.abilities
  modifiers := []
  overflow := e.overflow.filter fun t => !Text.isBlankText t.toList

theorem load_eq_settle (e : FighterEntry α) (c : Codex α) (maxStacks : Nat) :
    e.load c maxStacks = (e.unsettled c maxStacks).settle := rfl

/-- The stats of a stored fighter are ordinary numbers. -/
theorem Writable.finite [Settling α] {e : FighterEntry α} (he : e.Writable) (c : Codex α)
    (maxStacks : Nat) : (e.unsettled c maxStacks).Finite := by
  have hmaxHp := isFinite_atLeast isFinite_one he.maxHp
  refine ⟨?_, hmaxHp, he.lust, isFinite_atLeast isFinite_one he.maxLust, he.block⟩
  show isFinite (e.hp.getD (atLeast 1 e.maxHp)) = true
  cases hp : e.hp with
  | none => exact hmaxHp
  | some x => exact he.hp x hp

/-- The statuses that are loaded show what their definitions say. -/
theorem shows_load (e : FighterEntry α) (c : Codex α) (maxStacks : Nat) :
    c.Shows (e.load c maxStacks).statuses := by
  have hfold (entries : List StatusEntry) {held : List HeldStatus} (h : c.Shows held) :
      c.Shows (entries.foldl (loadStatus c maxStacks) held) := by
    induction entries generalizing held with
    | nil => exact h
    | cons e rest ih => exact ih (h.load e)
  have hnone : c.Shows [] := by
    intro s hs
    cases hs
  intro s hs
  exact hfold e.statuses hnone s (List.mem_of_mem_filter hs)

end FighterEntry

/-- A fighter that settling leaves alone, with statuses, abilities and an
overflow effect that loading leaves alone, is loaded as it was stored,
but for what is not stored. -/
theorem Fighter.load_entry {c c' : Codex α} {maxStacks : Nat} {f : Fighter α}
    (hagrees : ∀ {id d}, c.get? id = some d → ∃ d', c'.get? id = some d' ∧ d.Agrees d')
    (hallows : c.Allows maxStacks f.statuses) (hshows : c.Shows f.statuses)
    (habilities : ∀ a ∈ f.abilities, a.Reloads)
    (hoverflow : (f.overflow.filter fun t => !Text.isBlankText t.toList) = f.overflow)
    (hsettled : f.settle = f) : f.entry.load c' maxStacks = { f with modifiers := [] } := by
  have hstatuses : (f.entry.unsettled c' maxStacks).statuses = f.statuses :=
    foldl_loadStatus_entries hallows hshows hagrees
  have hloaded : loadAbilities 0 f.entry.abilities = f.abilities :=
    loadAbilities_entries habilities
  have hsame : f.entry.unsettled c' maxStacks =
      { f with maxHp := atLeast 1 f.maxHp, maxLust := atLeast 1 f.maxLust, modifiers := [] } := by
    simp only [FighterEntry.unsettled] at hstatuses ⊢
    simp only [hstatuses, hloaded]
    simp only [entry, hoverflow, Option.getD_some]
  rw [FighterEntry.load_eq_settle, hsame]
  have hsettle : ({ f with
      maxHp := atLeast 1 f.maxHp, maxLust := atLeast 1 f.maxLust, modifiers := [] } :
      Fighter α).settle = { f.settle with modifiers := [] } := by
    simp only [settle, atLeast_atLeast]
  rw [hsettle, hsettled]

/-- A fighter that was loaded and is stored is loaded as it was. -/
theorem FighterEntry.load_entry [Settling α] {c c' : Codex α}
    (hagrees : ∀ {id d}, c.get? id = some d → ∃ d', c'.get? id = some d' ∧ d.Agrees d')
    {e : FighterEntry α} (he : e.Writable) (maxStacks : Nat) :
    (e.load c maxStacks).entry.load c' maxStacks = e.load c maxStacks :=
  Fighter.load_entry hagrees (e.allows_load c maxStacks) (e.shows_load c maxStacks)
    reloads_of_mem_loadAbilities (filter_notBlank_again e.overflow)
    (Fighter.settle_settle (he.finite c maxStacks))

end DeckDuel
