/-
DeckDuel.Proofs.AbilityIds — whether the id of a new ability is its own.

* `Ability.numberedId` — the id of the ability that is attached as the
  `n`-th one. Different numbers make different ids, and none of them is
  a keyword.
* `Live.abilities_grant`, `Live.abilities_removeAbilities` — the
  abilities of a side after one was attached, and after some were
  removed.
* `Live.Tallies` — the invariant: a side holds abilities that it had at
  the start, in their order, and after them abilities with ids that were
  given out since, each once and in their order. `Live.Steps.tallies` —
  so after any run.
* `Live.RemovesJust` — removing by an id takes one ability away and
  leaves all others.
* `Session.new_ids_unique` — so a new id is in use only where an ability
  of the start has it, and if none has, removing by it removes the new
  ability alone, then and at any later moment.
  `Session.captured_id_given_again` — but what was captured keeps its
  ids, and the count of ids given out starts anew with a session.
-/
import DeckDuel.Proofs.GrantedAbility
import DeckDuel.Proofs.HeldAbilities
import Mathlib.Data.List.Nodup

namespace DeckDuel

variable {α : Type}

/-! ## Ids -/

namespace Ability

/-- The id of the ability that is attached as the `n`-th one. -/
def numberedId (n : Nat) : String := "ability_" ++ toString n

/-- The digits after the stem tell the number. -/
theorem numberedId_injective : Function.Injective numberedId := by
  have hread (n : Nat) :
      Nat.ofDigitChars 10 ((numberedId n).toList.drop "ability_".toList.length) 0 = n := by
    rw [numberedId, String.toList_append, List.drop_left, Nat.toString_eq_ofList_toDigits,
      String.toList_ofList, Nat.ofDigitChars_ten_toDigits]
  intro m n h
  rw [← hread m, h, hread n]

theorem isKeyword_numberedId (n : Nat) : Trigger.isKeyword (numberedId n) = false := by
  have hother (t : Trigger) : t.keyword ≠ numberedId n := by
    intro h
    have hhead := congrArg (fun s : String => s.toList.head?) h
    simp only [numberedId, String.toList_append] at hhead
    cases t <;> exact absurd hhead (by simp [Trigger.keyword])
  have hnone : Trigger.ofKeyword? (numberedId n) = none :=
    List.find?_eq_none.mpr fun t _ => by simpa using hother t
  simp [Trigger.isKeyword, hnone]

/-- The ids that were given out between two counts. -/
def givenOut (made made' : Nat) : List String :=
  (List.range' (made + 1) (made' - made)).map numberedId

theorem mem_givenOut {made made' n : Nat} :
    numberedId n ∈ givenOut made made' ↔ made < n ∧ n ≤ made' := by
  rw [givenOut, List.mem_map_of_injective numberedId_injective, List.mem_range'_1]
  omega

theorem givenOut_succ {made made' : Nat} (h : made ≤ made') :
    givenOut made (made' + 1) = givenOut made made' ++ [numberedId (made' + 1)] := by
  have hcount : made' + 1 - made = (made' - made) + 1 := by omega
  have hlast : made + 1 + (made' - made) = made' + 1 := by omega
  rw [givenOut, hcount, List.range'_1_concat, List.map_append, hlast]
  rfl

end Ability

/-! ## Attaching and removing -/

namespace Live

theorem abilities_grant (l : Live α) (side : Side) (k : Trigger) (text : String) (t : Side) :
    ((l.grant side k text).fighter t).abilities = (l.fighter t).abilities ++
      if t = side then [⟨Ability.numberedId (l.abilitiesMade + 1), k.keyword, text, ""⟩] else [] := by
  cases side <;> cases t
  · rfl
  · exact (List.append_nil _).symm
  · exact (List.append_nil _).symm
  · rfl

theorem abilities_removeAbilities (l : Live α) (side : Side) (key : String) (t : Side) :
    ((l.removeAbilities side key).2.fighter t).abilities =
      (l.fighter t).abilities.filter fun a => t ≠ side || !meantBy key a := by
  cases side <;> cases t
  · exact List.filter_congr fun _ _ => by simp
  · exact (List.filter_eq_self.mpr fun _ _ => by simp).symm
  · exact (List.filter_eq_self.mpr fun _ _ => by simp).symm
  · exact List.filter_congr fun _ _ => by simp

/-! ## Tallies -/

/-- A side holds abilities that it had at the start, and after them
abilities with ids that were given out since. -/
structure Tallies (start l : Live α) (side : Side) : Prop where
  made : start.abilitiesMade ≤ l.abilitiesMade
  held : ∃ kept new, (l.fighter side).abilities = kept ++ new ∧
    kept.Sublist (start.fighter side).abilities ∧
    (new.map Ability.id).Sublist (Ability.givenOut start.abilitiesMade l.abilitiesMade)

variable {start l m : Live α} {side : Side}

theorem Tallies.refl (l : Live α) (side : Side) : Tallies l l side :=
  ⟨Nat.le_refl _, _, [], (List.append_nil _).symm, .refl _, List.nil_sublist _⟩

theorem Tallies.keep (h : Tallies start l side) (hmade : m.abilitiesMade = l.abilitiesMade)
    (hkept : (m.fighter side).abilities = (l.fighter side).abilities) : Tallies start m side :=
  ⟨hmade ▸ h.made, by rw [hmade, hkept]; exact h.held⟩

/-- An id is given out, whether or not an ability gets it. -/
theorem Tallies.give (h : Tallies start l side) {more : List Ability}
    (hmade : m.abilitiesMade = l.abilitiesMade + 1)
    (hheld : (m.fighter side).abilities = (l.fighter side).abilities ++ more)
    (hids : (more.map Ability.id).Sublist [Ability.numberedId (l.abilitiesMade + 1)]) :
    Tallies start m side := by
  obtain ⟨kept, new, heq, hkept, hnew⟩ := h.held
  refine ⟨by rw [hmade]; exact Nat.le_succ_of_le h.made, kept, new ++ more, ?_, hkept, ?_⟩
  · rw [hheld, heq, List.append_assoc]
  · rw [hmade, Ability.givenOut_succ h.made, List.map_append]
    exact hnew.append hids

theorem Tallies.lose (h : Tallies start l side) (hmade : m.abilitiesMade = l.abilitiesMade)
    {p : Ability → Bool}
    (hheld : (m.fighter side).abilities = (l.fighter side).abilities.filter p) :
    Tallies start m side := by
  obtain ⟨kept, new, heq, hkept, hnew⟩ := h.held
  refine ⟨hmade ▸ h.made, kept.filter p, new.filter p, ?_, ?_, ?_⟩
  · rw [hheld, heq, List.filter_append]
  · exact List.filter_sublist.trans hkept
  · exact hmade ▸ (List.filter_sublist.map Ability.id).trans hnew

theorem Tallies.addAbility? (h : Tallies start l side) (t : Side) (effect : String) :
    Tallies start (l.addAbility? t effect).2 side := by
  obtain hnone | ⟨k, inner, -, hsome⟩ := l.addAbility?_cases t effect
  · rw [hnone]
    have hheld := (List.append_nil (l.fighter side).abilities).symm
    exact h.give rfl hheld (List.nil_sublist _)
  · rw [hsome]
    refine h.give rfl (abilities_grant l t k effect side) ?_
    split
    · exact .refl _
    · exact List.nil_sublist _

variable [Scalar α] {s : Setting α}

theorem Step.tallies (h : Step s l m) (hl : Tallies start l side) : Tallies start m side := by
  obtain ⟨t, effect, rfl⟩ | ⟨t, key, rfl⟩ | hkept := h.abilities_cases
  · exact hl.addAbility? t effect
  · exact hl.lose rfl (abilities_removeAbilities l t key side)
  · exact hl.keep hkept.made (hkept.fighters side).abilities

theorem Steps.tallies (h : Steps s l m) (side : Side) : Tallies l m side := by
  induction h with
  | refl => exact .refl l side
  | tail _ h ih => exact h.tallies ih

/-! ## The next id -/

omit [Scalar α] in
/-- An ability that has the next id already had it at the start. -/
theorem Tallies.mem_start (h : Tallies start l side) {b : Ability}
    (hb : b ∈ (l.fighter side).abilities) (hid : b.id = Ability.numberedId (l.abilitiesMade + 1)) :
    b ∈ (start.fighter side).abilities := by
  obtain ⟨kept, new, heq, hkept, hnew⟩ := h.held
  rw [heq] at hb
  rcases List.mem_append.mp hb with hb | hb
  · exact hkept.subset hb
  · have hgiven := hnew.subset (List.mem_map_of_mem hb)
    rw [hid, Ability.mem_givenOut] at hgiven
    omega

omit [Scalar α] in
/-- Removing by an id takes away what has the id. -/
theorem removeAbilities_split {l : Live α} {id : String} (hid : Trigger.isKeyword id = false)
    {before own after : List Ability} (hown : ∀ b ∈ own, b.id = id)
    (hothers : ∀ b ∈ before ++ after, b.id ≠ id)
    (h : (l.fighter side).abilities = before ++ own ++ after) :
    (l.removeAbilities side id).1 = own.length ∧
      ((l.removeAbilities side id).2.fighter side).abilities = before ++ after := by
  have hmeant (b : Ability) : meantBy id b = true ↔ b.id = id := by simp [meantBy, hid]
  have hstay {bs : List Ability} (hbs : ∀ b ∈ bs, b.id ≠ id) :
      bs.filter (fun b => !meantBy id b) = bs :=
    List.filter_eq_self.mpr fun b hb => by
      rw [Bool.not_eq_true', Bool.eq_false_iff]
      exact fun heq => hbs b hb ((hmeant b).mp heq)
  have hgone : own.filter (fun b => !meantBy id b) = [] :=
    List.filter_eq_nil_iff.mpr fun b hb => by
      rw [(hmeant b).mpr (hown b hb)]
      decide
  obtain ⟨hbefore, hafter⟩ := List.forall_mem_append.mp hothers
  have hleft : (l.fighter side).abilities.filter (fun b => !meantBy id b) = before ++ after := by
    rw [h, List.filter_append, List.filter_append, hstay hbefore, hgone, hstay hafter,
      List.append_nil]
  constructor
  · show (l.fighter side).abilities.length - ((l.fighter side).abilities.filter _).length = _
    rw [hleft, h]
    simp only [List.length_append]
    omega
  · rw [abilities_removeAbilities, ← hleft]
    exact List.filter_congr fun b _ => by simp

/-- Removing by an id takes an ability away, if it is still held, and
leaves all others. -/
def RemovesJust (l : Live α) (side : Side) (id : String) (a : Ability) : Prop :=
  ∃ before own after, (l.fighter side).abilities = before ++ own ++ after ∧
    (own = [a] ∨ own = []) ∧ (∀ b ∈ before ++ after, b.id ≠ id) ∧
    (l.removeAbilities side id).1 = own.length ∧
    ((l.removeAbilities side id).2.fighter side).abilities = before ++ after ∧
    (l.removeAbilities side id).2.fighter side.opponent = l.fighter side.opponent

omit [Scalar α] in
/-- An ability that got an id of its own keeps it alone. -/
theorem Tallies.removesJust {l m k : Live α} {a : Ability}
    (hnew : ∀ b ∈ (l.fighter side).abilities, b.id ≠ a.id)
    (ha : a.id = Ability.numberedId m.abilitiesMade)
    (hm : (m.fighter side).abilities = (l.fighter side).abilities ++ [a])
    (h : Tallies m k side) : k.RemovesJust side a.id a := by
  obtain ⟨kept, new, heq, hkept, hgiven⟩ := h.held
  rw [hm] at hkept
  obtain ⟨before, own, rfl, hbefore, hown⟩ := List.sublist_append_iff.mp hkept
  have hkeyword : Trigger.isKeyword a.id = false := ha ▸ Ability.isKeyword_numberedId _
  have hothers : ∀ b ∈ before ++ new, b.id ≠ a.id := by
    refine List.forall_mem_append.mpr ⟨fun b hb => hnew b (hbefore.subset hb), fun b hb hid => ?_⟩
    have hagain := hgiven.subset (List.mem_map_of_mem hb)
    rw [hid, ha, Ability.mem_givenOut] at hagain
    omega
  have hmine : ∀ b ∈ own, b.id = a.id := fun b hb =>
    congrArg Ability.id (List.mem_singleton.mp (hown.subset hb))
  obtain ⟨hcount, hleft⟩ := removeAbilities_split hkeyword hmine hothers heq
  exact ⟨before, own, new, heq, (List.sublist_singleton.mp hown).symm, hothers, hcount, hleft,
    by cases side <;> rfl⟩

end Live

/-! ## New ids -/

namespace Session

variable [Scalar α]

/-- **New ids are new to what was attached.** At any moment of any run, an
ability that a side holds has the id that an attached one gets only if
the side had it when the session began. If no ability that the side had
then has this id, the new ability is the only one with it, and removing
by the id removes the new ability and no other, at once and at any later
moment. -/
theorem new_ids_unique (s : Session α) (calls : List (Call α)) :
    Live.Steps s.toSetting s.live (s.afterAll calls).live ∧
      ∀ l m, Live.Steps s.toSetting s.live l → ∀ (side : Side) (effect id : String),
        l.addAbility? side effect = (some id, m) →
        (∀ b ∈ (l.fighter side).abilities, b.id = id → b ∈ (s.live.fighter side).abilities) ∧
          ((∀ b ∈ (s.live.fighter side).abilities, b.id ≠ id) →
            (∀ b ∈ (l.fighter side).abilities, b.id ≠ id) ∧
              (m.removeAbilities side id).1 = 1 ∧
              ((m.removeAbilities side id).2.fighter side).abilities =
                (l.fighter side).abilities ∧
              ∃ a, a.id = id ∧ a.effect = effect ∧
                (m.fighter side).abilities = (l.fighter side).abilities ++ [a] ∧
                ∀ k, Live.Steps s.toSetting m k → k.RemovesJust side id a) := by
  refine ⟨steps_afterAll s calls, fun l m hl side effect id hadd => ?_⟩
  have htallies := hl.tallies side
  obtain hnone | ⟨k, inner, -, hsome⟩ := l.addAbility?_cases side effect
  · rw [hnone] at hadd
    cases hadd
  rw [hsome] at hadd
  obtain ⟨hid, rfl⟩ := Prod.mk.inj hadd
  obtain rfl : Ability.numberedId (l.abilitiesMade + 1) = id := Option.some.inj hid
  let a : Ability := ⟨Ability.numberedId (l.abilitiesMade + 1), k.keyword, effect, ""⟩
  have hheld : ((l.grant side k effect).fighter side).abilities =
      (l.fighter side).abilities ++ [a] := by
    rw [Live.abilities_grant, if_pos rfl]
  have hown : a.id = Ability.numberedId (l.grant side k effect).abilitiesMade := rfl
  refine ⟨fun b hb hbid => htallies.mem_start hb hbid, fun hstart => ?_⟩
  have hnew : ∀ b ∈ (l.fighter side).abilities, b.id ≠ a.id := fun b hb hbid =>
    hstart b (htallies.mem_start hb hbid) hbid
  have hmine : ∀ b ∈ [a], b.id = a.id := fun b hb => congrArg Ability.id (List.mem_singleton.mp hb)
  have hothers : ∀ b ∈ (l.fighter side).abilities ++ [], b.id ≠ a.id := by
    rwa [List.append_nil]
  obtain ⟨hone, hback⟩ := Live.removeAbilities_split (Ability.isKeyword_numberedId _) hmine hothers
    (hheld.trans (List.append_nil _).symm)
  rw [List.append_nil] at hback
  refine ⟨hnew, hone, hback, a, rfl, rfl, hheld, fun k hk => ?_⟩
  exact (hk.tallies side).removesJust hnew hown hheld

/-- A second ability is attached in a loaded battle, and removed by its
id. -/
theorem new_ids_unique_duel :
    let s := loadWith (.duel : Snapshot Double) .standard .leftmost .standard
    let l := (s.afterAll [.addAbility .player "turn_start(ME.block+1)"]).live
    let r := l.addAbility? .player "turn_end(ME.block+1)"
    r.1 = some "ability_2" ∧ (∀ b ∈ (l.fighter .player).abilities, b.id ≠ "ability_2") ∧
      (r.2.removeAbilities .player "ability_2").1 = 1 := by
  intro s
  have hstart : ∀ b ∈ (s.live.fighter .player).abilities, b.id ≠ "ability_2" := by
    decide +kernel
  obtain ⟨hsteps, hrun⟩ := new_ids_unique s [.addAbility .player "turn_start(ME.block+1)"]
  -- The battle is a name from here on, so that nothing runs the call but one check.
  generalize hl : (s.afterAll [.addAbility .player "turn_start(ME.block+1)"]).live = l at hsteps ⊢
  have hid : (l.addAbility? .player "turn_end(ME.block+1)").1 = some "ability_2" := by
    rw [← hl]
    decide +kernel
  obtain ⟨-, hunique⟩ := hrun l _ hsteps .player "turn_end(ME.block+1)" "ability_2"
    (Prod.ext hid rfl)
  obtain ⟨hnew, hone, -⟩ := hunique hstart
  exact ⟨hid, hnew, hone⟩

/-- A session starts to count at nothing, so the first ability that is
attached gets the id of one that was attached in an earlier session and
captured with it. Removing by the id removes both. -/
theorem captured_id_given_again :
    let earlier := (loadWith (.duel : Snapshot Double) .standard .leftmost .standard).afterAll
      [.addAbility .player "turn_start(ME.block+1)"]
    let s := loadWith earlier.snapshot .standard .leftmost .standard
    let r := s.live.addAbility? .player "turn_end(ME.block+1)"
    (s.live.fighter .player).abilities.map Ability.id = ["ability_1"] ∧
      r.1 = some "ability_1" ∧ (r.2.removeAbilities .player "ability_1").1 = 2 := by
  decide +kernel

end Session
end DeckDuel
