/-
DeckDuel.Proofs.LoadedAgain — loading normalises once.

A snapshot that is read from a text is loaded, the battle is captured,
written and read again, and then it is loaded with the same rules:

* `Snapshot.writable_captured` — the captured snapshot can be written,
  since loading gave it bounds, uids and finite numbers.
* `Document.counted_writeSnapshot` — its integers are counts, so its text
  is read back as far as its other numbers are.
* `Snapshot.load_captured` — what is read back is loaded as the battle
  that was captured.
* `Snapshot.load_again` — the whole round.
-/
import DeckDuel.Proofs.Reload
import DeckDuel.Proofs.SoundSnapshots
import DeckDuel.Proofs.WrittenText

namespace DeckDuel

open Scalar Settling

variable {α : Type}

/-! ## Cards with uids -/

namespace Piles

theorem le_numberFrom (last : Nat) (cs : List (Card α)) : last ≤ (numberFrom last cs).1 := by
  induction cs generalizing last with
  | nil => exact Nat.le_refl last
  | cons c cs ih =>
    unfold numberFrom
    split
    · exact Nat.le_of_succ_le (ih (last + 1))
    · exact ih last

/-- Numbering gives no card a uid above the last one, and no other
cost. -/
theorem mem_numberFrom {last : Nat} {cs : List (Card α)} (hcs : ∀ c ∈ cs, c.uid ≤ last) :
    ∀ c ∈ (numberFrom last cs).2, c.uid ≤ (numberFrom last cs).1 ∧ ∃ d ∈ cs, d.cost = c.cost := by
  induction cs generalizing last with
  | nil => simp [numberFrom]
  | cons c cs ih =>
    obtain ⟨hc, hcs⟩ := List.forall_mem_cons.mp hcs
    have hrest {last' : Nat} (hle : last ≤ last') : ∀ c' ∈ (numberFrom last' cs).2,
        c'.uid ≤ (numberFrom last' cs).1 ∧ ∃ d ∈ c :: cs, d.cost = c'.cost := fun c' hc' => by
      obtain ⟨huid, d, hd, hcost⟩ := ih (fun d hd => Nat.le_trans (hcs d hd) hle) c' hc'
      exact ⟨huid, d, List.mem_cons_of_mem c hd, hcost⟩
    unfold numberFrom
    split
    · exact List.forall_mem_cons.mpr
        ⟨⟨le_numberFrom _ _, c, List.mem_cons_self, rfl⟩, hrest (Nat.le_succ last)⟩
    · exact List.forall_mem_cons.mpr
        ⟨⟨Nat.le_trans hc (le_numberFrom _ _), c, List.mem_cons_self, rfl⟩,
          hrest (Nat.le_refl last)⟩

/-- The same of all piles. -/
theorem mem_assignUids {ps : Piles α} (h : ps.lastUid = 0) {p : Pile} {c : Card α}
    (hc : c ∈ ps.assignUids.get p) :
    c.uid ≤ ps.assignUids.lastUid ∧ ∃ d ∈ ps.cards, d.cost = c.cost := by
  have hcards := cards_assignUids ps
  rw [h, Nat.zero_max] at hcards
  have hbound : ∀ c ∈ ps.cards, c.uid ≤ ps.highestUid := uid_le_highestFrom 0 ps.cards
  have hnumbered := mem_numberFrom hbound
  rw [hcards] at hnumbered
  exact hnumbered c (mem_cards.mpr ⟨p, hc⟩)

end Piles

/-! ## Counts -/

namespace Json

theorem counted_nat {n : Nat} (h : n < 1 <<< 64) : (nat n : Json α).Counted := by
  intro m hm
  have heq : Json.int m = Json.int (n : Int) := List.mem_singleton.mp hm
  cases heq
  exact ⟨Int.natCast_nonneg n, by exact_mod_cast h⟩

theorem counted_nat32 {n : Nat} (h : n < 1 <<< 32) : (nat n : Json α).Counted :=
  counted_nat (Nat.lt_trans h (by decide))

theorem counted_str (s : String) : (.str s : Json α).Counted := by
  intro m hm
  cases List.mem_singleton.mp hm

theorem counted_bool (b : Bool) : (.bool b : Json α).Counted := by
  intro m hm
  cases List.mem_singleton.mp hm

theorem counted_null : (.null : Json α).Counted := by
  intro m hm
  cases List.mem_singleton.mp hm

theorem counted_ofNumber [Scalar α] (x : α) : (ofNumber x).Counted := by
  intro m hm
  unfold ofNumber at hm
  split at hm <;> cases List.mem_singleton.mp hm

theorem counted_arr {vs : List (Json α)} (h : ∀ v ∈ vs, v.Counted) : (arr vs).Counted := by
  intro m hm
  rw [leaves, leavesItems_eq, List.mem_flatMap] at hm
  obtain ⟨v, hv, hmem⟩ := hm
  exact h v hv m hmem

theorem counted_obj {ms : List (String × Json α)} (h : ∀ m ∈ ms, m.2.Counted) :
    (obj ms).Counted := by
  intro n hn
  rw [leaves, leavesMembers_eq, List.mem_flatMap] at hn
  obtain ⟨m, hm, hmem⟩ := hn
  exact h m hm n hmem

theorem counted_map {β : Type} {write : β → Json α} {xs : List β} (h : ∀ x ∈ xs, (write x).Counted) :
    (arr (xs.map write)).Counted :=
  counted_arr (List.forall_mem_map.mpr h)

theorem counted_strs (ss : List String) : (strs ss : Json α).Counted :=
  counted_map fun s _ => counted_str s

/-- A record of nothing but texts. -/
theorem counted_texts (ms : List (String × String)) :
    (obj (ms.map fun m => (m.1, .str m.2)) : Json α).Counted :=
  counted_obj (List.forall_mem_map.mpr fun m _ => counted_str m.2)

theorem Counted.canonical {v : Json α} (h : v.Counted) : v.canonical.Counted := fun n hn =>
  h n (mem_leaves_of_canonical v hn)

end Json

variable [Scalar α]

namespace Document

open Json

theorem counted_writeCard {c : Card α} (hc : c.Writable) : (writeCard c).Counted := by
  refine counted_obj ?_
  simp only [List.forall_mem_cons, List.not_mem_nil, false_imp_iff, implies_true, and_true]
  exact ⟨counted_nat32 hc.uid, counted_str _, counted_str _, counted_ofNumber _, counted_str _,
    counted_str _, counted_bool _, counted_str _⟩

omit [Scalar α] in
theorem counted_writeRelic (r : Relic) : (writeRelic r : Json α).Counted :=
  counted_texts [("id", r.id), ("name", r.name), ("effect", r.effect),
    ("description", r.description)]

omit [Scalar α] in
theorem counted_writeStatusEntry {e : StatusEntry} (he : e.stackCount < 1 <<< 32) :
    (writeStatusEntry e : Json α).Counted := by
  refine counted_obj ?_
  simp only [List.forall_mem_append, List.forall_mem_cons, List.not_mem_nil, false_imp_iff,
    implies_true, and_true, forall_member?]
  refine ⟨⟨⟨counted_str _, counted_nat32 he⟩, ?_⟩, fun k _ => counted_str _⟩
  split
  · simp
  · simpa using counted_str _

omit [Scalar α] in
theorem counted_writeAbilityEntry (e : AbilityEntry) : (writeAbilityEntry e : Json α).Counted :=
  counted_texts [("id", e.id), ("trigger", e.trigger), ("effect", e.effect),
    ("description", e.description)]

theorem counted_writeStats {e : FighterEntry α} (he : e.Writable) :
    ∀ m ∈ writeStats e, m.2.Counted := by
  simp only [writeStats, List.forall_mem_append, List.forall_mem_cons, List.not_mem_nil,
    false_imp_iff, implies_true, and_true, forall_member?]
  exact ⟨⟨⟨⟨counted_str _, counted_ofNumber _⟩, fun x _ => counted_ofNumber x⟩,
    counted_ofNumber _, counted_ofNumber _, counted_ofNumber _,
    counted_map fun s hs => counted_writeStatusEntry (he.statuses s hs),
    counted_map fun a _ => counted_writeAbilityEntry a⟩, fun t _ => counted_str t⟩

theorem counted_writeDecay (d : Decay α) : (writeDecay d).Counted := by
  cases d with
  | none => exact counted_null
  | amount x => exact counted_ofNumber x
  | factor f => exact counted_str _

omit [Scalar α] in
theorem counted_writeTriggers (t : StatusTriggers) : (writeTriggers t : Json α).Counted := by
  refine counted_obj fun m hm => ?_
  rcases List.mem_append.mp hm with hm | hm
  · obtain ⟨p, -, rfl⟩ := List.mem_map.mp hm
    exact counted_strs _
  · obtain ⟨e, -, rfl⟩ := List.mem_map.mp hm
    exact counted_strs _

theorem counted_writeDefinition {d : StatusDefinition α} (hd : d.Writable) :
    (writeDefinition d).Counted := by
  have hmax : (opt .nat d.maxStacks : Json α).Counted := by
    cases hn : d.maxStacks with
    | none => exact counted_null
    | some n => exact counted_nat32 (hd.maxStacks n hn)
  refine counted_obj ?_
  simp only [List.forall_mem_cons, List.not_mem_nil, false_imp_iff, implies_true, and_true]
  exact ⟨counted_str _, counted_str _, counted_str _, counted_str _, counted_str _,
    counted_writeDecay _, hmax, counted_writeTriggers _, counted_str _, counted_nat hd.createdAt⟩

theorem counted_writeCodex {c : Codex α} (hc : ∀ d ∈ c.definitions, d.Writable) :
    (writeCodex c).Counted :=
  (counted_map fun d hd => counted_writeDefinition (hc d hd)).canonical

/-- Every integer of a written snapshot is a count, if those of its
definitions are. -/
theorem counted_writeSnapshot {s : Snapshot α} (hs : s.Writable) (hcounts : s.definitions.Counted) :
    (writeSnapshot s).Counted := by
  have hcards {cs : List (Card α)} (hcs : ∀ c ∈ cs, c.Writable) :
      (arr (cs.map writeCard)).Counted := counted_map fun c hc => counted_writeCard (hcs c hc)
  have hplayer : ∀ m ∈ writeStats s.player ++ [("maxEnergy", .ofNumber s.maxEnergy)] ++
      member? "energy" .ofNumber s.energy ++
      [("relics", .arr (s.relics.map writeRelic)), ("hand", .arr (s.hand.map writeCard)),
       ("drawPile", .arr (s.draw.map writeCard)), ("discardPile", .arr (s.discard.map writeCard)),
       ("exhaustPile", .arr (s.exhaust.map writeCard))], m.2.Counted := by
    simp only [List.forall_mem_append, List.forall_mem_cons, List.not_mem_nil, false_imp_iff,
      implies_true, and_true, forall_member?]
    exact ⟨⟨⟨counted_writeStats hs.player, counted_ofNumber _⟩, fun x _ => counted_ofNumber x⟩,
      counted_map fun r _ => counted_writeRelic r, hcards hs.hand, hcards hs.draw,
      hcards hs.discard, hcards hs.exhaust⟩
  have henemy : ∀ m ∈ writeStats s.enemy ++ [("actions", .strs s.actions)], m.2.Counted := by
    simp only [List.forall_mem_append, List.forall_mem_cons, List.not_mem_nil, false_imp_iff,
      implies_true, and_true]
    exact ⟨counted_writeStats hs.enemy, counted_strs _⟩
  refine counted_obj ?_
  simp only [List.forall_mem_cons, List.not_mem_nil, false_imp_iff, implies_true, and_true]
  exact ⟨counted_obj hplayer, counted_obj henemy, hcounts, counted_nat32 hs.turn⟩

/-! ## What is captured can be written -/

omit [Scalar α] in
theorem levels_strs (ss : List String) : (strs ss : Json α).levels ≤ 1 :=
  Nat.succ_le_succ (levelsItems_le (List.forall_mem_map.mpr fun _ _ => Nat.le_refl 0))

omit [Scalar α] in
theorem levels_writeTriggers (t : StatusTriggers) : (writeTriggers t : Json α).levels ≤ 2 := by
  refine Nat.succ_le_succ (levelsMembers_le fun m hm => ?_)
  rcases List.mem_append.mp hm with hm | hm
  · obtain ⟨p, -, rfl⟩ := List.mem_map.mp hm
    exact levels_strs _
  · obtain ⟨e, -, rfl⟩ := List.mem_map.mp hm
    exact levels_strs _

theorem levels_writeDefinition (d : StatusDefinition α) : (writeDefinition d).levels ≤ 3 := by
  have hdecay : (writeDecay d.decay).levels ≤ 2 := by
    cases d.decay with
    | none => exact Nat.zero_le 2
    | amount x =>
      rw [writeDecay, levels_ofNumber]
      exact Nat.zero_le 2
    | factor f => exact Nat.zero_le 2
  have hmax : (opt .nat d.maxStacks : Json α).levels ≤ 2 := by
    cases d.maxStacks <;> exact Nat.zero_le 2
  have hstr (s : String) : (.str s : Json α).levels ≤ 2 := Nat.zero_le 2
  refine Nat.succ_le_succ (levelsMembers_le ?_)
  simp only [List.forall_mem_cons, List.not_mem_nil, false_imp_iff, implies_true, and_true]
  exact ⟨hstr _, hstr _, hstr _, hstr _, hstr _, hdecay, hmax, levels_writeTriggers _, hstr _,
    Nat.zero_le 2⟩

/-- Written definitions are not nested deeply. -/
theorem levels_writeCodex (c : Codex α) : (writeCodex c).levels ≤ 4 :=
  Nat.le_trans (levels_canonical_le _)
    (Nat.succ_le_succ (levelsItems_le (List.forall_mem_map.mpr fun d _ => levels_writeDefinition d)))

end Document

variable [Settling α]

/-- A stored fighter is loaded with numbers that can be written. -/
theorem FighterEntry.writable_load {e : FighterEntry α} (he : e.Writable) (c : Codex α)
    (maxStacks : Nat) : (e.load c maxStacks).entry.Writable := by
  have hfinite := he.finite c maxStacks
  have hmaxHp : isFinite (maximum (atLeast 1 e.maxHp)) = true := isFinite_maximum hfinite.maxHp
  have hmaxLust : isFinite (maximum (atLeast 1 e.maxLust)) = true :=
    isFinite_maximum hfinite.maxLust
  have hstacks (entries : List StatusEntry) (hentries : ∀ s ∈ entries, s.stackCount < 1 <<< 32)
      {held : List HeldStatus} (hheld : ∀ s ∈ held, s.stackCount < 1 <<< 32) :
      ∀ s ∈ entries.foldl (loadStatus c maxStacks) held, s.stackCount < 1 <<< 32 := by
    induction entries generalizing held with
    | nil => exact hheld
    | cons e rest ih =>
      obtain ⟨he, hrest⟩ := List.forall_mem_cons.mp hentries
      exact ih hrest (stackCount_lt_of_mem_loadStatus hheld he)
  refine ⟨hmaxHp, ?_, hmaxLust, ?_, ?_, ?_⟩
  · rintro x ⟨⟩
    exact isFinite_roundTenth (isFinite_clamp isFinite_zero hmaxHp hfinite.hp)
  · exact isFinite_roundTenth (isFinite_clamp isFinite_zero hmaxLust hfinite.lust)
  · exact isFinite_roundTenth (isFinite_atLeast isFinite_zero hfinite.block)
  · refine List.forall_mem_map.mpr fun s hs => ?_
    exact hstacks e.statuses he.statuses (by simp) s (List.mem_of_mem_filter hs)

/-- A battle that was loaded can be written, as long as its uids fit 32
bits. -/
theorem Snapshot.writable_captured {snap : Snapshot α} (hsnap : snap.Bounded) (rules : Rules)
    (huids : snap.piles.lastUid < 1 <<< 32) :
    ((snap.load rules).snapshot snap.codex).Writable := by
  have hcost : ∀ d ∈ (⟨snap.hand, snap.draw, snap.discard, snap.exhaust, 0⟩ : Piles α).cards,
      isFinite d.cost = true := by
    intro d hd
    obtain ⟨p, -, hd⟩ := List.mem_flatMap.mp hd
    cases p
    exacts [(hsnap.hand d hd).cost, (hsnap.draw d hd).cost, (hsnap.discard d hd).cost,
      (hsnap.exhaust d hd).cost]
  have hcards (p : Pile) : ∀ c ∈ snap.piles.get p, c.Writable := by
    intro c hc
    obtain ⟨huid, d, hd, hsame⟩ := Piles.mem_assignUids rfl hc
    exact ⟨Nat.lt_of_le_of_lt huid huids, hsame ▸ hcost d hd⟩
  have hmaxEnergy : isFinite (atLeast 1 snap.maxEnergy) = true :=
    isFinite_atLeast isFinite_one hsnap.maxEnergy
  have henergy : isFinite (snap.energy.getD (atLeast 1 snap.maxEnergy)) = true := by
    cases h : snap.energy with
    | none => exact hmaxEnergy
    | some x => exact hsnap.energy x h
  refine ⟨⟨FighterEntry.writable_load hsnap.player _ _, FighterEntry.writable_load hsnap.enemy _ _,
    hmaxEnergy, ?_, hcards .hand, hcards .draw, hcards .discard, hcards .exhaust, hsnap.turn⟩, ?_⟩
  · rintro x ⟨⟩
    exact isFinite_atLeast isFinite_zero henergy
  · exact Nat.lt_of_le_of_lt (Document.levels_writeCodex snap.codex) (by decide)

/-! ## The round -/

namespace Snapshot

/-- What is captured of a battle that was loaded is loaded as the
battle, with any definitions that agree. -/
theorem load_captured {snap : Snapshot α} (hsnap : snap.Bounded) (rules : Rules) {v : Json α}
    (hagrees : List.Forall₂ StatusDefinition.Agrees snap.codex.definitions
      (Document.loadCodex .empty v).2.definitions) :
    ({ (snap.load rules).snapshot snap.codex with definitions := v } : Snapshot α).load rules =
      snap.load rules := by
  have hget {id : String} {d : StatusDefinition α} (hd : snap.codex.get? id = some d) :=
    get?_of_agrees hagrees hd
  have hplayer := FighterEntry.load_entry hget hsnap.player rules.defaultMaxStacks
  have henemy := FighterEntry.load_entry hget hsnap.enemy rules.defaultMaxStacks
  have hpiles : Piles.assignUids { snap.piles with lastUid := 0 } = snap.piles :=
    (Piles.numbered_assignUids rfl).assignUids
  have hmaxEnergy : atLeast 1 (atLeast 1 snap.maxEnergy) = atLeast 1 snap.maxEnergy :=
    atLeast_atLeast 1 _
  have henergy (x : α) : atLeast 0 (atLeast 0 x) = atLeast 0 x := atLeast_atLeast 0 x
  have hload : ({ (snap.load rules).snapshot snap.codex with definitions := v } :
      Snapshot α).load rules =
      { Battle.start
          { fighter := (snap.load rules).player.fighter.entry.load
              (Document.loadCodex .empty v).2 rules.defaultMaxStacks
            energy := atLeast 0 (snap.load rules).player.energy
            maxEnergy := atLeast 1 (snap.load rules).player.maxEnergy
            relics := snap.relics
            piles := Piles.assignUids { snap.piles with lastUid := 0 } }
          { fighter := (snap.load rules).enemy.fighter.entry.load
              (Document.loadCodex .empty v).2 rules.defaultMaxStacks
            actions := snap.actions
            nextAction := 0 } rules.seed with turn := snap.turn } := rfl
  rw [hload]
  show { Battle.start (Player.mk (FighterEntry.load (FighterEntry.load snap.player snap.codex
      rules.defaultMaxStacks).entry _ _) (atLeast 0 (atLeast 0 _)) (atLeast 1 (atLeast 1 _)) _ _)
    (Enemy.mk (FighterEntry.load (FighterEntry.load snap.enemy snap.codex
      rules.defaultMaxStacks).entry _ _) _ _) _ with turn := snap.turn } = _
  rw [hplayer, henemy, hpiles, hmaxEnergy, henergy]
  rfl

/-- **Loading normalises once.** A snapshot that was read from a text is
loaded as a battle; what is captured of the battle is written, read, and
loaded as the same battle, with the same definitions in the same order.
The uids have to fit 32 bits, and the numbers that are written have to
be read back from their digits. -/
theorem load_again {cs : List Char} {snap : Snapshot α}
    (hread : Decode.decodeText Document.readSnapshot cs = .ok snap) (rules : Rules)
    (huids : snap.piles.lastUid < 1 <<< 32)
    (hnumbers : (Document.writeSnapshot ((snap.load rules).snapshot snap.codex)).ReadsBack) :
    ∃ snap', Decode.decodeText Document.readSnapshot
        (Document.writeSnapshot ((snap.load rules).snapshot snap.codex)).print.toList = .ok snap' ∧
      snap'.load rules = snap.load rules ∧ snap'.codex.ids = snap.codex.ids := by
  have hbounded := Document.bounded_of_decodeText hread
  have hwritable := writable_captured hbounded rules huids
  obtain ⟨hnodup, hdefinitions⟩ :
      snap.codex.ids.Nodup ∧ ∀ d ∈ snap.codex.definitions, d.Writable :=
    Document.writable_loadCodex snap.definitions
  have hcounted := Document.counted_writeSnapshot hwritable
    (Document.counted_writeCodex hdefinitions)
  have hscan := Doc.scanAll_write (Json.readable_of_leaves _ hcounted hnumbers)
  have hreads := Document.readSnapshot_writeSnapshot hwritable
  obtain ⟨ds, hagrees, hcodex⟩ := Document.loadCodex_writeCodex hdefinitions hnodup
  have hagrees' : List.Forall₂ StatusDefinition.Agrees snap.codex.definitions
      (Document.loadCodex .empty (Document.writeCodex snap.codex).canonical).2.definitions := by
    rw [hcodex]
    exact hagrees
  refine ⟨_, ?_, load_captured hbounded rules hagrees', ?_⟩
  · rw [Json.print, String.toList_ofList, Decode.decodeText, hscan]
    unfold Decode.ofWhole
    rw [hreads]
    rfl
  · show (Document.loadCodex .empty (Document.writeCodex snap.codex).canonical).2.ids = _
    rw [hcodex]
    exact ids_of_agrees hagrees

end Snapshot

/-! ## An untidy snapshot -/

/-- Is the text of a number read as the number? -/
def Double.readsBack? (x : Double) : Bool :=
  match (Doc.scan (documentText x).toList : Doc.Scanned (Doc Double)) with
  | (.real y, some []) => y.word == x.word
  | _ => false

/-- Is every number in a value read back? -/
def Json.readsBack? (v : Json Double) : Bool :=
  v.leaves.all fun
    | .real x => x.readsBack?
    | _ => true

theorem Json.readsBack_of_readsBack? {v : Json Double} (h : v.readsBack? = true) :
    v.ReadsBack := by
  intro x hx
  have hcheck : x.readsBack? = true := List.all_eq_true.mp h _ hx
  unfold Double.readsBack? at hcheck
  split at hcheck
  · next y hscan => rw [Doc.ReadsBack, hscan, show y = x from congrArg Double.mk (eq_of_beq hcheck)]
  · cases hcheck

namespace Snapshot

/-- Stats out of their bounds, a status that is stored twice, one with
too many stacks and one that is not defined, definitions in lists and one
that comes twice, abilities without id, and cards without uid besides one
that has its own. -/
def untidy : Json Double :=
  let hundredths (n : Nat) : Json Double := .real (ofNat n / ofNat 100)
  .obj
    [("player", .obj
      [("name", .str "Hero"), ("maxHp", hundredths 25), ("currentHp", .int 7),
       ("currentLust", hundredths 12345), ("block", .int (-3)), ("energy", .int (-1)),
       ("statusEffects", .arr
         [.obj [("id", .str "burn"), ("stacks", .int 9)], .obj [("id", .str "burn")],
          .obj [("id", .str "chill")]]),
       ("abilities", .arr
         [.obj [("effect", .str "turn_start(ME.block+1)")], .obj [("effect", .str "ME.block+1")],
          .obj [("effect", .str "turn_end(ME.hp+1)")]]),
       ("hand", .arr
         [.obj [("id", .str "strike"), ("name", .str "Strike"), ("cost", hundredths 333)],
          .obj [("uid", .int 3), ("id", .str "guard"), ("name", .str "Guard")]]),
       ("drawPile", .arr [.obj [("id", .str "strike"), ("name", .str "Strike")]])]),
     ("enemy", .obj
       [("name", .str "Slime"), ("maxHp", hundredths 3033), ("lustOverflowEffect", .str " ")]),
     ("statusDefinitions", .arr
       [.arr [.obj [("id", .str "burn"), ("name", .str "Burn"), ("maxStacks", .int 5)]],
        .obj [("id", .str "burn"), ("name", .str "Burn"), ("maxStacks", .int 4),
          ("stacks_change", .str "x0.50")], .str "chill"])]

/-- The untidy snapshot is loaded again as it was. -/
theorem load_again_untidy :
    ∃ snap snap' : Snapshot Double,
      Decode.decodeText Document.readSnapshot untidy.write = .ok snap ∧
        Decode.decodeText Document.readSnapshot (Document.writeSnapshot
          ((snap.load .standard).snapshot snap.codex)).print.toList = .ok snap' ∧
        snap'.load .standard = snap.load .standard ∧ snap'.codex.ids = snap.codex.ids := by
  obtain ⟨snap, hsnap, hchecks⟩ : ∃ snap : Snapshot Double,
      Decode.decodeText Document.readSnapshot untidy.write = .ok snap ∧
        snap.piles.lastUid < 1 <<< 32 ∧
        (Document.writeSnapshot ((snap.load .standard).snapshot snap.codex)).readsBack? = true := by
    have hcheck : (match (Decode.decodeText Document.readSnapshot untidy.write :
        Decoded (Snapshot Double)) with
      | .ok snap => decide (snap.piles.lastUid < 1 <<< 32) &&
        (Document.writeSnapshot ((snap.load .standard).snapshot snap.codex)).readsBack?
      | .error _ => false) = true := by decide +kernel
    split at hcheck
    · next snap hsnap =>
      rw [Bool.and_eq_true, decide_eq_true_eq] at hcheck
      exact ⟨snap, hsnap, hcheck⟩
    · cases hcheck
  obtain ⟨snap', hread, hload, hids⟩ :=
    load_again hsnap .standard hchecks.1 (Json.readsBack_of_readsBack? hchecks.2)
  exact ⟨snap, snap', hsnap, hread, hload, hids⟩

end Snapshot

end DeckDuel
