/-
DeckDuel.Proofs.WrittenSnapshot — a written snapshot is read again.

* `Snapshot.Writable` — what a document has room for: counts of 32 bits,
  finite numbers, and definitions that are not nested too deeply.
* `Document.readSnapshot_writeSnapshot` — a writable snapshot is read
  from its document, with the definitions in canonical form. Parts that
  are left out when they are empty are read as empty.
-/
import DeckDuel.Document.Snapshot
import DeckDuel.Proofs.WrittenRecords

namespace DeckDuel

open Scalar Decode

namespace Document

open Json Record

variable {α : Type} {src : Source}

/-! ## Members that may be left out -/

theorem forall_member? {β : Type} {name : String} {write : β → Json α} {o : Option β}
    {p : String × Json α → Prop} :
    (∀ m ∈ member? name write o, p m) ↔ ∀ x ∈ o, p (name, write x) := by
  cases o <;> simp [member?]

theorem keys_member?_sublist {β : Type} (name : String) (write : β → Json α) (o : Option β) :
    ((member? name write o).map Prod.fst).Sublist [name] := by
  cases o <;> simp [member?]

/-- A member that was left out is read as nothing. -/
theorem get_member? {β : Type} {ms : List (String × Json α)} {name : String}
    {write : β → Json α} {o : Option β} {d : Decoder α (Option β)}
    (hlookup : ms.lookup name = o.map write) (h : ∀ x ∈ o, Reads d src (write x) (some x)) :
    get ⟨src, docs ms, false⟩ name d none = .ok o := by
  cases o with
  | none => exact get_unwritten hlookup d none
  | some x => exact get_written hlookup (h x rfl) none

/-- A text that was left out because it is empty is read as empty. -/
theorem get_text? {ms : List (String × Json α)} {name s : String}
    (hlookup : ms.lookup name = if s.isEmpty then none else some (.str s)) :
    get ⟨src, docs ms, false⟩ name text "" = .ok s := by
  by_cases hempty : s.isEmpty = true
  · rw [if_pos hempty] at hlookup
    rw [get_unwritten hlookup, String.isEmpty_iff.mp hempty]
  · rw [if_neg hempty] at hlookup
    exact get_written hlookup (reads_text s) ""

end Document

variable {α : Type} [Scalar α]

/-! ## What can be written -/

/-- The uid and the cost of a card can be written. -/
structure Card.Writable (c : Card α) : Prop where
  uid : c.uid < 1 <<< 32
  cost : isFinite c.cost = true

/-- The numbers of a stored fighter can be written. -/
structure FighterEntry.Writable (e : FighterEntry α) : Prop where
  maxHp : isFinite e.maxHp = true
  hp : ∀ x ∈ e.hp, isFinite x = true
  maxLust : isFinite e.maxLust = true
  lust : isFinite e.lust = true
  block : isFinite e.block = true
  statuses : ∀ s ∈ e.statuses, s.stackCount < 1 <<< 32

/-- The numbers of a snapshot can be written. -/
structure Snapshot.Bounded (s : Snapshot α) : Prop where
  player : s.player.Writable
  enemy : s.enemy.Writable
  maxEnergy : isFinite s.maxEnergy = true
  energy : ∀ x ∈ s.energy, isFinite x = true
  hand : ∀ c ∈ s.hand, c.Writable
  draw : ∀ c ∈ s.draw, c.Writable
  discard : ∀ c ∈ s.discard, c.Writable
  exhaust : ∀ c ∈ s.exhaust, c.Writable
  turn : s.turn < 1 <<< 32

/-- The numbers of a snapshot and its definitions can be written. -/
structure Snapshot.Writable (s : Snapshot α) : Prop extends s.Bounded where
  definitions : s.definitions.levels < Doc.maxLevels

namespace Document

open Json Record

variable {src inside : Source}

/-! ## Cards and relics -/

theorem lookup_cardKind (k : CardKind) : CardKind.names.lookup k.name = some k := by
  cases k <;> rfl

theorem lookup_statusKind (k : StatusKind) : StatusKind.names.lookup k.name = some k := by
  cases k <;> rfl

theorem readCard_writeCard (henter : src.enter = .ok inside) {c : Card α} (hc : c.Writable) :
    Reads readCard src (writeCard c) c := by
  have htext (s : String) : Reads (text : Decoder α String) inside (.str s) s := reads_text s
  have huid : Reads (count32 : Decoder α Nat) inside (.nat c.uid) c.uid := reads_natural hc.uid
  have hcost : Reads number inside (.ofNumber c.cost) c.cost := reads_number hc.cost
  have hkind : Reads (choice CardKind.names : Decoder α CardKind) inside (.str c.kind.name) c.kind :=
    reads_choice (lookup_cardKind c.kind)
  have hexhaust : Reads (flag : Decoder α Bool) inside (.bool c.exhausts) c.exhausts :=
    reads_flag c.exhausts
  refine record_reads henter ?_ (by simp) ?_
  · simp only [List.forall_mem_cons, List.not_mem_nil, false_imp_iff, implies_true, and_true]
    exact ⟨huid.field rfl rfl, (htext c.id).field rfl rfl, (htext c.name).field rfl rfl,
      hcost.field rfl rfl, (htext c.effect).field rfl rfl, hkind.field rfl rfl,
      hexhaust.field rfl rfl, (htext c.description).field rfl rfl⟩
  · rw [get_written rfl huid, need_written rfl (htext c.id), need_written rfl (htext c.name),
      get_written rfl hcost, get_written rfl (htext c.effect), get_written rfl hkind,
      get_written rfl hexhaust, get_written rfl (htext c.description)]
    rfl

omit [Scalar α] in
theorem readRelic_writeRelic (henter : src.enter = .ok inside) (r : Relic) :
    Reads (readRelic : Decoder α Relic) src (writeRelic r) r := by
  have htext (s : String) : Reads (text : Decoder α String) inside (.str s) s := reads_text s
  refine record_reads henter ?_ (by simp) ?_
  · simp only [List.forall_mem_cons, List.not_mem_nil, false_imp_iff, implies_true, and_true]
    exact ⟨(htext r.id).field rfl rfl, (htext r.name).field rfl rfl, (htext r.effect).field rfl rfl,
      (htext r.description).field rfl rfl⟩
  · rw [need_written rfl (htext r.id), need_written rfl (htext r.name),
      need_written rfl (htext r.effect), get_written rfl (htext r.description)]
    rfl

/-! ## Stats -/

omit [Scalar α] in
theorem readStatusEntry_writeStatusEntry (henter : src.enter = .ok inside) {e : StatusEntry}
    (he : e.stackCount < 1 <<< 32) :
    Reads (readStatusEntry : Decoder α StatusEntry) src (writeStatusEntry e) e := by
  have htext (s : String) : Reads (text : Decoder α String) inside (.str s) s := reads_text s
  have hstacks : Reads (count32 : Decoder α Nat) inside (.nat e.stackCount) e.stackCount :=
    reads_natural he
  have hkind : ∀ k ∈ e.kind, Reads (nullable (choice StatusKind.names) :
      Decoder α (Option StatusKind)) inside (.str k.name) (some k) := fun k _ =>
    (reads_choice (lookup_statusKind k)).nullable (by simp)
  refine record_reads henter ?_ ?_ ?_
  · simp only [List.forall_mem_append, List.forall_mem_cons, List.not_mem_nil, false_imp_iff,
      implies_true, and_true, forall_member?]
    refine ⟨⟨⟨(htext e.id).field rfl rfl, hstacks.field rfl rfl⟩, ?_⟩,
      fun k hk => (hkind k hk).field rfl rfl⟩
    have hname : FieldReads statusEntryFields inside ("name", .str e.name) :=
      (htext e.name).field rfl rfl
    split
    · simp
    · simpa using hname
  · have hkeys : (["id", "stacks"] ++ ["name"] ++ ["type"]).Nodup := by decide
    refine hkeys.sublist ?_
    rw [List.map_append, List.map_append]
    refine ((List.Sublist.refl _).append ?_).append (keys_member?_sublist _ _ _)
    split <;> simp
  · rw [need_written rfl (htext e.id), get_written rfl hstacks, get_text? (s := e.name),
      get_member? _ hkind]
    · rfl
    all_goals by_cases hempty : e.name.isEmpty = true
    all_goals simp only [hempty, if_true, if_false, Bool.false_eq_true]
    all_goals cases e.kind <;> rfl

omit [Scalar α] in
theorem readAbilityEntry_writeAbilityEntry (henter : src.enter = .ok inside) (e : AbilityEntry) :
    Reads (readAbilityEntry : Decoder α AbilityEntry) src (writeAbilityEntry e) e := by
  have htext (s : String) : Reads (text : Decoder α String) inside (.str s) s := reads_text s
  refine record_reads henter ?_ (by simp) ?_
  · simp only [List.forall_mem_cons, List.not_mem_nil, false_imp_iff, implies_true, and_true]
    exact ⟨(htext e.id).field rfl rfl, (htext e.trigger).field rfl rfl,
      (htext e.effect).field rfl rfl, (htext e.description).field rfl rfl⟩
  · rw [get_written rfl (htext e.id), get_written rfl (htext e.trigger),
      need_written rfl (htext e.effect), get_written rfl (htext e.description)]
    rfl

/-- The names of the stats. -/
def statsNames : List String :=
  ["name", "maxHp"] ++ ["currentHp"] ++
    ["maxLust", "currentLust", "block", "statusEffects", "abilities"] ++ ["lustOverflowEffect"]

theorem keys_writeStats_sublist (e : FighterEntry α) :
    ((writeStats e).map Prod.fst).Sublist statsNames := by
  simp only [writeStats, List.map_append]
  exact (((List.Sublist.refl _).append (keys_member?_sublist _ _ _)).append
    (List.Sublist.refl _)).append (keys_member?_sublist _ _ _)

/-- The stats of a fighter are read among the members that were kept. -/
theorem readStats_writeStats {e : FighterEntry α} (he : e.Writable) :
    readStats (writeStats e) = .ok e := by
  have hname : Reads (text : Decoder α String) .kept (.str e.name) e.name := reads_text e.name
  have hnumber {x : α} (hx : isFinite x = true) : Reads number .kept (.ofNumber x) x :=
    reads_number hx
  have hhp : ∀ x ∈ e.hp, Reads (nullable number) .kept (.ofNumber x) (some x) := fun x hx =>
    (reads_number (he.hp x hx)).nullable (by simp [ofNumber, he.hp x hx])
  have hoverflow : ∀ t ∈ e.overflow, Reads (nullable text : Decoder α (Option String)) .kept
      (.str t) (some t) := fun t _ => (reads_text t).nullable (by simp)
  have hstatuses : Reads (listOf readStatusEntry : Decoder α (List StatusEntry)) .kept
      (.arr (e.statuses.map writeStatusEntry)) e.statuses :=
    reads_listOf rfl fun s hs => readStatusEntry_writeStatusEntry rfl (he.statuses s hs)
  have habilities : Reads (listOf readAbilityEntry : Decoder α (List AbilityEntry)) .kept
      (.arr (e.abilities.map writeAbilityEntry)) e.abilities :=
    reads_listOf rfl fun a _ => readAbilityEntry_writeAbilityEntry rfl a
  refine within_reads ?_ ?_ ?_
  · simp only [writeStats, List.forall_mem_append, List.forall_mem_cons, List.not_mem_nil,
      false_imp_iff, implies_true, and_true, forall_member?]
    exact ⟨⟨⟨⟨hname.field rfl rfl, (hnumber he.maxHp).field rfl rfl⟩,
      fun x hx => (hhp x hx).field rfl rfl⟩, (hnumber he.maxLust).field rfl rfl,
      (hnumber he.lust).field rfl rfl, (hnumber he.block).field rfl rfl,
      hstatuses.field rfl rfl, habilities.field rfl rfl⟩,
      fun t ht => (hoverflow t ht).field rfl rfl⟩
  · exact List.Nodup.sublist (keys_writeStats_sublist e) (by decide)
  · obtain ⟨name, maxHp, hp, maxLust, lust, block, statuses, abilities, overflow⟩ := e
    rw [need_written (by rfl) hname, need_written (by rfl) (hnumber he.maxHp),
      get_member? (by cases hp <;> cases overflow <;> rfl) hhp,
      get_written (by cases hp <;> rfl) (hnumber he.maxLust),
      get_written (by cases hp <;> rfl) (hnumber he.lust),
      get_written (by cases hp <;> rfl) (hnumber he.block),
      get_written (by cases hp <;> rfl) hstatuses, get_written (by cases hp <;> rfl) habilities,
      get_member? (by cases hp <;> cases overflow <;> rfl) hoverflow]
    rfl

/-! ## Sides -/

theorem levels_ofNumber (x : α) : (ofNumber x).levels = 0 := by
  unfold ofNumber
  split <;> rfl

omit [Scalar α] in
theorem levels_writeStatusEntry (e : StatusEntry) : (writeStatusEntry e : Json α).levels ≤ 1 := by
  refine Nat.succ_le_succ (levelsMembers_le ?_)
  simp only [List.forall_mem_append, List.forall_mem_cons, List.not_mem_nil, false_imp_iff,
    implies_true, and_true, forall_member?]
  refine ⟨⟨⟨Nat.le_refl 0, Nat.le_refl 0⟩, ?_⟩, fun _ _ => Nat.le_refl 0⟩
  split <;> simp [levels]

theorem levels_writeStats (e : FighterEntry α) : ∀ m ∈ writeStats e, m.2.levels ≤ 2 := by
  have hnumber (x : α) : (ofNumber x).levels ≤ 2 := by
    rw [levels_ofNumber]
    decide
  simp only [writeStats, List.forall_mem_append, List.forall_mem_cons, List.not_mem_nil,
    false_imp_iff, implies_true, and_true, forall_member?]
  refine ⟨⟨⟨⟨Nat.zero_le 2, hnumber _⟩, fun x _ => hnumber x⟩, hnumber _, hnumber _, hnumber _,
    Nat.succ_le_succ (levelsItems_le ?_), Nat.succ_le_succ (levelsItems_le ?_)⟩,
    fun t _ => Nat.zero_le 2⟩
  · exact List.forall_mem_map.mpr fun s _ => levels_writeStatusEntry s
  · exact List.forall_mem_map.mpr fun a _ => Nat.le_refl 1

omit [Scalar α] in
/-- Members with the names of fields, and members with other names. -/
theorem filter_isField {fields : List (Field α)} {ms : List (String × Json α)}
    {names : List String} (hkeys : (ms.map Prod.fst).Sublist names) {b : Bool}
    (h : names.all (fun name => isField fields name == b) = true) :
    ms.filter (fun m => isField fields m.1 == b) = ms ∧
      ms.filter (fun m => isField fields m.1 == !b) = [] := by
  have hfield : ∀ m ∈ ms, isField fields m.1 = b := fun m hm =>
    eq_of_beq (List.all_eq_true.mp h _ (hkeys.subset (List.mem_map_of_mem hm)))
  exact ⟨List.filter_eq_self.mpr fun m hm => by rw [hfield m hm, beq_self_eq_true],
    List.filter_eq_nil_iff.mpr fun m hm => by rw [hfield m hm]; cases b <;> decide⟩

omit [Scalar α] in
/-- The stats of a side besides its other members. -/
theorem filter_members {fields : List (Field α)} {ms ms' : List (String × Json α)}
    {names names' : List String} (hkeys : (ms.map Prod.fst).Sublist names)
    (h : names.all (fun name => isField fields name == false) = true)
    (hkeys' : (ms'.map Prod.fst).Sublist names')
    (h' : names'.all (fun name => isField fields name == true) = true) :
    (ms ++ ms').filter (fun m => isField fields m.1) = ms' ∧
      (ms ++ ms').filter (fun m => !isField fields m.1) = ms := by
  obtain ⟨hself, hnil⟩ := filter_isField hkeys h
  obtain ⟨hself', hnil'⟩ := filter_isField hkeys' h'
  simp only [Bool.not_false, Bool.not_true, beq_true, beq_false] at hself hnil hself' hnil'
  rw [List.filter_append, List.filter_append, hself, hnil, hself', hnil', List.append_nil,
    List.nil_append]
  exact ⟨rfl, rfl⟩

/-- The members of a player that are no stats. -/
def playerMembers (s : Snapshot α) : List (String × Json α) :=
  [("maxEnergy", .ofNumber s.maxEnergy)] ++ member? "energy" .ofNumber s.energy ++
    [("relics", .arr (s.relics.map writeRelic)), ("hand", .arr (s.hand.map writeCard)),
     ("drawPile", .arr (s.draw.map writeCard)), ("discardPile", .arr (s.discard.map writeCard)),
     ("exhaustPile", .arr (s.exhaust.map writeCard))]

/-- The names of these members. -/
def playerNames : List String :=
  ["maxEnergy"] ++ ["energy"] ++ ["relics", "hand", "drawPile", "discardPile", "exhaustPile"]

theorem keys_playerMembers_sublist (s : Snapshot α) :
    ((playerMembers s).map Prod.fst).Sublist playerNames := by
  simp only [playerMembers, List.map_append]
  exact ((List.Sublist.refl _).append (keys_member?_sublist _ _ _)).append (List.Sublist.refl _)

/-- The player's part of a snapshot. -/
def playerPart (s : Snapshot α) : PlayerPart α :=
  ⟨s.player, s.maxEnergy, s.energy, s.relics, s.hand, s.draw, s.discard, s.exhaust⟩

theorem readPlayer_playerMembers {room : Nat} {s : Snapshot α} (hs : s.Bounded) :
    Reads readPlayer (.reading (room + 4)) (.obj (writeStats s.player ++ playerMembers s))
      (playerPart s) := by
  have hmaxEnergy : Reads number (.reading (room + 3)) (.ofNumber s.maxEnergy) s.maxEnergy :=
    reads_number hs.maxEnergy
  have henergy : ∀ x ∈ s.energy,
      Reads (nullable number) (.reading (room + 3)) (.ofNumber x) (some x) := fun x hx =>
    (reads_number (hs.energy x hx)).nullable (by simp [ofNumber, hs.energy x hx])
  have hrelics : Reads (listOf readRelic : Decoder α (List Relic)) (.reading (room + 3))
      (.arr (s.relics.map writeRelic)) s.relics :=
    reads_listOf rfl fun r _ => readRelic_writeRelic rfl r
  have hcards {cs : List (Card α)} (hcs : ∀ c ∈ cs, c.Writable) :
      Reads (listOf readCard) (.reading (room + 3)) (.arr (cs.map writeCard)) cs :=
    reads_listOf rfl fun c hc => readCard_writeCard rfl (hcs c hc)
  refine openRecord_reads rfl (filter_members (keys_writeStats_sublist s.player) rfl
    (keys_playerMembers_sublist s) rfl).1 (filter_members (keys_writeStats_sublist s.player) rfl
    (keys_playerMembers_sublist s) rfl).2 ?_ ?_ ?_ ?_
  · simp only [playerMembers, List.forall_mem_append, List.forall_mem_cons, List.not_mem_nil,
      false_imp_iff, implies_true, and_true, forall_member?]
    exact ⟨⟨hmaxEnergy.field rfl rfl, fun x hx => (henergy x hx).field rfl rfl⟩,
      hrelics.field rfl rfl, (hcards hs.hand).field rfl rfl, (hcards hs.draw).field rfl rfl,
      (hcards hs.discard).field rfl rfl, (hcards hs.exhaust).field rfl rfl⟩
  · intro m hm
    exact Nat.le_trans (levels_writeStats s.player m hm) (by show 2 ≤ room + 3; omega)
  · rw [List.map_append]
    exact List.Nodup.sublist
      ((keys_writeStats_sublist s.player).append (keys_playerMembers_sublist s)) (by decide)
  · rw [readStats_writeStats hs.player]
    obtain ⟨player, maxEnergy, energy, relics, hand, draw, discard, exhaust, enemy, actions,
      definitions, turn⟩ := s
    rw [get_written (by rfl) hmaxEnergy, get_member? (by cases energy <;> rfl) henergy,
      get_written (by cases energy <;> rfl) hrelics,
      get_written (by cases energy <;> rfl) (hcards hs.hand),
      get_written (by cases energy <;> rfl) (hcards hs.draw),
      get_written (by cases energy <;> rfl) (hcards hs.discard),
      get_written (by cases energy <;> rfl) (hcards hs.exhaust)]
    rfl

theorem readEnemy_enemyMembers {room : Nat} {e : FighterEntry α} (he : e.Writable)
    (actions : List String) :
    Reads readEnemy (.reading (room + 3)) (.obj (writeStats e ++ [("actions", .strs actions)]))
      (e, actions) := by
  have hactions : Reads (listOf text : Decoder α (List String)) (.reading (room + 2))
      (.strs actions) actions := reads_texts rfl actions
  let fields : List (Field α) := [.of ["actions"] (listOf text)]
  have hlisted : (([("actions", .strs actions)] : List (String × Json α)).map Prod.fst).Sublist
      ["actions"] := List.Sublist.refl _
  have hfields : ["actions"].all (fun name => isField fields name == true) = true := rfl
  have hfilter := filter_members (keys_writeStats_sublist e) rfl hlisted hfields
  refine openRecord_reads rfl hfilter.1 hfilter.2 ?_ ?_ ?_ ?_
  · have hfield : FieldReads [.of ["actions"] (listOf text : Decoder α (List String))]
        (.reading (room + 2)) ("actions", .strs actions) := hactions.field rfl rfl
    simpa using hfield
  · intro m hm
    exact Nat.le_trans (levels_writeStats e m hm) (by show 2 ≤ room + 2; omega)
  · rw [List.map_append]
    exact List.Nodup.sublist
      ((keys_writeStats_sublist e).append (List.Sublist.refl ["actions"])) (by decide)
  · rw [readStats_writeStats he, get_written (by rfl) hactions]
    rfl

/-! ## Snapshots -/

/-- A writable snapshot is read from its document, with its definitions
in canonical form. -/
theorem readSnapshot_writeSnapshot {s : Snapshot α} (hs : s.Writable) :
    Reads readSnapshot (.reading Doc.maxLevels) (writeSnapshot s)
      { s with definitions := s.definitions.canonical } := by
  have hplayer : Reads readPlayer (.reading 126) (.obj (writeStats s.player ++ playerMembers s))
      (playerPart s) := readPlayer_playerMembers hs.toBounded
  have henemy : Reads readEnemy (.reading 126)
      (.obj (writeStats s.enemy ++ [("actions", .strs s.actions)])) (s.enemy, s.actions) :=
    readEnemy_enemyMembers hs.enemy s.actions
  have hdefinitions : Reads any (.reading 126) s.definitions s.definitions.canonical :=
    reads_any (Nat.le_of_lt_succ hs.definitions)
  have hturn : Reads (count32 : Decoder α Nat) (.reading 126) (.nat s.turn) s.turn :=
    reads_natural hs.turn
  have hwrite : writeSnapshot s =
      .obj [("player", .obj (writeStats s.player ++ playerMembers s)),
        ("enemy", .obj (writeStats s.enemy ++ [("actions", .strs s.actions)])),
        ("statusDefinitions", s.definitions), ("turn", .nat s.turn)] := by
    simp only [writeSnapshot, playerMembers, List.append_assoc]
  rw [hwrite]
  refine record_reads rfl ?_ (by simp) ?_
  · simp only [List.forall_mem_cons, List.not_mem_nil, false_imp_iff, implies_true, and_true]
    exact ⟨hplayer.field rfl rfl, henemy.field rfl rfl, hdefinitions.field rfl rfl,
      hturn.field rfl rfl⟩
  · rw [need_written rfl hplayer, get_written rfl hdefinitions, get_written rfl hturn]
    show (do
      let x ← need _ "enemy" readEnemy
      _) = _
    rw [need_written rfl henemy]
    rfl

end Document
end DeckDuel
