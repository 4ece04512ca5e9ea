/-
DeckDuel.Proofs.CheckpointRoundTrip — a battle is read back from its
bytes.

* `Battle.Storable` — the battles that a checkpoint has room for: counts
  of four bytes, lengths of eight, one value for each stored modifier,
  and a position that a random stream comes to.
* `Checkpoint.lawful_battle` — the format reads them back, by the laws of
  the formats that it is made from.
* `Battle.checkpoint_restores` — a checkpoint restores the battle that it
  is of, also with more bytes behind it; cut short anywhere, it restores
  nothing.
-/
import DeckDuel.Checkpoint
import DeckDuel.Proofs.CodecLaws
import DeckDuel.Scalar.Double
import Mathlib.Logic.Function.Iterate

namespace DeckDuel

open Codec

variable {α : Type}

/-! ## What a checkpoint has room for -/

/-- The length of a text can be told in eight bytes. -/
def TextFits (s : String) : Prop := s.utf8ByteSize < 2 ^ 64

/-- The length of a list can be told in eight bytes, and each entry has
a property. -/
def ListFits {β : Type} (P : β → Prop) (xs : List β) : Prop := xs.length < 2 ^ 64 ∧ ∀ x ∈ xs, P x

instance : DecidablePred TextFits := fun _ => Nat.decLt _ _

instance {β : Type} (P : β → Prop) [DecidablePred P] : DecidablePred (ListFits P) := fun _ =>
  instDecidableAnd

@[mk_iff]
structure Relic.Storable (r : Relic) : Prop where
  id : TextFits r.id
  name : TextFits r.name
  effect : TextFits r.effect
  description : TextFits r.description

@[mk_iff]
structure Card.Storable (c : Card α) : Prop where
  uid : c.uid < 2 ^ 32
  id : TextFits c.id
  name : TextFits c.name
  effect : TextFits c.effect
  description : TextFits c.description

@[mk_iff]
structure Piles.Storable (ps : Piles α) : Prop where
  hand : ListFits Card.Storable ps.hand
  draw : ListFits Card.Storable ps.draw
  discard : ListFits Card.Storable ps.discard
  exhaust : ListFits Card.Storable ps.exhaust
  lastUid : ps.lastUid < 2 ^ 32

@[mk_iff]
structure HeldStatus.Storable (s : HeldStatus) : Prop where
  id : TextFits s.id
  name : TextFits s.name
  stackCount : s.stackCount < 2 ^ 32
  emoji : TextFits s.emoji
  description : TextFits s.description

@[mk_iff]
structure Ability.Storable (a : Ability) : Prop where
  id : TextFits a.id
  trigger : TextFits a.trigger
  effect : TextFits a.effect
  description : TextFits a.description

@[mk_iff]
structure Fighter.Storable (f : Fighter α) : Prop where
  name : TextFits f.name
  statuses : ListFits HeldStatus.Storable f.statuses
  abilities : ListFits Ability.Storable f.abilities
  modifiers : ListFits (fun m => TextFits m.1) f.modifiers
  /-- A stored modifier has one value. -/
  modifierNames : (f.modifiers.map Prod.fst).Nodup
  overflow : ∀ s ∈ f.overflow, TextFits s

@[mk_iff]
structure Player.Storable (p : Player α) : Prop where
  fighter : p.fighter.Storable
  relics : ListFits Relic.Storable p.relics
  piles : p.piles.Storable

@[mk_iff]
structure Enemy.Storable (e : Enemy α) : Prop where
  fighter : e.fighter.Storable
  actions : ListFits TextFits e.actions
  nextAction : e.nextAction < 2 ^ 64

/-- A stream that drawing words from its seed on comes to. -/
def Random.Stream.Reachable (s : Random.Stream) : Prop :=
  ∃ n : Nat, (fun s : Random.Stream => s.word.2)^[n] (.ofSeed s.seed) = s

@[mk_iff]
structure Battle.Storable (b : Battle α) : Prop where
  player : b.player.Storable
  enemy : b.enemy.Storable
  turn : b.turn < 2 ^ 32
  stream : b.stream.Reachable

/-! ## Positions of a stream -/

namespace Random.Stream

theorem drawn_ofSeed (seed : UInt64) (n : Nat) :
    (fun s : Stream => s.word.2)^[n] (.ofSeed seed) = ⟨seed, n % period⟩ := by
  induction n with
  | zero => rfl
  | succ n ih => rw [Function.iterate_succ_apply', ih, word, Nat.mod_add_mod]

/-- The positions that are come to are those before the stream starts
over. -/
theorem reachable_iff {s : Stream} : s.Reachable ↔ s.position < period := by
  have hperiod : 0 < period := by decide
  constructor
  · rintro ⟨n, hn⟩
    rw [← hn, drawn_ofSeed]
    exact Nat.mod_lt n hperiod
  · intro hs
    exact ⟨s.position, by rw [drawn_ofSeed, Nat.mod_eq_of_lt hs]⟩

end Random.Stream

/-! ## The room can be tested -/

instance : DecidablePred Relic.Storable := fun r => decidable_of_iff _ (r.storable_iff).symm

instance : DecidablePred (Card.Storable (α := α)) := fun c =>
  decidable_of_iff _ (c.storable_iff).symm

instance : DecidablePred (Piles.Storable (α := α)) := fun ps =>
  decidable_of_iff _ (ps.storable_iff).symm

instance : DecidablePred HeldStatus.Storable := fun s => decidable_of_iff _ (s.storable_iff).symm

instance : DecidablePred Ability.Storable := fun a => decidable_of_iff _ (a.storable_iff).symm

instance : DecidablePred (Fighter.Storable (α := α)) := fun f =>
  decidable_of_iff _ (f.storable_iff).symm

instance : DecidablePred (Player.Storable (α := α)) := fun p =>
  decidable_of_iff _ (p.storable_iff).symm

instance : DecidablePred (Enemy.Storable (α := α)) := fun e =>
  decidable_of_iff _ (e.storable_iff).symm

instance : DecidablePred Random.Stream.Reachable := fun _ =>
  decidable_of_iff _ Random.Stream.reachable_iff.symm

instance : DecidablePred (Battle.Storable (α := α)) := fun b =>
  decidable_of_iff _ (b.storable_iff).symm

/-! ## Modifiers -/

theorem Fighter.store_new {name : String} (x : α) {ms : List (String × α)}
    (hname : name ∉ ms.map Prod.fst) : store name x ms = ms ++ [(name, x)] := by
  induction ms with
  | nil => rfl
  | cons m ms ih =>
    simp only [List.map_cons, List.mem_cons, not_or] at hname
    rw [store, if_neg (Ne.symm hname.1), ih hname.2, List.cons_append]

/-- Stored one after another, modifiers with names of their own come to
stand in their order. -/
theorem Fighter.foldl_store {ms stored : List (String × α)}
    (hnames : ((stored ++ ms).map Prod.fst).Nodup) :
    ms.foldl (fun stored m => store m.1 m.2 stored) stored = stored ++ ms := by
  induction ms generalizing stored with
  | nil => simp
  | cons m ms ih =>
    have hnew : m.1 ∉ stored.map Prod.fst := by
      simp only [List.map_append, List.map_cons, List.nodup_append] at hnames
      exact fun hmem => hnames.2.2 m.1 hmem m.1 (by simp) rfl
    have hnext : ((stored ++ [m] ++ ms).map Prod.fst).Nodup := by
      rwa [List.append_assoc, List.singleton_append]
    rw [List.foldl_cons, store_new m.2 hnew, ih hnext, List.append_assoc, List.singleton_append]

/-! ## The formats of a battle -/

namespace Checkpoint

theorem lawful_count : count.Lawful (· < 2 ^ 32) := lawful_natural 4

theorem lawful_relic : relic.Lawful Relic.Storable :=
  (lawful_text.pair (lawful_text.pair (lawful_text.pair lawful_text))).convert (fun _ _ => rfl)
    fun _ hr => ⟨hr.id, hr.name, hr.effect, hr.description⟩

theorem lawful_ability : ability.Lawful Ability.Storable :=
  (lawful_text.pair (lawful_text.pair (lawful_text.pair lawful_text))).convert (fun _ _ => rfl)
    fun _ ha => ⟨ha.id, ha.trigger, ha.effect, ha.description⟩

/-- Every kind of status has a place. -/
theorem lawful_statusKind : (oneOf (StatusKind.names.map Prod.snd)).Lawful fun _ => True :=
  (lawful_oneOf (by decide)).mono fun kind _ => by cases kind <;> decide

/-- Every kind of card has a place. -/
theorem lawful_cardKind : (oneOf (CardKind.names.map Prod.snd)).Lawful fun _ => True :=
  (lawful_oneOf (by decide)).mono fun kind _ => by cases kind <;> decide

theorem lawful_status : status.Lawful HeldStatus.Storable :=
  (lawful_text.pair (lawful_text.pair (lawful_statusKind.pair (lawful_count.pair
    (lawful_text.pair lawful_text))))).convert (fun _ _ => rfl)
    fun _ hs => ⟨hs.id, hs.name, trivial, hs.stackCount, hs.emoji, hs.description⟩

theorem lawful_outcome : outcome.Lawful fun _ => True :=
  (lawful_oneOf (by decide)).mono fun o _ => by cases o <;> decide

theorem lawful_marks : marks.Lawful fun _ => True :=
  (lawful_flag.pair lawful_flag).convert (fun _ _ => rfl) fun _ _ => ⟨trivial, trivial⟩

/-- A position that is come to fits sixteen bytes, and is taken as it
is. -/
theorem lawful_stream : stream.Lawful Random.Stream.Reachable := by
  have hposition : ∀ s : Random.Stream, s.Reachable → s.position < Random.period :=
    fun _ => Random.Stream.reachable_iff.mp
  have hwidth : Random.period < 256 ^ 16 := by decide
  refine (lawful_word.pair (lawful_natural 16)).convert ?_ ?_
  · intro s hs
    exact congrArg (Random.Stream.mk s.seed) (Nat.mod_eq_of_lt (hposition s hs))
  · intro s hs
    exact ⟨trivial, (hposition s hs).trans hwidth⟩

variable [WordPattern α] [LawfulPattern α]

theorem lawful_card : (card (α := α)).Lawful Card.Storable :=
  (lawful_count.pair (lawful_text.pair (lawful_text.pair (lawful_number.pair (lawful_text.pair
    (lawful_cardKind.pair (lawful_flag.pair lawful_text))))))).convert (fun _ _ => rfl)
    fun _ hc => ⟨hc.uid, hc.id, hc.name, trivial, hc.effect, trivial, trivial, hc.description⟩

theorem lawful_piles : (piles (α := α)).Lawful Piles.Storable :=
  (lawful_card.listOf.pair (lawful_card.listOf.pair (lawful_card.listOf.pair
    (lawful_card.listOf.pair lawful_count)))).convert (fun _ _ => rfl)
    fun _ hps => ⟨hps.hand, hps.draw, hps.discard, hps.exhaust, hps.lastUid⟩

/-- Modifiers with names of their own are stored again as they were. -/
theorem lawful_modifiers : (modifiers (α := α)).Lawful fun ms =>
    ListFits (fun m => TextFits m.1) ms ∧ (ms.map Prod.fst).Nodup := by
  refine (lawful_text.pair lawful_number).listOf.convert ?_ ?_
  · intro ms hms
    have hnames : (([] ++ ms).map Prod.fst).Nodup := hms.2
    exact Fighter.foldl_store hnames
  · intro ms hms
    exact ⟨hms.1.1, fun m hm => ⟨hms.1.2 m hm, trivial⟩⟩

theorem lawful_fighter : (fighter (α := α)).Lawful Fighter.Storable :=
  (lawful_text.pair (lawful_number.pair (lawful_number.pair (lawful_number.pair
    (lawful_number.pair (lawful_number.pair (lawful_status.listOf.pair
      (lawful_ability.listOf.pair (lawful_modifiers.pair
        lawful_text.optional))))))))).convert (fun _ _ => rfl)
    fun _ hf => ⟨hf.name, trivial, trivial, trivial, trivial, trivial, hf.statuses, hf.abilities,
      ⟨hf.modifiers, hf.modifierNames⟩, hf.overflow⟩

theorem lawful_player : (player (α := α)).Lawful Player.Storable :=
  (lawful_fighter.pair (lawful_number.pair (lawful_number.pair (lawful_relic.listOf.pair
    lawful_piles)))).convert (fun _ _ => rfl)
    fun _ hp => ⟨hp.fighter, trivial, trivial, hp.relics, hp.piles⟩

theorem lawful_enemy : (enemy (α := α)).Lawful Enemy.Storable :=
  (lawful_fighter.pair (lawful_text.listOf.pair (lawful_natural 8))).convert (fun _ _ => rfl)
    fun _ he => ⟨he.fighter, he.actions, he.nextAction⟩

/-- What a checkpoint has room for is read back. -/
theorem lawful_battle : (battle (α := α)).Lawful Battle.Storable :=
  (lawful_player.pair (lawful_enemy.pair (lawful_count.pair (lawful_outcome.optional.pair
    (lawful_marks.pair lawful_stream))))).convert (fun _ _ => rfl)
    fun _ hb => ⟨hb.player, hb.enemy, hb.turn, fun _ _ => trivial, trivial, hb.stream⟩

end Checkpoint

/-! ## Whole checkpoints -/

namespace Battle

variable [WordPattern α] [LawfulPattern α]

/-- **A checkpoint is read back, and tells where it ends.** It restores
the battle that it is of, field by field, whatever bytes follow it; and
what is left of it when it is cut short, at whatever place, restores no
battle. -/
theorem checkpoint_restores {b : Battle α} (hb : b.Storable) :
    (∀ more, restore? (b.checkpoint ++ more) = some b) ∧
      ∀ front, front <+: b.checkpoint → front ≠ b.checkpoint →
        restore? (α := α) front = none := by
  constructor
  · intro more
    have hread : Checkpoint.battle.read (b.checkpoint ++ more) = some (b, more) :=
      Checkpoint.lawful_battle.read_write hb more
    simp [restore?, hread]
  · intro front hfront hcut
    have hread : (Checkpoint.battle (α := α)).read front = none :=
      Checkpoint.lawful_battle.read_cut hb hfront hcut
    simp [restore?, hread]

end Battle

instance : LawfulPattern Double := ⟨Double.ofWord_toWord⟩

/-- A battle in its second turn, with something in every list. One
stored number is not a number, and the stream is one word before its
end. -/
def Battle.inFull : Battle Double where
  player :=
    { fighter :=
        { name := "Héros", hp := ⟨0x7FF8000000000001⟩, maxHp := 1, lust := 0, maxLust := 1, block := 0
          statuses := [⟨"burn", "Burn", .debuff, 2 ^ 32 - 1, "🔥", ""⟩]
          abilities := [⟨"ability_1", "turn_start", "turn_start(ME.block+1)", ""⟩]
          modifiers := [("damage_add", 1), ("damage_mul", 0)]
          overflow := some "OP.hp-5" }
      energy := 1
      maxEnergy := 1
      relics := [⟨"idol", "Idol", "turn_end(ME.hp+1)", ""⟩]
      piles :=
        { hand := [⟨2, "strike", "Strike", 1, "OP.hp-6", .attack, false, ""⟩]
          draw := []
          discard := [⟨1, "curse", "Curse", 0, "", .curse, true, ""⟩]
          exhaust := []
          lastUid := 2 } }
  enemy :=
    { fighter :=
        { name := "Slime", hp := 0, maxHp := 1, lust := 0, maxLust := 1, block := 0
          statuses := [], abilities := [], modifiers := [], overflow := none }
      actions := ["OP.hp-5", "ME.block+3"]
      nextAction := 1 }
  turn := 2
  outcome := some .victory
  fallen := ⟨false, true⟩
  stream := ⟨7, Random.period - 1⟩

/-- A battle in full is restored with other bytes behind it, and from no
part of its checkpoint. -/
theorem Battle.checkpoint_restores_inFull :
    restore? (inFull.checkpoint ++ [1, 2]) = some inFull ∧
      ∀ n < inFull.checkpoint.length, restore? (α := Double) (inFull.checkpoint.take n) = none := by
  obtain ⟨hwhole, hparts⟩ := checkpoint_restores (b := inFull) (by decide)
  refine ⟨hwhole [1, 2], fun n hn => hparts _ (List.take_prefix n _) ?_⟩
  intro htake
  have hlength := congrArg List.length htake
  rw [List.length_take] at hlength
  omega

end DeckDuel
