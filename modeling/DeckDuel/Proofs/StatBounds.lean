/-
DeckDuel.Proofs.StatBounds — stats stay within their bounds.

* `Fighter.InBounds`, `Battle.InBounds` — the bounds that a host relies
  on.
* `Fighter.Settled`, `Battle.Settled` — the same with maxima that are
  rounded, without which a value held below the maximum could be rounded
  beyond it. This is the invariant.
* `Fighter.settled_settle`, `Snapshot.settled_load` — settling, and so
  loading, establishes it.
* `Battle.Change.settled`, `Battle.Stored.settled` — what comes between
  texts keeps it, and what a unit makes of the battle as a whole:
  between the two halves of a new maximum it need not hold.
* `Session.stats_inBounds` — a loaded battle is in bounds after any
  calls.
-/
import DeckDuel.Proofs.Call
import DeckDuel.Proofs.Exact

namespace DeckDuel

open Scalar

variable {α : Type} [Scalar α]

/-! ## Bounds -/

/-- The stats of a fighter are within their bounds. -/
structure Fighter.InBounds (f : Fighter α) : Prop where
  hp_nonneg : 0 ≤ f.hp
  hp_le : f.hp ≤ f.maxHp
  lust_nonneg : 0 ≤ f.lust
  lust_le : f.lust ≤ f.maxLust
  block_nonneg : 0 ≤ f.block
  one_le_maxHp : 1 ≤ f.maxHp
  one_le_maxLust : 1 ≤ f.maxLust

/-- The stats of both sides, and the player's energy, are within their
bounds. -/
structure Battle.InBounds (b : Battle α) : Prop where
  fighters : ∀ side, (b.fighter side).InBounds
  energy_nonneg : 0 ≤ b.player.energy
  one_le_maxEnergy : 1 ≤ b.player.maxEnergy

/-- The stats of a fighter are within their bounds, and its maxima are
rounded. -/
structure Fighter.Settled (f : Fighter α) : Prop extends f.InBounds where
  rounded_maxHp : roundTenth f.maxHp = f.maxHp
  rounded_maxLust : roundTenth f.maxLust = f.maxLust

/-- Both fighters are settled, and the player's energy is within its
bounds. -/
structure Battle.Settled (b : Battle α) : Prop where
  fighters : ∀ side, (b.fighter side).Settled
  energy_nonneg : 0 ≤ b.player.energy
  one_le_maxEnergy : 1 ≤ b.player.maxEnergy

theorem Battle.Settled.inBounds {b : Battle α} (h : b.Settled) : b.InBounds :=
  ⟨fun side => (h.fighters side).toInBounds, h.energy_nonneg, h.one_le_maxEnergy⟩

namespace Fighter

/-- Being settled is about the stats only. -/
theorem Settled.congr {f g : Fighter α} (h : g.Settled) (hsame : f.SameNumbers g) :
    f.Settled := by
  obtain ⟨hhp, hmaxHp, hlust, hmaxLust, hblock⟩ := hsame
  refine ⟨⟨?_, ?_, ?_, ?_, ?_, ?_, ?_⟩, ?_, ?_⟩
  · rw [hhp]; exact h.hp_nonneg
  · rw [hhp, hmaxHp]; exact h.hp_le
  · rw [hlust]; exact h.lust_nonneg
  · rw [hlust, hmaxLust]; exact h.lust_le
  · rw [hblock]; exact h.block_nonneg
  · rw [hmaxHp]; exact h.one_le_maxHp
  · rw [hmaxLust]; exact h.one_le_maxLust
  · rw [hmaxHp]; exact h.rounded_maxHp
  · rw [hmaxLust]; exact h.rounded_maxLust

variable [Ordered α]

/-- Settling works whatever the stats were. -/
theorem settled_settle (f : Fighter α) : f.settle.Settled := by
  have hmaxHp := roundTenth_maximum f.maxHp
  have hmaxLust := roundTenth_maximum f.maxLust
  have honeHp := one_le_maximum f.maxHp
  have honeLust := one_le_maximum f.maxLust
  have hhp := roundTenth_clamp_bounds hmaxHp (Ordered.le_trans Ordered.zero_le_one honeHp) f.hp
  have hlust :=
    roundTenth_clamp_bounds hmaxLust (Ordered.le_trans Ordered.zero_le_one honeLust) f.lust
  have hblock := roundTenth_nonneg (le_atLeast 0 f.block)
  exact ⟨⟨hhp.1, hhp.2, hlust.1, hlust.2, hblock, honeHp, honeLust⟩, hmaxHp, hmaxLust⟩

/-- What a unit stores in a settled fighter leaves it settled. -/
theorem Stored.settled {f g : Fighter α} (h : f.Stored g) (hf : f.Settled) : g.Settled := by
  have hmaxLust := Ordered.le_trans Ordered.zero_le_one hf.one_le_maxLust
  cases h with
  | lust next =>
    have hlust := roundTenth_clamp_bounds hf.rounded_maxLust hmaxLust next
    exact { hf with lust_nonneg := hlust.1, lust_le := hlust.2 }
  | block next => exact { hf with block_nonneg := roundTenth_nonneg (le_atLeast 0 next) }
  | noLust => exact { hf with lust_nonneg := Ordered.le_refl 0, lust_le := hmaxLust }
  | maxHp next => exact settled_settle _
  | maxLust next => exact settled_settle _
  | modifier name x => exact hf.congr ⟨rfl, rfl, rfl, rfl, rfl⟩

end Fighter

/-! ## Changes between units -/

namespace Battle

variable {b c : Battle α}

theorem Settled.setFighter (h : b.Settled) (side : Side) {f : Fighter α} (hf : f.Settled) :
    (b.setFighter side f).Settled := by
  refine ⟨forall_setFighter b side hf h.fighters, ?_, ?_⟩
  · cases side <;> exact h.energy_nonneg
  · cases side <;> exact h.one_le_maxEnergy

/-- Only the fighters and the energy count. -/
theorem Settled.congr (h : b.Settled) (hfighters : ∀ side, c.fighter side = b.fighter side)
    (henergy : 0 ≤ c.player.energy) (hmaxEnergy : 1 ≤ c.player.maxEnergy) : c.Settled := by
  refine ⟨fun side => ?_, henergy, hmaxEnergy⟩
  rw [hfighters side]
  exact h.fighters side

theorem Settled.verdict (h : b.Settled) (fallen : Both Bool) (outcome : Option Outcome) :
    { b with fallen := fallen, outcome := outcome }.Settled :=
  h.congr (fun side => by cases side <;> rfl) h.energy_nonneg h.one_le_maxEnergy

theorem Settled.setEnergy (h : b.Settled) {x : α} (hx : 0 ≤ x) : (b.setEnergy x).Settled :=
  h.congr (fun side => by cases side <;> rfl) hx h.one_le_maxEnergy

variable [Ordered α]

/-- What comes between texts as well pays only what is there, and
changes no other stat but block, which goes. -/
theorem Change.settled {s : Setting α} (h : Change s false b c) (hb : b.Settled) : c.Settled := by
  cases h with
  | cards | aside =>
    exact hb.congr (fun side => by cases side <;> rfl) hb.energy_nonneg hb.one_le_maxEnergy
  | attachments _ side f numbers _ => exact hb.setFighter side ((hb.fighters side).congr numbers)
  | gain _ side => exact hb.setFighter side ((hb.fighters side).congr ⟨rfl, rfl, rfl, rfl, rfl⟩)
  | restack _ side id n =>
    exact hb.setFighter side ((hb.fighters side).congr (Fighter.sameNumbers_setStacks _ _ _))
  | dropBlock _ side =>
    exact hb.setFighter side { hb.fighters side with block_nonneg := Ordered.le_refl 0 }
  | pay _ cost afforded => exact hb.setEnergy (Ordered.sub_nonneg (le_of_not_lt afforded))
  | refill => exact hb.setEnergy (Ordered.le_trans Ordered.zero_le_one hb.one_le_maxEnergy)

theorem Settled.storeHp (h : b.Settled) (side : Side) (next : α) :
    (b.storeHp side (roundTenth (clamp 0 (b.fighter side).maxHp next))).Settled := by
  have hf := h.fighters side
  have hmaxHp := Ordered.le_trans Ordered.zero_le_one hf.one_le_maxHp
  have hhp := roundTenth_clamp_bounds hf.rounded_maxHp hmaxHp next
  have hset := h.setFighter side
    (f := { b.fighter side with hp := roundTenth (clamp 0 (b.fighter side).maxHp next) })
    { hf with hp_nonneg := hhp.1, hp_le := hhp.2 }
  unfold Battle.storeHp
  split
  · exact hset.verdict _ _
  · exact hset

/-- What a unit stores is brought into its bounds. -/
theorem Stored.settled (h : b.Stored c) (hb : b.Settled) : c.Settled := by
  cases h with
  | hp side next _ => exact hb.storeHp side next
  | fighter side h => exact hb.setFighter side (h.settled (hb.fighters side))
  | energy next => exact hb.setEnergy (roundTenth_nonneg (le_atLeast 0 next))
  | maxEnergy next =>
    exact hb.congr (fun side => by cases side <;> rfl) hb.energy_nonneg (one_le_maximum next)

theorem preserves_settled (s : Setting α) : Preserves s Settled where
  change := Change.settled
  stored := Stored.settled
  verdict fallen outcome h := h.verdict fallen outcome

end Battle

/-! ## Sessions -/

variable [Ordered α]

/-- Loading brings every stat into its bounds. -/
theorem Snapshot.settled_load (snap : Snapshot α) (rules : Rules) : (snap.load rules).Settled := by
  refine ⟨fun side => ?_, le_atLeast 0 _, le_atLeast 1 _⟩
  cases side with
  | player => exact Fighter.settled_settle _
  | enemy => exact Fighter.settled_settle _

/-- **Stats stay within their bounds.** A stored battle is loaded and a
host calls for anything, in any order: after all calls, hit points and
lust of both sides are between zero and their maxima, the maxima are at
least one, block is not negative, and neither is the player's energy,
whose amount for a full turn is at least one. -/
theorem Session.stats_inBounds (snap : Snapshot α) (rules : Rules) (chooser : Chooser α)
    (catalog : Catalog) (calls : List (Call α)) :
    ((Session.loadWith snap rules chooser catalog).afterAll calls).live.battle.InBounds := by
  have hstart := snap.settled_load rules
  exact ((steps_afterAll _ calls).preserves (Battle.preserves_settled _) hstart).inBounds

theorem Session.stats_inBounds_exact :
    ((loadWith (.duel : Snapshot Exact) .standard .leftmost .standard).afterAll
      [.start, .runEffect "OP.hp-5" .player, .endPlayerTurn]).live.battle.InBounds :=
  stats_inBounds .duel .standard .leftmost .standard _

end DeckDuel
