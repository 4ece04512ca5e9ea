/-
DeckDuel.Proofs.CodexRoundTrip — written definitions are read again as
they were.

* `Decay.Kept` — a decay rule of which nothing is lost in writing: an
  amount has to be finite and a factor has to be a number.
* `Document.readDecay_writeDecay` — such a rule is read as it was
  written, a factor from its shortest decimal.
* `Document.codex_round_trip` — so a whole codex is read as it was, with
  its ids in their order.
* `Document.codex_settles` — what was read of any document stays as it
  is when it is written and read again.
-/
import DeckDuel.Proofs.ShortestDecimals
import DeckDuel.Proofs.SoundSnapshots

namespace DeckDuel

open Scalar Decode

/-- A decay rule that can be written in full. -/
def Decay.Kept {α : Type} [Scalar α] : Decay α → Prop
  | .none => True
  | .amount x => isFinite x = true
  | .factor f => IsNumber f

instance {α : Type} [Scalar α] : (d : Decay α) → Decidable d.Kept
  | .none => .isTrue trivial
  | .amount x => inferInstanceAs (Decidable (isFinite x = true))
  | .factor f => inferInstanceAs (Decidable (IsNumber f))

namespace Document

/-- A decay rule is read as it was written. -/
theorem readDecay_writeDecay {d : Decay Double} (hd : d.Kept) :
    Reads readDecay .held (writeDecay d).canonical d := by
  cases d with
  | none => rfl
  | amount x => exact readDecay_amount hd
  | factor f => exact readDecay_factor (Double.ofText_text ((Double.isNumber_iff f).mp hd))

/-- A definition is read as it was written. -/
theorem readsAs_self {d : StatusDefinition Double} (hd : d.Writable) (hdecay : d.decay.Kept) :
    ReadsAs d d :=
  ⟨readDefinition_of_decay hd (readDecay_writeDecay hdecay), rfl⟩

theorem readsAs_refl {c : Codex Double} (hwritable : ∀ d ∈ c.definitions, d.Writable)
    (hkept : ∀ d ∈ c.definitions, d.decay.Kept) :
    List.Forall₂ ReadsAs c.definitions c.definitions :=
  List.forall₂_same.mpr fun d hd => readsAs_self (hwritable d hd) (hkept d hd)

/-- **Definitions survive writing.** A codex with decay rules that can be
written in full is written and read as the same codex: every definition
is counted, the ids stand in their order, and each definition has its
texts, its kind, its decay, its cap, its triggers, its origin and its
time. -/
theorem codex_round_trip {c : Codex Double} (hids : c.ids.Nodup)
    (hwritable : ∀ d ∈ c.definitions, d.Writable) (hkept : ∀ d ∈ c.definitions, d.decay.Kept) :
    loadCodex .empty (writeCodex c) = (c.size, c) :=
  loadCodex_of_readsAs (readsAs_refl hwritable hkept) hids

end Document

/-- A poison that wears off one by one, a weakness that fades to a tenth,
and a stun that stays. -/
def Codex.withering : Codex Double :=
  ⟨[{ (.plain "poison" "Poison" .debuff : StatusDefinition Double) with
        decay := .amount (-1)
        triggers := { StatusTriggers.empty with
          tick := ["ME.hp-1"]
          events := [("card_played", ["ME.hp-1"]), ("turn_end", ["ME.block-1", "OP.hp+1"])] } },
    { (.plain "frail" "Frail" .debuff : StatusDefinition Double) with
        decay := .factor (.ofBits 0x3FB999999999999A)
        maxStacks := some 5 },
    { (.plain "stun" "Stun" .neutral : StatusDefinition Double) with
        triggers := { StatusTriggers.empty with hold := ["stun"] } }]⟩

theorem Document.codex_round_trip_withering :
    Codex.withering.ids.Nodup ∧ (∀ d ∈ Codex.withering.definitions, d.Writable) ∧
      (∀ d ∈ Codex.withering.definitions, d.decay.Kept) ∧
      loadCodex .empty (writeCodex .withering) = (3, .withering) := by
  have hids : Codex.withering.ids.Nodup := by decide
  have hwritable : ∀ d ∈ Codex.withering.definitions, d.Writable := by
    have hempty (t : StatusTriggers) (ht : t.events = []) : t.Ordered :=
      ⟨by rw [ht]; exact .nil, by simp [ht]⟩
    have hascending : Json.Ascending
        [("card_played", ["ME.hp-1"]), ("turn_end", ["ME.block-1", "OP.hp+1"])] :=
      List.pairwise_pair.mpr (by decide)
    simp only [Codex.withering, List.forall_mem_cons]
    refine ⟨⟨by simp [StatusDefinition.plain], by decide, hascending, by decide⟩,
      ⟨by simp, by decide, hempty _ rfl⟩,
      ⟨by simp [StatusDefinition.plain], by decide, hempty _ rfl⟩, by simp⟩
  have hkept : ∀ d ∈ Codex.withering.definitions, d.decay.Kept := by
    simp only [Codex.withering, List.forall_mem_cons]
    exact ⟨by decide, by decide, by decide, by simp⟩
  exact ⟨hids, hwritable, hkept, codex_round_trip hids hwritable hkept⟩

namespace Document

/-- What was read of any document stays as it is when it is written and
read again. -/
theorem codex_settles (v : Json Double) (c : Codex Double) (hread : (loadCodex .empty v).2 = c)
    (hkept : ∀ d ∈ c.definitions, d.decay.Kept) :
    loadCodex .empty (writeCodex c) = (c.size, c) := by
  obtain ⟨hids, hwritable⟩ := writable_loadCodex v
  rw [hread] at hids hwritable
  exact loadCodex_of_readsAs (readsAs_refl hwritable hkept) hids

end Document
end DeckDuel
