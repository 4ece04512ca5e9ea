/-
DeckDuel.Proofs.CardUids — when cards that come without a uid get one of
their own.

* `Piles.Op` — what may be done with piles from outside: putting cards in
  or taking them out, numbering them, moving, drawing, reshuffling and
  discarding. `Piles.performAll` — one thing after another.
* `Piles.Op.Fair` — a card that is put in has no uid, or one that no card
  there has.
* `Piles.Op.FindsUnused` — the number after the last one given out, which
  a card without uid gets, is not in use.
* `Piles.perform_cases` — everything but an addition keeps the uids or
  loses one, and gives no number back.
* `Piles.Caught` — no card has a uid beyond the last one given out.
  Numbering brings that about, and only a card with a uid of its own can
  undo it, since adding one does not tell the counter.
* `Piles.uids_unique_iff` — every uid is positive, and the uids stay
  unique exactly if every number that is given out is unused. After
  numbering that is so until a card overtakes the counter.
  `Piles.uid_given_twice` — one that does is given a twin.

Uids are unbounded here, so the counter does not run out.
-/
import DeckDuel.Proofs.Places
import DeckDuel.Proofs.Resumed

namespace DeckDuel.Piles

variable {α : Type}

/-! ## Operations -/

/-- What may be done with piles from outside. -/
inductive Op (α : Type) where
  | add (p : Pile) (c : Card α)
  | assignUids
  | move (uid : Nat) (goal : Pile)
  | take (uid : Nat)
  | draw (limit : Nat) (s : Random.Stream)
  | reshuffle (s : Random.Stream)
  | discardHand

/-- The piles after an operation. -/
def perform (ps : Piles α) : Op α → Piles α
  | .add p c => (ps.add p c).2
  | .assignUids => ps.assignUids
  | .move uid goal => ps.move uid goal
  | .take uid => ((ps.take? uid).map Prod.snd).getD ps
  | .draw limit s => (ps.drawOne limit s).2.1
  | .reshuffle s => (ps.reshuffle s).1
  | .discardHand => ps.discardHand

/-- The piles after operations, one after another. -/
def performAll (ps : Piles α) (ops : List (Op α)) : Piles α := ops.foldl perform ps

/-- Every operation meets a condition where it comes. -/
def Along (P : Piles α → Op α → Prop) : Piles α → List (Op α) → Prop
  | _, [] => True
  | ps, op :: ops => P ps op ∧ Along P (ps.perform op) ops

namespace Op

/-- A card that is put in has no uid, or one that no card there has. -/
def Fair (ps : Piles α) : Op α → Prop
  | .add _ c => c.uid = 0 ∨ c.uid ∉ ps.allUids
  | _ => True

/-- What a card without uid is given is not in use. -/
def FindsUnused (ps : Piles α) : Op α → Prop
  | .add p c => c.uid = 0 → (ps.add p c).1 ∉ ps.allUids
  | _ => True

/-- A card that is put in has no uid beyond the last one given out. -/
def InStep (ps : Piles α) : Op α → Prop
  | .add _ c => c.uid ≤ ps.lastUid
  | _ => True

theorem findsUnused_of_ne {ps : Piles α} {op : Op α} (h : ∀ p c, op ≠ .add p c) :
    op.FindsUnused ps := by
  cases op with
  | add p c => exact absurd rfl (h p c)
  | assignUids | move | take | draw | reshuffle | discardHand => trivial

end Op

theorem Along.imp {P Q : Piles α → Op α → Prop} {I : Piles α → Prop}
    (hstep : ∀ ps op, I ps → P ps op → Q ps op ∧ I (ps.perform op)) {ps : Piles α}
    {ops : List (Op α)} (hps : I ps) (h : Along P ps ops) : Along Q ps ops := by
  induction ops generalizing ps with
  | nil => trivial
  | cons op ops ih =>
    obtain ⟨hQ, hnext⟩ := hstep ps op hps h.1
    exact ⟨hQ, ih hnext h.2⟩

/-! ## Adding and taking -/

/-- The deck tells how often each uid is there. -/
theorem coe_allUids (ps : Piles α) : (ps.allUids : Multiset Nat) = ps.deck.map Card.uid := by
  rw [deck, faces, Multiset.map_coe, List.map_map]
  rfl

theorem allUids_push (ps : Piles α) (p : Pile) (c : Card α) :
    (ps.push p c).allUids.Perm (c.uid :: ps.allUids) := by
  rw [← Multiset.coe_eq_coe, coe_allUids, deck_push, Multiset.map_add, ← coe_allUids, add_comm]
  rfl

/-- A card that is put in brings its uid, or gets the next number. -/
theorem add_cases (ps : Piles α) (p : Pile) (c : Card α) :
    (c.uid = 0 ∧ (ps.add p c).1 = ps.lastUid + 1 ∧ (ps.add p c).2.lastUid = ps.lastUid + 1) ∨
      (c.uid ≠ 0 ∧ (ps.add p c).1 = c.uid ∧ (ps.add p c).2.lastUid = ps.lastUid) := by
  unfold add
  split
  · next hc => exact .inl ⟨hc, rfl, lastUid_set _ _ _⟩
  · next hc => exact .inr ⟨hc, rfl, lastUid_set _ _ _⟩

theorem allUids_add (ps : Piles α) (p : Pile) (c : Card α) :
    (ps.add p c).2.allUids.Perm ((ps.add p c).1 :: ps.allUids) := by
  unfold add
  split <;> exact allUids_push _ _ _

theorem allUids_take {ps qs : Piles α} {uid : Nat} {c : Card α}
    (h : ps.take? uid = some (c, qs)) : qs.allUids.Subperm ps.allUids := by
  simp only [take?, Option.bind_eq_some_iff, Option.map_eq_some_iff] at h
  obtain ⟨⟨p, i⟩, -, d, hd, heq⟩ := h
  cases heq
  rw [← Multiset.coe_le, coe_allUids, coe_allUids, ← deck_take hd, Multiset.map_add]
  exact Multiset.le_add_right _ _

theorem lastUid_take {ps qs : Piles α} {uid : Nat} {c : Card α}
    (h : ps.take? uid = some (c, qs)) : qs.lastUid = ps.lastUid := by
  simp only [take?, Option.bind_eq_some_iff, Option.map_eq_some_iff] at h
  obtain ⟨⟨p, i⟩, -, d, hd, heq⟩ := h
  cases heq
  exact lastUid_set _ _ _

/-! ## One operation -/

/-- The cards have uids. -/
def AllNamed (ps : Piles α) : Prop := ∀ uid ∈ ps.allUids, uid ≠ 0

theorem AllNamed.assignUids {ps : Piles α} (h : ps.AllNamed) :
    ps.assignUids = { ps with lastUid := max ps.lastUid ps.highestUid } :=
  assignUids_of_pos fun p c hc =>
    Nat.pos_of_ne_zero (h c.uid (List.mem_map.mpr ⟨c, mem_cards.mpr ⟨p, hc⟩, rfl⟩))

/-- Where all cards have uids, everything but an addition keeps the uids
or loses one, and gives no number back. -/
theorem perform_cases {ps : Piles α} (h : ps.AllNamed) (op : Op α) :
    (∃ p c, op = .add p c) ∨
      ((∀ p c, op ≠ .add p c) ∧ (ps.perform op).allUids.Subperm ps.allUids ∧
        ps.lastUid ≤ (ps.perform op).lastUid) := by
  have hkept {qs : Piles α} (hdeck : qs.deck = ps.deck) (hlast : qs.lastUid = ps.lastUid) :
      qs.allUids.Subperm ps.allUids ∧ ps.lastUid ≤ qs.lastUid :=
    ⟨(allUids_perm_of_deck hdeck).subperm, hlast.ge⟩
  have hstep {limit : Nat} {qs : Piles α} (hqs : Step limit ps qs) :=
    hkept hqs.deck_eq hqs.lastUid_eq
  cases op with
  | add p c => exact .inl ⟨p, c, rfl⟩
  | assignUids =>
    simp only [perform, h.assignUids]
    exact .inr ⟨nofun, .refl _, Nat.le_max_left _ _⟩
  | move uid goal =>
    exact .inr ⟨nofun, hstep (.move ps uid goal fun _ => Nat.lt_succ_self ps.hand.length)⟩
  | take uid =>
    rcases htake : ps.take? uid with _ | ⟨c, qs⟩
    · simp only [perform, htake]
      exact .inr ⟨nofun, .refl _, Nat.le_refl _⟩
    · simp only [perform, htake]
      exact .inr ⟨nofun, allUids_take htake, (lastUid_take htake).ge⟩
  | draw limit s => exact .inr ⟨nofun, hstep (.draw ps s)⟩
  | reshuffle s => exact .inr ⟨nofun, hkept (deck_reshuffle ps s) rfl⟩
  | discardHand => exact .inr ⟨nofun, @hstep 0 _ (.discardHand ps)⟩

theorem AllNamed.perform {ps : Piles α} (h : ps.AllNamed) (op : Op α) :
    (ps.perform op).AllNamed := by
  obtain ⟨p, c, rfl⟩ | ⟨-, hsub, -⟩ := perform_cases h op
  · have hnew : (ps.add p c).1 ≠ 0 := by
      obtain ⟨-, hnew, -⟩ | ⟨hc, hnew, -⟩ := add_cases ps p c
      · exact hnew ▸ Nat.succ_ne_zero _
      · exact hnew ▸ hc
    intro uid huid
    obtain rfl | hold := List.mem_cons.mp ((allUids_add ps p c).mem_iff.mp huid)
    · exact hnew
    · exact h uid hold
  · exact fun uid huid => h uid (hsub.subset huid)

/-- Unique uids stay unique exactly if a number that is given out is
unused. -/
theorem Distinct.perform_iff {ps : Piles α} (h : ps.Distinct) (hnamed : ps.AllNamed) {op : Op α}
    (hfair : op.Fair ps) : (ps.perform op).Distinct ↔ op.FindsUnused ps := by
  obtain ⟨p, c, rfl⟩ | ⟨hother, hsub, -⟩ := perform_cases hnamed op
  · have hadd : (ps.add p c).2.Distinct ↔ (ps.add p c).1 ∉ ps.allUids :=
      (allUids_add ps p c).nodup_iff.trans (List.nodup_cons.trans (and_iff_left h))
    refine hadd.trans ⟨fun hunused _ => hunused, fun hunused => ?_⟩
    obtain ⟨hc, -, -⟩ | ⟨hc, hnew, -⟩ := add_cases ps p c
    · exact hunused hc
    · exact hnew ▸ hfair.resolve_left hc
  · have hkept : (ps.perform op).Distinct :=
      Multiset.coe_nodup.mp (Multiset.nodup_of_le (Multiset.coe_le.mpr hsub) h)
    exact iff_of_true hkept (Op.findsUnused_of_ne hother)

/-! ## Keeping up with the cards -/

/-- No card has a uid beyond the last one given out. -/
def Caught (ps : Piles α) : Prop := ∀ uid ∈ ps.allUids, uid ≤ ps.lastUid

theorem caught_assignUids (ps : Piles α) : ps.assignUids.Caught := by
  intro uid huid
  obtain ⟨c, hc, rfl⟩ := List.mem_map.mp huid
  have hhigh : ∀ c ∈ ps.cards, c.uid ≤ max ps.lastUid ps.highestUid := fun c hc =>
    Nat.le_trans (uid_le_highestFrom 0 ps.cards c hc) (Nat.le_max_right _ _)
  have hlast := highestFrom_numberFrom hhigh
  rw [cards_assignUids] at hlast
  exact Nat.le_trans (uid_le_highestFrom _ _ c hc) hlast.le

theorem Caught.findsUnused {ps : Piles α} (h : ps.Caught) (op : Op α) : op.FindsUnused ps := by
  cases op with
  | add p c =>
    intro hc hused
    obtain ⟨-, hnew, -⟩ | ⟨hne, -, -⟩ := add_cases ps p c
    · rw [hnew] at hused
      exact Nat.not_succ_le_self _ (h _ hused)
    · exact hne hc
  | assignUids | move | take | draw | reshuffle | discardHand => trivial

theorem Caught.perform {ps : Piles α} (h : ps.Caught) (hnamed : ps.AllNamed) {op : Op α}
    (hop : op.InStep ps) : (ps.perform op).Caught := by
  obtain ⟨p, c, rfl⟩ | ⟨-, hsub, hlast⟩ := perform_cases hnamed op
  · have hnew : (ps.add p c).1 ≤ (ps.add p c).2.lastUid ∧
        ps.lastUid ≤ (ps.add p c).2.lastUid := by
      have hle : c.uid ≤ ps.lastUid := hop
      obtain ⟨-, hnew, hlast⟩ | ⟨-, hnew, hlast⟩ := add_cases ps p c
      · omega
      · omega
    intro uid huid
    obtain rfl | hold := List.mem_cons.mp ((allUids_add ps p c).mem_iff.mp huid)
    · exact hnew.1
    · exact Nat.le_trans (h uid hold) hnew.2
  · exact fun uid huid => Nat.le_trans (h uid (hsub.subset huid)) hlast

/-! ## All operations -/

theorem AllNamed.performAll {ps : Piles α} (h : ps.AllNamed) (ops : List (Op α)) :
    (ps.performAll ops).AllNamed := by
  induction ops generalizing ps with
  | nil => exact h
  | cons op ops ih => exact ih (h.perform op)

theorem Distinct.performAll_iff {ps : Piles α} (h : ps.Distinct) (hnamed : ps.AllNamed)
    {ops : List (Op α)} (hfair : Along Op.Fair ps ops) :
    (∀ before, before <+: ops → (ps.performAll before).Distinct) ↔
      Along Op.FindsUnused ps ops := by
  induction ops generalizing ps with
  | nil =>
    refine iff_of_true (fun before hbefore => ?_) trivial
    rw [List.prefix_nil.mp hbefore]
    exact h
  | cons op ops ih =>
    have hop := h.perform_iff hnamed hfair.1
    constructor
    · intro hall
      have hnext : (ps.perform op).Distinct := hall [op] ⟨ops, rfl⟩
      refine ⟨hop.mp hnext, (ih hnext (hnamed.perform op) hfair.2).mp fun before hbefore => ?_⟩
      exact hall (op :: before) (List.cons_prefix_cons.mpr ⟨rfl, hbefore⟩)
    · rintro ⟨hunused, hrest⟩ before hbefore
      have hlater := (ih (hop.mpr hunused) (hnamed.perform op) hfair.2).mpr hrest
      obtain rfl | ⟨rest, rfl, hrest⟩ := List.prefix_cons_iff.mp hbefore
      · exact h
      · exact hlater rest hrest

theorem Caught.along {ps : Piles α} (h : ps.Caught) (hnamed : ps.AllNamed) {ops : List (Op α)}
    (hops : Along Op.InStep ps ops) : Along Op.FindsUnused ps ops :=
  hops.imp (I := fun qs => qs.Caught ∧ qs.AllNamed)
    (fun _ op hqs hop => ⟨hqs.1.findsUnused op, hqs.1.perform hqs.2 hop, hqs.2.perform op⟩)
    ⟨h, hnamed⟩

/-- **When uids are unique.** Whatever is done with four empty piles, every
card has a uid. If no card is put in with a uid that is there, the uids
are unique at every moment exactly if every number that is given out is
unused then. That is so from a numbering on until a card with a uid of
its own overtakes the last number. -/
theorem uids_unique_iff (ops : List (Op α)) (hfair : Along Op.Fair empty ops) :
    (∀ uid ∈ (empty.performAll ops).allUids, uid ≠ 0) ∧
      ((∀ before, before <+: ops → (empty.performAll before).allUids.Nodup) ↔
        Along Op.FindsUnused empty ops) ∧
      ∀ before after : List (Op α), Along Op.InStep (empty.performAll before).assignUids after →
        Along Op.FindsUnused (empty.performAll before).assignUids after := by
  have hnamed : (empty : Piles α).AllNamed := nofun
  have hdistinct : (empty : Piles α).Distinct := List.nodup_nil
  refine ⟨hnamed.performAll ops, Distinct.performAll_iff hdistinct hnamed hfair,
    fun before after hafter => ?_⟩
  exact (caught_assignUids _).along ((hnamed.performAll before).perform .assignUids) hafter

/-- A card with a uid of its own overtakes the counter, the piles are
numbered, and the next card without uid gets the number after it. -/
theorem uids_unique_numbered :
    let before : List (Op Double) :=
      [.add .draw (.plain "jab" "Jab" 1 "OP.hp-1"),
        .add .hand { Card.plain "guard" "Guard" 1 "ME.block+3" with uid := 5 }]
    let after : List (Op Double) := [.discardHand, .add .hand (.plain "jab" "Jab" 1 "OP.hp-1")]
    let ops := before ++ .assignUids :: after
    (empty.performAll ops).allUids = [6, 1, 5] ∧
      (∀ uid ∈ (empty.performAll ops).allUids, uid ≠ 0) ∧
      ∀ earlier, earlier <+: ops → (empty.performAll earlier).allUids.Nodup := by
  intro before after ops
  have hfair : Along Op.Fair empty ops :=
    ⟨.inl rfl, .inr (by decide), trivial, trivial, .inl rfl, trivial⟩
  obtain ⟨hpositive, hiff, hnumbered⟩ := uids_unique_iff ops hfair
  have hlater := hnumbered before after ⟨trivial, Nat.zero_le _, trivial⟩
  exact ⟨by decide, hpositive, hiff.mpr ⟨fun _ => by decide, nofun, trivial, hlater⟩⟩

/-- A card that comes without uid gets the one that the only other card
came with: the counter was not told of it. -/
theorem uid_given_twice :
    let ops : List (Op Double) :=
      [.add .hand { Card.plain "jab" "Jab" 1 "OP.hp-1" with uid := 1 },
        .add .hand (.plain "guard" "Guard" 1 "ME.block+3")]
    Along Op.Fair empty ops ∧ (empty.performAll ops).allUids = [1, 1] ∧
      ¬(empty.performAll ops).allUids.Nodup :=
  ⟨⟨.inr (by decide), .inl rfl, trivial⟩, by decide, by decide⟩

end DeckDuel.Piles
