/-
DeckDuel.Proofs.Draws — which cards one draw handles.

* `Piles.Top`, `Piles.handled` — the card that is drawn next, and the
  piles once it was drawn or burned. `Battle.drawUpTo_cases` — a draw of
  many handles it and goes on.
* `Drawn.uids` — what a draw handled, in order: the cards that reached
  the hand, then those that were burned.
* `Battle.length_uids_drawUpTo` — a draw ends early only if all cards
  fit the hand; otherwise it goes on for as long as it was asked to.
* `Battle.uids_drawUpTo` — the cards come off the draw pile and then off
  the discard pile, which is shuffled once with the cards burned so far
  (`Piles.refill`). This holds up to as many cards as there are.
* `Setting.drawCards_handles` — so a card comes twice only if it was
  burned before the discard pile was shuffled, and comes up again.
-/
import DeckDuel.Proofs.Places
import DeckDuel.Scalar.Double

namespace DeckDuel

variable {α : Type}

/-- The uids that a draw handled. -/
def Drawn.uids (d : Drawn) : List Nat := d.toHand ++ d.burned

/-! ## One card -/

namespace Piles

/-- The card that is drawn next, the cards under it, the discard pile
and the random stream. An empty draw pile is filled first. -/
inductive Top (ps : Piles α) (s : Random.Stream) :
    Card α → List (Card α) → List (Card α) → Random.Stream → Prop where
  | here {c : Card α} {rest : List (Card α)} (hdraw : ps.draw = c :: rest) :
    ps.Top s c rest ps.discard s
  | shuffled {c : Card α} {rest : List (Card α)} (hnone : ps.draw = [])
    (hdraw : (s.shuffle ps.discard).1 = c :: rest) :
    ps.Top s c rest [] (s.shuffle ps.discard).2

/-- The room that is left in the hand. -/
def room (ps : Piles α) (limit : Nat) : Nat := limit - ps.hand.length

/-- How many cards can be drawn. -/
def stock (ps : Piles α) : Nat := ps.draw.length + ps.discard.length

/-- The piles once a card was drawn, or burned if there is no room. -/
def handled (ps : Piles α) (limit : Nat) (c : Card α) (rest left : List (Card α)) : Piles α :=
  if ps.room limit = 0 then { ps with draw := rest, discard := left ++ [c] }
  else { ps with draw := rest, discard := left, hand := ps.hand ++ [c] }

variable {ps : Piles α} {s s' : Random.Stream} {c : Card α} {rest left : List (Card α)}

theorem Top.perm (h : ps.Top s c rest left s') :
    (c :: rest ++ left).Perm (ps.draw ++ ps.discard) := by
  cases h with
  | here hdraw => rw [hdraw]
  | shuffled hnone hdraw =>
    rw [hnone, ← hdraw, List.append_nil, List.nil_append]
    exact Random.shuffle_perm ps.discard s

theorem Top.stock_eq (h : ps.Top s c rest left s') :
    ps.stock = rest.length + left.length + 1 := by
  have hlength := h.perm.length_eq
  simp only [List.length_append, List.length_cons] at hlength
  simp only [stock]
  omega

/-- There is a card to draw unless both piles are empty. -/
theorem exists_top (ps : Piles α) (s : Random.Stream) :
    (ps.draw = [] ∧ ps.discard = []) ∨ ∃ c rest left s', ps.Top s c rest left s' := by
  cases hdraw : ps.draw with
  | cons c rest => exact .inr ⟨c, rest, _, _, .here hdraw⟩
  | nil =>
    cases hshuffled : (s.shuffle ps.discard).1 with
    | cons c rest => exact .inr ⟨c, rest, _, _, .shuffled hdraw hshuffled⟩
    | nil =>
      have hperm := Random.shuffle_perm ps.discard s
      rw [hshuffled] at hperm
      exact .inl ⟨rfl, hperm.symm.eq_nil⟩

theorem Top.drawOne_eq (h : ps.Top s c rest left s') (limit : Nat) :
    ps.drawOne limit s =
      (if ps.room limit = 0 then .burned c.uid else .drawn c.uid,
        ps.handled limit c rest left, s') := by
  have hroom : ps.room limit = 0 ↔ limit ≤ ps.hand.length := Nat.sub_eq_zero_iff_le
  simp only [handled, hroom]
  cases h with
  | here hdraw =>
    simp only [drawOne, hdraw, List.isEmpty_cons, Bool.false_eq_true, if_false]
    split <;> rfl
  | shuffled hnone hdraw =>
    simp only [drawOne, reshuffle, hnone, hdraw, List.isEmpty_nil, if_true, List.nil_append]
    split <;> rfl

theorem drawOne_empty (hdraw : ps.draw = []) (hdiscard : ps.discard = []) (limit : Nat) :
    (ps.drawOne limit s).1 = .empty ∧ (ps.drawOne limit s).2.1.hand = ps.hand := by
  have hnone : (s.shuffle ([] : List (Card α))).1 = [] := (Random.shuffle_perm [] s).eq_nil
  simp [drawOne, reshuffle, hdraw, hdiscard, hnone]

@[simp] theorem draw_handled (limit : Nat) : (ps.handled limit c rest left).draw = rest := by
  simp only [handled]
  split <;> rfl

/-- A card that is drawn takes up room; one that is burned finds none. -/
@[simp] theorem room_handled (limit : Nat) :
    (ps.handled limit c rest left).room limit = ps.room limit - 1 := by
  unfold handled
  split
  · next hfull =>
    rw [hfull]
    exact hfull
  · simp only [room, List.length_append, List.length_singleton]
    omega

theorem stock_handled (limit : Nat) :
    (ps.handled limit c rest left).stock =
      rest.length + left.length + if ps.room limit = 0 then 1 else 0 := by
  simp only [handled, stock]
  split
  · simp only [List.length_append, List.length_singleton]
    omega
  · rfl

/-- The cards for which there is no room come to the discard pile in
order. -/
theorem discard_handled (limit : Nat) :
    (ps.handled limit c rest left).discard ++ rest.drop (ps.room limit - 1) =
      left ++ (c :: rest).drop (ps.room limit) := by
  simp only [handled]
  split
  · next hfull => simp [hfull]
  · next hroom =>
    obtain ⟨r, hr⟩ := Nat.exists_eq_succ_of_ne_zero hroom
    simp [hr]

/-- What can be drawn after a card was among what could be drawn
before. -/
theorem Top.mem_handled (h : ps.Top s c rest left s') (limit : Nat) {d : Card α}
    (hd : d ∈ (ps.handled limit c rest left).draw ++ (ps.handled limit c rest left).discard) :
    d ∈ ps.draw ++ ps.discard := by
  rw [← h.perm.mem_iff]
  simp only [handled] at hd
  split at hd <;> simp at hd ⊢ <;> tauto

end Piles

/-! ## Many cards -/

namespace Battle

/-- A draw of many ends at empty piles; otherwise it handles the top card
and goes on. -/
theorem drawUpTo_cases (limit n : Nat) (b : Battle α) :
    (b.piles.draw = [] ∧ b.piles.discard = [] ∧ (b.drawUpTo limit (n + 1)).1 = ⟨[], []⟩ ∧
      (b.drawUpTo limit (n + 1)).2.piles.hand = b.piles.hand) ∨
    ∃ (c : Card α) (rest left : List (Card α)) (b' : Battle α),
      b.piles.Top b.stream c rest left b'.stream ∧
      b'.piles = b.piles.handled limit c rest left ∧
      (b.drawUpTo limit (n + 1)).2 = (b'.drawUpTo limit n).2 ∧
      (b.drawUpTo limit (n + 1)).1 =
        if b.piles.room limit = 0 then
          ⟨(b'.drawUpTo limit n).1.toHand, c.uid :: (b'.drawUpTo limit n).1.burned⟩
        else ⟨c.uid :: (b'.drawUpTo limit n).1.toHand, (b'.drawUpTo limit n).1.burned⟩ := by
  rcases b.piles.exists_top b.stream with ⟨hdraw, hdiscard⟩ | ⟨c, rest, left, s', htop⟩
  · obtain ⟨hempty, hhand⟩ := Piles.drawOne_empty hdraw hdiscard limit (s := b.stream)
    refine .inl ⟨hdraw, hdiscard, ?_⟩
    simp only [drawUpTo, hempty, true_and]
    exact hhand
  · refine .inr ⟨c, rest, left, { b.setPiles (b.piles.handled limit c rest left) with
      stream := s' }, htop, rfl, ?_⟩
    by_cases hfull : b.piles.room limit = 0
    · simp only [drawUpTo, htop.drawOne_eq limit, hfull, if_true, and_self]
    · simp only [drawUpTo, htop.drawOne_eq limit, hfull, if_false, and_self]

/-- Once a card was burned, all others are. -/
theorem uids_drawUpTo_cases (limit n : Nat) (b : Battle α) :
    (b.piles.draw = [] ∧ b.piles.discard = [] ∧ (b.drawUpTo limit (n + 1)).1.uids = []) ∨
    ∃ (c : Card α) (rest left : List (Card α)) (b' : Battle α),
      b.piles.Top b.stream c rest left b'.stream ∧
      b'.piles = b.piles.handled limit c rest left ∧
      (b.drawUpTo limit (n + 1)).1.uids = c.uid :: (b'.drawUpTo limit n).1.uids := by
  rcases drawUpTo_cases limit n b with ⟨hdraw, hdiscard, hnone, -⟩ |
    ⟨c, rest, left, b', htop, hpiles, -, heq⟩
  · exact .inl ⟨hdraw, hdiscard, by simp [Drawn.uids, hnone]⟩
  · refine .inr ⟨c, rest, left, b', htop, hpiles, ?_⟩
    by_cases hfull : b.piles.room limit = 0
    · have hfull' : b'.piles.room limit = 0 := by simp [hpiles, hfull]
      have hburned : (b'.drawUpTo limit n).1.toHand = [] :=
        toHand_drawUpTo_of_full n b' (Nat.sub_eq_zero_iff_le.mp hfull')
      simp [Drawn.uids, heq, hfull, hburned]
    · simp [Drawn.uids, heq, hfull]

/-- While all cards fit the hand a draw ends with the last of them.
Otherwise burned cards are drawn again, for as long as it is asked
for. -/
theorem length_uids_drawUpTo (limit count : Nat) (b : Battle α) :
    (b.drawUpTo limit count).1.uids.length =
      if b.piles.stock ≤ b.piles.room limit then min count b.piles.stock else count := by
  induction count generalizing b with
  | zero => simp [drawUpTo, Drawn.uids]
  | succ n ih =>
    rcases uids_drawUpTo_cases limit n b with ⟨hdraw, hdiscard, hnone⟩ |
      ⟨c, rest, left, b', htop, hpiles, huids⟩
    · simp [hnone, Piles.stock, hdraw, hdiscard]
    · have hstock := htop.stock_eq
      rw [huids, List.length_cons, ih, hpiles, Piles.stock_handled, Piles.room_handled, hstock]
      by_cases hfull : b.piles.room limit = 0
      · simp [hfull]
      · rw [if_neg hfull]
        split_ifs <;> omega

theorem uids_drawUpTo_subset (limit count : Nat) (b : Battle α) :
    (b.drawUpTo limit count).1.uids ⊆ (b.piles.draw ++ b.piles.discard).map Card.uid := by
  induction count generalizing b with
  | zero => simp [drawUpTo, Drawn.uids]
  | succ n ih =>
    rcases uids_drawUpTo_cases limit n b with ⟨-, -, hnone⟩ |
      ⟨c, rest, left, b', htop, hpiles, huids⟩
    · simp [hnone]
    · intro uid huid
      rcases List.mem_cons.mp (huids ▸ huid) with rfl | hlater
      · exact List.mem_map_of_mem (htop.perm.mem_iff.mp (by simp))
      · obtain ⟨d, hd, rfl⟩ := List.mem_map.mp (ih b' hlater)
        rw [hpiles] at hd
        exact List.mem_map_of_mem (htop.mem_handled limit hd)

/-- The hand grows by the cards that reach it. -/
theorem hand_drawUpTo (limit count : Nat) (b : Battle α) :
    ∃ new, (b.drawUpTo limit count).2.piles.hand = b.piles.hand ++ new ∧
      new.map Card.uid = (b.drawUpTo limit count).1.toHand := by
  induction count generalizing b with
  | zero => exact ⟨[], (List.append_nil _).symm, rfl⟩
  | succ n ih =>
    rcases drawUpTo_cases limit n b with ⟨-, -, hnone, hhand⟩ |
      ⟨c, rest, left, b', -, hpiles, hafter, heq⟩
    · exact ⟨[], by simp [hhand], by simp [hnone]⟩
    · obtain ⟨new, hhand, hnew⟩ := ih b'
      rw [hafter, heq, hhand, hpiles, Piles.handled]
      split
      · exact ⟨new, rfl, hnew⟩
      · exact ⟨c :: new, by simp, by simp [hnew]⟩

end Battle

/-! ## The order of the cards -/

namespace Piles

/-- The discard pile as it is shuffled under the draw pile: with the
cards of the draw pile for which there was no room. -/
def refill (ps : Piles α) (limit : Nat) (s : Random.Stream) : List (Card α) :=
  (s.shuffle (ps.discard ++ ps.draw.drop (ps.room limit))).1

theorem refill_perm (ps : Piles α) (limit : Nat) (s : Random.Stream) :
    (ps.refill limit s).Perm (ps.discard ++ ps.draw.drop (ps.room limit)) :=
  Random.shuffle_perm _ _

/-- Every card that can be drawn lies in the draw pile or comes up after
it. -/
theorem stock_le_refill (ps : Piles α) (limit : Nat) (s : Random.Stream) :
    ps.stock ≤ ps.draw.length + (ps.refill limit s).length := by
  rw [stock, (ps.refill_perm limit s).length_eq, List.length_append]
  omega

/-- With room for all cards none is shuffled back. -/
theorem drop_room_of_fits {ps : Piles α} {limit : Nat} (h : ps.stock ≤ ps.room limit) :
    ps.draw.drop (ps.room limit) = [] := by
  apply List.drop_eq_nil_of_le
  rw [stock] at h
  omega

section Handled

variable {ps : Piles α} {c : Card α} {rest left : List (Card α)} {s s' : Random.Stream}

/-- While all cards fit, they do so after each card. -/
theorem Top.fits_handled (h : ps.Top s c rest left s') {limit : Nat}
    (hfit : ps.stock ≤ ps.room limit) :
    (ps.handled limit c rest left).stock ≤ (ps.handled limit c rest left).room limit := by
  have hstock := h.stock_eq
  rw [stock_handled, room_handled, if_neg (by omega)]
  omega

/-- A card off the draw pile leaves what is shuffled later: what is burned
meanwhile is shuffled with the rest. -/
theorem refill_handled (hdraw : ps.draw = c :: rest) (limit : Nat) (s : Random.Stream) :
    (ps.handled limit c rest ps.discard).refill limit s = ps.refill limit s := by
  rw [refill, refill, draw_handled, room_handled, discard_handled, hdraw]

/-- After a card off the shuffled discard pile nothing is left to shuffle
if the others fit as well. -/
theorem refill_handled_of_fits {limit : Nat} (hfit : (c :: rest).length ≤ ps.room limit)
    (s : Random.Stream) : (ps.handled limit c rest []).refill limit s = [] := by
  have hperm := (ps.handled limit c rest []).refill_perm limit s
  rw [draw_handled, room_handled, discard_handled, List.drop_eq_nil_of_le hfit] at hperm
  exact hperm.eq_nil

end Handled

theorem nodup_refill {ps : Piles α} (h : ((ps.draw ++ ps.discard).map Card.uid).Nodup)
    (limit : Nat) (s : Random.Stream) : ((ps.refill limit s).map Card.uid).Nodup := by
  rw [((ps.refill_perm limit s).map Card.uid).nodup_iff, List.map_append]
  rw [List.map_append] at h
  have hswapped := List.perm_append_comm.nodup_iff.mp h
  have hburned := (List.drop_sublist (ps.room limit) ps.draw).map Card.uid
  exact hswapped.sublist (hburned.append_left _)

end Piles

namespace Battle

/-- A draw takes the cards off the draw pile, and then off the discard
pile. -/
theorem uids_drawUpTo (limit count : Nat) (b : Battle α)
    (h : count ≤ b.piles.draw.length + (b.piles.refill limit b.stream).length ∨
      b.piles.stock ≤ b.piles.room limit) :
    (b.drawUpTo limit count).1.uids =
      ((b.piles.draw ++ b.piles.refill limit b.stream).take count).map Card.uid := by
  induction count generalizing b with
  | zero => simp [drawUpTo, Drawn.uids]
  | succ n ih =>
    rcases uids_drawUpTo_cases limit n b with ⟨hdraw, hdiscard, hnone⟩ |
      ⟨c, rest, left, b', htop, hpiles, huids⟩
    · have hempty : b.piles.refill limit b.stream = [] := by
        have hperm := b.piles.refill_perm limit b.stream
        rw [hdraw, hdiscard, List.drop_nil] at hperm
        exact hperm.eq_nil
      simp [hnone, hdraw, hempty]
    · -- After the card there may be as many as before, and one less.
      have hfits (hfit : b.piles.stock ≤ b.piles.room limit) :
          b'.piles.stock ≤ b'.piles.room limit := hpiles ▸ htop.fits_handled hfit
      have hstock := htop.stock_eq
      have hdraw' : b'.piles.draw = rest := by simp [hpiles]
      rw [huids]
      generalize hs' : b'.stream = s' at htop
      cases htop with
      | here hdraw =>
        have hsame : b'.piles.refill limit b'.stream = b.piles.refill limit b.stream := by
          rw [hs', hpiles, Piles.refill_handled hdraw]
        have hrest := ih b' (by
          rw [hsame, hdraw']
          rw [hdraw, List.length_cons] at h
          exact h.imp (by omega) hfits)
        rw [hrest, hsame, hdraw', hdraw, List.cons_append, List.take_succ_cons, List.map_cons]
      | shuffled hnone hdraw =>
        have hpile : b.piles.refill limit b.stream = c :: rest := by
          simp [Piles.refill, hnone, hdraw]
        rw [hnone, hpile, List.length_nil, List.length_cons] at h
        have hrest := ih b' (by
          rw [hdraw']
          exact h.imp (by omega) hfits)
        -- Either there are cards enough, or all fit and none is burned.
        have hlast : (rest ++ b'.piles.refill limit b'.stream).take n = rest.take n := by
          rcases h with h | h
          · exact List.take_append_of_le_length (by omega)
          · rw [hpiles, Piles.refill_handled_of_fits (by rw [List.length_cons]; omega),
              List.append_nil]
        rw [hrest, hnone, hpile, hdraw', hlast, List.nil_append, List.take_succ_cons,
          List.map_cons]

/-! ## Cards that come twice -/

/-- A card that reached the hand was handled once. -/
theorem count_uids_drawUpTo (limit count : Nat) (b : Battle α)
    (h : ((b.piles.draw ++ b.piles.discard).map Card.uid).Nodup) :
    ∀ uid ∈ (b.drawUpTo limit count).1.toHand, (b.drawUpTo limit count).1.uids.count uid = 1 := by
  induction count generalizing b with
  | zero => simp [drawUpTo]
  | succ n ih =>
    intro uid huid
    rcases drawUpTo_cases limit n b with ⟨-, -, hnone, -⟩ |
      ⟨c, rest, left, b', htop, hpiles, -, heq⟩
    · simp [hnone] at huid
    · by_cases hfull : b.piles.room limit = 0
      · rw [toHand_drawUpTo_of_full (n + 1) b (Nat.sub_eq_zero_iff_le.mp hfull)] at huid
        cases huid
      · have hapart : ((c :: rest ++ left).map Card.uid).Nodup :=
          ((htop.perm.map Card.uid).nodup_iff).mpr h
        have hlater : b'.piles.draw ++ b'.piles.discard = rest ++ left := by
          simp [hpiles, Piles.handled, hfull]
        rw [List.cons_append, List.map_cons, List.nodup_cons, ← hlater] at hapart
        rw [if_neg hfull] at heq
        have huids : (b.drawUpTo limit (n + 1)).1.uids = c.uid :: (b'.drawUpTo limit n).1.uids := by
          rw [heq]
          rfl
        have hgone : c.uid ∉ (b'.drawUpTo limit n).1.uids := fun hc =>
          hapart.1 (uids_drawUpTo_subset limit n b' hc)
        rw [heq] at huid
        rw [huids]
        rcases List.mem_cons.mp huid with rfl | huid
        · rw [List.count_cons_self, List.count_eq_zero_of_not_mem hgone]
        · have hthere : uid ∈ (b'.drawUpTo limit n).1.uids := List.mem_append_left _ huid
          have hne : c.uid ≠ uid := fun heq => hgone (heq ▸ hthere)
          rw [List.count_cons_of_ne hne]
          exact ih b' hapart.2 uid huid

end Battle

namespace Piles

/-- No two cards that can be drawn share a uid. -/
theorem Distinct.stock {ps : Piles α} (h : ps.Distinct) :
    ((ps.draw ++ ps.discard).map Card.uid).Nodup := by
  have hcards : ps.cards = ps.hand ++ ((ps.draw ++ ps.discard) ++ ps.exhaust) := by
    simp [cards, Pile.all, Piles.get]
  rw [Distinct, allUids, hcards, List.map_append, List.map_append] at h
  exact h.of_append_right.of_append_left

/-- The uids of the hand are not among them. -/
theorem Distinct.not_mem_stock {ps : Piles α} (h : ps.Distinct) {c : Card α} (hc : c ∈ ps.hand) :
    c.uid ∉ (ps.draw ++ ps.discard).map Card.uid := by
  have hhand : c.uid ∈ ps.uids .hand := mem_uids.mpr ⟨c, hc, rfl⟩
  intro hmem
  rw [List.map_append, List.mem_append] at hmem
  rcases hmem with hmem | hmem
  · exact absurd (h.pile_unique hhand (List.mem_toFinset.mpr hmem : c.uid ∈ ps.uids .draw)) nofun
  · exact absurd (h.pile_unique hhand (List.mem_toFinset.mpr hmem : c.uid ∈ ps.uids .discard)) nofun

end Piles

namespace Battle

/-- A card comes twice only if it was burned and comes up again, or if
more cards are asked for than there are. -/
theorem nodup_uids_drawUpTo (limit count : Nat) (b : Battle α) (h : b.piles.Distinct) :
    (b.drawUpTo limit count).1.uids.Nodup ↔
      b.piles.stock ≤ b.piles.room limit ∨ count ≤ b.piles.stock ∧
        ∀ c ∈ (b.piles.refill limit b.stream).take (count - b.piles.draw.length),
          c.uid ∉ (b.piles.draw.drop (b.piles.room limit)).map Card.uid := by
  have henough := b.piles.stock_le_refill limit b.stream
  have hsplit (xs : List (Card α)) : ((b.piles.draw ++ xs).take count).map Card.uid =
      (b.piles.draw.take count).map Card.uid ++
        (xs.take (count - b.piles.draw.length)).map Card.uid := by
    rw [List.take_append, List.map_append]
  constructor
  · intro hnodup
    by_cases hfit : b.piles.stock ≤ b.piles.room limit
    · exact .inl hfit
    · have hle := (hnodup.subperm (uids_drawUpTo_subset limit count b)).length_le
      rw [length_uids_drawUpTo, if_neg hfit, List.length_map, List.length_append] at hle
      refine .inr ⟨hle, fun c hc hover => ?_⟩
      rw [uids_drawUpTo limit count b (.inl (Nat.le_trans hle henough)), hsplit] at hnodup
      -- Cards come off the discard pile only after the whole draw pile.
      have hall : b.piles.draw.take count = b.piles.draw := by
        apply List.take_of_length_le
        by_contra hless
        rw [Nat.sub_eq_zero_of_le (by omega)] at hc
        simp at hc
      rw [hall] at hnodup
      have hover' := ((List.drop_sublist _ _).map Card.uid).subset hover
      exact (List.nodup_append'.mp hnodup).2.2 hover' (List.mem_map_of_mem hc)
  · intro hcases
    have hfew : count ≤ b.piles.draw.length + (b.piles.refill limit b.stream).length ∨
        b.piles.stock ≤ b.piles.room limit :=
      hcases.symm.imp (fun h => Nat.le_trans h.1 henough) id
    have hnew : ∀ c ∈ (b.piles.refill limit b.stream).take (count - b.piles.draw.length),
        c ∈ b.piles.discard := by
      intro c hc
      have hmem := (b.piles.refill_perm limit b.stream).mem_iff.mp (List.mem_of_mem_take hc)
      refine (List.mem_append.mp hmem).resolve_right fun hover => ?_
      rcases hcases with hfit | ⟨-, hnone⟩
      · rw [Piles.drop_room_of_fits hfit] at hover
        cases hover
      · exact hnone c hc (List.mem_map_of_mem hover)
    have hstock := h.stock
    have hrefill := Piles.nodup_refill hstock limit b.stream
    rw [uids_drawUpTo limit count b hfew, hsplit]
    rw [List.map_append] at hstock
    refine List.nodup_append'.mpr ⟨?_, ?_, ?_⟩
    · exact hstock.of_append_left.sublist ((List.take_sublist _ _).map Card.uid)
    · exact hrefill.sublist ((List.take_sublist _ _).map Card.uid)
    · intro uid hdraw hlater
      obtain ⟨c, hc, rfl⟩ := List.mem_map.mp hlater
      exact (List.nodup_append'.mp hstock).2.2
        (((List.take_sublist _ _).map Card.uid).subset hdraw) (List.mem_map_of_mem (hnew c hc))

end Battle

/-! ## The events of a draw -/

/-- The uids of the cards that events tell of. -/
def uidsMoved (events : List (Event α)) : List Nat :=
  events.flatMap fun
    | .cardsMoved uids _ => uids
    | _ => []

namespace Live

theorem uidsMoved_reportDrawn (l : Live α) (d : Drawn) :
    uidsMoved ((l.reportDrawn d).eventsSince l.journal.length) = d.uids := by
  obtain ⟨toHand, burned⟩ := d
  have htwo : l.journal.length + 1 + 1 - l.journal.length = 2 := by omega
  cases toHand <;> cases burned <;>
    simp [reportDrawn, reportMoved, emit, write, eventsSince, Entry.event?, uidsMoved, Drawn.uids,
      htwo]

end Live

namespace Setting

/-- A draw that finds no card is refused, and tells of none. -/
theorem run_drawCards (s : Setting α) (count : Nat) (l : Live α) :
    ((s.drawCards count).run.run l).2 =
      (l.mapBattle fun _ => (l.battle.drawUpTo s.rules.handLimit count).2).reportDrawn
        (l.battle.drawUpTo s.rules.handLimit count).1 := by
  show (((if _ then throw _ else _) : Attempt α Nat).run.run
    (l.mapBattle fun _ => (l.battle.drawUpTo s.rules.handLimit count).2)).2 = _
  split
  · next hnone =>
    simp only [Bool.and_eq_true] at hnone
    rw [Live.reportDrawn, Live.reportMoved, if_pos hnone.2, Live.reportMoved, if_pos hnone.1.2]
    rfl
  · rfl

/-- **What one draw handles.** Up to as many cards as there are, a draw
takes the cards off the draw pile and then off the discard pile, which is
shuffled with the cards that were burned. So none comes twice, unless one
of these comes up again or more cards are asked for than there are and
not all fit the hand: then a draw goes on with burned cards for as long
as it was asked to. A card that reaches the hand stays there. -/
theorem drawCards_handles (s : Setting α) (count : Nat) (l : Live α)
    (h : l.battle.piles.Distinct) :
    let ps := l.battle.piles
    let m := ((s.drawCards count).run.run l).2
    let uids := uidsMoved (m.eventsSince l.journal.length)
    let room := ps.room s.rules.handLimit
    let refill := ps.refill s.rules.handLimit l.battle.stream
    uids.length = (if ps.stock ≤ room then min count ps.stock else count) ∧
    uids ⊆ (ps.draw ++ ps.discard).map Card.uid ∧
    (count ≤ ps.stock ∨ ps.stock ≤ room →
      uids = ((ps.draw ++ refill).take count).map Card.uid) ∧
    (uids.Nodup ↔ ps.stock ≤ room ∨
      count ≤ ps.stock ∧ ∀ c ∈ refill.take (count - ps.draw.length),
        c.uid ∉ (ps.draw.drop room).map Card.uid) ∧
    ∀ c ∈ m.battle.piles.hand, uids.count c.uid ≤ 1 := by
  intro ps m uids room refill
  have hm : m = (l.mapBattle fun _ => (l.battle.drawUpTo s.rules.handLimit count).2).reportDrawn
      (l.battle.drawUpTo s.rules.handLimit count).1 := s.run_drawCards count l
  have huids : uids = (l.battle.drawUpTo s.rules.handLimit count).1.uids := by
    show uidsMoved (m.eventsSince l.journal.length) = _
    rw [hm]
    exact Live.uidsMoved_reportDrawn (l.mapBattle _) _
  have hsubset := l.battle.uids_drawUpTo_subset s.rules.handLimit count
  have hnodup := l.battle.nodup_uids_drawUpTo s.rules.handLimit count h
  rw [huids]
  refine ⟨l.battle.length_uids_drawUpTo _ _, hsubset, fun hfew => ?_, hnodup, fun c hc => ?_⟩
  · apply l.battle.uids_drawUpTo
    apply hfew.imp_left
    intro hfew
    exact Nat.le_trans hfew (ps.stock_le_refill _ _)
  · have hhand : m.battle.piles.hand =
        (l.battle.drawUpTo s.rules.handLimit count).2.piles.hand := by
      rw [hm, Live.battle_reportDrawn]
      rfl
    obtain ⟨new, hafter, hnew⟩ := l.battle.hand_drawUpTo s.rules.handLimit count
    rw [hhand, hafter, List.mem_append] at hc
    rcases hc with hc | hc
    · rw [List.count_eq_zero_of_not_mem fun hmem => h.not_mem_stock hc (hsubset hmem)]
      exact Nat.zero_le 1
    · refine Nat.le_of_eq (l.battle.count_uids_drawUpTo _ _ h.stock _ ?_)
      rw [← hnew]
      exact List.mem_map_of_mem hc

/-- The duel with one card in the hand and some more, which can hold so
many cards. -/
def dealt (draw : List (Card Double)) (limit : Nat) : Session Double :=
  .loadWith { Snapshot.duel with hand := [.plain "jab" "Jab" 1 "OP.hp-1"], draw := draw }
    { Rules.standard with handLimit := limit } .leftmost .standard

/-- Of two cards the first is drawn and the second is burned. -/
theorem drawCards_handles_dealt :
    let s := dealt [.plain "blow" "Blow" 1 "OP.hp-3", .plain "guard" "Guard" 1 "ME.block+3"] 2
    let m := ((s.toSetting.drawCards 2).run.run s.live).2
    let uids := uidsMoved (m.eventsSince s.live.journal.length)
    uids = [2, 3] ∧ uids.Nodup ∧ ∀ c ∈ m.battle.piles.hand, uids.count c.uid ≤ 1 := by
  intro s m uids
  obtain ⟨-, -, -, hnodup, hhand⟩ := drawCards_handles s.toSetting 2 s.live (by decide +kernel)
  exact ⟨by decide +kernel, hnodup.mpr (.inr (by decide +kernel)), hhand⟩

/-- A card that finds the hand full is burned as often as the draw goes
on. -/
theorem handled_again :
    let s := dealt [.plain "blow" "Blow" 1 "OP.hp-3"] 1
    let m := ((s.toSetting.drawCards 3).run.run s.live).2
    let uids := uidsMoved (m.eventsSince s.live.journal.length)
    s.live.battle.piles.Distinct ∧ uids = [2, 2, 2] ∧ ¬uids.Nodup ∧
      s.live.battle.piles.stock < uids.length := by
  decide +kernel

end Setting
end DeckDuel
