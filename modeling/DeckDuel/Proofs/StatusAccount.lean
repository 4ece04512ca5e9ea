/-
DeckDuel.Proofs.StatusAccount — the events tell which statuses are held.

* `Battle.held` — the ids and stacks that each side holds, in order.
* `statusAccount` — a record of them that is kept from the three events
  about statuses. An applied status must be absent, any other event must
  be about one that is held, and with the stacks that it is held with.
* `Fighter.held_setStacks`, `Fighter.held_dropStatus` — what the engine
  does to the first status of an id is what the record does to all.
* `Battle.Reported.tells_statuses` — every change leaves the record
  right, as long as held statuses are well formed.
* `Session.statuses_told` — so the record is right after any run.
-/
import DeckDuel.Proofs.Account
import DeckDuel.Proofs.HeldStatuses
import Mathlib.Data.List.Nodup

namespace DeckDuel

variable {α : Type}

/-! ## Held statuses -/

/-- The ids and stacks of the statuses that a fighter holds. -/
def Fighter.held (f : Fighter α) : List (String × Nat) :=
  f.statuses.map fun s => (s.id, s.stackCount)

/-- The same for both sides. -/
def Battle.held (b : Battle α) : Both (List (String × Nat)) :=
  ⟨(b.fighter .player).held, (b.fighter .enemy).held⟩

/-- The record of held statuses. -/
def statusAccount : Account α (Both (List (String × Nat))) where
  shows b v := v = b.held
  fits v
    | .statusApplied side id _ => id ∉ (v.get side).map Prod.fst
    | .stacksChanged side id before _ => (v.get side).lookup id = some before
    | .statusRemoved side id => id ∈ (v.get side).map Prod.fst
    | _ => True
  next v
    | .statusApplied side id stackCount => v.set side (v.get side ++ [(id, stackCount)])
    | .stacksChanged side id _ after =>
      v.set side ((v.get side).map fun p => if p.1 = id then (id, after) else p)
    | .statusRemoved side id => v.set side ((v.get side).filter fun p => p.1 ≠ id)
    | _ => v

namespace Fighter

variable {f : Fighter α} {id : String}

theorem map_fst_held (f : Fighter α) : f.held.map Prod.fst = f.statuses.map HeldStatus.id := by
  rw [held, List.map_map]
  rfl

theorem mem_id_of_statusIndex? (hheld : (f.statusIndex? id).isSome) :
    id ∈ f.statuses.map HeldStatus.id := by
  rw [statusIndex?, List.findIdx?_isSome, List.any_eq_true] at hheld
  obtain ⟨s, hs, hid⟩ := hheld
  exact List.mem_map.mpr ⟨s, hs, beq_iff_eq.mp hid⟩

/-- The stacks of a held status are those of its entry. -/
theorem lookup_held (hheld : (f.statusIndex? id).isSome) :
    f.held.lookup id = some (f.stacksOf id) := by
  have hlookup (hs : List HeldStatus) : (hs.map fun s => (s.id, s.stackCount)).lookup id =
      (hs.find? fun s => s.id == id).map HeldStatus.stackCount := by
    induction hs with
    | nil => rfl
    | cons s rest ih =>
      rw [List.map_cons, List.lookup_cons, List.find?_cons, BEq.comm]
      cases s.id == id with
      | true => rfl
      | false => exact ih
  rw [held, hlookup, stacksOf, status?]
  cases hfind : f.statuses.find? fun s => s.id == id with
  | some s => rfl
  | none =>
    obtain ⟨s, hs, hid⟩ := List.mem_map.mp (mem_id_of_statusIndex? hheld)
    exact absurd (beq_iff_eq.mpr hid) (List.find?_eq_none.mp hfind s hs)

/-- Other stacks for the first status of an id are other stacks for all
of them, since there is one at most. -/
theorem held_setStacks (hdistinct : (f.statuses.map HeldStatus.id).Nodup) (stackCount : Nat) :
    (f.setStacks id stackCount).held =
      f.held.map fun p => if p.1 = id then (id, stackCount) else p := by
  unfold setStacks
  split
  · next i hi =>
    obtain ⟨hlt, hid, hbefore⟩ := List.findIdx?_eq_some_iff_getElem.mp hi
    rw [beq_iff_eq] at hid
    refine List.ext_getElem (by simp [held]) fun j hj hj' => ?_
    have hlt' : j < f.statuses.length := by simpa [held] using hj
    simp only [held, List.getElem_map, List.getElem_modify]
    by_cases hij : i = j
    · subst hij
      simp [hid]
    · have hi : i < (f.statuses.map HeldStatus.id).length := by simpa using hlt
      have hj : j < (f.statuses.map HeldStatus.id).length := by simpa using hlt'
      have hother : f.statuses[j].id ≠ id := by
        intro hid'
        have hsame : (f.statuses.map HeldStatus.id)[i] = (f.statuses.map HeldStatus.id)[j] := by
          simp [hid, hid']
        exact hij ((List.Nodup.getElem_inj_iff hdistinct).mp hsame)
      simp [hij, hother]
  · next hnone =>
    have hother : ∀ p ∈ f.held, p.1 ≠ id := by
      intro p hp hid
      obtain ⟨s, hs, rfl⟩ := List.mem_map.mp hp
      have hne := List.findIdx?_eq_none_iff.mp hnone s hs
      rw [beq_eq_false_iff_ne] at hne
      exact hne hid
    exact (List.map_id f.held).symm.trans
      (List.map_congr_left fun p hp => (if_neg (hother p hp)).symm)

/-- So is dropping the first of them. -/
theorem held_dropStatus (hdistinct : (f.statuses.map HeldStatus.id).Nodup) :
    (f.dropStatus id).held = f.held.filter fun p => p.1 ≠ id := by
  have herase (hs : List HeldStatus) (h : (hs.map HeldStatus.id).Nodup) :
      hs.eraseP (fun s => s.id == id) = hs.filter fun s => s.id ≠ id := by
    induction hs with
    | nil => rfl
    | cons s rest ih =>
      obtain ⟨hnew, hrest⟩ := List.nodup_cons.mp h
      by_cases hid : s.id = id
      · have hothers : ∀ t ∈ rest, t.id ≠ id := fun t ht heq =>
          hnew (List.mem_map.mpr ⟨t, ht, heq.trans hid.symm⟩)
        have hfilter : rest.filter (fun t => t.id ≠ id) = rest :=
          List.filter_eq_self.mpr fun t ht => decide_eq_true (hothers t ht)
        have hfirst : (s :: rest).eraseP (fun s => s.id == id) = rest :=
          List.eraseP_cons_of_pos (by simp [hid])
        rw [hfirst, List.filter_cons_of_neg (by simp [hid]), hfilter]
      · simp [hid, ih hrest]
  rw [held, dropStatus, herase _ hdistinct, held, List.filter_map]
  rfl

end Fighter

namespace Battle

theorem get_held (b : Battle α) (side : Side) : b.held.get side = (b.fighter side).held := by
  cases side <;> rfl

theorem held_setFighter (b : Battle α) (side : Side) (f : Fighter α) :
    (b.setFighter side f).held = b.held.set side f.held := by
  cases side <;> rfl

theorem held_congr {b c : Battle α}
    (h : ∀ side, (c.fighter side).statuses = (b.fighter side).statuses) : c.held = b.held := by
  simp only [held, Fighter.held, h]

end Battle

/-! ## Changes -/

theorem statusAccount_ignores_aside {e : Event α} (h : e.isAside = true) :
    statusAccount.Ignores e := by
  cases e <;> first | exact fun v => ⟨trivial, rfl⟩ | cases h

theorem statusAccount_ignores_number (side : Side) (name : String) (x y : α) :
    statusAccount.Ignores (.attributeChanged side name x y) :=
  fun _ => ⟨trivial, rfl⟩

theorem statusAccount_ignores_moved (uids : List Nat) (goal : Pile) :
    statusAccount.Ignores (.cardsMoved uids goal : Event α) :=
  fun _ => ⟨trivial, rfl⟩

namespace Battle

variable [Scalar α] {s : Setting α} {turns : Bool} {b c : Battle α} {es : List (Event α)}

omit [Scalar α] in
theorem Allowed.congr (h : b.Allowed s)
    (hsame : ∀ side, (c.fighter side).statuses = (b.fighter side).statuses) : c.Allowed s := by
  intro side
  rw [hsame side]
  exact h side

omit [Scalar α] in
/-- The statuses stay, and nothing is told of them. -/
theorem tells_statuses_of_same (hb : b.Allowed s)
    (hsame : ∀ side, (c.fighter side).statuses = (b.fighter side).statuses)
    (hes : ∀ e ∈ es, statusAccount.Ignores e) :
    c.Allowed s ∧ statusAccount.Tells b es c := by
  refine ⟨hb.congr hsame, Account.tells_of_ignores hes fun v hv => ?_⟩
  exact hv.trans (held_congr hsame).symm

omit [Scalar α] in
/-- The piles hold no status. -/
theorem tells_statuses_of_piles (hb : b.Allowed s) (ps : Piles α) (stream : Random.Stream)
    (hes : ∀ e ∈ es, statusAccount.Ignores e) :
    { b.setPiles ps with stream := stream }.Allowed s ∧
      statusAccount.Tells b es { b.setPiles ps with stream := stream } :=
  tells_statuses_of_same hb (fun side => by cases side <;> rfl) hes

omit [Scalar α] in
/-- One fighter changes, and one event tells what it holds then. -/
theorem tells_statuses_of_event (side : Side) {f : Fighter α} {e : Event α}
    (hfits : statusAccount.fits b.held e)
    (hnext : statusAccount.next b.held e = b.held.set side f.held) :
    statusAccount.Tells b [e] (b.setFighter side f) := by
  refine Account.tells_one fun v hv => ?_
  obtain rfl : v = b.held := hv
  exact ⟨hfits, hnext.trans (held_setFighter b side f).symm⟩

/-- One case for each change. Only three of them are about statuses; of
what else happens to a fighter, settling drops statuses without stacks,
and there are none. -/
theorem Reported.tells_statuses (h : Reported s turns b es c) (hb : b.Allowed s) :
    c.Allowed s ∧ statusAccount.Tells b es c := by
  have hnone : ∀ e ∈ ([] : List (Event α)), statusAccount.Ignores e := List.forall_mem_nil _
  have hmoved := Account.ignores_moved (a := statusAccount (α := α)) statusAccount_ignores_moved
  have hdrawn := Account.ignores_drawn (a := statusAccount (α := α)) statusAccount_ignores_moved
  have hreport := Account.ignores_report (a := statusAccount (α := α)) statusAccount_ignores_number
  cases h with
  | unnoticed h => exact tells_statuses_of_same hb h.statuses hnone
  | aside e he =>
    exact tells_statuses_of_same hb (fun _ => rfl)
      (List.forall_mem_singleton.mpr (statusAccount_ignores_aside he))
  | store g x _ =>
    exact tells_statuses_of_same hb (statuses_setGauge b g x) (hreport g _ x)
  | settle side =>
    have hkept : (b.fighter side).settle.statuses = (b.fighter side).statuses :=
      List.filter_eq_self.mpr fun t ht => decide_eq_true ((hb side).positive t ht)
    refine tells_statuses_of_same hb (fun t => ?_)
      (List.forall_mem_append.mpr ⟨hreport _ _ _, hreport _ _ _⟩)
    by_cases ht : t = side
    · subst ht
      rw [mapFighter, fighter_setFighter_self, hkept]
    · obtain rfl : t = side.opponent := by cases t <;> cases side <;> simp_all [Side.opponent]
      rw [mapFighter, fighter_setFighter_opponent]
  | modifier side name x y =>
    exact tells_statuses_of_same hb (fun _ => rfl)
      (List.forall_mem_singleton.mpr (statusAccount_ignores_number side name x y))
  | gain holder d n defined positive capped free =>
    have hchange : Change s true b _ := .gain b holder d n defined positive capped free
    refine ⟨(keeps_allowed s).change hchange hb, tells_statuses_of_event holder ?_ ?_⟩
    · show d.id ∉ (b.held.get holder).map Prod.fst
      rw [get_held, Fighter.map_fst_held]
      exact (hb holder).not_mem free
    · show b.held.set holder (b.held.get holder ++ [(d.id, n)]) = _
      rw [get_held, Fighter.held, Fighter.held, List.map_append]
      rfl
  | lose holder id hheld =>
    have hkept : ((b.fighter holder).dropStatus id).statuses.Sublist (b.fighter holder).statuses :=
      List.eraseP_sublist
    refine ⟨hb.setFighter holder ((hb holder).sublist hkept),
      tells_statuses_of_event holder ?_ ?_⟩
    · show id ∈ (b.held.get holder).map Prod.fst
      rw [get_held, Fighter.map_fst_held]
      exact Fighter.mem_id_of_statusIndex? hheld
    · show b.held.set holder ((b.held.get holder).filter fun p => p.1 ≠ id) = _
      rw [get_held, Fighter.held_dropStatus (hb holder).distinct]
  | restack holder id n hheld positive =>
    have hchange : Change s true b _ := .restack b holder id n hheld positive
    refine ⟨(keeps_allowed s).change hchange hb, tells_statuses_of_event holder ?_ ?_⟩
    · show (b.held.get holder).lookup id = some ((b.fighter holder).stacksOf id)
      rw [get_held]
      exact Fighter.lookup_held hheld
    · show b.held.set holder ((b.held.get holder).map fun p =>
        if p.1 = id then (id, min n (s.stackCap id)) else p) = _
      rw [get_held, Fighter.held_setStacks (hb holder).distinct]
  | draw count =>
    obtain ⟨ps, stream, -, heq⟩ := drawUpTo_steps s.rules.handLimit count b
    rw [heq]
    exact tells_statuses_of_piles hb ps stream (hdrawn _)
  | take => exact tells_statuses_of_piles hb _ b.stream (hdrawn _)
  | put | discardHand => exact tells_statuses_of_piles hb _ b.stream (hmoved _ _)
  | play c goal _ =>
    exact tells_statuses_of_piles hb _ b.stream
      (List.forall_mem_singleton.mpr (statusAccount_ignores_moved [c.uid] goal))
  | spend => exact tells_statuses_of_same hb (fun side => by cases side <;> rfl) hnone
  | dropBlock side =>
    exact tells_statuses_of_same hb (fun t => by cases side <;> cases t <;> rfl) hnone

end Battle

/-! ## Runs -/

variable [Scalar α]

/-- **The events tell which statuses are held.** A stored battle is
loaded and a host calls for anything, in any order. A listener knows the
ids and stacks that both sides hold at the start, and then only hears
events. It never hears of a status that is applied although it is held,
of one that changes or goes although it is not held, or of other stacks
than it knows of; and in the end it knows the ids that both sides hold,
in order, with their stacks. -/
theorem Session.statuses_told (snap : Snapshot α) (rules : Rules) (chooser : Chooser α)
    (catalog : Catalog) (calls : List (Call α)) :
    let s := loadWith snap rules chooser catalog
    let t := s.afterAll calls
    statusAccount.Fits s.live.battle.held t.live.events ∧
      statusAccount.replay s.live.battle.held t.live.events = t.live.battle.held := by
  intro s t
  have hallowed : s.live.battle.Allowed s.toSetting := by
    intro side
    cases side with
    | player => exact snap.player.allows_load _ _
    | enemy => exact snap.enemy.allows_load _ _
  exact (heard_afterAll s calls).tells Battle.Reported.tells_statuses hallowed _ rfl

end DeckDuel
