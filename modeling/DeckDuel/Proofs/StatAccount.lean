/-
DeckDuel.Proofs.StatAccount — which numbers the events tell.

* `gaugeAccount` — a record of one number that is kept from the reports
  of changes alone. A report must start from the recorded number, except
  that a zero may have another sign.
* `Gauge.isTold` — the numbers that events tell. Nothing tells that a
  turn begins with other energy and, if the rules say so, without block,
  or that a card is paid for: energy and block are told only where no
  call goes through turns or plays a card.
* `Battle.GaugesStored` — every maximum and every block was brought into
  its bounds. Otherwise settling a fighter would change one of them, and
  only hit points and lust are reported then (`GaugesStored.gauge_settle`).
* `Session.gauges_told` — the record of a number that is told is right
  after any run.
* `Session.energy_and_block_untold` — the others may be recorded wrongly.
-/
import DeckDuel.Proofs.Account
import DeckDuel.Proofs.SettledStats
import DeckDuel.Proofs.ZeroSign

namespace DeckDuel

open Scalar

/-! ## Numbers -/

namespace Scalar

/-- Numbers that are equal differ in the sign of a zero only, and what
is not finite is not rounded. -/
class Reporting (α : Type) [Scalar α] : Prop extends Spending α where
  same_of_beq : ∀ {x y : α}, (x == y) = true → Same x y
  roundTenth_of_not_isFinite : ∀ {x : α}, isFinite x = false → roundTenth x = x

instance : Reporting Double where
  same_of_beq := Double.same_of_beq
  roundTenth_of_not_isFinite {x} h := by
    have hscaled : isFinite (x * ofNat 10) = false :=
      Bool.eq_false_iff.mpr fun hfinite => by simp [Double.isFinite_of_mul_ten hfinite] at h
    simp [roundTenth, hscaled]

variable {α : Type} [Scalar α] [Reporting α]

open Reporting

/-- A number that was brought to a bound at least and rounded is not
changed by doing so again, if that is so where it is finite. -/
theorem roundTenth_atLeast_again {bound x : α}
    (hfinite : isFinite (roundTenth (atLeast bound x)) = true →
      roundTenth (atLeast bound (roundTenth (atLeast bound x))) = roundTenth (atLeast bound x)) :
    roundTenth (atLeast bound (roundTenth (atLeast bound x))) = roundTenth (atLeast bound x) := by
  cases h : isFinite (atLeast bound x) with
  | true => exact hfinite (Settling.isFinite_roundTenth h)
  | false => rw [roundTenth_of_not_isFinite h, atLeast_atLeast, roundTenth_of_not_isFinite h]

end Scalar

/-! ## Gauges -/

/-- Is a number told by events, if there are calls that go through turns
or play a card, or none? -/
def Gauge.isTold (rules : Rules) (turns : Bool) : Gauge → Bool
  | .hp _ | .maxHp _ | .lust _ | .maxLust _ | .maxEnergy => true
  | .block _ => !(turns && rules.resetsBlock)
  | .energy => !turns

section

variable {α : Type} [Scalar α]

/-- All maxima and blocks are as they are stored. -/
def Battle.GaugesStored (b : Battle α) : Prop := ∀ g : Gauge, g.Storable (b.gauge g)

/-- The record of a number. -/
def gaugeAccount (g : Gauge) : Account α α where
  shows b x := Same x (b.gauge g)
  fits x
    | .attributeChanged side name before _ => side = g.side ∧ name = g.name → Same x before
    | _ => True
  next x
    | .attributeChanged side name _ after => if side = g.side ∧ name = g.name then after else x
    | _ => x

instance [DecidableEq α] (x y : α) : Decidable (Same x y) :=
  inferInstanceAs (Decidable (x = y ∨ ((x == 0) = true ∧ (y == 0) = true)))

instance [DecidableEq α] (g : Gauge) (x : α) :
    (e : Event α) → Decidable ((gaugeAccount g).fits x e)
  | .attributeChanged side name before _ =>
    inferInstanceAs (Decidable (side = g.side ∧ name = g.name → Same x before))
  | .damaged .. | .healed .. | .statusApplied .. | .stacksChanged .. | .statusRemoved ..
  | .abilityAdded .. | .abilityTriggered .. | .lustOverflow .. | .cardsMoved .. | .skipped ..
  | .gameOver .. => inferInstanceAs (Decidable True)

theorem gaugeAccount_ignores {g : Gauge} {e : Event α}
    (h : ∀ side name x y, e = .attributeChanged side name x y → ¬ (side = g.side ∧ name = g.name)) :
    (gaugeAccount g).Ignores e := by
  cases e with
  | attributeChanged side name x y =>
    have hother := h side name x y rfl
    exact fun v => ⟨fun hthis => absurd hthis hother, if_neg hother⟩
  | _ => exact fun v => ⟨trivial, rfl⟩

theorem gaugeAccount_ignores_moved {g : Gauge} (uids : List Nat) (goal : Pile) :
    (gaugeAccount g : Account α α).Ignores (.cardsMoved uids goal) :=
  gaugeAccount_ignores fun _ _ _ _ h => by cases h

namespace Battle

variable {s : Setting α} {turns : Bool} {b c : Battle α} {es : List (Event α)} {g : Gauge}

/-- The number stays, and nothing is told of it. -/
theorem tells_gauge_of_eq (hsame : c.gauge g = b.gauge g)
    (hes : ∀ e ∈ es, (gaugeAccount g).Ignores e) : (gaugeAccount g).Tells b es c := by
  refine Account.tells_of_ignores hes fun v hv => ?_
  show Same v (c.gauge g)
  rw [hsame]
  exact hv

/-- A number is stored with its report. -/
theorem tells_gauge_store [Reporting α] (b : Battle α) (g h : Gauge) (x : α) :
    (gaugeAccount g).Tells b (h.report (b.gauge h) x) (b.setGauge h x) := by
  by_cases hgh : h = g
  · subst hgh
    unfold Gauge.report
    split
    · next heq =>
      refine Account.tells_of_ignores (by simp) fun v hv => ?_
      show Same v ((b.setGauge h x).gauge h)
      rw [gauge_setGauge_self]
      exact hv.trans (Reporting.same_of_beq heq)
    · refine Account.tells_one fun v hv => ⟨fun _ => hv, ?_⟩
      show Same (if _ then _ else _) ((b.setGauge h x).gauge h)
      rw [if_pos ⟨rfl, rfl⟩, gauge_setGauge_self]
      exact .refl x
  · refine tells_gauge_of_eq (gauge_setGauge_of_ne b (Ne.symm hgh) x) fun e he => ?_
    rw [Gauge.mem_report he]
    refine gaugeAccount_ignores fun side name y z heq hthis => hgh ?_
    cases heq
    exact Gauge.eq_of_name hthis.1 hthis.2

omit [Scalar α] in
theorem gauge_setPiles (b : Battle α) (ps : Piles α) (stream : Random.Stream) (g : Gauge) :
    ({ b.setPiles ps with stream := stream } : Battle α).gauge g = b.gauge g := by
  cases g with
  | energy | maxEnergy => rfl
  | hp side | maxHp side | lust side | maxLust side | block side => cases side <;> rfl

omit [Scalar α] in
/-- Changes of a fighter that are no changes of its stats. -/
theorem gauge_mapFighter_of_same (side : Side) {f : Fighter α → Fighter α}
    (hsame : (f (b.fighter side)).SameNumbers (b.fighter side)) (g : Gauge) :
    (b.mapFighter side f).gauge g = b.gauge g := by
  obtain ⟨hhp, hmaxHp, hlust, hmaxLust, hblock⟩ := hsame
  cases side <;> cases g with
  | energy | maxEnergy => rfl
  | hp t => cases t <;> first | rfl | exact hhp
  | maxHp t => cases t <;> first | rfl | exact hmaxHp
  | lust t => cases t <;> first | rfl | exact hlust
  | maxLust t => cases t <;> first | rfl | exact hmaxLust
  | block t => cases t <;> first | rfl | exact hblock

/-- Settling changes no maximum and no block that was stored: the hit
points and the lust are all that has to be reported. -/
theorem GaugesStored.gauge_settle [Reporting α] (hb : b.GaugesStored) (side : Side) (g : Gauge) :
    (b.mapFighter side Fighter.settle).gauge g =
      ((b.setGauge (.hp side) (b.fighter side).settle.hp).setGauge (.lust side)
        (b.fighter side).settle.lust).gauge g := by
  have hmaximum {x : α} (h : ∃ y, x = maximum y) : maximum x = x := by
    obtain ⟨y, rfl⟩ := h
    exact roundTenth_atLeast_again maximum_eq_of_isFinite
  have hmaxHp : maximum (b.fighter side).maxHp = _ := hmaximum (hb (.maxHp side))
  have hmaxLust : maximum (b.fighter side).maxLust = _ := hmaximum (hb (.maxLust side))
  have hblock : roundTenth (atLeast 0 (b.fighter side).block) = (b.fighter side).block := by
    obtain ⟨y, hy⟩ : ∃ y, (b.fighter side).block = _ := hb (.block side)
    rw [hy]
    exact roundTenth_atLeast_again roundTenth_atLeast_eq
  cases side <;> cases g with
  | energy | maxEnergy => rfl
  | hp t | lust t => cases t <;> rfl
  | maxHp t => cases t <;> first | rfl | exact hmaxHp
  | maxLust t => cases t <;> first | rfl | exact hmaxLust
  | block t => cases t <;> first | rfl | exact hblock

theorem GaugesStored.setGauge (hb : b.GaugesStored) {h : Gauge} {x : α} (hx : h.Storable x) :
    (b.setGauge h x).GaugesStored := by
  intro g
  by_cases hgh : g = h
  · subst hgh
    rw [gauge_setGauge_self]
    exact hx
  · rw [gauge_setGauge_of_ne b hgh]
    exact hb g

theorem GaugesStored.of_eq (hb : b.GaugesStored) (hsame : ∀ g, c.gauge g = b.gauge g) :
    c.GaugesStored := by
  intro g
  rw [hsame g]
  exact hb g

/-- No number changes, and nothing is told of any. -/
theorem tells_gauge_of_same (hb : b.GaugesStored) (hsame : ∀ g, c.gauge g = b.gauge g)
    (hes : ∀ e ∈ es, (gaugeAccount g).Ignores e) :
    c.GaugesStored ∧ (gaugeAccount g).Tells b es c :=
  ⟨hb.of_eq hsame, tells_gauge_of_eq (hsame g) hes⟩

variable [Reporting α]

/-- One case for each change. -/
theorem Reported.tells_gauge (hg : g.isTold s.rules turns = true)
    (hnames : ∀ name a, s.catalog.get? name = some a → a.domain = .modifier → name ≠ g.name)
    (h : Reported s turns b es c) (hb : b.GaugesStored) :
    c.GaugesStored ∧ (gaugeAccount g).Tells b es c := by
  have hnone : ∀ e ∈ ([] : List (Event α)), (gaugeAccount g).Ignores e := List.forall_mem_nil _
  have hone {e : Event α} (he : (gaugeAccount g).Ignores e) :
      ∀ e' ∈ [e], (gaugeAccount g).Ignores e' := List.forall_mem_singleton.mpr he
  have hmoved := Account.ignores_moved (a := gaugeAccount (α := α) g) gaugeAccount_ignores_moved
  have hdrawn := Account.ignores_drawn (a := gaugeAccount (α := α) g) gaugeAccount_ignores_moved
  cases h with
  | unnoticed h => exact tells_gauge_of_same hb h.gauges hnone
  | aside e he =>
    refine tells_gauge_of_same hb (fun _ => rfl) (hone (gaugeAccount_ignores ?_))
    rintro side name x y rfl
    cases he
  | store h x storable => exact ⟨hb.setGauge storable, tells_gauge_store b g h x⟩
  | settle side =>
    refine ⟨?_, ?_⟩
    · refine GaugesStored.of_eq ?_ (hb.gauge_settle side)
      exact (hb.setGauge (h := .hp side) trivial).setGauge (h := .lust side) trivial
    · have hhp := tells_gauge_store b g (.hp side) (b.fighter side).settle.hp
      have hlust := tells_gauge_store (b.setGauge (.hp side) (b.fighter side).settle.hp) g
        (.lust side) (b.fighter side).settle.lust
      rw [gauge_setGauge_of_ne b (by simp)] at hlust
      have hrest := tells_gauge_of_eq (hb.gauge_settle side g) hnone
      have htold := (hhp.append hlust).append hrest
      rw [List.append_nil] at htold
      exact htold
  | modifier side name x y known =>
    obtain ⟨a, hget, hdomain⟩ := known
    refine tells_gauge_of_same hb (fun _ => rfl) (hone (gaugeAccount_ignores ?_))
    intro side' name' x' y' heq hthis
    cases heq
    exact hnames name a hget hdomain hthis.2
  | gain holder | lose holder =>
    refine tells_gauge_of_same hb (gauge_mapFighter_of_same holder ⟨rfl, rfl, rfl, rfl, rfl⟩)
      (hone (gaugeAccount_ignores ?_))
    intro _ _ _ _ heq
    cases heq
  | restack holder id n _ _ =>
    refine tells_gauge_of_same hb (gauge_mapFighter_of_same holder ?_)
      (hone (gaugeAccount_ignores ?_))
    · exact Fighter.sameNumbers_setStacks _ _ _
    · intro _ _ _ _ heq
      cases heq
  | draw count =>
    obtain ⟨ps, stream, -, heq⟩ := drawUpTo_steps s.rules.handLimit count b
    refine tells_gauge_of_same hb (fun g => ?_) (hdrawn _)
    rw [heq, gauge_setPiles]
  | take => exact tells_gauge_of_same hb (gauge_setPiles b _ b.stream) (hdrawn _)
  | put | discardHand => exact tells_gauge_of_same hb (gauge_setPiles b _ b.stream) (hmoved _ _)
  | play c goal _ =>
    exact tells_gauge_of_same hb (gauge_setPiles b _ b.stream)
      (hone (gaugeAccount_ignores_moved [c.uid] goal))
  | spend x ofTurns =>
    refine ⟨hb.setGauge (h := .energy) trivial, tells_gauge_of_eq ?_ hnone⟩
    refine gauge_setGauge_of_ne b (h := g) (g := .energy) ?_ x
    rintro rfl
    simp [Gauge.isTold, ofTurns] at hg
  | dropBlock side ofTurns resets =>
    have hamount : IsAmount (0 : α) := .inr rfl
    have hzero : (0 : α) = roundTenth (atLeast 0 0) := by
      rw [hamount.atLeast_eq, Settling.roundTenth_zero]
    refine ⟨hb.setGauge (h := .block side) ⟨0, hzero⟩, tells_gauge_of_eq ?_ hnone⟩
    refine gauge_setGauge_of_ne b (h := g) (g := .block side) ?_ 0
    rintro rfl
    simp [Gauge.isTold, ofTurns, resets] at hg

end Battle
end

/-! ## Runs -/

/-- No built-in modifier has the name of a number. -/
theorem Gauge.domain_get?_standard (g : Gauge) {a : Attribute}
    (hget : Catalog.standard.get? g.name = some a) : a.domain = .stat := by
  have hstat : (Catalog.standard.get? g.name).map Attribute.domain = some .stat := by
    cases g <;> rfl
  rw [hget] at hstat
  exact Option.some.inj hstat

variable {α : Type} [Scalar α]

theorem Snapshot.gaugesStored_load (snap : Snapshot α) (rules : Rules) :
    (snap.load rules).GaugesStored := by
  intro g
  cases g with
  | hp | lust | energy | maxEnergy => trivial
  | maxHp side | maxLust side | block side => cases side <;> exact ⟨_, rfl⟩

/-- **The events tell the stats.** A stored battle is loaded and a host
calls for anything, in any order. A listener knows some number at the
start: hit points, lust or one of the maxima; the energy, if no call goes
through turns or plays a card; or a block, under the same condition or if
the rules let block stay. From then on the listener only hears of changes
of that number. Each starts from the number that the listener knows of,
and in the end the listener knows the number that is stored, except that
a zero may have another sign. -/
theorem Session.gauges_told [Reporting α] (snap : Snapshot α) (rules : Rules)
    (chooser : Chooser α) (calls : List (Call α)) (g : Gauge)
    (hg : g.isTold rules (calls.any Call.takesTurns) = true) :
    let s := Session.load snap rules chooser
    let t := s.afterAll calls
    (gaugeAccount g).Fits (s.live.battle.gauge g) t.live.events ∧
      Same ((gaugeAccount g).replay (s.live.battle.gauge g) t.live.events)
        (t.live.battle.gauge g) := by
  intro s t
  have hheard : Live.Heard s.toSetting (calls.any Call.takesTurns) s.live t.live := by
    cases h : calls.any Call.takesTurns with
    | true => exact heard_afterAll s calls
    | false =>
      refine heard_afterAll_of_effects s fun c hc => ?_
      exact Bool.eq_false_iff.mpr (List.any_eq_false.mp h c hc)
  have hnames (name : String) (a : Attribute) (hget : Catalog.standard.get? name = some a)
      (hdomain : a.domain = .modifier) : name ≠ g.name := by
    rintro rfl
    rw [g.domain_get?_standard hget] at hdomain
    cases hdomain
  exact hheard.tells (Battle.Reported.tells_gauge hg hnames) (snap.gaugesStored_load rules) _
    (.refl _)

/-- The duel with a card that gives block. -/
def Snapshot.guarding : Snapshot Double :=
  { Snapshot.duel with hand := [.plain "guard" "Guard" 1 "ME.block+8"] }

namespace Session

/-- The player guards once and is hit in the turn after: hit points are
told, whatever happens to energy and block. -/
theorem gauges_told_guarding :
    let s := Session.load .guarding .standard .leftmost
    let t := s.afterAll [.playCard 1, .endPlayerTurn, .endPlayerTurn]
    (gaugeAccount (.hp .player)).Fits (s.live.battle.gauge (.hp .player)) t.live.events ∧
      Same ((gaugeAccount (.hp .player)).replay (s.live.battle.gauge (.hp .player)) t.live.events)
        (t.live.battle.gauge (.hp .player)) ∧
      t.live.battle.gauge (.hp .player) = ofNat 15 := by
  have htold := gauges_told .guarding .standard .leftmost
    [.playCard 1, .endPlayerTurn, .endPlayerTurn] (.hp .player) rfl
  revert htold
  generalize hs : Session.load Snapshot.guarding .standard .leftmost = s
  intro htold
  refine ⟨htold.1, htold.2, ?_⟩
  rw [← hs]
  decide +kernel

/-- After the card was paid for, the recorded energy is wrong. After its
block was lost in the next turn, the next report of block does not start
from the recorded one. -/
theorem energy_and_block_untold :
    let s := Session.load .guarding .standard .leftmost
    let t := s.afterAll [.playCard 1]
    let u := s.afterAll [.playCard 1, .endPlayerTurn, .runEffect "ME.block+8" .player]
    ¬ Same ((gaugeAccount .energy).replay (s.live.battle.gauge .energy) t.live.events)
        (t.live.battle.gauge .energy) ∧
      ¬ (gaugeAccount (.block .player)).Fits (s.live.battle.gauge (.block .player))
        u.live.events := by
  decide +kernel

end Session
end DeckDuel
