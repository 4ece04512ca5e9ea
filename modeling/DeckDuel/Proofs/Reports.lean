/-
DeckDuel.Proofs.Reports — changes of a battle with the events that tell
of them.

* `Gauge` — a number of the battle whose changes are reported: five
  stats of each side, the energy, and the most energy.
* `Battle.Unnoticed` — a change of none of these, of no held status and
  of no card's pile. No event tells of it.
* `Battle.Reported` — one change and its events. A unit reports what it
  stores at once; what turns and played cards do to energy and block is
  told by nothing, and `turns` says whether it may occur.
* `Battle.Told` — such changes one after another, with all their events.
* `Live.Heard` — what the battle became, with the events since. One
  lemma for each change that the engine makes (`heard_…`).
-/
import DeckDuel.Proofs.Change

namespace DeckDuel

variable {α : Type}

/-! ## Gauges -/

/-- A number whose changes are reported. -/
inductive Gauge where
  | hp (side : Side)
  | maxHp (side : Side)
  | lust (side : Side)
  | maxLust (side : Side)
  | block (side : Side)
  | energy
  | maxEnergy
deriving DecidableEq, Repr

namespace Gauge

/-- The side that events about a number name. -/
def side : Gauge → Side
  | hp side | maxHp side | lust side | maxLust side | block side => side
  | energy | maxEnergy => .player

/-- The name of a number in events. -/
def name : Gauge → String
  | hp _ => "hp"
  | maxHp _ => "max_hp"
  | lust _ => "lust"
  | maxLust _ => "max_lust"
  | block _ => "block"
  | energy => "energy"
  | maxEnergy => "max_energy"

/-- A number is known by its side and its name. -/
theorem eq_of_name {g h : Gauge} (hside : g.side = h.side) (hname : g.name = h.name) : g = h := by
  cases g <;> cases h <;> simp_all [side, name]

end Gauge

namespace Battle

/-- The number that is stored. -/
def gauge (b : Battle α) : Gauge → α
  | .hp side => (b.fighter side).hp
  | .maxHp side => (b.fighter side).maxHp
  | .lust side => (b.fighter side).lust
  | .maxLust side => (b.fighter side).maxLust
  | .block side => (b.fighter side).block
  | .energy => b.player.energy
  | .maxEnergy => b.player.maxEnergy

/-- The battle with another number stored. -/
def setGauge (b : Battle α) (g : Gauge) (x : α) : Battle α :=
  match g with
  | .hp side => b.mapFighter side fun f => { f with hp := x }
  | .maxHp side => b.mapFighter side fun f => { f with maxHp := x }
  | .lust side => b.mapFighter side fun f => { f with lust := x }
  | .maxLust side => b.mapFighter side fun f => { f with maxLust := x }
  | .block side => b.mapFighter side fun f => { f with block := x }
  | .energy => b.setEnergy x
  | .maxEnergy => { b with player := { b.player with maxEnergy := x } }

@[simp] theorem gauge_setGauge_self (b : Battle α) (g : Gauge) (x : α) :
    (b.setGauge g x).gauge g = x := by
  cases g with
  | energy | maxEnergy => rfl
  | hp side | maxHp side | lust side | maxLust side | block side => cases side <;> rfl

theorem gauge_setGauge_of_ne (b : Battle α) {g h : Gauge} (hne : h ≠ g) (x : α) :
    (b.setGauge g x).gauge h = b.gauge h := by
  cases g with
  | energy | maxEnergy => cases h <;> first | rfl | exact absurd rfl hne
  | hp side | maxHp side | lust side | maxLust side | block side =>
    cases side <;> cases h <;>
      first | rfl | (rename_i s; cases s <;> first | rfl | exact absurd rfl hne)

@[simp] theorem statuses_setGauge (b : Battle α) (g : Gauge) (x : α) (side : Side) :
    ((b.setGauge g x).fighter side).statuses = (b.fighter side).statuses := by
  cases g with
  | energy | maxEnergy => cases side <;> rfl
  | hp s | maxHp s | lust s | maxLust s | block s => cases s <;> cases side <;> rfl

@[simp] theorem piles_setGauge (b : Battle α) (g : Gauge) (x : α) :
    (b.setGauge g x).piles = b.piles := by
  cases g with
  | energy | maxEnergy => rfl
  | hp side | maxHp side | lust side | maxLust side | block side => cases side <;> rfl

/-- Two battles show the same to those who listen. -/
structure Unnoticed (b c : Battle α) : Prop where
  gauges : ∀ g, c.gauge g = b.gauge g
  statuses : ∀ side, (c.fighter side).statuses = (b.fighter side).statuses
  places : ∀ p, (c.piles.get p).map Card.uid = (b.piles.get p).map Card.uid

/-- The fighters and the energy make up the numbers. -/
theorem Unnoticed.of_fighters {b c : Battle α}
    (hnumbers : ∀ side, (c.fighter side).SameNumbers (b.fighter side))
    (hstatuses : ∀ side, (c.fighter side).statuses = (b.fighter side).statuses)
    (henergy : c.player.energy = b.player.energy)
    (hmaxEnergy : c.player.maxEnergy = b.player.maxEnergy)
    (hplaces : ∀ p, (c.piles.get p).map Card.uid = (b.piles.get p).map Card.uid) :
    b.Unnoticed c := by
  refine ⟨fun g => ?_, hstatuses, hplaces⟩
  cases g with
  | hp side => exact (hnumbers side).hp
  | maxHp side => exact (hnumbers side).maxHp
  | lust side => exact (hnumbers side).lust
  | maxLust side => exact (hnumbers side).maxLust
  | block side => exact (hnumbers side).block
  | energy => exact henergy
  | maxEnergy => exact hmaxEnergy

/-- Whatever else changes, the player and the enemy's fighter make up
what is shown. -/
theorem Unnoticed.of_player {b c : Battle α} (hplayer : c.player = b.player)
    (henemy : c.enemy.fighter = b.enemy.fighter) : b.Unnoticed c := by
  have hfighter (side : Side) : c.fighter side = b.fighter side := by
    cases side with
    | player => exact congrArg Player.fighter hplayer
    | enemy => exact henemy
  refine .of_fighters (fun side => ?_) (fun side => ?_) ?_ ?_ fun p => ?_
  · rw [hfighter side]
    exact .refl _
  · rw [hfighter side]
  · rw [hplayer]
  · rw [hplayer]
  · rw [piles, hplayer]
    rfl

/-- A fighter's name, abilities, modifiers and overflow effect are told
by no event. -/
theorem Unnoticed.setFighter (b : Battle α) (side : Side) {f : Fighter α}
    (hnumbers : f.SameNumbers (b.fighter side))
    (hstatuses : f.statuses = (b.fighter side).statuses) : b.Unnoticed (b.setFighter side f) := by
  cases side with
  | player =>
    refine .of_fighters (fun t => ?_) (fun t => ?_) rfl rfl fun _ => rfl
    · cases t with
      | player => exact hnumbers
      | enemy => exact .refl _
    · cases t with
      | player => exact hstatuses
      | enemy => rfl
  | enemy =>
    refine .of_fighters (fun t => ?_) (fun t => ?_) rfl rfl fun _ => rfl
    · cases t with
      | player => exact .refl _
      | enemy => exact hnumbers
    · cases t with
      | player => rfl
      | enemy => exact hstatuses

end Battle

/-! ## Events -/

/-- Does an event tell of something other than a stored number, a held
status or a pile? -/
def Event.isAside : Event α → Bool
  | .attributeChanged .. | .statusApplied .. | .stacksChanged .. | .statusRemoved ..
  | .cardsMoved .. => false
  | _ => true

/-- The report that cards arrived in a pile. -/
def movedReport (uids : List Nat) (goal : Pile) : List (Event α) :=
  if uids.isEmpty then [] else [.cardsMoved uids goal]

/-- The report of a draw. -/
def Drawn.report (d : Drawn) : List (Event α) :=
  movedReport d.toHand .hand ++ movedReport d.burned .discard

/-- The uids are what some selector picks from the piles. -/
def Setting.Picks (s : Setting α) (ps : Piles α) (uids : List Nat) : Prop :=
  ∃ (home : Pile) (current : Option Nat) (selector : Selector) (ch : Chance),
    uids = ((⟨ps, home, current, s.chooser⟩ : Table α).select selector ch).1

variable [Scalar α]

/-- The report of a number that was stored. -/
def Gauge.report (g : Gauge) (before after : α) : List (Event α) :=
  if before == after then [] else [.attributeChanged g.side g.name before after]

/-- What may be stored: a maximum and a block that were brought into
their bounds. -/
def Gauge.Storable : Gauge → α → Prop
  | .maxHp _, x | .maxLust _, x => ∃ y, x = maximum y
  | .block _, x => ∃ y, x = Scalar.roundTenth (Scalar.atLeast 0 y)
  | .hp _, _ | .lust _, _ | .energy, _ | .maxEnergy, _ => True

/-- One change, and the events for it. -/
inductive Battle.Reported (s : Setting α) (turns : Bool) :
    Battle α → List (Event α) → Battle α → Prop where
  | unnoticed {b c : Battle α} (h : b.Unnoticed c) : Reported s turns b [] c
  | aside (b : Battle α) (e : Event α) (h : e.isAside = true) : Reported s turns b [e] b
  | store (b : Battle α) (g : Gauge) (x : α) (storable : g.Storable x) :
      Reported s turns b (g.report (b.gauge g) x) (b.setGauge g x)
  /-- Of a fighter whose stats are brought into their bounds, hit points
  and lust are reported. -/
  | settle (b : Battle α) (side : Side) :
      Reported s turns b
        ((Gauge.hp side).report (b.fighter side).hp (b.fighter side).settle.hp ++
          (Gauge.lust side).report (b.fighter side).lust (b.fighter side).settle.lust)
        (b.mapFighter side Fighter.settle)
  /-- A stored modifier is no gauge, although its reports look alike. -/
  | modifier (b : Battle α) (side : Side) (name : String) (x y : α)
      (known : ∃ a, s.catalog.get? name = some a ∧ a.domain = .modifier) :
      Reported s turns b [.attributeChanged side name x y] b
  | gain (b : Battle α) (holder : Side) (d : StatusDefinition α) (stackCount : Nat)
      (defined : s.codex.get? d.id = some d) (positive : 0 < stackCount)
      (capped : stackCount ≤ d.stackCap s.rules.defaultMaxStacks)
      (free : (b.fighter holder).stacksOf d.id = 0) :
      Reported s turns b [.statusApplied holder d.id stackCount]
        (b.mapFighter holder fun f =>
          { f with statuses := f.statuses ++ [.ofDefinition d stackCount] })
  | lose (b : Battle α) (holder : Side) (id : String)
      (held : ((b.fighter holder).statusIndex? id).isSome) :
      Reported s turns b [.statusRemoved holder id]
        (b.mapFighter holder fun f => f.dropStatus id)
  | restack (b : Battle α) (holder : Side) (id : String) (stackCount : Nat)
      (held : ((b.fighter holder).statusIndex? id).isSome) (positive : 0 < stackCount) :
      Reported s turns b
        [.stacksChanged holder id ((b.fighter holder).stacksOf id) (min stackCount (s.stackCap id))]
        (b.mapFighter holder fun f => f.setStacks id (min stackCount (s.stackCap id)))
  | draw (b : Battle α) (count : Nat) :
      Reported s turns b (b.drawUpTo s.rules.handLimit count).1.report
        (b.drawUpTo s.rules.handLimit count).2
  | take (b : Battle α) (uids : List Nat) (picked : s.Picks b.piles uids) :
      Reported s turns b (b.piles.takeIn s.rules.handLimit uids).1.report
        (b.setPiles (b.piles.takeIn s.rules.handLimit uids).2)
  | put (b : Battle α) (goal : Pile) (uids : List Nat) (picked : s.Picks b.piles uids) :
      Reported s turns b (movedReport (b.piles.moveAll goal uids).1 goal)
        (b.setPiles (b.piles.moveAll goal uids).2)
  /-- A card of the hand is put away. -/
  | play (b : Battle α) (c : Card α) (goal : Pile) (held : c ∈ b.piles.hand) :
      Reported s turns b [.cardsMoved [c.uid] goal] (b.setPiles (b.piles.move c.uid goal))
  | discardHand (b : Battle α) :
      Reported s turns b (movedReport (b.piles.hand.map Card.uid) .discard)
        (b.setPiles b.piles.discardHand)
  /-- A turn begins with other energy, and cards are paid for. -/
  | spend (b : Battle α) (x : α) (ofTurns : turns = true) : Reported s turns b [] (b.setEnergy x)
  | dropBlock (b : Battle α) (side : Side) (ofTurns : turns = true)
      (resets : s.rules.resetsBlock = true) :
      Reported s turns b [] (b.mapFighter side fun f => { f with block := 0 })

/-- Changes one after another, and the events for them. -/
inductive Battle.Told (s : Setting α) (turns : Bool) :
    Battle α → List (Event α) → Battle α → Prop where
  | nil (b : Battle α) : Told s turns b [] b
  | one {b c : Battle α} {es : List (Event α)} (h : Battle.Reported s turns b es c) :
      Told s turns b es c
  | append {b c d : Battle α} {es es' : List (Event α)} (first : Told s turns b es c)
      (rest : Told s turns c es' d) : Told s turns b (es ++ es') d

/-- What is reported outside turns is reported in turns, too. -/
theorem Battle.Reported.mono {s : Setting α} {turns : Bool} {b c : Battle α} {es : List (Event α)}
    (h : Battle.Reported s false b es c) : Battle.Reported s turns b es c := by
  cases h with
  | unnoticed h => exact .unnoticed h
  | aside e h => exact .aside b e h
  | store g x storable => exact .store b g x storable
  | settle side => exact .settle b side
  | modifier side name x y known => exact .modifier b side name x y known
  | gain holder d n defined positive capped free =>
    exact .gain b holder d n defined positive capped free
  | lose holder id held => exact .lose b holder id held
  | restack holder id n held positive => exact .restack b holder id n held positive
  | draw count => exact .draw b count
  | take uids picked => exact .take b uids picked
  | put goal uids picked => exact .put b goal uids picked
  | play c goal held => exact .play b c goal held
  | discardHand => exact .discardHand b
  | spend _ ofTurns => cases ofTurns
  | dropBlock _ ofTurns => cases ofTurns

theorem Battle.Told.mono {s : Setting α} {turns : Bool} {b c : Battle α} {es : List (Event α)}
    (h : Battle.Told s false b es c) : Battle.Told s turns b es c := by
  induction h with
  | nil b => exact .nil b
  | one h => exact .one h.mono
  | append _ _ ih₁ ih₂ => exact .append ih₁ ih₂

namespace Live

/-! ## Events of a running battle -/

omit [Scalar α] in
@[simp] theorem events_emit (l : Live α) (e : Event α) : (l.emit e).events = l.events ++ [e] :=
  List.reverse_cons

omit [Scalar α] in
/-- Other notes are no events. -/
theorem events_write (l : Live α) {n : Note α} (h : ∀ e, n ≠ .event e) :
    (l.write n).events = l.events := by
  cases n with
  | event e => exact absurd rfl (h e)
  | entered | fired | refused | overflowEnded => rfl

theorem events_reportChange (l : Live α) (g : Gauge) (x y : α) :
    (l.reportChange g.side g.name x y).events = l.events ++ g.report x y := by
  unfold reportChange Gauge.report
  split
  · exact (List.append_nil _).symm
  · exact events_emit l _

theorem fighter_reportChange (l : Live α) (side : Side) (attr : String) (x y : α) (t : Side) :
    (l.reportChange side attr x y).fighter t = l.fighter t :=
  congrArg (Battle.fighter · t) (reportChange_battle l side attr x y)

omit [Scalar α] in
theorem events_reportMoved (l : Live α) (uids : List Nat) (goal : Pile) :
    (l.reportMoved uids goal).events = l.events ++ movedReport uids goal := by
  unfold reportMoved movedReport
  split
  · exact (List.append_nil _).symm
  · exact events_emit l _

omit [Scalar α] in
@[simp] theorem battle_reportMoved (l : Live α) (uids : List Nat) (goal : Pile) :
    (l.reportMoved uids goal).battle = l.battle := by
  unfold reportMoved
  split <;> rfl

omit [Scalar α] in
theorem events_reportDrawn (l : Live α) (d : Drawn) :
    (l.reportDrawn d).events = l.events ++ d.report := by
  rw [reportDrawn, events_reportMoved, events_reportMoved, List.append_assoc]
  rfl

omit [Scalar α] in
@[simp] theorem battle_reportDrawn (l : Live α) (d : Drawn) :
    (l.reportDrawn d).battle = l.battle := by
  simp [reportDrawn]

/-! ## What is heard -/

/-- The battle changed as the events since tell. -/
def Heard (s : Setting α) (turns : Bool) (l m : Live α) : Prop :=
  ∃ es, m.events = l.events ++ es ∧ Battle.Told s turns l.battle es m.battle

variable {s : Setting α} {turns : Bool} {l m k : Live α}

theorem Heard.refl (l : Live α) : Heard s turns l l :=
  ⟨[], (List.append_nil _).symm, .nil _⟩

theorem Heard.trans (h : Heard s turns l m) (h' : Heard s turns m k) : Heard s turns l k := by
  obtain ⟨es, hevents, hreported⟩ := h
  obtain ⟨es', hevents', hreported'⟩ := h'
  exact ⟨es ++ es', by rw [hevents', hevents, List.append_assoc], .append hreported hreported'⟩

instance : IsPreorder (Live α) (Heard s turns) where
  refl := .refl
  trans _ _ _ := .trans

theorem Heard.mono (h : Heard s false l m) : Heard s turns l m := by
  obtain ⟨es, hevents, hreported⟩ := h
  exact ⟨es, hevents, hreported.mono⟩

/-- Nothing is reported. -/
theorem heard_silent (hevents : m.events = l.events)
    (h : Battle.Told s turns l.battle [] m.battle) : Heard s turns l m :=
  ⟨[], hevents.trans (List.append_nil _).symm, h⟩

theorem heard_unnoticed (hevents : m.events = l.events) (h : l.battle.Unnoticed m.battle) :
    Heard s turns l m :=
  heard_silent hevents (.one (.unnoticed h))

/-- Nothing changes but what is no part of the battle. -/
theorem heard_same (hevents : m.events = l.events) (h : m.battle = l.battle) :
    Heard s turns l m :=
  heard_silent hevents (h ▸ .nil _)

theorem heard_emit (l : Live α) {e : Event α} (h : e.isAside = true) :
    Heard s turns l (l.emit e) :=
  ⟨[e], events_emit l e, .one (.aside _ e h)⟩

/-! ### Numbers -/

/-- A number is stored and reported. -/
theorem heard_store (l : Live α) (g : Gauge) {x : α} {f : Battle α → Battle α}
    (h : f l.battle = l.battle.setGauge g x) (storable : g.Storable x) :
    Heard s turns l ((l.mapBattle f).reportChange g.side g.name (l.battle.gauge g) x) := by
  have hbattle : ((l.mapBattle f).reportChange g.side g.name (l.battle.gauge g) x).battle =
      l.battle.setGauge g x := (reportChange_battle _ _ _ _ _).trans h
  exact ⟨_, events_reportChange _ g _ _, hbattle ▸ .one (.store l.battle g x storable)⟩

theorem heard_settle (l : Live α) (side : Side) : Heard s turns l (l.settle side) := by
  have hfighter : (l.mapFighter side Fighter.settle).fighter side = (l.fighter side).settle :=
    Battle.fighter_setFighter_self _ _ _
  have hbattle : (l.settle side).battle = l.battle.mapFighter side Fighter.settle := by
    rw [settle, reportChange_battle, reportChange_battle]
    rfl
  have hevents : (l.settle side).events = l.events ++
      ((Gauge.hp side).report (l.fighter side).hp (l.fighter side).settle.hp ++
        (Gauge.lust side).report (l.fighter side).lust (l.fighter side).settle.lust) := by
    have hhp := events_reportChange (l.mapFighter side Fighter.settle) (.hp side)
      (l.fighter side).hp (l.fighter side).settle.hp
    rw [settle, fighter_reportChange, hfighter, ← List.append_assoc]
    exact (events_reportChange _ (.lust side) _ _).trans (congrArg (· ++ _) hhp)
  exact ⟨_, hevents, hbattle ▸ .one (.settle l.battle side)⟩

theorem heard_markFallen (l : Live α) (side : Side) : Heard s turns l (l.markFallen side) := by
  unfold markFallen
  split
  · exact heard_unnoticed rfl (.of_player rfl rfl)
  · exact .refl l

theorem heard_commitHp (l : Live α) (side : Side) (next : α) :
    Heard s turns l (l.commitHp side next) := by
  unfold commitHp
  split
  · refine Heard.trans ?_ (heard_markFallen _ side)
    exact heard_store l (.hp side) (by cases side <;> rfl) trivial
  · exact .refl l

theorem heard_commitLust (l : Live α) (side : Side) (next : α) :
    Heard s turns l (l.commitLust side next) :=
  heard_store l (.lust side) (by cases side <;> rfl) trivial

theorem heard_commitBlock (l : Live α) (side : Side) (next : α) :
    Heard s turns l (l.commitBlock side next) :=
  heard_store l (.block side) (by cases side <;> rfl) ⟨next, by cases side <;> rfl⟩

theorem heard_commitEnergy (l : Live α) (next : α) : Heard s turns l (l.commitEnergy next) :=
  heard_store l .energy rfl trivial

theorem heard_commitMaxHp (l : Live α) (side : Side) (next : α) :
    Heard s turns l (l.commitMaxHp side next) :=
  Heard.trans (heard_store l (.maxHp side) (by cases side <;> rfl) ⟨next, by cases side <;> rfl⟩)
    (heard_settle _ side)

theorem heard_commitMaxLust (l : Live α) (side : Side) (next : α) :
    Heard s turns l (l.commitMaxLust side next) :=
  Heard.trans (heard_store l (.maxLust side) (by cases side <;> rfl) ⟨next, by cases side <;> rfl⟩)
    (heard_settle _ side)

theorem heard_commitMaxEnergy (l : Live α) (next : α) : Heard s turns l (l.commitMaxEnergy next) :=
  heard_store l .maxEnergy rfl trivial

theorem heard_clearLust (l : Live α) (side : Side) : Heard s turns l (l.clearLust side) :=
  heard_store l (.lust side) (by cases side <;> rfl) trivial

/-! ### Attachments -/

/-- A change and its event. -/
theorem heard_told (l : Live α) {f : Battle α → Battle α} {e : Event α}
    (h : Battle.Reported s turns l.battle [e] (f l.battle)) :
    Heard s turns l ((l.mapBattle f).emit e) :=
  ⟨[e], events_emit _ e, .one h⟩

/-- A change of a fighter that no event tells of. -/
theorem heard_mapFighter (l : Live α) (side : Side) {f : Fighter α → Fighter α}
    (hnumbers : (f (l.fighter side)).SameNumbers (l.fighter side))
    (hstatuses : (f (l.fighter side)).statuses = (l.fighter side).statuses) :
    Heard s turns l (l.mapFighter side f) :=
  heard_unnoticed rfl (.setFighter l.battle side hnumbers hstatuses)

theorem heard_storeModifier (l : Live α) (side : Side) {name : String} {a : Attribute}
    (hknown : s.catalog.get? name = some a) (hdomain : a.domain = .modifier) (x y : α) :
    Heard s turns l ((l.mapFighter side fun f => f.storeModifier name y).emit
      (.attributeChanged side name x y)) := by
  have hstored : Heard s turns l (l.mapFighter side fun f => f.storeModifier name y) :=
    heard_mapFighter l side ⟨rfl, rfl, rfl, rfl, rfl⟩ rfl
  exact hstored.trans ⟨[_], events_emit _ _, .one (.modifier _ side name x y ⟨a, hknown, hdomain⟩)⟩

theorem heard_addAbility (l : Live α) (side : Side) (effect : String) :
    Heard s turns l (l.addAbility? side effect).2 := by
  have hmade : Heard s turns l { l with abilitiesMade := l.abilitiesMade + 1 } := heard_same rfl rfl
  simp only [addAbility?]
  split
  · exact hmade
  · next a _ =>
    have hadded : Heard s turns { l with abilitiesMade := l.abilitiesMade + 1 }
        ({ l with abilitiesMade := l.abilitiesMade + 1 }.mapFighter side fun f =>
          { f with abilities := f.abilities ++ [a] }) :=
      heard_mapFighter _ side ⟨rfl, rfl, rfl, rfl, rfl⟩ rfl
    exact hmade.trans (hadded.trans (heard_emit _ rfl))

theorem heard_removeAbilities (l : Live α) (side : Side) (key : String) :
    Heard s turns l (l.removeAbilities side key).2 := by
  show Heard s turns l (l.mapFighter side fun f =>
    { f with abilities := (l.fighter side).abilities.filter fun a => !meantBy key a })
  exact heard_mapFighter l side ⟨rfl, rfl, rfl, rfl, rfl⟩ rfl

/-! ### Statuses -/

theorem heard_gainStatus (l : Live α) (holder : Side) (d : StatusDefinition α) (stackCount : Nat)
    (defined : s.codex.get? d.id = some d) (positive : 0 < stackCount)
    (capped : stackCount ≤ d.stackCap s.rules.defaultMaxStacks)
    (free : (l.fighter holder).stacksOf d.id = 0) :
    Heard s turns l (l.gainStatus holder d stackCount) :=
  heard_told l (.gain l.battle holder d stackCount defined positive capped free)

/-- A status goes with its event; the modifiers that go with it have
none. -/
theorem heard_loseStatus (l : Live α) (holder : Side) (id : String)
    (d : Option (StatusDefinition α)) : Heard s turns l (l.loseStatus holder id d) := by
  unfold loseStatus
  split
  · next hheld =>
    generalize (d.map StatusDefinition.mentionedModifiers).getD [] = names
    have hlose : Battle.Reported s turns l.battle [.statusRemoved holder id]
        (l.battle.mapFighter holder fun f => f.dropStatus id) := .lose l.battle holder id hheld
    have hclear : (l.battle.mapFighter holder fun f => f.dropStatus id).Unnoticed
        (l.battle.mapFighter holder fun f => names.foldl Fighter.clearModifier (f.dropStatus id)) := by
      obtain ⟨hnumbers, hstatuses⟩ :=
        clearModifiers_kept names ((l.battle.fighter holder).dropStatus id)
      have hset := Battle.Unnoticed.setFighter
        (l.battle.mapFighter holder fun f => f.dropStatus id) holder
        (f := names.foldl Fighter.clearModifier ((l.battle.fighter holder).dropStatus id))
      rw [Battle.mapFighter, Battle.fighter_setFighter_self, Battle.setFighter_setFighter] at hset
      exact hset hnumbers hstatuses
    exact ⟨[_], events_emit _ _, .append (.one hlose) (.one (.unnoticed hclear))⟩
  · exact .refl l

theorem heard_commitStacks (l : Live α) (holder : Side) (id : String) (stackCount : Nat)
    (held : ((l.fighter holder).statusIndex? id).isSome) (positive : 0 < stackCount) :
    Heard s turns l (l.commitStacks holder id (min stackCount (s.stackCap id))) := by
  simp only [commitStacks]
  split
  · exact .refl l
  · exact heard_told l (.restack l.battle holder id stackCount held positive)

/-! ### Cards -/

theorem heard_draw (l : Live α) (count : Nat) :
    Heard s turns l ((l.mapBattle fun _ => (l.battle.drawUpTo s.rules.handLimit count).2).reportDrawn
      (l.battle.drawUpTo s.rules.handLimit count).1) := by
  refine ⟨_, events_reportDrawn _ _, ?_⟩
  rw [battle_reportDrawn]
  exact .one (.draw l.battle count)

theorem heard_take (l : Live α) {uids : List Nat} (picked : s.Picks l.battle.piles uids) :
    Heard s turns l ((l.mapBattle fun b =>
      b.setPiles (l.battle.piles.takeIn s.rules.handLimit uids).2).reportDrawn
        (l.battle.piles.takeIn s.rules.handLimit uids).1) := by
  refine ⟨_, events_reportDrawn _ _, ?_⟩
  rw [battle_reportDrawn]
  exact .one (.take l.battle uids picked)

theorem heard_put (l : Live α) (goal : Pile) {uids : List Nat}
    (picked : s.Picks l.battle.piles uids) :
    Heard s turns l ((l.mapBattle fun b =>
      b.setPiles (l.battle.piles.moveAll goal uids).2).reportMoved
        (l.battle.piles.moveAll goal uids).1 goal) := by
  refine ⟨_, events_reportMoved _ _ _, ?_⟩
  rw [battle_reportMoved]
  exact .one (.put l.battle goal uids picked)

end Live
end DeckDuel
