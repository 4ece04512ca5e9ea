/-
DeckDuel.Proofs.Outcome — a battle is decided once, and rightly.

* `Live.Undecided` — nothing is decided, no text runs, both sides have
  hit points, and no side is marked as fallen.
* `Live.Lost` — a side is marked as fallen, or has no hit points: what
  the end of an outermost text looks at.
* `Live.gameOvers` — how often the end of the battle was reported.
* `Live.Ruled`, `Live.Marked` — what a step may do to the outcome and
  its reports, and what it does to the marks. `Step.ruled` and
  `Step.marked` show it of every step.
* `Live.Sound` — the invariant: while no text runs and nothing is
  decided, the battle is undecided in the sense above, and its end was
  reported once if it came and never if it did not.
* `Session.decided_once` — all of it, for any run of calls.

The numbers need not all compare, since hit points that were no number
would be neither positive nor lost. That they stay numbers is part of
the invariant.
-/
import DeckDuel.Proofs.Call
import DeckDuel.Proofs.Double

namespace DeckDuel

open Scalar

variable {α : Type} [Scalar α]

/-! ## Reports of the end -/

/-- Is an event the end of the battle? -/
def Event.isGameOver : Event α → Bool
  | .gameOver _ => true
  | _ => false

namespace Live

/-- How often the end of the battle was reported. -/
def gameOvers (l : Live α) : Nat := l.events.countP Event.isGameOver

omit [Scalar α] in
theorem gameOvers_write (l : Live α) {n : Note α} (ongoing : ∀ w, n ≠ .event (.gameOver w)) :
    (l.write n).gameOvers = l.gameOvers := by
  cases n with
  | event e =>
    cases e with
    | gameOver w => exact absurd rfl (ongoing w)
    | _ => simp [gameOvers, events, write, Entry.event?, Event.isGameOver]
  | _ => rfl

omit [Scalar α] in
theorem gameOvers_emit_gameOver (l : Live α) (w : Side) :
    (l.emit (.gameOver w)).gameOvers = l.gameOvers + 1 := by
  simp [gameOvers, events, emit, write, Entry.event?, Event.isGameOver]

end Live

/-! ## What changes leave alone -/

namespace Battle.Change

variable {s : Setting α} {i : Bool} {b c : Battle α}

theorem outcome_eq (h : Change s i b c) : c.outcome = b.outcome := by
  cases h with
  | attachments _ side | gain _ side | restack _ side | dropBlock _ side | numbers _ side =>
    cases side <;> rfl
  | cards | pay | refill | aside | energy | mark => rfl

/-- Marks are set, and never taken back. -/
theorem fallen_mono (h : Change s i b c) {t : Side} (ht : b.fallen.get t = true) :
    c.fallen.get t = true := by
  cases h with
  | attachments _ side | gain _ side | restack _ side | dropBlock _ side | numbers _ side =>
    cases side <;> exact ht
  | cards | pay | refill | aside | energy => exact ht
  | mark _ side =>
    by_cases hts : t = side
    · subst hts
      exact Both.get_set_self _ _ _
    · cases t <;> cases side <;> first | exact absurd rfl hts | exact ht

/-- What comes between texts as well neither marks a side nor touches
hit points. -/
theorem calm (h : Change s false b c) :
    c.fallen = b.fallen ∧ ∀ side, (c.fighter side).hp = (b.fighter side).hp := by
  have hset (side : Side) {f : Fighter α} (hf : f.hp = (b.fighter side).hp) (t : Side) :
      ((b.setFighter side f).fighter t).hp = (b.fighter t).hp := by
    by_cases hts : t = side
    · subst hts
      rw [fighter_setFighter_self, hf]
    · cases t <;> cases side <;> first | exact absurd rfl hts | rfl
  cases h with
  | attachments _ side f numbers _ => exact ⟨by cases side <;> rfl, hset side numbers.hp⟩
  | gain _ side | dropBlock _ side => exact ⟨by cases side <;> rfl, hset side rfl⟩
  | restack _ side id n =>
    exact ⟨by cases side <;> rfl, hset side (Fighter.sameNumbers_setStacks _ _ _).hp⟩
  | cards | pay | refill | aside => exact ⟨rfl, fun side => by cases side <;> rfl⟩

end Battle.Change

namespace Live

variable {s : Setting α} {i : Bool} {l m : Live α}

/-- Between entering and leaving, nothing is decided or reported. -/
theorem Touches.verdict_eq (h : Touches s i l m) :
    m.battle.outcome = l.battle.outcome ∧ m.gameOvers = l.gameOvers := by
  induction h with
  | refl => exact ⟨rfl, rfl⟩
  | tail _ h ih =>
    cases h with
    | note n ongoing => exact ⟨ih.1, (gameOvers_write _ ongoing).trans ih.2⟩
    | battle hchange => exact ⟨hchange.outcome_eq.trans ih.1, ih.2⟩
    | counters => exact ih

theorem Touches.fallen_mono (h : Touches s i l m) {t : Side}
    (ht : l.battle.fallen.get t = true) : m.battle.fallen.get t = true := by
  induction h with
  | refl => exact ht
  | tail _ h ih =>
    cases h with
    | note | counters => exact ih
    | battle hchange => exact hchange.fallen_mono ih

theorem Touches.calm (h : Touches s false l m) : m.battle.fallen = l.battle.fallen ∧
    ∀ side, (m.battle.fighter side).hp = (l.battle.fighter side).hp := by
  induction h with
  | refl => exact ⟨rfl, fun _ => rfl⟩
  | tail _ h ih =>
    cases h with
    | note | counters => exact ih
    | battle hchange =>
      obtain ⟨hfallen, hhp⟩ := hchange.calm
      exact ⟨hfallen.trans ih.1, fun side => (hhp side).trans (ih.2 side)⟩

/-! ## Undecided battles -/

/-- A battle that is under way, and no text of it is running. -/
structure Undecided (l : Live α) : Prop where
  idle : l.depth = 0
  open_ : l.battle.outcome = none
  alive : ∀ side, 0 < (l.battle.fighter side).hp
  unmarked : ∀ side, l.battle.fallen.get side = false

/-- A side is marked as fallen, or has no hit points. -/
def Lost (l : Live α) (side : Side) : Prop :=
  l.battle.fallen.get side = true ∨ (l.battle.fighter side).hp ≤ 0

theorem hasFallen_iff (l : Live α) (side : Side) :
    hasFallen l.battle side = true ↔ l.Lost side := by
  simp only [hasFallen, Fighter.isDead, Bool.or_eq_true, decide_eq_true_eq, Lost]

/-- The end of an outermost text of an undecided battle: the player wins
if the enemy lost, whoever else did, and the enemy wins if only the
player lost. -/
theorem leave_cases (hdepth : l.depth = 1) (hopen : l.battle.outcome = none) :
    l.Lost .enemy ∧ l.leave = conclude { l with depth := 0 } .player ∨
      ¬ l.Lost .enemy ∧ l.Lost .player ∧ l.leave = conclude { l with depth := 0 } .enemy ∨
      ¬ l.Lost .enemy ∧ ¬ l.Lost .player ∧ l.leave = { l with depth := 0 } := by
  have hleave : l.leave = decideFallen { l with depth := 0 } := by
    simp only [leave, hdepth, if_true]
  rw [hleave, ← hasFallen_iff, ← hasFallen_iff]
  simp only [decideFallen, Battle.isOver, hopen, Option.isSome_none, winner?]
  by_cases henemy : hasFallen l.battle .enemy = true
  · exact .inl ⟨henemy, by simp [henemy]⟩
  · by_cases hplayer : hasFallen l.battle .player = true
    · exact .inr (.inl ⟨henemy, hplayer, by simp [henemy, hplayer]⟩)
    · exact .inr (.inr ⟨henemy, hplayer, by simp [henemy, hplayer]⟩)

/-- Leaving a text inside another, or after the verdict, decides
nothing. -/
theorem leave_verdict_eq (h : l.depth ≠ 1 ∨ l.battle.isOver = true) (running : 0 < l.depth) :
    l.leave.battle.outcome = l.battle.outcome ∧ l.leave.gameOvers = l.gameOvers := by
  simp only [leave]
  split
  · next hzero =>
    have hover : l.battle.isOver = true := by
      rcases h with h | h
      · exact absurd hzero (by omega)
      · exact h
    simp only [decideFallen, hover, if_true]
    exact ⟨rfl, rfl⟩
  · exact ⟨rfl, rfl⟩

/-! ## The outcome along a step -/

/-- What a step may do to the outcome and to the reports of it. -/
structure Ruled (l m : Live α) : Prop where
  /-- A verdict stays, and is not reported again. -/
  final : l.battle.isOver = true →
    m.battle.outcome = l.battle.outcome ∧ m.gameOvers = l.gameOvers
  /-- A verdict comes with its report, and when an outermost text is
  left. -/
  decided : l.battle.outcome = none →
    m.battle.outcome = none ∧ m.gameOvers = l.gameOvers ∨
    l.depth = 1 ∧ m = l.leave ∧ m.depth = 0 ∧ m.gameOvers = l.gameOvers + 1 ∧
      ∃ w, m.battle.outcome = some (.ofWinner w) ∧
        m.journal = ⟨.event (.gameOver w), 0, m.battle⟩ :: l.journal
  /-- It goes to the player if the enemy lost, whoever else did. -/
  rightly : l.battle.outcome = none → l.depth = 1 → m.depth = 0 →
    (m.battle.outcome = some .victory ↔ l.Lost .enemy) ∧
      (m.battle.outcome = some .defeat ↔ l.Lost .player ∧ ¬ l.Lost .enemy)

/-- A step that leaves the outcome alone, and does not end an outermost
text of an open battle. -/
theorem Ruled.of_verdict_eq
    (h : m.battle.outcome = l.battle.outcome ∧ m.gameOvers = l.gameOvers)
    (inside : l.battle.outcome = none → l.depth = 1 → m.depth ≠ 0) : Ruled l m :=
  ⟨fun _ => h, fun hopen => .inl ⟨h.1.trans hopen, h.2⟩,
    fun hopen hdepth hidle => absurd hidle (inside hopen hdepth)⟩

omit [Scalar α] in
theorem enter_verdict_eq (l : Live α) (text : String) (me : Side) :
    (l.enter text me).battle.outcome = l.battle.outcome ∧
      (l.enter text me).gameOvers = l.gameOvers := by
  unfold enter
  split
  · exact ⟨rfl, gameOvers_write _ (by simp)⟩
  · exact ⟨rfl, gameOvers_write _ (by simp)⟩

theorem decided_conclude (hdepth : l.depth = 1) (w : Side)
    (hleave : l.leave = conclude { l with depth := 0 } w) :
    l.leave.depth = 0 ∧ l.leave.gameOvers = l.gameOvers + 1 ∧
      ∃ w, l.leave.battle.outcome = some (.ofWinner w) ∧
        l.leave.journal = ⟨.event (.gameOver w), 0, l.leave.battle⟩ :: l.journal := by
  have hreports : l.leave.gameOvers = l.gameOvers + 1 := by
    rw [hleave]
    exact gameOvers_emit_gameOver _ w
  refine ⟨by rw [leave_depth, hdepth], hreports, w, ?_⟩
  rw [hleave]
  exact ⟨rfl, rfl⟩

theorem leave_outcome_iff (hdepth : l.depth = 1) (hopen : l.battle.outcome = none) :
    (l.leave.battle.outcome = some .victory ↔ l.Lost .enemy) ∧
      (l.leave.battle.outcome = some .defeat ↔ l.Lost .player ∧ ¬ l.Lost .enemy) := by
  rcases leave_cases hdepth hopen with ⟨henemy, h⟩ | ⟨henemy, hplayer, h⟩ | ⟨henemy, hplayer, h⟩
  · have houtcome : l.leave.battle.outcome = some .victory := by rw [h]; rfl
    simp [houtcome, henemy]
  · have houtcome : l.leave.battle.outcome = some .defeat := by rw [h]; rfl
    simp [houtcome, henemy, hplayer]
  · have houtcome : l.leave.battle.outcome = none := by rw [h]; exact hopen
    simp [houtcome, henemy, hplayer]

theorem ruled_leave (running : 0 < l.depth) : Ruled l l.leave := by
  by_cases hdepth : l.depth = 1
  · by_cases hopen : l.battle.outcome = none
    · refine ⟨fun hover => absurd hover (by simp [Battle.isOver, hopen]), fun _ => ?_,
        fun _ _ _ => leave_outcome_iff hdepth hopen⟩
      rcases leave_cases hdepth hopen with ⟨-, h⟩ | ⟨-, -, h⟩ | ⟨-, -, h⟩
      · exact .inr ⟨hdepth, rfl, decided_conclude hdepth .player h⟩
      · exact .inr ⟨hdepth, rfl, decided_conclude hdepth .enemy h⟩
      · rw [h]
        exact .inl ⟨hopen, rfl⟩
    · have hover : l.battle.isOver = true := Option.isSome_iff_ne_none.mpr hopen
      exact .of_verdict_eq (leave_verdict_eq (.inr hover) running) fun h => absurd h hopen
  · exact .of_verdict_eq (leave_verdict_eq (.inl hdepth) running) fun _ h => absurd h hdepth

theorem Step.ruled (h : Step s l m) : Ruled l m := by
  cases h with
  | outer h =>
    have htouches : Touches s true l m := h.touches
    exact .of_verdict_eq htouches.verdict_eq fun _ hdepth => by simp [htouches.depth_eq, hdepth]
  | inner _ h =>
    have htouches : Touches s true l m := h.touches
    exact .of_verdict_eq htouches.verdict_eq fun _ hdepth => by simp [htouches.depth_eq, hdepth]
  | overflow side begun running =>
    exact .of_verdict_eq ⟨rfl, rfl⟩ fun _ _ => Nat.ne_of_gt running
  | enter text me => exact .of_verdict_eq (enter_verdict_eq l text me) fun _ _ => by simp
  | leave running => exact ruled_leave running

theorem Steps.final (h : Steps s l m) (hover : l.battle.isOver = true) :
    m.battle.outcome = l.battle.outcome := by
  induction h with
  | refl => rfl
  | @tail k m _ h ih =>
    have hk : k.battle.isOver = true := by
      rw [Battle.isOver, ih]
      exact hover
    exact (h.ruled.final hk).1.trans ih

/-! ## The marks along a step -/

/-- What a step does to the marks of fallen sides. -/
structure Marked (l m : Live α) : Prop where
  /-- An outermost text begins without marks. -/
  cleared : l.depth = 0 → 0 < m.depth → ∀ side, m.battle.fallen.get side = false
  /-- While it runs, a side is marked from the moment when none of its
  hit points are left in store, whatever heals it then. -/
  marks : 0 < l.depth → 0 < m.depth → ∀ side, m.battle.fallen.get side = true ↔
    l.battle.fallen.get side = true ∨ ∃ next, IsNumber next ∧
      m.battle = (l.commitHp side next).battle ∧ (m.battle.fighter side).hp ≤ 0

/-- Storing hit points of which none are left marks the side. -/
theorem marked_commitHp (l : Live α) (side : Side) {next : α} (hnext : IsNumber next)
    (hdead : ((l.commitHp side next).battle.fighter side).hp ≤ 0) :
    (l.commitHp side next).battle.fallen.get side = true := by
  rw [battle_commitHp l side hnext] at hdead ⊢
  rw [Battle.fighter_storeHp, Battle.fighter_setFighter_self] at hdead
  rw [Battle.fallen_storeHp, if_pos hdead]
  exact Both.get_set_self _ _ _

/-- Only that marks a side. -/
theorem InnerStep.fallen_cases (h : InnerStep l m) (side : Side)
    (hmark : m.battle.fallen.get side = true) :
    l.battle.fallen.get side = true ∨ ∃ next, IsNumber next ∧
      m.battle = (l.commitHp side next).battle ∧ (m.battle.fighter side).hp ≤ 0 := by
  rcases h.stored with hsame | hstored
  · rw [hsame] at hmark
    exact .inl hmark
  · generalize m.battle = b at hstored hmark ⊢
    cases hstored with
    | hp target next hnext =>
      rw [Battle.fallen_storeHp] at hmark
      by_cases hdead : roundTenth (clamp 0 (l.battle.fighter target).maxHp next) ≤ 0
      · rw [if_pos hdead] at hmark
        by_cases htarget : side = target
        · subst htarget
          refine .inr ⟨next, hnext, (battle_commitHp l side hnext).symm, ?_⟩
          rw [Battle.fighter_storeHp, Battle.fighter_setFighter_self]
          exact hdead
        · refine .inl ?_
          cases side <;> cases target <;> first | exact absurd rfl htarget | exact hmark
      · rw [if_neg hdead] at hmark
        exact .inl hmark
    | fighter target =>
      refine .inl ?_
      cases target <;> exact hmark
    | energy | maxEnergy => exact .inl hmark

/-- A step that leaves the marks alone, and enters no outermost text. -/
theorem Marked.of_fallen_eq (h : m.battle.fallen = l.battle.fallen)
    (inside : l.depth = 0 → m.depth = 0) : Marked l m := by
  refine ⟨fun hidle running => ?_, fun _ _ side => ⟨fun hmark => ?_, ?_⟩⟩
  · have := inside hidle
    omega
  · rw [h] at hmark
    exact .inl hmark
  · rintro (hmark | ⟨next, hnext, hbattle, hdead⟩)
    · rw [h]
      exact hmark
    · rw [hbattle] at hdead ⊢
      exact marked_commitHp l side hnext hdead

theorem marked_enter (l : Live α) (text : String) (me : Side) : Marked l (l.enter text me) := by
  by_cases hidle : l.depth = 0
  · refine ⟨fun _ _ side => ?_, fun running => absurd hidle (Nat.ne_of_gt running)⟩
    simp only [enter, hidle, if_true]
    cases side <;> rfl
  · refine .of_fallen_eq ?_ fun h => absurd h hidle
    simp only [enter, hidle, if_false]
    rfl

theorem marked_leave (running : 0 < l.depth) : Marked l l.leave := by
  by_cases hdepth : l.depth = 1
  · refine ⟨fun hidle => absurd hidle (Nat.ne_of_gt running), fun _ hend => ?_⟩
    rw [leave_depth] at hend
    omega
  · refine .of_fallen_eq ?_ fun hidle => absurd hidle (Nat.ne_of_gt running)
    have hinner : l.depth - 1 ≠ 0 := by omega
    simp only [leave, hinner, if_false]

theorem Step.marked (h : Step s l m) : Marked l m := by
  cases h with
  | outer h =>
    have htouches : Touches s false l m := h.touches
    exact .of_fallen_eq htouches.calm.1 fun hidle => htouches.depth_eq.trans hidle
  | inner running h =>
    have htouches : Touches s true l m := h.touches
    refine ⟨fun hidle => absurd hidle (Nat.ne_of_gt running), fun _ _ side => ?_⟩
    refine ⟨h.fallen_cases side, ?_⟩
    rintro (hmark | ⟨next, hnext, hbattle, hdead⟩)
    · exact htouches.fallen_mono hmark
    · rw [hbattle] at hdead ⊢
      exact marked_commitHp l side hnext hdead
  | overflow side begun _ => exact .of_fallen_eq rfl fun hidle => hidle
  | enter text me => exact marked_enter l text me
  | leave running => exact marked_leave running

end Live

/-! ## Hit points are numbers -/

section

variable [Comparable α]

theorem Fighter.Stored.isNumber_hp {f g : Fighter α} (h : f.Stored g) (hf : IsNumber f.hp) :
    IsNumber g.hp := by
  have hsettle (high : α) : IsNumber (roundTenth (clamp 0 high f.hp)) :=
    Comparable.isNumber_roundTenth (isNumber_clamp Comparable.isNumber_zero hf high)
  cases h with
  | lust | block | noLust | modifier => exact hf
  | maxHp | maxLust => exact hsettle _

/-- The hit points of both sides are numbers. -/
def Battle.HpNumbers (b : Battle α) : Prop := ∀ side, IsNumber (b.fighter side).hp

theorem Battle.HpNumbers.stored {b c : Battle α} (hb : b.HpNumbers) (h : b.Stored c) :
    c.HpNumbers := by
  cases h with
  | hp side next hnext =>
    intro t
    rw [Battle.fighter_storeHp]
    have hhp : IsNumber (roundTenth (clamp 0 (b.fighter side).maxHp next)) :=
      Comparable.isNumber_roundTenth (isNumber_clamp Comparable.isNumber_zero hnext _)
    exact Battle.forall_setFighter (P := fun f => IsNumber f.hp) b side hhp hb t
  | fighter side h =>
    exact Battle.forall_setFighter (P := fun f => IsNumber f.hp) b side
      (h.isNumber_hp (hb side)) hb
  | energy | maxEnergy =>
    intro side
    cases side with
    | player => exact hb .player
    | enemy => exact hb .enemy

theorem Battle.preserves_hpNumbers (s : Setting α) : Preserves s HpNumbers where
  change h hb side := by
    rw [h.calm.2 side]
    exact hb side
  stored h hb := hb.stored h
  verdict fallen outcome hb side := by
    cases side with
    | player => exact hb .player
    | enemy => exact hb .enemy

/-! ## The invariant -/

namespace Live

variable {s : Setting α} {l m : Live α} {reports : Nat}

/-- What holds all along a run that began undecided and with some
reports of an end. -/
structure Sound (reports : Nat) (l : Live α) : Prop where
  numbers : l.battle.HpNumbers
  /-- The end was reported once if it came, and never if it did not. -/
  reported : l.gameOvers = reports + if l.battle.isOver then 1 else 0
  /-- A side that fell would have been noticed. -/
  undecided : l.depth = 0 → l.battle.outcome = none → l.Undecided

/-- An outermost text that leaves the battle undecided leaves no side
fallen. -/
theorem undecided_leave (hl : l.battle.HpNumbers) (hdepth : l.depth = 1)
    (hopen : l.leave.battle.outcome = none) : l.leave.Undecided := by
  have hbefore : l.battle.outcome = none := by
    cases hover : l.battle.outcome with
    | none => rfl
    | some o =>
      have running : 0 < l.depth := by omega
      have hfinal := (ruled_leave running).final (by simp [Battle.isOver, hover])
      rw [hfinal.1, hover] at hopen
      cases hopen
  rcases leave_cases hdepth hbefore with ⟨-, h⟩ | ⟨-, -, h⟩ | ⟨henemy, hplayer, h⟩
  · rw [h] at hopen
    cases hopen
  · rw [h] at hopen
    cases hopen
  · rw [h]
    have hkept (side : Side) : ¬ l.Lost side := by
      cases side with
      | player => exact hplayer
      | enemy => exact henemy
    refine ⟨rfl, hbefore, fun side => ?_, fun side => ?_⟩
    · exact Comparable.lt_of_not_le (hl side) Comparable.isNumber_zero
        fun hdead => hkept side (.inr hdead)
    · exact Bool.eq_false_iff.mpr fun hmarked => hkept side (.inl hmarked)

theorem Step.undecided (h : Step s l m) (hl : Sound reports l) (hidle : m.depth = 0)
    (hopen : m.battle.outcome = none) : m.Undecided := by
  cases h with
  | outer h =>
    have htouches : Touches s false l m := h.touches
    have hbefore := hl.undecided (htouches.depth_eq ▸ hidle) (htouches.verdict_eq.1 ▸ hopen)
    obtain ⟨hfallen, hhp⟩ := htouches.calm
    refine ⟨hidle, hopen, fun side => ?_, fun side => ?_⟩
    · rw [hhp side]
      exact hbefore.alive side
    · rw [hfallen]
      exact hbefore.unmarked side
  | inner running h =>
    have htouches : Touches s true l m := h.touches
    rw [htouches.depth_eq] at hidle
    omega
  | overflow side begun running =>
    have hdepth : l.depth = 0 := hidle
    omega
  | enter text me =>
    rw [enter_depth] at hidle
    omega
  | leave running =>
    rw [leave_depth] at hidle
    exact undecided_leave hl.numbers (by omega) hopen

theorem Step.sound (h : Step s l m) (hl : Sound reports l) : Sound reports m := by
  refine ⟨h.preserves (Battle.preserves_hpNumbers s) hl.numbers, ?_, h.undecided hl⟩
  have hruled := h.ruled
  have hbefore := hl.reported
  cases hover : l.battle.outcome with
  | some o =>
    obtain ⟨houtcome, hreports⟩ := hruled.final (by simp [Battle.isOver, hover])
    rw [hreports, hbefore, Battle.isOver, Battle.isOver, houtcome]
  | none =>
    simp only [Battle.isOver, hover, Option.isSome_none] at hbefore
    rcases hruled.decided hover with ⟨houtcome, hreports⟩ | ⟨-, -, -, hreports, w, houtcome, -⟩
    · simp only [Battle.isOver, houtcome, Option.isSome_none]
      rw [hreports, hbefore]
    · simp only [Battle.isOver, houtcome, Option.isSome_some, if_true]
      rw [hreports, hbefore]
      simp

theorem Steps.sound (h : Steps s l m) (hl : Sound reports l) : Sound reports m := by
  induction h with
  | refl => exact hl
  | tail _ h ih => exact h.sound ih

theorem Undecided.sound (h : l.Undecided) : Sound l.gameOvers l := by
  refine ⟨fun side => (Comparable.isNumber_of_lt (h.alive side)).2, ?_, fun _ _ => h⟩
  simp [Battle.isOver, h.open_]

end Live

/-! ## Sessions -/

/-- **A battle is decided once, and rightly.** A host calls for
anything, in any order, while a battle is undecided. The battle goes on
by steps, and no text runs in the end. At any moment `l` on the way

* the end was reported once if the battle is over, and never if not;
* if no text runs and the battle is not over, it is undecided again:
  both sides have hit points, and no side is marked as fallen;
* a verdict stays whatever comes;
* and a step decides the battle only if it leaves an outermost text,
  for the player if the enemy was marked in it or has no hit points,
  and for the enemy if only the player was or has none. -/
theorem Session.decided_once (s : Session α) (h : s.live.Undecided) (calls : List (Call α)) :
    Live.Steps s.toSetting s.live (s.afterAll calls).live ∧
      (s.afterAll calls).live.depth = 0 ∧
      ∀ l, Live.Steps s.toSetting s.live l →
        l.gameOvers = s.live.gameOvers + (if l.battle.isOver then 1 else 0) ∧
        (l.depth = 0 → l.battle.outcome = none → l.Undecided) ∧
        (∀ m, Live.Steps s.toSetting l m → l.battle.isOver = true →
          m.battle.outcome = l.battle.outcome) ∧
        ∀ m, Live.Step s.toSetting l m → l.Ruled m ∧ l.Marked m := by
  refine ⟨steps_afterAll s calls, ?_, fun l hl => ?_⟩
  · rw [(advances_afterAll s calls).trace.depth_eq]
    exact h.idle
  · have hsound := hl.sound h.sound
    refine ⟨hsound.reported, hsound.undecided, fun m hm hover => ?_, fun m hm => ?_⟩
    · exact hm.final hover
    · exact ⟨hm.ruled, hm.marked⟩

theorem Session.decided_once_duel :
    let s := loadWith (.duel : Snapshot Double) .standard .leftmost .standard
    let t := s.afterAll [.start, .runEffect "OP.hp-50" .player, .endPlayerTurn]
    s.live.Undecided ∧ t.live.depth = 0 ∧
      t.live.gameOvers = s.live.gameOvers + if t.live.battle.isOver then 1 else 0 := by
  intro s t
  have hundecided : s.live.Undecided := by
    refine ⟨rfl, rfl, fun side => ?_, fun side => ?_⟩
    · cases side <;> decide +kernel
    · cases side <;> rfl
  obtain ⟨hsteps, hidle, hrun⟩ := decided_once s hundecided _
  exact ⟨hundecided, hidle, (hrun t.live hsteps).1⟩

end
end DeckDuel
