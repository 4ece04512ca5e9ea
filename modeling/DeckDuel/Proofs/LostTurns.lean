/-
DeckDuel.Proofs.LostTurns — when a player who is handed the turn can
act.

* `Setting.turnsLost` — how many turns in a row begin with the player
  stunned, in a battle that goes on.
* `Setting.isStunned_playerTurns` — where turns begin until the player
  can act, the player is stunned in the end if all that may be lost were
  lost, and only then.
* `Session.able_or_worn_out` — so a card of the hand can be asked for
  after the requests that begin a turn, unless a hundred turns in a row
  were lost. `Session.exists_stunned_at_hand_back` — after those the
  turn is handed back to a player who cannot act.
-/
import DeckDuel.Proofs.TurnedDown

namespace DeckDuel

variable {α : Type}

/-! ## Answers -/

/-- A step answers what can be told from the battle that it leaves. -/
def Tallies {β : Type} (p : Live α → β) (x : Play α β) : Prop := ∀ l, (x.run l).1 = p (x.run l).2

/-- The last step decides. -/
theorem Tallies.bind {β γ : Type} {p : Live α → γ} {x : Play α β} {f : β → Play α γ}
    (hf : ∀ b, Tallies p (f b)) : Tallies p (x >>= f) := fun _ => hf _ _

/-- What comes after a step is looked at in the state that it leaves, with
what it answered. -/
theorem Ends.run_bind {σ β γ : Type} {Q : σ → Prop} {s : σ} {x : StateM σ β} {f : β → StateM σ γ}
    (h : Ends Q (f (x.run s).1) (x.run s).2) : Ends Q (x >>= f) s := h

variable [Scalar α]

/-! ## Turns in a row -/

namespace Setting

variable {s : Setting α}

/-- The beginning of a turn tells whether the player can act. -/
theorem tallies_beginPlayerTurn :
    Tallies (fun l => !s.isStunned l.battle .player) s.beginPlayerTurn :=
  Tallies.bind fun _ => Tallies.bind fun _ => Tallies.bind fun _ => Tallies.bind fun _ _ => rfl

/-- How many turns in a row, of a number at most, begin with the player
stunned. The last one ends there; after the others the enemy acts. -/
def turnsLost (s : Setting α) : Nat → Live α → Nat
  | 0, _ => 0
  | more + 1, l =>
    let begun := s.beginPlayerTurn.run l
    if begun.2.battle.isOver || begun.1 then 0
    else
      let ended := (s.finishPlayerTurn.run begun.2).2
      if ended.battle.isOver then 1 else s.turnsLost more ended + 1

theorem turnsLost_le (n : Nat) (l : Live α) : s.turnsLost n l ≤ n := by
  induction n generalizing l with
  | zero => exact Nat.le_refl 0
  | succ more ih =>
    unfold turnsLost
    dsimp only
    split
    · exact Nat.zero_le _
    · split
      · exact Nat.le_add_left 1 more
      · exact Nat.succ_le_succ (ih _)

/-- Turns begin until the player can act. If the battle goes on and the
player is stunned still, then every turn was lost, by induction on how
many may be. -/
theorem isStunned_playerTurns {n : Nat} (hn : 0 < n) (l : Live α) :
    Ends (fun m => m.battle.isOver = false →
        (s.isStunned m.battle .player = true ↔ s.turnsLost n l = n))
      (s.playerTurns n) l := by
  induction n generalizing l with
  | zero => cases hn
  | succ more ih =>
    have hcanAct : (s.beginPlayerTurn.run l).1 =
        !s.isStunned (s.beginPlayerTurn.run l).2.battle .player := tallies_beginPlayerTurn l
    refine Ends.run_bind (Leads.get_bind ?_)
    unfold turnsLost
    dsimp only
    generalize s.beginPlayerTurn.run l = begun at hcanAct ⊢
    cases hover : begun.2.battle.isOver with
    | true =>
      intro hrunning
      rw [Bool.true_or, Bool.true_or, if_pos rfl] at hrunning
      exact absurd (hover.symm.trans hrunning) (by decide)
    | false =>
      cases hcan : begun.1 with
      | true =>
        intro _
        show s.isStunned begun.2.battle .player = true ↔ 0 = more + 1
        have hable : s.isStunned begun.2.battle .player = false := by
          simpa [hcan] using hcanAct
        simp [hable]
      | false =>
        have hstunned : s.isStunned begun.2.battle .player = true := by simpa [hcan] using hcanAct
        by_cases hlast : more = 0
        · subst hlast
          intro _
          show s.isStunned begun.2.battle .player = true ↔ (if _ then 1 else 0 + 1) = 0 + 1
          simp [hstunned]
        · simp only [Bool.or_false, hlast, if_false, Bool.false_eq_true]
          refine Ends.run_bind (Leads.get_bind ?_)
          generalize (s.finishPlayerTurn.run begun.2).2 = ended
          split
          · next hdecided =>
            intro hrunning
            exact absurd (hdecided.symm.trans hrunning) (by decide)
          · refine (ih (Nat.pos_of_ne_zero hlast) ended).mono fun m hm hrunning => ?_
            rw [hm hrunning, Nat.add_right_cancel_iff]

end Setting

/-! ## Requests -/

/-- Does a request begin a turn of the player in the end? -/
def Call.beginsTurn : Call α → Bool
  | .start | .startPlayerTurn | .endPlayerTurn => true
  | _ => false

namespace Session

variable {s : Session α}

/-- How many turns in a row are lost by a request that begins one. -/
def turnsLost (s : Session α) : Call α → Nat
  | .start =>
    s.toSetting.turnsLost maxSkippedTurns ((s.toSetting.battleStarts Side.both).run s.live).2
  | .startPlayerTurn => s.toSetting.turnsLost maxSkippedTurns s.live
  | .endPlayerTurn => s.toSetting.turnsLost maxSkippedTurns (s.toSetting.finishPlayerTurn.run s.live).2
  | _ => 0

theorem turnsLost_le (s : Session α) (c : Call α) : s.turnsLost c ≤ maxSkippedTurns := by
  cases c with
  | start | startPlayerTurn | endPlayerTurn => exact Setting.turnsLost_le _ _
  | _ => exact Nat.zero_le _

/-- If the battle goes on, the player is stunned exactly if a number of
lost turns is all that may be lost. -/
def HandsBack (lost : Nat) (t : Session α) : Prop :=
  t.live.battle.isOver = false →
    (t.isStunned t.live.battle .player = true ↔ lost = maxSkippedTurns)

omit [Scalar α] in
theorem handsBack_of_isOver {lost : Nat} (h : s.live.battle.isOver = true) :
    HandsBack lost s := by
  intro hrunning
  rw [h] at hrunning
  cases hrunning

omit [Scalar α] in
/-- A request goes on only while the battle does. -/
theorem ends_ensureRunning_bind {β : Type} {Q : Session α → Prop} {f : PUnit → Request α β}
    (hover : s.live.battle.isOver = true → Q s)
    (hf : s.live.battle.isOver = false → TriesEnd Q (f ⟨⟩) s) :
    TriesEnd Q (ensureRunning >>= f) s := by
  show Q ((ensureRunning >>= f).run.run s).2
  rw [run_ensureRunning]
  split
  · next h => exact hover h
  · next h => exact hf (by simpa using h)

omit [Scalar α] in
/-- What follows a step starts from the battle that it leaves. -/
theorem ends_play_bind {β γ : Type} {Q : Session α → Prop} {step : Setting α → Play α β}
    {f : β → Request α γ} (h : TriesEnd Q (f ((step s.toSetting).run s.live).1)
      { s with live := ((step s.toSetting).run s.live).2 }) :
    TriesEnd Q (play step >>= f) s := h

theorem handsBack_playerTurns {n : Nat} (hn : 0 < n) (s : Session α) :
    TriesEnd (fun t => t.live.battle.isOver = false →
        (t.isStunned t.live.battle .player = true ↔ s.toSetting.turnsLost n s.live = n))
      (play fun s : Setting α => s.playerTurns n) s :=
  Setting.isStunned_playerTurns hn s.live

theorem handsBack_startPlayerTurn (s : Session α) :
    TriesEnd (HandsBack (s.turnsLost .startPlayerTurn)) startPlayerTurn s :=
  ends_ensureRunning_bind handsBack_of_isOver fun _ =>
    handsBack_playerTurns (n := maxSkippedTurns) (by decide) s

/-- The next turn begins where the battle goes on. -/
theorem handsBack_nextTurn {lost : Nat} (hlost : lost = s.turnsLost .startPlayerTurn) :
    TriesEnd (HandsBack lost)
      (do if (← get).live.battle.isOver then pure () else startPlayerTurn) s := by
  refine Tries.get_bind ?_
  split
  · next hover => exact handsBack_of_isOver hover
  · rw [hlost]
    exact handsBack_startPlayerTurn s

theorem handsBack_endPlayerTurn (s : Session α) :
    TriesEnd (HandsBack (s.turnsLost .endPlayerTurn)) endPlayerTurn s := by
  refine ends_ensureRunning_bind handsBack_of_isOver fun _ => ends_play_bind ?_
  exact handsBack_nextTurn (by simp only [turnsLost])

theorem handsBack_start (hfresh : s.started = false) :
    TriesEnd (HandsBack (s.turnsLost .start)) start s := by
  refine ends_ensureRunning_bind handsBack_of_isOver fun _ => Tries.get_bind ?_
  rw [hfresh, if_neg (by decide)]
  refine TriesEnd.modify_bind (ends_play_bind ?_)
  exact handsBack_nextTurn (by simp only [turnsLost])

/-- A battle that was started is not started again. -/
theorem run_start_of_started (hstarted : s.started = true)
    (hrunning : s.live.battle.isOver = false) : start.run.run s = (.ok (), s) := by
  rw [start, run_ensureRunning, hrunning]
  show ((if s.started then pure () else _ : Request α Unit).run.run s) = _
  rw [hstarted]
  rfl

/-- Whoever can act is not turned down as stunned. -/
theorem playCard_ne_stunned (hable : s.isStunned s.live.battle .player = false) (uid : Nat)
    (side : Side) : ((playCard uid).run.run s).1 ≠ .error (.stunned side) := by
  intro hanswer
  rcases refuses_playCard uid _ hanswer with h | ⟨-, h⟩
  · cases h with
    | stunned _ _ stuns =>
      rw [hable] at stuns
      cases stuns
  · cases h

/-- One case for each request that begins a turn. -/
theorem handsBack_after {c : Call α} (hbegins : c.beginsTurn = true)
    (hfresh : c = .start → s.started = false) : HandsBack (s.turnsLost c) (s.after c) := by
  cases c with
  | start => exact handsBack_start (hfresh rfl)
  | startPlayerTurn => exact handsBack_startPlayerTurn s
  | endPlayerTurn => exact handsBack_endPlayerTurn s
  | _ => cases hbegins

/-- **Where the turn is handed back, the player can act, unless as many
turns in a row were lost as may be.** Of every session and every request
that begins a turn, with the battle going on after it: no card is turned
down because the player is stunned, if fewer turns than
`maxSkippedTurns` were lost; and after so many every card is, for the
stun that all of them were lost for is still there. Starting a battle
again begins nothing and leaves the session as it is. -/
theorem able_or_worn_out (s : Session α) (c : Call α) (hbegins : c.beginsTurn = true)
    (hrunning : (s.after c).live.battle.isOver = false) :
    (s.turnsLost c < maxSkippedTurns ∧ ∀ uid side,
        ((Call.playCard uid).request.run.run (s.after c)).1 ≠ .error (.stunned side)) ∨
      (s.turnsLost c = maxSkippedTurns ∧ ∀ uid,
        (Call.playCard uid).request.run.run (s.after c) =
          (.error (.stunned .player), s.after c)) ∨
      (c = .start ∧ s.started = true ∧ c.request.run.run s = (.ok (), s)) := by
  by_cases hagain : c = .start ∧ s.started = true
  · obtain ⟨rfl, hstarted⟩ := hagain
    refine .inr (.inr ⟨rfl, hstarted, ?_⟩)
    cases hover : s.live.battle.isOver with
    | true =>
      have hstays : s.after .start = s := by rw [after, request_decided rfl hover]
      rw [hstays, hover] at hrunning
      cases hrunning
    | false => exact run_start_of_started hstarted hover
  · have hfresh : c = .start → s.started = false := fun hc => by simpa [hc] using hagain
    have hback := handsBack_after hbegins hfresh hrunning
    by_cases hworn : s.turnsLost c = maxSkippedTurns
    · refine .inr (.inl ⟨hworn, fun uid => ?_⟩)
      exact (TurnsDown.stunned uid hrunning (hback.mpr hworn)).run
    · refine .inl ⟨Nat.lt_of_le_of_ne (turnsLost_le s c) hworn, playCard_ne_stunned ?_⟩
      simpa using mt hback.mp hworn

end Session

/-- A player who is stunned for two turns. -/
def Snapshot.drowsy : Snapshot Double :=
  { Snapshot.dazed with
    player := { (.plain "Player" (Scalar.ofNat 20) : FighterEntry Double) with
      statuses := [⟨"stun", 2, "Stun", none⟩] }
    definitions := .arr
      [.obj [("id", .str "stun"), ("name", .str "Stun"), ("stacks_change", .str "-1"),
        ("triggers", .obj [("hold", .str "stun")])]] }

/-- Two turns are lost, and the third is handed to a player who can
act. -/
theorem Session.able_or_worn_out_drowsy :
    let s := loadWith .drowsy .standard .leftmost .standard
    (s.after .start).live.battle.isOver = false ∧ s.turnsLost .start = 2 ∧
      ∀ uid side, ((Call.playCard uid).request.run.run (s.after .start)).1 ≠
        .error (.stunned side) := by
  intro s
  have hrunning : (s.after .start).live.battle.isOver = false := by decide +kernel
  have hlost : s.turnsLost .start = 2 := by decide +kernel
  refine ⟨hrunning, hlost, ?_⟩
  rcases able_or_worn_out s .start rfl hrunning with ⟨-, h⟩ | ⟨h, -⟩ | ⟨-, h, -⟩
  · exact h
  · rw [hlost] at h
    cases h
  · cases h

/-- A stun that stays costs a hundred turns, and the turn is handed back
to a player who cannot play a card that could be paid for. -/
theorem Session.exists_stunned_at_hand_back :
    ¬ ∀ (s : Session Double) (c : Call Double), c.beginsTurn = true →
      (c.request.run.run s).1 = .ok () → (s.after c).live.battle.isOver = false →
        ∀ card ∈ (s.after c).live.battle.piles.hand,
          ¬ (s.after c).live.battle.player.energy < card.cost →
            ((Call.playCard card.uid).request.run.run (s.after c)).1 ≠
              .error (.stunned .player) := by
  intro h
  let s := loadWith .dazed .standard .leftmost .standard
  obtain ⟨hrunning, hstunned, card, hcard, hpaid⟩ :
      (s.after .start).live.battle.isOver = false ∧
        (s.after .start).isStunned (s.after .start).live.battle .player = true ∧
        ∃ card ∈ (s.after .start).live.battle.piles.hand,
          ¬ (s.after .start).live.battle.player.energy < card.cost := by decide +kernel
  have hnever : Refuses (fun _ _ => False) start s :=
    refuses_start fun hover => absurd hover (by decide +kernel)
  have hok : (start.run.run s).1 = .ok () := by
    cases hanswer : (start.run.run s).1 with
    | ok _ => rfl
    | error e => exact (hnever e hanswer).elim
  refine h s .start rfl hok hrunning card hcard hpaid ?_
  rw [(TurnsDown.stunned card.uid hrunning hstunned).run]

end DeckDuel
