/-
DeckDuel.Proofs.TurnedDown — which requests a session turns down.

* `Session.TurnsDown` — the causes, one rule for each: the battle is
  decided, or a card is asked for that cannot be played now. An order
  among them is part of the rules.
* `Session.TurnsDown.run` — such a request is answered with its cause,
  and the session stays as it is.
* `Session.refuses_request` — there is no other cause, but that a text
  of the request's own nests too deep. What runs inside a turn is never
  the host's concern.
* `Session.refused_iff_turnsDown` — the three facts together.
-/
import DeckDuel.Proofs.Aftermath
import DeckDuel.Proofs.SkippedUnit

namespace DeckDuel

variable {α : Type} [Scalar α]

/-! ## Causes -/

/-- Does a request run a text of its own, whose refusal is answered?
All others run texts of the battle only. -/
def Call.runsText : Call α → Bool
  | .playCard _ | .runEffect _ _ => true
  | _ => false

namespace Session

/-- Why a session turns a request down. A card is asked for by its uid,
and the first one of the hand is meant. -/
inductive TurnsDown (s : Session α) : Call α → SessionError α → Prop where
  | battleOver {c : Call α} (request : c.ofSession = true)
      (decided : s.live.battle.isOver = true) : TurnsDown s c .battleOver
  | stunned (uid : Nat) (running : s.live.battle.isOver = false)
      (stuns : s.isStunned s.live.battle .player = true) :
      TurnsDown s (.playCard uid) (.stunned .player)
  | cardNotInHand (uid : Nat) (running : s.live.battle.isOver = false)
      (able : s.isStunned s.live.battle .player = false)
      (missing : ∀ c ∈ s.live.battle.piles.hand, c.uid ≠ uid) :
      TurnsDown s (.playCard uid) (.cardNotInHand uid)
  | notEnoughEnergy (uid : Nat) {c : Card α} (running : s.live.battle.isOver = false)
      (able : s.isStunned s.live.battle .player = false)
      (held : (s.live.battle.piles.hand.find? fun c => c.uid == uid) = some c)
      (dear : s.live.battle.player.energy < c.cost) :
      TurnsDown s (.playCard uid) (.notEnoughEnergy c.cost s.live.battle.player.energy)

variable {s : Session α} {c : Call α} {e : SessionError α}

/-- In an undecided battle, a card is asked for in vain for the causes
above, and no other. -/
theorem turnsDown_of_playable? {uid : Nat} (hrunning : s.live.battle.isOver = false)
    (h : s.playable? uid = .error e) : s.TurnsDown (.playCard uid) e := by
  simp only [playable?] at h
  split at h
  · next hstunned =>
    cases h
    exact .stunned uid hrunning hstunned
  · next hable =>
    have hable : s.isStunned s.live.battle .player = false := by simpa using hable
    split at h
    · next hnone =>
      cases h
      refine .cardNotInHand uid hrunning hable fun c hc => ?_
      simpa using List.find?_eq_none.mp hnone c hc
    · next card hheld =>
      split at h
      · next hdear =>
        cases h
        exact .notEnoughEnergy uid hrunning hable hheld hdear
      · cases h

/-- A card that cannot be played is not touched. -/
theorem run_playCard_of_playable? {uid : Nat} (hrunning : s.live.battle.isOver = false)
    (h : s.playable? uid = .error e) : (playCard uid).run.run s = (.error e, s) := by
  rw [playCard, run_ensureRunning, hrunning]
  simp only [Bool.false_eq_true, if_false]
  show ((liftM (s.playable? uid) >>= _ : Request α Unit).run.run s) = _
  rw [h]
  rfl

/-- What is turned down leaves the session as it is. -/
theorem TurnsDown.run (h : s.TurnsDown c e) : c.request.run.run s = (.error e, s) := by
  cases h with
  | battleOver request decided => exact request_decided request decided
  | stunned uid running stuns =>
    refine run_playCard_of_playable? running ?_
    simp only [playable?, stuns, if_true]
  | cardNotInHand uid running able missing =>
    have hnone : (s.live.battle.piles.hand.find? fun c => c.uid == uid) = none :=
      List.find?_eq_none.mpr fun c hc => by simpa using missing c hc
    refine run_playCard_of_playable? running ?_
    simp only [playable?, able, hnone, Bool.false_eq_true, if_false]
  | notEnoughEnergy uid running able held dear =>
    refine run_playCard_of_playable? running ?_
    simp only [playable?, able, held, dear, Bool.false_eq_true, if_false, if_true]

/-! ## No other causes -/

/-- A request that is refused is turned down, or runs a text of its own
that nests too deep. -/
def Explains (s : Session α) (c : Call α) (e : SessionError α) : Prop :=
  s.TurnsDown c e ∨ c.runsText = true ∧ e = .effect (.nestingLimit s.rules.maxNesting)

variable {Q : SessionError α → Session α → Prop}

omit [Scalar α] in
theorem refuses_play {β : Type} (step : Setting α → Play α β) : Refuses Q (play step) s := by
  intro e he
  cases he

omit [Scalar α] in
theorem refuses_play_bind {β γ : Type} {step : Setting α → Play α β} {f : β → Request α γ}
    (h : ∀ x t, Refuses Q (f x) t) : Refuses Q (play step >>= f) s :=
  Refuses.bind (refuses_play step) fun x t _ => h x t

omit [Scalar α] in
/-- A check of a battle that goes on lets everything pass. -/
theorem refuses_ensureRunning_bind {β : Type} {f : PUnit → Request α β}
    (hdecided : s.live.battle.isOver = true → Q .battleOver s)
    (hf : s.live.battle.isOver = false → Refuses Q (f ⟨⟩) s) :
    Refuses Q (ensureRunning >>= f) s := by
  unfold Refuses
  rw [run_ensureRunning]
  split
  · next hover =>
    intro e he
    cases he
    exact hdecided hover
  · next hrunning => exact hf (by simpa using hrunning)

/-- A text of a request's own is refused for the nesting limit only. -/
theorem refuses_attempt_execute (text : String) (me : Side) (ctx : Context α)
    (h : ∀ t : Session α, Q (.effect (.nestingLimit s.rules.maxNesting)) t) :
    Refuses Q (attempt fun s : Setting α => s.execute text me ctx) s := by
  refine Refuses.bind (refuses_play _) fun r t ht => ?_
  cases r with
  | ok _ => exact Refuses.pure _
  | error r =>
    have hlimit := s.toSetting.refuses_runWithin (s.rules.maxNesting - s.live.depth) text me ctx
      s.live
    have hr : ((s.toSetting.execute text me ctx).run.run s.live).1 = .error r :=
      Except.ok.inj (congrArg Prod.fst ht)
    rw [hlimit r hr]
    exact Refuses.throw (h t)

theorem refuses_startPlayerTurn (h : s.live.battle.isOver = true → Q .battleOver s) :
    Refuses Q startPlayerTurn s :=
  refuses_ensureRunning_bind h fun _ => refuses_play _

/-- The next turn begins only while the battle goes on, and so it is
never turned down after another phase. -/
theorem refuses_nextTurn :
    Refuses Q (do if (← get).live.battle.isOver then pure () else startPlayerTurn) s := by
  refine Refuses.get_bind ?_
  split
  · exact Refuses.pure _
  · next hrunning => exact refuses_startPlayerTurn fun hover => absurd hover hrunning

theorem refuses_start (h : s.live.battle.isOver = true → Q .battleOver s) :
    Refuses Q start s := by
  refine refuses_ensureRunning_bind h fun _ => Refuses.get_bind ?_
  split
  · exact Refuses.pure _
  · exact Refuses.modify_bind (refuses_play_bind fun _ _ => refuses_nextTurn)

theorem refuses_endPlayerTurn (h : s.live.battle.isOver = true → Q .battleOver s) :
    Refuses Q endPlayerTurn s :=
  refuses_ensureRunning_bind h fun _ => refuses_play_bind fun _ _ => refuses_nextTurn

theorem refuses_playCard (uid : Nat) :
    Refuses (fun e _ => s.Explains (.playCard uid) e) (playCard uid) s := by
  refine refuses_ensureRunning_bind (fun hover => .inl (.battleOver rfl hover)) fun hrunning => ?_
  refine Refuses.get_bind (Refuses.ofExcept_bind
    (fun e he => .inl (turnsDown_of_playable? hrunning he)) fun card _ => ?_)
  refine Refuses.get_bind (Refuses.modify_bind (Refuses.bind ?_ fun _ t _ => ?_))
  · exact refuses_attempt_execute _ _ _ fun _ => .inr ⟨rfl, rfl⟩
  · refine Refuses.get_bind ?_
    split
    · exact Refuses.pure _
    · exact refuses_play _

/-- There are no other causes. One case for each request. -/
theorem refuses_request (hcall : c.ofSession = true) :
    Refuses (fun e _ => s.Explains c e) c.request s := by
  have hdecided (hover : s.live.battle.isOver = true) : s.Explains c .battleOver :=
    .inl (.battleOver hcall hover)
  cases c with
  | start => exact refuses_start hdecided
  | startPlayerTurn => exact refuses_startPlayerTurn hdecided
  | playCard uid => exact refuses_playCard uid
  | endPlayerTurn => exact refuses_endPlayerTurn hdecided
  | runEffect text me =>
    exact refuses_ensureRunning_bind hdecided fun _ =>
      refuses_attempt_execute text me _ fun _ => .inr ⟨rfl, rfl⟩
  | _ => cases hcall

/-- **A request that is turned down changes nothing, and the causes are
known.** Of every session and each of the five requests: an error that
is not the nesting limit is answered exactly for the causes of
`TurnsDown`, in their order; the session with its battle, its
definitions and its journal stays as it is then; and starting, beginning
and ending a turn fail in a decided battle only, whatever the texts do
that run inside the turn. -/
theorem refused_iff_turnsDown (s : Session α) (c : Call α) (hcall : c.ofSession = true) :
    (∀ e, (∀ limit, e ≠ .effect (.nestingLimit limit)) →
      ((c.request.run.run s).1 = .error e ↔ s.TurnsDown c e)) ∧
    (∀ e, (∀ limit, e ≠ .effect (.nestingLimit limit)) →
      (c.request.run.run s).1 = .error e → (c.request.run.run s).2 = s) ∧
    (c.runsText = false → ∀ e, (c.request.run.run s).1 = .error e ↔
      e = .battleOver ∧ s.live.battle.isOver = true) := by
  have hrefused : ∀ e, (c.request.run.run s).1 = .error e → s.Explains c e :=
    refuses_request hcall
  have hturned (e : SessionError α) (hlimit : ∀ limit, e ≠ .effect (.nestingLimit limit))
      (he : (c.request.run.run s).1 = .error e) : s.TurnsDown c e := by
    rcases hrefused e he with h | ⟨-, rfl⟩
    · exact h
    · exact absurd rfl (hlimit _)
  refine ⟨fun e hlimit => ⟨hturned e hlimit, fun h => by rw [h.run]⟩, fun e hlimit he => ?_,
    fun htext e => ⟨fun he => ?_, ?_⟩⟩
  · rw [(hturned e hlimit he).run]
  · rcases hrefused e he with h | ⟨hruns, -⟩
    · cases h with
      | battleOver _ decided => exact ⟨rfl, decided⟩
      | stunned | cardNotInHand | notEnoughEnergy => cases htext
    · rw [htext] at hruns
      cases hruns
  · rintro ⟨rfl, hover⟩
    rw [request_decided hcall hover]

end Session

/-- A player who holds a card and is stunned for good, and an enemy that
never acts. -/
def Snapshot.dazed : Snapshot Double :=
  { Snapshot.duel with
    player := { (.plain "Player" (Scalar.ofNat 20) : FighterEntry Double) with
      statuses := [⟨"stun", 1, "Stun", none⟩] }
    hand := [.plain "jab" "Jab" 1 "OP.hp-1"]
    actions := []
    definitions := .arr
      [.obj [("id", .str "stun"), ("name", .str "Stun"),
        ("triggers", .obj [("hold", .str "stun")])]] }

/-- A stunned player asks for a card that is not there: the stun is the
cause that is answered. -/
theorem Session.refused_iff_turnsDown_dazed :
    let s := loadWith .dazed .standard .leftmost .standard
    let c : Call Double := .playCard 9
    c.ofSession = true ∧ (c.request.run.run s).1 = .error (.stunned .player) ∧
      (c.request.run.run s).2 = s := by
  intro s c
  have hstunned : s.TurnsDown c (.stunned .player) := .stunned 9 rfl (by decide +kernel)
  obtain ⟨hiff, hstays, -⟩ := refused_iff_turnsDown s c rfl
  have hanswer := (hiff (.stunned .player) (by simp)).mpr hstunned
  exact ⟨rfl, hanswer, hstays _ (by simp) hanswer⟩

end DeckDuel
