/-
DeckDuel.Proofs.Call — sessions under any calls of a host.

* `Call` — what a host can ask of a session, and of the battle in it
  without a session's rules.
* `Call.request` — the request that a call stands for.
* `Snapshot.duel` — a small battle to call on.
* `Session.after`, `Session.afterAll` — the session after one call, and
  after calls one after another, whatever they are answered.
* `Session.Goes` — the setting stayed, and the battle went on as a
  relation says. `Session.goes_afterAll` — so does all of this, if the
  relation holds along turns and texts; along texts is enough where no
  call takes turns or plays a card.
* `Session.advances_afterAll` — all of this goes on by traces.
* `Session.heard_afterAll` — and the events tell of it.
* `Session.holds_afterAll` — a property that every change of a battle
  keeps holds all along.
-/
import DeckDuel.Proofs.Turns
import DeckDuel.Snapshot

namespace DeckDuel

variable {α : Type} [Scalar α]

/-! ## Calls -/

/-- What a host can ask for. -/
inductive Call (α : Type) where
  | start
  | startPlayerTurn
  | playCard (uid : Nat)
  | endPlayerTurn
  | runEffect (text : String) (me : Side)
  /-- An effect text with a context of the host's own. -/
  | execute (text : String) (me : Side) (ctx : Context α)
  | fire (side : Side) (trigger : Trigger)
  | startTurn (side : Side)
  | endTurn (side : Side)
  | applyStatus (side : Side) (id : String) (stackCount : Nat)
  | removeStatus (side : Side) (id : String) (amount : Option Nat)
  | setStacks (side : Side) (id : String) (stackCount : Nat)
  | addAbility (side : Side) (effect : String)
  | removeAbilities (side : Side) (key : String)
  | drawCards (count : Nat)

/-- The request that a call stands for. -/
def Call.request : Call α → Request α Unit
  | .start => Session.start
  | .startPlayerTurn => Session.startPlayerTurn
  | .playCard uid => Session.playCard uid
  | .endPlayerTurn => Session.endPlayerTurn
  | .runEffect text me => Session.runEffect text me
  | .execute text me ctx => Session.attempt fun s => s.execute text me ctx
  | .fire side t => Session.play fun s => s.scene.fire side t .plain
  | .startTurn side => Session.play fun s => s.startTurn side
  | .endTurn side => Session.play fun s => s.endTurn side
  | .applyStatus side id n => Session.attempt fun s => s.scene.applyStatus side id n .plain
  | .removeStatus side id n => Session.attempt fun s => s.scene.removeStatus side id n .plain
  | .setStacks side id n => Session.attempt fun s => s.scene.setStacks side id n .plain
  | .addAbility side effect => Session.attempt fun _ => do
    let _ ← DeckDuel.addAbility side effect
  | .removeAbilities side key => Session.play fun _ =>
    modify fun l => (l.removeAbilities side key).2
  | .drawCards count => Session.attempt fun s => do
    let _ ← s.drawCards count

/-- Does a call go through turns or play a card? All others run
effects. -/
def Call.takesTurns : Call α → Bool
  | .start | .startPlayerTurn | .playCard _ | .endPlayerTurn => true
  | _ => false

/-- A fighter with full hit points and nothing else. -/
def FighterEntry.plain (name : String) (maxHp : α) : FighterEntry α :=
  ⟨name, maxHp, none, Scalar.ofNat 100, 0, 0, [], [], none⟩

/-- A battle without cards, which runs of calls can be tried on. -/
def Snapshot.duel : Snapshot α where
  player := .plain "Player" (Scalar.ofNat 20)
  maxEnergy := Scalar.ofNat 3
  energy := none
  relics := []
  hand := []
  draw := []
  discard := []
  exhaust := []
  enemy := .plain "Enemy" (Scalar.ofNat 15)
  actions := ["OP.hp-5"]
  definitions := .null
  turn := 0

namespace Session

/-- The session of a stored battle, with any attributes. -/
def loadWith (snap : Snapshot α) (rules : Rules) (chooser : Chooser α)
    (catalog : Catalog) : Session α :=
  { Session.load snap rules chooser with catalog := catalog }

/-- The session after a call, however it was answered. -/
def after (s : Session α) (c : Call α) : Session α := (c.request.run.run s).2

/-- The session after calls, one after another. -/
def afterAll (s : Session α) (calls : List (Call α)) : Session α := calls.foldl after s

/-! ## Runs -/

/-- The setting stayed, and the battle went on as the relation says of
the setting. -/
structure Goes (σ : Setting α) (R : Live α → Live α → Prop) (s t : Session α) : Prop where
  setting : t.toSetting = s.toSetting
  live : s.toSetting = σ → R s.live t.live

variable {σ : Setting α} {turns : Bool} {R : Live α → Live α → Prop} [IsPreorder (Live α) R]

instance : IsPreorder (Session α) (Goes σ R) where
  refl s := ⟨rfl, fun _ => refl_of R s.live⟩
  trans _ _ _ h k := ⟨k.setting.trans h.setting, fun hs =>
    trans_of R (h.live hs) (k.live (h.setting.trans hs))⟩

/-! ## Requests -/

omit [Scalar α] [IsPreorder (Live α) R] in
theorem tries_play {β : Type} {step : Setting α → Play α β} (s : Session α)
    (h : ∀ l, Leads R (step σ) l) : Tries (Goes σ R) (play step) s := by
  refine ⟨rfl, fun hs => ?_⟩
  have hstep : Leads R (step s.toSetting) s.live := hs ▸ h s.live
  exact hstep

omit [Scalar α] in
theorem tries_attempt {β : Type} {step : Setting α → Attempt α β} (s : Session α)
    (h : ∀ l, Tries R (step σ) l) : Tries (Goes σ R) (attempt step) s := by
  refine Tries.bind (tries_play s h) fun r s => ?_
  cases r with
  | ok x => exact Tries.pure _ s
  | error r => exact Tries.throw _ s

omit [Scalar α] in
theorem tries_ensureRunning (s : Session α) : Tries (Goes σ R) ensureRunning s := by
  refine Tries.get_bind ?_
  split
  · exact Tries.throw _ s
  · exact Tries.pure _ s

section

variable (h : σ.Hosts true R)
include h

theorem tries_startPlayerTurn (s : Session α) : Tries (Goes σ R) startPlayerTurn s :=
  Tries.bind (tries_ensureRunning s) fun _ s => tries_play s fun l =>
    Setting.leads_playerTurns h _ l

theorem tries_start (s : Session α) : Tries (Goes σ R) start s := by
  refine Tries.bind (tries_ensureRunning s) fun _ s => Tries.get_bind ?_
  split
  · exact Tries.pure _ s
  · refine Tries.bind (Tries.modify ⟨rfl, fun _ => refl_of R _⟩) fun _ s => ?_
    refine Tries.bind (tries_play s fun l => Setting.leads_battleStarts h _ l) fun _ s => ?_
    refine Tries.get_bind ?_
    split
    · exact Tries.pure _ s
    · exact tries_startPlayerTurn h s

end

/-- A card that can be played is one of the hand, and paid for with
energy that is there. -/
theorem playable?_eq_ok {s : Session α} {uid : Nat} {c : Card α} (h : s.playable? uid = .ok c) :
    c ∈ s.live.battle.piles.hand ∧ c.uid = uid ∧ ¬ s.live.battle.player.energy < c.cost := by
  simp only [playable?] at h
  split at h
  · cases h
  · split at h
    · cases h
    · next hfind =>
      split at h
      · cases h
      · next hcost =>
        cases h
        exact ⟨List.mem_of_find?_eq_some hfind, by simpa using List.find?_some hfind, hcost⟩

theorem tries_playCard (h : σ.Hosts true R) (uid : Nat) (s : Session α) :
    Tries (Goes σ R) (playCard uid) s := by
  refine Tries.bind (tries_ensureRunning s) fun _ s => Tries.get_bind ?_
  refine Tries.ofExcept_bind fun c hc => Tries.get_bind ?_
  obtain ⟨hheld, rfl, hcost⟩ := playable?_eq_ok hc
  have hgoal : (if c.exhausts then Pile.exhaust else Pile.discard) ≠ .hand := by
    split <;> simp
  refine Tries.bind (Tries.modify ⟨rfl, fun _ => h.deed (Live.deed_putAway _ hheld hgoal hcost)⟩) ?_
  intro _ s
  refine Tries.bind (tries_attempt s fun l => Setting.tries_execute h _ _ _ l) fun _ s => ?_
  refine Tries.get_bind ?_
  split
  · exact Tries.pure _ s
  · exact tries_play s fun l => h.course (Scene.course_fire _ _ _ l)

theorem tries_endPlayerTurn (h : σ.Hosts true R) (s : Session α) :
    Tries (Goes σ R) endPlayerTurn s := by
  refine Tries.bind (tries_ensureRunning s) fun _ s => ?_
  refine Tries.bind (tries_play s fun l => Setting.leads_finishPlayerTurn h l) fun _ s => ?_
  refine Tries.get_bind ?_
  split
  · exact Tries.pure _ s
  · exact tries_startPlayerTurn h s

/-- One case for each call that runs effects. -/
theorem tries_effect (h : σ.Hosts turns R) {c : Call α} (hc : c.takesTurns = false)
    (s : Session α) : Tries (Goes σ R) c.request s := by
  unfold Call.request
  cases c with
  | start | startPlayerTurn | playCard | endPlayerTurn => cases hc
  | runEffect text me =>
    exact Tries.bind (tries_ensureRunning s) fun _ s =>
      tries_attempt s fun l => Setting.tries_execute h _ _ _ l
  | execute text me ctx => exact tries_attempt s fun l => Setting.tries_execute h _ _ _ l
  | fire side t => exact tries_play s fun l => h.course (Scene.course_fire side t .plain l)
  | startTurn side => exact tries_play s fun l => Setting.leads_startTurn h side l
  | endTurn side => exact tries_play s fun l => Setting.leads_endTurn h side l
  | applyStatus side id n =>
    exact tries_attempt s fun l => h.course (Scene.course_applyStatus side id n .plain l)
  | removeStatus side id n =>
    exact tries_attempt s fun l => h.course (Scene.course_removeStatus side id n .plain l)
  | setStacks side id n =>
    exact tries_attempt s fun l => h.course (Scene.course_setStacks side id n .plain l)
  | addAbility side effect =>
    refine tries_attempt s fun l => Tries.bind ?_ fun _ l => Tries.pure _ l
    exact h.course (course_addAbility side effect l : σ.scene.Course .plain _ l _)
  | removeAbilities side key =>
    exact tries_play s fun l => Leads.modify (h.deed (Live.deed_removeAbilities l side key))
  | drawCards count =>
    refine tries_attempt s fun l => Tries.bind ?_ fun _ l => Tries.pure _ l
    exact h.course (Setting.course_drawCards count l : σ.scene.Course .plain _ l _)

/-- One case for each call. -/
theorem tries_request (h : σ.Hosts true R) (c : Call α) (s : Session α) :
    Tries (Goes σ R) c.request s := by
  cases c with
  | start => exact tries_start h s
  | startPlayerTurn => exact tries_startPlayerTurn h s
  | playCard uid => exact tries_playCard h uid s
  | endPlayerTurn => exact tries_endPlayerTurn h s
  | _ => exact tries_effect h rfl s

theorem goes_of_requests (s : Session α) {calls : List (Call α)}
    (h : ∀ c ∈ calls, ∀ s, Tries (Goes σ R) c.request s) : Goes σ R s (s.afterAll calls) := by
  induction calls generalizing s with
  | nil => exact refl_of (Goes σ R) s
  | cons c rest ih =>
    obtain ⟨hc, hrest⟩ := List.forall_mem_cons.mp h
    have hfirst : Goes σ R s (s.after c) := hc s
    exact trans_of (Goes σ R) hfirst (ih (s.after c) hrest)

/-- Whatever a host calls for, in whatever order and however it is
answered, the setting stays and the battle goes on as a relation says
that holds along turns and texts. -/
theorem goes_afterAll (h : σ.Hosts true R) (s : Session α) (calls : List (Call α)) :
    Goes σ R s (s.afterAll calls) :=
  goes_of_requests s fun c _ s => tries_request h c s

theorem goes_afterAll_of_effects (h : σ.Hosts turns R) (s : Session α) {calls : List (Call α)}
    (hcalls : ∀ c ∈ calls, c.takesTurns = false) : Goes σ R s (s.afterAll calls) :=
  goes_of_requests s fun c hc s => tries_effect h (hcalls c hc) s

/-! ## Traces and events -/

/-- The setting stayed, and the battle went on by a trace. -/
structure Advances (s t : Session α) : Prop where
  setting : t.toSetting = s.toSetting
  trace : Live.Trace s.toSetting s.rules.maxNesting false s.live t.live

theorem advances_afterAll (s : Session α) (calls : List (Call α)) :
    Advances s (s.afterAll calls) := by
  have hgoes := goes_afterAll (s.toSetting.hosts_trace true) s calls
  exact ⟨hgoes.setting, hgoes.live rfl⟩

theorem heard_afterAll (s : Session α) (calls : List (Call α)) :
    Live.Heard s.toSetting true s.live (s.afterAll calls).live :=
  (goes_afterAll (s.toSetting.hosts_heard true) s calls).live rfl

theorem heard_afterAll_of_effects (s : Session α) {calls : List (Call α)}
    (hcalls : ∀ c ∈ calls, c.takesTurns = false) :
    Live.Heard s.toSetting false s.live (s.afterAll calls).live :=
  (goes_afterAll_of_effects (s.toSetting.hosts_heard false) s hcalls).live rfl

/-- The same as single steps. -/
theorem steps_afterAll (s : Session α) (calls : List (Call α)) :
    Live.Steps s.toSetting s.live (s.afterAll calls).live :=
  (advances_afterAll s calls).trace.steps (by simp)

/-- What every change of a battle keeps holds after all calls, and at
every note that was written meanwhile. -/
theorem holds_afterAll (s : Session α) (calls : List (Call α)) {P : Battle α → Prop}
    (hP : Battle.Keeps s.toSetting P) (hstart : P s.live.battle) :
    Live.Holds P s.live.journal (s.afterAll calls).live :=
  (steps_afterAll s calls).holds hP (.start hstart)

end Session
end DeckDuel
