/-
DeckDuel.Proofs.AbilityPasses — which abilities run when a moment comes.

* `Ability.Coherent` — an ability is kept under the name that its text is
  wrapped in. Abilities that are loaded are, and so are those that are
  attached, so all abilities are at any moment of a run.
* `Live.GivenSince` — a side was given an ability for a moment since some
  time, as the events tell. `Live.Lacks` — if it was not, it still has
  none for a moment whose abilities were removed: the invariant that
  carries this along a run.
* `Trigger.bound` — the abilities of a list that are wrapped in a
  keyword. `Scene.Heeds` — abilities that have their moment, one after
  another, while the battle is not decided.
* `Scene.Pass` — what a pass over the abilities of a side comes to: those
  bound to the moment run, in the order of the list when the pass began,
  up to the decision of the battle. `Setting.react_pass` — every moment
  makes such a pass, whatever its texts do to the list.
* `Session.abilities_dispatched` — all of it, for any battle that is
  loaded and any run of calls.

What a text sets off is written deeper than the text that set it off, so
the reports of a pass can be told from those of passes within it.
-/
import DeckDuel.Proofs.AbilityIds
import DeckDuel.Proofs.Reentrance
import DeckDuel.Proofs.Reload

namespace DeckDuel

variable {α : Type}

/-! ## Names and texts -/

namespace Ability

/-- An ability is kept under the name that its text is wrapped in. -/
def Coherent (a : Ability) : Prop :=
  ∃ inner, unwrap a.effect.toList = some (a.trigger.toList, inner)

theorem coherent_of_ofEffect? {id effect : String} {a : Ability}
    (h : ofEffect? id effect = some a) : a.Coherent := by
  obtain ⟨⟨name, inner⟩, hunwrap, rfl⟩ := Option.map_eq_some_iff.mp h
  exact ⟨inner, by simpa using hunwrap⟩

theorem Attached.coherent {a : Ability} (h : a.Attached) : a.Coherent := by
  obtain ⟨n, effect, hmade⟩ := h
  exact coherent_of_ofEffect? hmade

theorem Reloads.coherent {a : Ability} (h : a.Reloads) : a.Coherent := by
  obtain ⟨b, hb, heq⟩ := Option.map_eq_some_iff.mp h.2
  have htrigger : b.trigger = a.trigger := by rw [← heq]
  have heffect : b.effect = a.effect := by rw [← heq]
  rw [Coherent, ← htrigger, ← heffect]
  exact coherent_of_ofEffect? hb

/-- So it has no inner text at moments of another name. -/
theorem Coherent.innerFor?_eq_none {a : Ability} (h : a.Coherent) {name : String}
    (hname : a.trigger ≠ name) : a.innerFor? name = none := by
  obtain ⟨inner, hunwrap⟩ := h
  simp [innerFor?, hunwrap, hname]

end Ability

/-- All abilities of both sides are coherent. -/
def Battle.Coherent (b : Battle α) : Prop := ∀ side, ∀ a ∈ (b.fighter side).abilities, a.Coherent

theorem Battle.Inherits.coherent {b c : Battle α} (h : b.Inherits c) (hb : b.Coherent) :
    c.Coherent := by
  intro side a ha
  rcases (h side).abilities a ha with hold | hattached
  · exact hb side a hold
  · exact hattached.coherent

theorem Snapshot.coherent_load [Scalar α] (snap : Snapshot α) (rules : Rules) :
    (snap.load rules).Coherent := by
  intro side a ha
  cases side <;> exact (reloads_of_mem_loadAbilities a ha).coherent

/-! ## Removed abilities -/

namespace Live

/-- Since the journal had `entries` entries, a side was given an ability
for a moment. -/
def GivenSince (entries : Nat) (side : Side) (k : Trigger) (l : Live α) : Prop :=
  ∃ text inner, .abilityAdded side text ∈ l.eventsSince entries ∧
    unwrap text.toList = some (k.keyword.toList, inner)

theorem mem_eventsSince {l : Live α} {new old : List (Entry α)} (h : l.journal = new ++ old)
    {e : Event α} : e ∈ l.eventsSince old.length ↔ e ∈ new.filterMap Entry.event? := by
  have hnew : l.journal.take (l.journal.length - old.length) = new := by
    rw [h, List.length_append, Nat.add_sub_cancel, List.take_left]
  rw [eventsSince, hnew, List.mem_reverse]

/-- What was given stays given. -/
theorem GivenSince.mono {l m : Live α} {old : List (Entry α)} {side : Side} {k : Trigger}
    (hl : old <:+ l.journal) (hm : l.journal <:+ m.journal)
    (h : GivenSince old.length side k l) : GivenSince old.length side k m := by
  obtain ⟨new, hnew⟩ := hl
  obtain ⟨more, hmore⟩ := hm
  obtain ⟨text, inner, hmem, hunwrap⟩ := h
  refine ⟨text, inner, ?_, hunwrap⟩
  rw [mem_eventsSince hnew.symm] at hmem
  have hjournal : m.journal = (more ++ new) ++ old := by
    rw [← hmore, ← hnew, List.append_assoc]
  rw [mem_eventsSince hjournal, List.filterMap_append]
  exact List.mem_append_right _ hmem

/-- The journal went on from `old`, and a side has no ability for a
moment unless it was given one since. -/
structure Lacks (old : List (Entry α)) (side : Side) (k : Trigger) (l : Live α) : Prop where
  since : old <:+ l.journal
  none : GivenSince old.length side k l ∨ ∀ a ∈ (l.fighter side).abilities, a.trigger ≠ k.keyword

variable {old : List (Entry α)} {side : Side} {k : Trigger} {l m : Live α}

/-- After abilities were removed by the keyword of a moment, the side has
none for it. -/
theorem lacks_removeAbilities (l : Live α) (side : Side) (k : Trigger) :
    Lacks l.journal side k (l.removeAbilities side k.keyword).2 := by
  refine ⟨List.suffix_rfl, .inr fun a ha => ?_⟩
  rw [abilities_removeAbilities, List.mem_filter] at ha
  simpa [meantBy, Effect.isKeyword_keyword] using ha.2

theorem Lacks.keep (h : Lacks old side k l) (hgrown : l.journal <:+ m.journal)
    (hkept : ∀ a ∈ (m.fighter side).abilities, a ∈ (l.fighter side).abilities) :
    Lacks old side k m :=
  ⟨h.since.trans hgrown, h.none.imp (.mono h.since hgrown) fun hnone a ha =>
    hnone a (hkept a ha)⟩

theorem Lacks.addAbility? (h : Lacks old side k l) (t : Side) (effect : String) :
    Lacks old side k (l.addAbility? t effect).2 := by
  obtain hnone | ⟨j, inner, hunwrap, hsome⟩ := l.addAbility?_cases t effect
  · rw [hnone]
    exact h.keep List.suffix_rfl fun _ ha => ha
  · rw [hsome]
    have hgrown : l.journal <:+ (l.grant t j effect).journal := List.suffix_cons _ _
    refine ⟨h.since.trans hgrown, ?_⟩
    by_cases hsame : t = side ∧ j = k
    · obtain ⟨rfl, rfl⟩ := hsame
      obtain ⟨new, hnew⟩ := h.since
      have hjournal : (l.grant t j effect).journal =
          (⟨.event (.abilityAdded t effect), l.depth, (l.grant t j effect).battle⟩ :: new) ++ old := by
        rw [List.cons_append, hnew]
        rfl
      refine .inl ⟨effect, inner, ?_, hunwrap⟩
      rw [mem_eventsSince hjournal]
      exact List.mem_cons_self
    · refine h.none.imp (.mono h.since hgrown) fun hlacks a ha => ?_
      rw [abilities_grant] at ha
      rcases List.mem_append.mp ha with hold | hnew
      · exact hlacks a hold
      · split at hnew
        · next hside =>
          obtain rfl := List.mem_singleton.mp hnew
          exact fun heq => hsame ⟨hside.symm, Effect.keyword_inj.mp heq⟩
        · cases hnew

variable [Scalar α] {s : Setting α}

theorem Step.lacks (h : Step s l m) (hl : Lacks old side k l) : Lacks old side k m := by
  obtain ⟨t, effect, rfl⟩ | ⟨t, key, rfl⟩ | hkept := h.abilities_cases
  · exact hl.addAbility? t effect
  · refine hl.keep List.suffix_rfl fun a ha => ?_
    rw [abilities_removeAbilities] at ha
    exact (List.mem_filter.mp ha).1
  · refine hl.keep hkept.grown fun a ha => ?_
    rwa [(hkept.fighters side).abilities] at ha

theorem Steps.lacks (h : Steps s l m) (hl : Lacks old side k l) : Lacks old side k m := by
  induction h with
  | refl => exact hl
  | tail _ h ih => exact h.lacks ih

end Live

/-! ## Passes -/

/-- The abilities of a list whose texts are wrapped in a keyword, with
their inner texts. -/
def Trigger.bound (t : Trigger) (as : List Ability) : List (Ability × String) :=
  as.filterMap fun a => (a.innerFor? t.keyword).map fun inner => (a, inner)

theorem Trigger.bound_cons (t : Trigger) (a : Ability) (as : List Ability) :
    t.bound (a :: as) =
      match a.innerFor? t.keyword with
      | none => t.bound as
      | some inner => (a, inner) :: t.bound as := by
  rw [bound, List.filterMap_cons]
  cases a.innerFor? t.keyword <;> rfl

/-- What an entry at a depth tells of an ability that had its moment. -/
def Entry.triggered? (depth : Nat) (e : Entry α) : Option (Side × String × String) :=
  match e.note with
  | .event (.abilityTriggered side k inner) => if e.depth = depth then some (side, k, inner) else none
  | _ => none

variable [Scalar α]

namespace Scene

/-- Abilities have their moment, one after another, each while the battle
is not decided. -/
inductive Heeds (sc : Scene α) (side : Side) (t : Trigger) (ctx : Context α) :
    Live α → List (Ability × String) → Live α → Prop where
  | nil (l : Live α) : Heeds sc side t ctx l [] l
  | cons {l m : Live α} {a : Ability} {inner : String} {rest : List (Ability × String)}
      (ongoing : l.battle.isOver = false)
      (later : Heeds sc side t ctx (sc.heed side t ctx a inner l) rest m) :
      Heeds sc side t ctx l ((a, inner) :: rest) m

omit [Scalar α] in
/-- A list of abilities is passed through up to a place. Those before it
that are bound to the moment have it; after it there is none, or the
battle is decided. -/
theorem run_runAbilities_heeds (sc : Scene α) (side : Side) (t : Trigger) (ctx : Context α)
    (as : List Ability) (l : Live α) :
    ∃ ran left m, t.bound as = ran ++ left ∧
      (sc.runAbilities side t ctx as).run l = (ran.length, m) ∧ sc.Heeds side t ctx l ran m ∧
      (left = [] ∨ m.battle.isOver = true) := by
  induction as generalizing l with
  | nil => exact ⟨[], [], l, rfl, rfl, .nil l, .inl rfl⟩
  | cons a as ih =>
    rw [run_runAbilities_cons, Trigger.bound_cons]
    cases hover : l.battle.isOver with
    | true => exact ⟨[], _, l, rfl, rfl, .nil l, .inr hover⟩
    | false =>
      cases a.innerFor? t.keyword with
      | none => exact ih l
      | some inner =>
        obtain ⟨ran, left, m, hbound, hrun, hheeds, hcut⟩ := ih (sc.heed side t ctx a inner l)
        refine ⟨(a, inner) :: ran, left, m, by rw [hbound]; rfl, ?_, .cons hover hheeds, hcut⟩
        simp only [hrun]
        rfl

end Scene

/-! ### What a pass reports -/

namespace Live

theorem writes_leave_gameOver (l : Live α) :
    Writes (fun e => ∃ w, e.note = .event (.gameOver w)) l l.leave := by
  unfold leave
  dsimp only
  split
  · unfold decideFallen
    split
    · exact .of_eq rfl
    · split
      · exact .of_eq rfl
      · next winner _ => exact ⟨[_], rfl, by simp⟩
  · exact .of_eq rfl

end Live

namespace Setting

open Live

variable {s : Setting α}

/-- What a text sets off is written deeper than what is running, but for
the end of the battle. -/
theorem writes_runWithin (n : Nat) (text : String) (me : Side) (ctx : Context α) (l : Live α) :
    Writes (fun e => l.depth < e.depth ∨ ∃ w, e.note = .event (.gameOver w)) l
      ((s.runWithin n text me ctx).run.run l).2 := by
  cases n with
  | zero => exact .of_eq rfl
  | succ n =>
    have hr : (⟨s, s.runWithin n⟩ : Scene α).Runs n := fun text me ctx i l =>
      tries_runWithin n text me ctx l
    have htrace : Trace s n true (l.enter text me) _ :=
      Scene.tries_runUnits hr text me ctx (l.enter text me)
    have hbody := htrace.writes_depth
    rw [enter_depth] at hbody
    refine ((writes_enter l text me).mono fun e he => ?_).trans
      ((hbody.mono fun e he => ?_).trans ((writes_leave_gameOver _).mono fun e he => .inr he))
    · exact .inl (by omega)
    · exact .inl (by omega)

theorem depth_runWithin (n : Nat) (text : String) (me : Side) (ctx : Context α) (l : Live α) :
    ((s.runWithin n text me ctx).run.run l).2.depth = l.depth :=
  (tries_runWithin n text me ctx l : Trace s n true l _).depth_eq

end Setting

namespace Scene

open Live

variable {s : Setting α} {n : Nat} {side : Side} {t : Trigger} {ctx : Context α} {l m : Live α}

/-- An ability that has its moment is reported, and nothing else is at
its depth but the end of the battle. -/
theorem journal_heed (a : Ability) (inner : String) :
    let m := (⟨s, s.runWithin n⟩ : Scene α).heed side t ctx a inner l
    m.depth = l.depth ∧ ∃ new, m.journal = new ++ l.journal ∧
      new.filterMap (Entry.triggered? l.depth) = [(side, t.keyword, inner)] := by
  intro m
  let told := l.emit (.abilityTriggered side t.keyword inner)
  let own : Context α := { ctx.onTrigger t.keyword with ability := some a.id }
  obtain ⟨new, hnew, hdeeper⟩ := s.writes_runWithin n inner side own told
  let report : Entry α := ⟨.event (.abilityTriggered side t.keyword inner), l.depth, l.battle⟩
  refine ⟨s.depth_runWithin n inner side own told, new ++ [report], ?_, ?_⟩
  · exact hnew.trans (List.append_cons ..)
  · have hnone : new.filterMap (Entry.triggered? l.depth) = [] := by
      refine List.filterMap_eq_nil_iff.mpr fun e he => ?_
      rcases hdeeper e he with hdepth | ⟨w, hw⟩
      · have hne : e.depth ≠ l.depth := Nat.ne_of_gt hdepth
        unfold Entry.triggered?
        split
        · exact if_neg hne
        · rfl
      · simp [Entry.triggered?, hw]
    rw [List.filterMap_append, hnone]
    simp [Entry.triggered?, report]

theorem Heeds.told {ran : List (Ability × String)}
    (h : (⟨s, s.runWithin n⟩ : Scene α).Heeds side t ctx l ran m) :
    ∃ new, m.journal = new ++ l.journal ∧ new.filterMap (Entry.triggered? l.depth) =
      (ran.map fun r => (side, t.keyword, r.2)).reverse := by
  induction h with
  | nil l => exact ⟨[], rfl, rfl⟩
  | @cons l m a inner rest _ _ ih =>
    obtain ⟨hdepth, new, hnew, htold⟩ := journal_heed (s := s) (n := n) (l := l) a inner
    obtain ⟨more, hmore, hrest⟩ := ih
    refine ⟨more ++ new, by rw [hmore, hnew, List.append_assoc], ?_⟩
    rw [hdepth] at hrest
    rw [List.filterMap_append, hrest, htold, List.map_cons, List.reverse_cons]

/-- What a pass over the abilities of a side comes to. Of those that are
bound to the moment some have run, and others are left. -/
structure Pass (sc : Scene α) (side : Side) (t : Trigger) (ctx : Context α) (l : Live α)
    (ran left : List (Ability × String)) (m : Live α) : Prop where
  /-- They are those that were held when the pass began, in order. -/
  bound : t.bound (l.fighter side).abilities = ran ++ left
  heeds : sc.Heeds side t ctx l ran m
  /-- Only the decision of the battle cuts a pass short. -/
  cut : left = [] ∨ m.battle.isOver = true
  /-- The reports of the pass tell which of them ran. -/
  told : ∃ new, m.journal = new ++ l.journal ∧ new.filterMap (Entry.triggered? l.depth) =
    (ran.map fun r => (side, t.keyword, r.2)).reverse

end Scene

/-- A moment makes a pass over the abilities of its side. -/
theorem Setting.react_pass (s : Setting α) (n : Nat) (side : Side) {t : Trigger}
    (ht : t ≠ .passive) (ctx : Context α) (l : Live α) :
    let sc : Scene α := ⟨s, s.runWithin n⟩
    ∃ ran left m, sc.Pass side t ctx (l.write (.fired side t)) ran left m ∧
      let others := (sc.reactOtherwise side t ctx).run m
      (sc.react side t ctx).run l = (ran.length + others.1, others.2) := by
  intro sc
  obtain ⟨ran, left, m, hbound, hrun, hheeds, hcut⟩ :=
    sc.run_runAbilities_heeds side t ctx (l.fighter side).abilities (l.write (.fired side t))
  refine ⟨ran, left, m, ⟨hbound, hheeds, hcut, hheeds.told⟩, ?_⟩
  simp only [sc.run_react side t ctx ht, hrun]

omit [Scalar α] in
/-- A side with no ability for a moment runs none when it comes. -/
theorem Scene.run_react_of_bound_nil (sc : Scene α) (side : Side) {t : Trigger}
    (ht : t ≠ .passive) (ctx : Context α) {l : Live α}
    (hnone : t.bound (l.fighter side).abilities = []) :
    (sc.react side t ctx).run l = (sc.reactOtherwise side t ctx).run (l.write (.fired side t)) := by
  obtain ⟨ran, left, m, hbound, hrun, hheeds, -⟩ :=
    sc.run_runAbilities_heeds side t ctx (l.fighter side).abilities (l.write (.fired side t))
  obtain ⟨rfl, -⟩ := List.append_eq_nil_iff.mp (hbound.symm.trans hnone)
  cases hheeds
  simp only [sc.run_react side t ctx ht, hrun, List.length_nil, Nat.zero_add, Prod.mk.eta]

/-- **Abilities are dispatched by their texts.** A host calls for anything
in a battle that was loaded. At any moment `l` on the way

* every ability is kept under the name that its text is wrapped in;
* if the abilities of a side are removed by the keyword of a moment, the
  side runs none of them when the moment comes, as long as it is not
  given a new one;
* if a moment comes, the abilities run that were held then and are bound
  to it, in their order and whatever they do to the list, until the
  battle is decided; the passive state never comes. -/
theorem Session.abilities_dispatched (snap : Snapshot α) (rules : Rules) (chooser : Chooser α)
    (catalog : Catalog) (calls : List (Call α)) :
    let s := loadWith snap rules chooser catalog
    Live.Steps s.toSetting s.live (s.afterAll calls).live ∧
      ∀ l, Live.Steps s.toSetting s.live l →
        l.battle.Coherent ∧
        (∀ (side : Side) (k : Trigger) (m : Live α),
          let removed := (l.removeAbilities side k.keyword).2
          Live.Steps s.toSetting removed m →
          ¬ Live.GivenSince removed.journal.length side k m →
          ∀ (sc : Scene α) (ctx : Context α), k ≠ .passive →
            (sc.react side k ctx).run m =
              (sc.reactOtherwise side k ctx).run (m.write (.fired side k))) ∧
        ∀ (n : Nat) (side : Side) (t : Trigger) (ctx : Context α),
          let sc : Scene α := ⟨s.toSetting, s.toSetting.runWithin n⟩
          (t = .passive → (sc.react side t ctx).run l = (0, l)) ∧
          (t ≠ .passive → ∃ ran left m, sc.Pass side t ctx (l.write (.fired side t)) ran left m ∧
            let others := (sc.reactOtherwise side t ctx).run m
            (sc.react side t ctx).run l = (ran.length + others.1, others.2)) := by
  intro s
  have hcoherent {l : Live α} (hl : Live.Steps s.toSetting s.live l) : l.battle.Coherent :=
    hl.inherits.coherent (snap.coherent_load rules)
  refine ⟨steps_afterAll s calls, fun l hl => ⟨hcoherent hl, ?_, ?_⟩⟩
  · intro side k m removed hm hnot sc ctx hk
    have hlacks : Live.Lacks l.journal side k m := hm.lacks (l.lacks_removeAbilities side k)
    have hnone : ∀ a ∈ (m.fighter side).abilities, a.trigger ≠ k.keyword :=
      hlacks.none.resolve_left hnot
    have hstep : Live.Step s.toSetting l removed := .outer (.removeAbilities l side k.keyword)
    have hheld := hcoherent (hl.trans (hm.head hstep)) side
    refine sc.run_react_of_bound_nil side hk ctx (List.filterMap_eq_nil_iff.mpr fun a ha => ?_)
    rw [(hheld a ha).innerFor?_eq_none (hnone a ha)]
    rfl
  · intro n side t ctx sc
    refine ⟨?_, fun ht => s.toSetting.react_pass n side ht ctx l⟩
    rintro rfl
    rfl

/-- An ability is attached and bound to its moment; after it was removed
by the keyword, the moment finds none. -/
theorem Session.abilities_dispatched_duel :
    let s := loadWith (.duel : Snapshot Double) .standard .leftmost .standard
    let l := (s.afterAll [.addAbility .player "turn_start(ME.block+1)"]).live
    let removed := (l.removeAbilities .player Trigger.turnStart.keyword).2
    (Trigger.turnStart.bound (l.fighter .player).abilities).map Prod.snd = ["ME.block+1"] ∧
      l.battle.Coherent ∧
      (s.scene.react .player .turnStart .plain).run removed =
        (s.scene.reactOtherwise .player .turnStart .plain).run
          (removed.write (.fired .player .turnStart)) := by
  intro s
  obtain ⟨hsteps, hrun⟩ := abilities_dispatched (.duel : Snapshot Double) .standard .leftmost
    .standard [.addAbility .player "turn_start(ME.block+1)"]
  -- The battle is a name from here on, so that nothing runs the call but one check.
  generalize hl : (s.afterAll [.addAbility .player "turn_start(ME.block+1)"]).live = l at hsteps ⊢
  intro l' removed
  have hbound : (Trigger.turnStart.bound (l.fighter .player).abilities).map Prod.snd =
      ["ME.block+1"] := by
    rw [← hl]
    decide +kernel
  obtain ⟨hcoherent, hremoved, -⟩ := hrun l hsteps
  refine ⟨hbound, hcoherent, hremoved .player .turnStart removed .refl ?_ s.scene .plain (by decide)⟩
  rintro ⟨text, inner, hgiven, -⟩
  cases (Live.mem_eventsSince (List.nil_append removed.journal).symm).mp hgiven

end DeckDuel
