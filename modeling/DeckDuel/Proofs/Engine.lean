/-
DeckDuel.Proofs.Engine — what every run of the engine has in common.

* `Scene.Carries` — a relation that holds along the units of a text:
  along their courses, and along the notes between them.
  `Scene.Carries.runUnits` — so it holds along the text.
  `Setting.carried_runWithin` — and along what the text sets off.
* `Scene.Runs` — the texts that a scene runs are traces with a number
  of levels. `Scene.Course.trace` — with such a scene a course is a
  trace.
* `Setting.tries_runWithin` — closes the circle: running texts with a
  number of levels left makes such a scene, by induction on the number.
* `Setting.heard_runWithin` — what a text does is told by its events.

What a function of the engine does is told by its course; everything
that is proved of traces and of events stays.
-/
import DeckDuel.Proofs.Course

namespace DeckDuel

open Live

variable {α : Type} [Scalar α] {sc : Scene α} {s : Setting α} {n : Nat} {i : Bool}

/-! ## Texts -/

/-- A relation that holds along the units of a text and the notes between
them. -/
structure Scene.Carries (sc : Scene α) (R : Live α → Live α → Prop) : Prop where
  course : ∀ {ctx : Context α} {l m : Live α}, sc.Course ctx true l m → R l m
  refused : ∀ (l : Live α) (c : Clause α) (r : Refusal), R l (l.write (.refused c r))

namespace Scene.Carries

variable {R : Live α → Live α → Prop} [IsPreorder (Live α) R]

theorem runClauses (h : sc.Carries R) (me : Side) (ctx : Context α) (cs : List (Clause α))
    (l : Live α) : Tries R (sc.runClauses me ctx cs) l := by
  induction cs generalizing l with
  | nil => exact Tries.pure _ l
  | cons c rest ih =>
    refine Tries.caught_bind (h.course (course_runClause c me ctx l)) fun r l _ => ?_
    cases r with
    | ok _ => exact ih l
    | error r =>
      refine Tries.bind (Tries.modify (h.refused l c r)) fun _ l => ?_
      split
      · exact Tries.throw _ l
      · exact Tries.bind (Tries.lift (h.course (course_reportSkipped _ _ ctx l))) fun _ l => ih l

/-- It holds along a text once the text was looked up. -/
theorem runUnits_read (h : sc.Carries R) (text : String) (me : Side) (ctx : Context α)
    (l : Live α) :
    R { l with memo := (l.memo.parse sc.catalog text).2 }
      ((sc.runUnits text me ctx).run.run l).2 := by
  have hrest (units : List (Reading α)) (l : Live α) : Tries R (do
      reportFaults ctx units
      sc.runClauses me ctx (plan sc.catalog units)) l :=
    Tries.bind (Tries.lift (h.course (course_reportFaults ctx units l))) fun _ l =>
      h.runClauses me ctx _ l
  exact hrest _ _

theorem runUnits (h : sc.Carries R) (text : String) (me : Side) (ctx : Context α) (l : Live α)
    (hread : R l { l with memo := (l.memo.parse sc.catalog text).2 }) :
    Tries R (sc.runUnits text me ctx) l := by
  have hrest := h.runUnits_read text me ctx l
  exact trans_of R hread hrest

end Scene.Carries

/-- What units carry if the texts that they set off do, and what holds as
a text starts and ends, holds along texts; by induction on the levels,
since the texts set off by a text have one less. -/
theorem Setting.carried_runWithin {R : Live α → Live α → Prop} [IsPreorder (Live α) R]
    (hcarries : ∀ run, (∀ text me ctx l, Tries R (run text me ctx) l) →
      (⟨s, run⟩ : Scene α).Carries R)
    (hstart : ∀ l text me, R l { l.enter text me with
      memo := ((l.enter text me).memo.parse s.catalog text).2 })
    (hleave : ∀ l, R l l.leave) (levels : Nat) (text : String) (me : Side) (ctx : Context α)
    (l : Live α) : Tries R (s.runWithin levels text me ctx) l := by
  induction levels generalizing text me ctx l with
  | zero => exact Tries.throw _ l
  | succ levels ih =>
    let sc : Scene α := ⟨s, s.runWithin levels⟩
    -- between entering and leaving nothing but the units runs, refused or not
    have hunits := (hcarries _ ih).runUnits_read text me ctx (l.enter text me)
    have hleft := hleave ((sc.runUnits text me ctx).run.run (l.enter text me)).2
    exact trans_of R (trans_of R (hstart l text me) hunits) hleft

/-! ## Traces -/

/-- Texts that a scene runs are traces with at most `n` levels. -/
def Scene.Runs (sc : Scene α) (n : Nat) : Prop :=
  ∀ (text : String) (me : Side) (ctx : Context α) (i : Bool) (l : Live α),
    Tries (Trace sc.toSetting n i) (sc.run text me ctx) l

/-- A course is a trace if the texts that are set off are. -/
theorem Scene.Course.trace (hr : sc.Runs n) {ctx : Context α} {l m : Live α}
    (h : sc.Course ctx i l m) : Trace sc.toSetting n i l m := by
  induction h with
  | refl l => exact .refl l
  | trans _ _ ih₁ ih₂ => exact .trans ih₁ ih₂
  | deed h => exact h.trace.mono (Nat.zero_le n)
  | @overflow l m side idle _ ih =>
    have hbegun : Trace sc.toSetting n true (l.markOverflow side true) (l.beginOverflow side) :=
      .outer (.note _ _ (by simp))
    have hcleared : Trace sc.toSetting n true m (m.clearLust side) := .inner (.clearLust m side)
    exact .trans (.overflow side idle (hbegun.trans (.trans ih hcleared)))
      (.outer (.note _ _ (by simp)))
  | text effect me _ l => exact hr effect me _ _ l

theorem Scene.Runs.carries (hr : sc.Runs n) : sc.Carries (Trace sc.toSetting n true) where
  course h := h.trace hr
  refused l c r := .outer (.note l _ (by simp))

/-- A scene that sets off nothing. What sets off no text goes a course
in it. -/
def Setting.silent (s : Setting α) : Scene α := ⟨s, fun _ _ _ => pure ()⟩

theorem Setting.runs_silent (s : Setting α) : s.silent.Runs n := fun _ _ _ _ l => Tries.pure _ l

theorem leads_emit {e : Event α} (h : ∀ w, e ≠ .gameOver w) (l : Live α) :
    Leads (Trace s n i) (emit e) l :=
  Leads.modify (.outer (.note l _ fun w hw => h w (by injection hw)))

theorem Setting.tries_drawCards (count : Nat) (l : Live α) :
    Tries (Trace s n i) (s.drawCards count) l :=
  (course_drawCards count l : s.silent.Course .plain i l _).trace s.runs_silent

theorem Scene.tries_runUnits (hr : sc.Runs n) (text : String) (me : Side) (ctx : Context α)
    (l : Live α) : Tries (Trace sc.toSetting n true) (sc.runUnits text me ctx) l :=
  hr.carries.runUnits text me ctx l (.outer (.memo l _))

namespace Setting

/-- A text with some levels left is a trace with as many; by induction
on the levels, since the texts set off by it have one less. -/
theorem tries_runWithin (levels : Nat) (text : String) (me : Side) (ctx : Context α)
    (l : Live α) : Tries (Trace s levels i) (s.runWithin levels text me ctx) l := by
  induction levels generalizing text me ctx i l with
  | zero => exact Tries.throw _ l
  | succ levels ih =>
    have hr : (⟨s, s.runWithin levels⟩ : Scene α).Runs levels := fun text me ctx i l =>
      ih text me ctx l
    -- between entering and leaving nothing but the units runs, refused or not
    exact .text text me (Scene.tries_runUnits hr text me ctx (l.enter text me))

end Setting

/-! ## Events -/

namespace Live

variable {turns : Bool}

theorem heard_enter (l : Live α) (text : String) (me : Side) :
    Heard s turns l (l.enter text me) := by
  unfold enter
  split
  · exact heard_unnoticed (events_write _ (by simp)) (.of_player rfl rfl)
  · exact heard_unnoticed (events_write _ (by simp)) (.of_player rfl rfl)

theorem heard_beginOverflow (l : Live α) (side : Side) :
    Heard s turns l (l.beginOverflow side) :=
  (heard_same (m := l.markOverflow side true) rfl rfl).trans (heard_emit _ rfl)

theorem heard_endOverflow (l : Live α) (side : Side) : Heard s turns l (l.endOverflow side) :=
  (heard_clearLust l side).trans (heard_same (events_write _ (by simp)) rfl)

theorem heard_conclude (l : Live α) (winner : Side) : Heard s turns l (l.conclude winner) := by
  have hdecided : Heard s turns l (l.mapBattle fun b =>
      { b with fallen := .same false, outcome := some (.ofWinner winner) }) :=
    heard_unnoticed rfl (.of_player rfl rfl)
  exact hdecided.trans (heard_emit _ rfl)

theorem heard_leave (l : Live α) : Heard s turns l l.leave := by
  have hleft : Heard s turns l { l with depth := l.depth - 1 } := heard_same rfl rfl
  simp only [leave]
  split
  · refine hleft.trans ?_
    unfold decideFallen
    split
    · exact heard_unnoticed rfl (.of_player rfl rfl)
    · split
      · exact .refl _
      · exact heard_conclude _ _
  · exact hleft

end Live

/-- What units do is told by their events, if what the texts that are set
off do is. -/
theorem Scene.carries_heard {turns : Bool}
    (hrun : ∀ text me ctx l, Tries (Heard sc.toSetting turns) (sc.run text me ctx) l) :
    sc.Carries (Heard sc.toSetting turns) where
  course h := h.carries (fun _ _ _ h => h.heard.mono) heard_beginOverflow heard_endOverflow
    fun text me ctx l _ => hrun text me ctx l
  refused l c r := heard_same (events_write l (by simp)) rfl

/-- Whatever a text sets off, the events tell of it. -/
theorem Setting.heard_runWithin {turns : Bool} (levels : Nat) (text : String) (me : Side)
    (ctx : Context α) (l : Live α) :
    Tries (Heard s turns) (s.runWithin levels text me ctx) l := by
  have hstart (l : Live α) (text : String) (me : Side) : Heard s turns l
      { l.enter text me with memo := ((l.enter text me).memo.parse s.catalog text).2 } :=
    (heard_enter l text me).trans (heard_same rfl rfl)
  exact carried_runWithin (fun _ hrun => Scene.carries_heard hrun) hstart heard_leave levels text me
    ctx l

end DeckDuel
