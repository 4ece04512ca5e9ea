/-
DeckDuel.Proofs.OwnMoments — the moments that what is running lets come
itself.

* `Live.moments` — the moments that came between two states at the depth
  of the first, in order. Texts that are set off run deeper, so what
  they let come is not among them.
* `Live.storedBy` — the battle that the first text found that was set
  off in between: what was stored until then.
* `Live.Tells` — entries that tell of such moments. `Live.Calm` — none
  of them does. So it is of texts that are set off (`Setting.calm_runWithin`),
  and of all that a moment sets off.
* `Live.Dispatches` — moments come one after another, with nothing
  before the first of them. `Scene.dispatches_fire` — a moment that
  comes is one of them, and `Scene.dispatches_overflowLust` — a lust
  overflow is at most one.
* `Live.Dispatches.moments_eq`, `Live.Dispatches.storedBy_eq` — what
  they come to for whoever reads the journal.
-/
import DeckDuel.Proofs.AbilityPasses

namespace DeckDuel

variable {α : Type}

/-! ## What the journal tells -/

/-- The moment that an entry at a depth tells of. -/
def Entry.moment? (depth : Nat) (e : Entry α) : Option (Side × Trigger) :=
  match e.note with
  | .fired side t => if e.depth = depth then some (side, t) else none
  | _ => none

/-- Does a note tell of something that sets off texts? -/
def Note.setsOff : Note α → Bool
  | .fired _ _ | .event (.lustOverflow _) => true
  | _ => false

namespace Live

variable {l m k : Live α}

/-- The entries that were written since a state, oldest first. -/
def entriesSince (l m : Live α) : List (Entry α) :=
  (m.journal.take (m.journal.length - l.journal.length)).reverse

/-- The moments that came since a state at its depth, oldest first. -/
def moments (l m : Live α) : List (Side × Trigger) :=
  (l.entriesSince m).filterMap (Entry.moment? l.depth)

/-- The battle as it was when something was first set off since a state,
or as it is if nothing was. -/
def storedBy (l m : Live α) : Battle α :=
  (((l.entriesSince m).find? fun e => e.note.setsOff).map Entry.battle).getD m.battle

/-- Entries were written, and the depth is what it was. -/
structure Wrote (l : Live α) (es : List (Entry α)) (m : Live α) : Prop where
  depth : m.depth = l.depth
  journal : m.journal = es.reverse ++ l.journal

theorem Wrote.refl (l : Live α) : Wrote l [] l := ⟨rfl, rfl⟩

theorem Wrote.trans {es fs : List (Entry α)} (h : Wrote l es k) (h' : Wrote k fs m) :
    Wrote l (es ++ fs) m :=
  ⟨h'.depth.trans h.depth, by rw [h'.journal, h.journal, List.reverse_append, List.append_assoc]⟩

theorem wrote_write (l : Live α) (n : Note α) :
    Wrote l [⟨n, l.depth, l.battle⟩] (l.write n) := ⟨rfl, rfl⟩

theorem Wrote.entriesSince_eq {es : List (Entry α)} (h : Wrote l es m) : l.entriesSince m = es := by
  simp [entriesSince, h.journal]

/-- Entries were written that tell of moments at the depth of the
first. -/
def Tells (l : Live α) (fs : List (Side × Trigger)) (m : Live α) : Prop :=
  ∃ es, Wrote l es m ∧ es.filterMap (Entry.moment? l.depth) = fs

theorem Tells.trans {fs gs : List (Side × Trigger)} (h : Tells l fs k) (h' : Tells k gs m) :
    Tells l (fs ++ gs) m := by
  obtain ⟨es, hes, rfl⟩ := h
  obtain ⟨es', hes', rfl⟩ := h'
  rw [hes.depth]
  exact ⟨es ++ es', hes.trans hes', List.filterMap_append⟩

/-- Nothing that was written tells of a moment at the depth of the
first. -/
def Calm (l m : Live α) : Prop := Tells l [] m

instance : IsPreorder (Live α) Calm where
  refl l := ⟨[], .refl l, rfl⟩
  trans _ _ _ h h' := h.trans h'

theorem calm_of_eq (hdepth : m.depth = l.depth) (hjournal : m.journal = l.journal) : Calm l m :=
  ⟨[], ⟨hdepth, hjournal⟩, rfl⟩

theorem calm_write (l : Live α) {n : Note α} (h : ∀ side t, n ≠ .fired side t) :
    Calm l (l.write n) := by
  refine ⟨_, wrote_write l n, ?_⟩
  cases n with
  | fired side t => exact absurd rfl (h side t)
  | _ => rfl

theorem calm_emit (l : Live α) (e : Event α) : Calm l (l.emit e) := calm_write l (by simp)

/-- Nothing that was written tells of anything that was set off. -/
def Quiet (l m : Live α) : Prop := ∃ es, Wrote l es m ∧ ∀ e ∈ es, e.note.setsOff = false

theorem Quiet.refl (l : Live α) : Quiet l l := ⟨[], .refl l, by simp⟩

theorem Quiet.trans (h : Quiet l k) (h' : Quiet k m) : Quiet l m := by
  obtain ⟨es, hes, hquiet⟩ := h
  obtain ⟨es', hes', hquiet'⟩ := h'
  refine ⟨es ++ es', hes.trans hes', fun e he => ?_⟩
  rcases List.mem_append.mp he with he | he
  · exact hquiet e he
  · exact hquiet' e he

theorem quiet_of_eq (hdepth : m.depth = l.depth) (hjournal : m.journal = l.journal) : Quiet l m :=
  ⟨[], ⟨hdepth, hjournal⟩, by simp⟩

theorem quiet_emit (l : Live α) {e : Event α} (h : ∀ side, e ≠ .lustOverflow side) :
    Quiet l (l.emit e) := by
  refine ⟨_, wrote_write l _, fun f hf => ?_⟩
  obtain rfl := List.mem_singleton.mp hf
  cases e with
  | lustOverflow side => exact absurd rfl (h side)
  | _ => rfl

theorem Quiet.calm (h : Quiet l m) : Calm l m := by
  obtain ⟨es, hes, hquiet⟩ := h
  refine ⟨es, hes, List.filterMap_eq_nil_iff.mpr fun e he => ?_⟩
  have hnote := hquiet e he
  unfold Note.setsOff at hnote
  unfold Entry.moment?
  split at hnote <;> simp_all

/-! ## Moments one after another -/

/-- Moments come one after another, with nothing before what is first set
off. -/
inductive Dispatches (l : Live α) : List (Side × Trigger) → Live α → Prop where
  | nothing : Dispatches l [] l
  | begins {n : Note α} {fs : List (Side × Trigger)} {m : Live α} (first : n.setsOff = true)
      (rest : Tells (l.write n) fs m) :
      Dispatches l ((Entry.moment? l.depth ⟨n, l.depth, l.battle⟩).toList ++ fs) m

theorem Dispatches.tells {fs : List (Side × Trigger)} (h : Dispatches l fs m) : Tells l fs m := by
  cases h with
  | nothing => exact ⟨[], .refl l, rfl⟩
  | @begins n fs m first rest =>
    refine Tells.trans ⟨_, wrote_write l n, ?_⟩ rest
    cases hmoment : Entry.moment? l.depth ⟨n, l.depth, l.battle⟩ <;> simp [hmoment]

theorem Dispatches.trans {fs gs : List (Side × Trigger)} (h : Dispatches l fs k)
    (h' : Dispatches k gs m) : Dispatches l (fs ++ gs) m := by
  cases h with
  | nothing => exact h'
  | begins first rest =>
    rw [List.append_assoc]
    exact .begins first (rest.trans h'.tells)

variable {fs : List (Side × Trigger)}

/-- What comes of moments, after nothing was set off. -/
theorem Dispatches.moments_eq (hquiet : Quiet l k) (h : Dispatches k fs m) : l.moments m = fs := by
  obtain ⟨es, hes, hmoments⟩ : Tells l fs m := hquiet.calm.trans h.tells
  rw [moments, hes.entriesSince_eq, hmoments]

theorem Dispatches.storedBy_eq (hquiet : Quiet l k) (h : Dispatches k fs m) :
    l.storedBy m = k.battle := by
  obtain ⟨es, hes, hnone⟩ := hquiet
  have hskip : es.find? (fun e => e.note.setsOff) = none :=
    List.find?_eq_none.mpr fun e he => by simp [hnone e he]
  cases h with
  | nothing => rw [storedBy, hes.entriesSince_eq, hskip, Option.map_none, Option.getD_none]
  | @begins n fs m first rest =>
    obtain ⟨es', hes', -⟩ := rest
    have hall := (hes.trans (wrote_write k n)).trans hes'
    simp [storedBy, hall.entriesSince_eq, List.find?_append, hskip, first]

end Live

/-! ## What a moment sets off -/

open Live

variable [Scalar α]

namespace Live

theorem quiet_reportChange (l : Live α) (side : Side) (attr : String) (before after : α) :
    Quiet l (l.reportChange side attr before after) := by
  unfold reportChange
  split
  · exact .refl l
  · exact quiet_emit l (by simp)

/-- A number of a fighter is stored and reported. -/
theorem quiet_stored (l : Live α) (side : Side) (f : Fighter α → Fighter α) (attr : String)
    (before after : α) : Quiet l ((l.mapFighter side f).reportChange side attr before after) :=
  Quiet.trans (k := l.mapFighter side f) (quiet_of_eq rfl rfl) (quiet_reportChange _ _ _ _ _)

/-- That an overflow ends tells of no moment. -/
theorem calm_endOverflow (l : Live α) (side : Side) : Calm l (l.endOverflow side) := by
  have hcleared : Calm l (l.clearLust side) := (quiet_stored l side _ _ _ _).calm
  have hunmarked : Calm (l.clearLust side) ((l.clearLust side).markOverflow side false) :=
    calm_of_eq rfl rfl
  exact trans_of Calm hcleared (trans_of Calm hunmarked (calm_write _ (by simp)))

end Live

/-- Texts that are set off run deeper. -/
theorem Setting.calm_runWithin (s : Setting α) (n : Nat) (text : String) (me : Side)
    (ctx : Context α) (l : Live α) : Tries Calm (s.runWithin n text me ctx) l := by
  obtain ⟨new, hnew, hdeeper⟩ := s.writes_runWithin n text me ctx l
  refine ⟨new.reverse, ⟨s.depth_runWithin n text me ctx l, ?_⟩, ?_⟩
  · rw [List.reverse_reverse]
    exact hnew
  · refine List.filterMap_eq_nil_iff.mpr fun e he => ?_
    unfold Entry.moment?
    rcases hdeeper e (List.mem_reverse.mp he) with hdepth | ⟨w, hw⟩
    · have hne : e.depth ≠ l.depth := Nat.ne_of_gt hdepth
      split
      · exact if_neg hne
      · rfl
    · rw [hw]

namespace Scene

variable {sc : Scene α} (hruns : ∀ text me ctx l, Tries Calm (sc.run text me ctx) l)

include hruns

omit [Scalar α] in
theorem calm_runLoose (text : String) (me : Side) (ctx : Context α) (l : Live α) :
    Leads Calm (sc.runLoose text me ctx) l :=
  Leads.bind (hruns text me ctx l) fun _ l => Leads.pure _ l

omit [Scalar α] in
theorem calm_runAbilities (side : Side) (t : Trigger) (ctx : Context α) (as : List Ability)
    (l : Live α) : Leads Calm (sc.runAbilities side t ctx as) l := by
  induction as generalizing l with
  | nil => exact Leads.pure _ l
  | cons a rest ih =>
    refine Leads.get_bind ?_
    split
    · exact Leads.pure _ l
    · split
      · exact ih l
      · refine Leads.bind (Leads.modify (calm_emit l _)) fun _ l => ?_
        refine Leads.bind (calm_runLoose hruns _ _ _ l) fun _ l => ?_
        exact Leads.bind (ih l) fun _ l => Leads.pure _ l

omit [Scalar α] in
theorem calm_runStatusTexts (holder : Side) (id moment : String) (stackCount : Nat)
    (ctx : Context α) (texts : List String) (l : Live α) :
    Leads Calm (sc.runStatusTexts holder id moment stackCount ctx texts) l := by
  induction texts generalizing l with
  | nil => exact Leads.pure _ l
  | cons text rest ih => exact Leads.bind (calm_runLoose hruns _ _ _ l) fun _ l => ih l

omit [Scalar α] in
theorem calm_runStatusEvents (side : Side) (t : Trigger) (ctx : Context α)
    (held : List HeldStatus) (l : Live α) : Leads Calm (sc.runStatusEvents side t ctx held) l := by
  induction held generalizing l with
  | nil => exact Leads.pure _ l
  | cons h rest ih =>
    refine Leads.get_bind ?_
    refine Leads.bind (calm_runStatusTexts hruns _ _ _ _ _ _ l) fun _ l => ?_
    exact Leads.bind (ih l) fun _ l => Leads.pure _ l

omit [Scalar α] in
theorem calm_runRelics (t : Trigger) (ctx : Context α) (segments : List String) (l : Live α) :
    Leads Calm (sc.runRelics t ctx segments) l := by
  induction segments generalizing l with
  | nil => exact Leads.pure _ l
  | cons inner rest ih =>
    refine Leads.bind (Leads.modify (calm_emit l _)) fun _ l => ?_
    refine Leads.bind (calm_runLoose hruns _ _ _ l) fun _ l => ?_
    exact Leads.bind (ih l) fun _ l => Leads.pure _ l

omit [Scalar α] in
theorem calm_reactOtherwise (side : Side) (t : Trigger) (ctx : Context α) (l : Live α) :
    Leads Calm (sc.reactOtherwise side t ctx) l := by
  refine Leads.get_bind (Leads.bind (calm_runStatusEvents hruns side t ctx _ l) fun _ l => ?_)
  cases side with
  | player =>
    refine Leads.get_bind (Leads.bind (calm_runRelics hruns t ctx _ l) fun _ l => ?_)
    exact Leads.pure _ l
  | enemy => exact Leads.bind (Leads.pure _ l) fun _ l => Leads.pure _ l

omit [Scalar α] in
/-- A moment comes once, and what it sets off is calm. -/
theorem dispatches_fire (side : Side) {t : Trigger} (ht : t ≠ .passive) (ctx : Context α)
    (l : Live α) : Dispatches l [(side, t)] ((sc.fire side t ctx).run l).2 := by
  have hrest : Calm (l.write (.fired side t)) ((sc.react side t ctx).run l).2 := by
    rw [sc.run_react side t ctx ht]
    exact trans_of Calm (calm_runAbilities hruns side t ctx _ _)
      (calm_reactOtherwise hruns side t ctx _)
  have hmoment : Entry.moment? l.depth ⟨.fired side t, l.depth, l.battle⟩ = some (side, t) := if_pos rfl
  have hdispatches : Dispatches l _ _ := .begins (n := .fired side t) rfl hrest
  rw [hmoment] at hdispatches
  exact hdispatches

omit [Scalar α] in
/-- A moment that comes on a condition. -/
theorem dispatches_ite {c : Prop} [Decidable c] (side : Side) {t : Trigger} (ht : t ≠ .passive)
    (ctx : Context α) (l : Live α) : Dispatches l (if c then [(side, t)] else [])
      ((if c then sc.fire side t ctx else pure () : Play α Unit).run l).2 := by
  split
  · exact dispatches_fire hruns side ht ctx l
  · exact .nothing

omit [Scalar α] in
/-- The same with what follows. -/
theorem dispatches_ite_bind {γ : Type} {c : Prop} [Decidable c] (side : Side) {t : Trigger}
    (ht : t ≠ .passive) (ctx : Context α) {f : PUnit → Play α γ} {gs : List (Side × Trigger)}
    (hf : ∀ k, Dispatches k gs ((f ⟨⟩).run k).2) (l : Live α) :
    Dispatches l ((if c then [(side, t)] else []) ++ gs)
      ((if c then sc.fire side t ctx >>= f else f ⟨⟩ : Play α γ).run l).2 := by
  split
  · exact (dispatches_fire hruns side ht ctx l).trans (hf _)
  · exact hf l

/-- A lust overflow is the moment of it, or none if it is being settled
already. -/
theorem dispatches_overflowLust (side : Side) (ctx : Context α) (l : Live α) :
    ∃ fs, (∀ f ∈ fs, f = (side, .lustOverflow)) ∧
      Dispatches l fs ((sc.overflowLust side ctx).run l).2 := by
  rw [run_overflowLust]
  split
  · exact ⟨[], by simp, .nothing⟩
  · let begun := l.beginOverflow side
    have hspill : Leads (Tells · [(side, .lustOverflow)] ·) (sc.spill side ctx) begun := by
      have hfire (k : Live α) (hk : Calm begun k) : Tells begun [(side, .lustOverflow)]
          ((sc.fire side .lustOverflow ctx).run k).2 :=
        hk.trans (dispatches_fire hruns side (by decide) ctx k).tells
      refine Leads.get_bind ?_
      split
      · next text _ => exact hfire _ (calm_runLoose hruns text side.opponent _ begun)
      · exact hfire _ (refl_of Calm begun)
    obtain ⟨es, hes, hmoments⟩ := hspill.trans (calm_endOverflow _ side)
    have hdispatches : Dispatches l _ _ :=
      .begins (n := .event (.lustOverflow side)) rfl ⟨es, ⟨hes.depth, hes.journal⟩, hmoments⟩
    exact ⟨_, by simp [Entry.moment?], hdispatches⟩

end Scene
end DeckDuel
