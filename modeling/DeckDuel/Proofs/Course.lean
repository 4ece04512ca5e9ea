/-
DeckDuel.Proofs.Course — what the engine does between the texts it sets
off.

* `Live.Mute` — a change that reads no text, starts none, and notes no
  refusal and no lust overflow.
* `Live.Deed` — what is done at once: steps that are mute together, with
  the events that tell of them.
* `Scene.Course` — deeds, and texts that are set off: each runs in the
  context of the unit, or in one that names no target.
* One lemma for each function of the engine, up to a whole unit: it goes
  a course (`course_…`), refused on the way or not.
* `Scene.Course.carries` — what deeds and the texts that are set off
  have in common, a course has.

A lemma here changes with the function that it is about. What is known
of the texts that are set off comes in only where a course is used.
-/
import DeckDuel.Proofs.Leads
import DeckDuel.Proofs.Reports

namespace DeckDuel

variable {α : Type}

/-! ## Mute steps -/

/-- The unit and the cause of an entry about a refusal. -/
def Entry.refusal? (e : Entry α) : Option (Clause α × Refusal) :=
  match e.note with
  | .refused c r => some (c, r)
  | _ => none

/-- The text of an entry about a text that starts to run. -/
def Entry.entered? (e : Entry α) : Option String :=
  match e.note with
  | .entered text _ => some text
  | _ => none

/-- Does a note tell of a lust overflow that begins or ends? -/
def Note.isOverflow : Note α → Bool
  | .event (.lustOverflow _) | .overflowEnded _ => true
  | _ => false

namespace Live

/-- The units refused so far, newest first. -/
def refusals (l : Live α) : List (Clause α × Refusal) := l.journal.filterMap Entry.refusal?

/-- The texts that started to run so far, newest first. -/
def entered (l : Live α) : List String := l.journal.filterMap Entry.entered?

/-- The lust overflows that began and ended so far, newest first. -/
def overflows (l : Live α) : List (Entry α) := l.journal.filter fun e => e.note.isOverflow

/-- A change that reads no text, starts none, and notes no refusal and no
lust overflow. -/
structure Mute (l m : Live α) : Prop where
  memo : m.memo = l.memo
  refusals : m.refusals = l.refusals
  entered : m.entered = l.entered
  overflows : m.overflows = l.overflows

variable {l m k : Live α}

theorem Mute.refl (l : Live α) : Mute l l := ⟨rfl, rfl, rfl, rfl⟩

theorem Mute.trans (h : Mute l m) (h' : Mute m k) : Mute l k :=
  ⟨h'.memo.trans h.memo, h'.refusals.trans h.refusals, h'.entered.trans h.entered,
    h'.overflows.trans h.overflows⟩

theorem mute_emit (l : Live α) {e : Event α} (quiet : (Note.event e).isOverflow = false) :
    Mute l (l.emit e) :=
  ⟨rfl, rfl, rfl, List.filter_cons_of_neg (by simp [quiet])⟩

variable [Scalar α]

theorem mute_reportChange (l : Live α) (side : Side) (attr : String) (x y : α) :
    Mute l (l.reportChange side attr x y) := by
  unfold reportChange
  split
  · exact .refl l
  · exact mute_emit l rfl

/-- A number of a fighter is stored and reported. -/
theorem mute_stored (l : Live α) (side : Side) (f : Fighter α → Fighter α) (attr : String)
    (x y : α) : Mute l ((l.mapFighter side f).reportChange side attr x y) :=
  Mute.trans (m := l.mapFighter side f) ⟨rfl, rfl, rfl, rfl⟩ (mute_reportChange _ side attr x y)

theorem mute_settle (l : Live α) (side : Side) : Mute l (l.settle side) :=
  (mute_stored l side _ _ _ _).trans (mute_reportChange _ _ _ _ _)

theorem mute_markFallen (l : Live α) (side : Side) : Mute l (l.markFallen side) := by
  unfold markFallen
  split
  · exact ⟨rfl, rfl, rfl, rfl⟩
  · exact .refl l

theorem InnerStep.mute (h : InnerStep l m) : Mute l m := by
  cases h with
  | hp side next =>
    unfold commitHp
    split
    · exact (mute_stored l side _ _ _ _).trans (mute_markFallen _ side)
    · exact .refl l
  | lust side next => exact mute_stored l side _ _ _ _
  | block side next => exact mute_stored l side _ _ _ _
  | energy next =>
    exact Mute.trans (m := l.mapBattle _) ⟨rfl, rfl, rfl, rfl⟩ (mute_reportChange _ _ _ _ _)
  | maxHp side next => exact (mute_stored l side _ _ _ _).trans (mute_settle _ side)
  | maxLust side next => exact (mute_stored l side _ _ _ _).trans (mute_settle _ side)
  | maxEnergy next =>
    exact Mute.trans (m := l.mapBattle _) ⟨rfl, rfl, rfl, rfl⟩ (mute_reportChange _ _ _ _ _)
  | clearLust side => exact mute_stored l side _ _ _ _
  | storeModifier side name x => exact ⟨rfl, rfl, rfl, rfl⟩

omit [Scalar α] in
theorem mute_addAbility (l : Live α) (side : Side) (effect : String) :
    Mute l (l.addAbility? side effect).2 := by
  simp only [addAbility?]
  split
  · exact ⟨rfl, rfl, rfl, rfl⟩
  · exact ⟨rfl, rfl, rfl, rfl⟩

omit [Scalar α] in
theorem mute_loseStatus (l : Live α) (side : Side) (id : String)
    (d : Option (StatusDefinition α)) : Mute l (l.loseStatus side id d) := by
  unfold loseStatus
  split
  · exact ⟨rfl, rfl, rfl, rfl⟩
  · exact .refl l

omit [Scalar α] in
theorem mute_commitStacks (l : Live α) (side : Side) (id : String) (stackCount : Nat) :
    Mute l (l.commitStacks side id stackCount) := by
  simp only [commitStacks]
  split
  · exact .refl l
  · exact ⟨rfl, rfl, rfl, rfl⟩

/-! ### Texts begin and end -/

omit [Scalar α] in
/-- A text that starts to run is noted, and that is all. -/
theorem enter_told (l : Live α) (text : String) (me : Side) :
    (l.enter text me).memo = l.memo ∧ (l.enter text me).refusals = l.refusals ∧
      (l.enter text me).entered = text :: l.entered := by
  unfold enter
  split
  · exact ⟨rfl, rfl, rfl⟩
  · exact ⟨rfl, rfl, rfl⟩

theorem mute_decideFallen (l : Live α) : Mute l l.decideFallen := by
  unfold decideFallen
  split
  · exact ⟨rfl, rfl, rfl, rfl⟩
  · split
    · exact .refl l
    · exact ⟨rfl, rfl, rfl, rfl⟩

theorem mute_leave (l : Live α) : Mute l l.leave := by
  unfold leave
  dsimp only
  split
  · exact Mute.trans (m := { l with depth := l.depth - 1 }) ⟨rfl, rfl, rfl, rfl⟩ (mute_decideFallen _)
  · exact ⟨rfl, rfl, rfl, rfl⟩

/-! ## Deeds -/

/-- What is done at once, without a text: steps that are mute together,
and the events that tell of them. -/
structure Deed (s : Setting α) (turns inside : Bool) (l m : Live α) : Prop where
  trace : Trace s 0 inside l m
  mute : Mute l m
  heard : Heard s turns l m

section

variable {s : Setting α} {t i : Bool}

theorem Deed.trans (h : Deed s t i l m) (h' : Deed s t i m k) : Deed s t i l k :=
  ⟨h.trace.trans h'.trace, h.mute.trans h'.mute, h.heard.trans h'.heard⟩

theorem deed_note (l : Live α) {n : Note α} (h : ∀ e, n ≠ .event e) (mute : Mute l (l.write n)) :
    Deed s t i l (l.write n) :=
  ⟨.outer (.note l n fun w => h (.gameOver w)), mute, heard_same (events_write l h) rfl⟩

theorem deed_emit (l : Live α) {e : Event α} (haside : e.isAside = true)
    (quiet : (Note.event e).isOverflow = false) (h : ∀ w, e ≠ .gameOver w) :
    Deed s t i l (l.emit e) :=
  ⟨.outer (.note l _ fun w hw => h w (by injection hw)), mute_emit l quiet, heard_emit l haside⟩

theorem deed_chance (l : Live α) (stream : Random.Stream) (questions : Nat) :
    Deed s t i l { l.mapBattle (fun b => { b with stream := stream }) with
      questions := questions } :=
  ⟨.outer (.chance l stream questions), ⟨rfl, rfl, rfl, rfl⟩, heard_unnoticed rfl (.of_player rfl rfl)⟩

/-! ### Numbers -/

theorem deed_hp (l : Live α) (side : Side) (next : α) : Deed s t true l (l.commitHp side next) :=
  ⟨.inner (.hp l side next), InnerStep.mute (.hp l side next), heard_commitHp l side next⟩

theorem deed_lust (l : Live α) (side : Side) (next : α) :
    Deed s t true l (l.commitLust side next) :=
  ⟨.inner (.lust l side next), InnerStep.mute (.lust l side next), heard_commitLust l side next⟩

theorem deed_block (l : Live α) (side : Side) (next : α) :
    Deed s t true l (l.commitBlock side next) :=
  ⟨.inner (.block l side next), InnerStep.mute (.block l side next), heard_commitBlock l side next⟩

theorem deed_energy (l : Live α) (next : α) : Deed s t true l (l.commitEnergy next) :=
  ⟨.inner (.energy l next), InnerStep.mute (.energy l next), heard_commitEnergy l next⟩

theorem deed_maxHp (l : Live α) (side : Side) (next : α) :
    Deed s t true l (l.commitMaxHp side next) :=
  ⟨.inner (.maxHp l side next), InnerStep.mute (.maxHp l side next), heard_commitMaxHp l side next⟩

theorem deed_maxLust (l : Live α) (side : Side) (next : α) :
    Deed s t true l (l.commitMaxLust side next) :=
  ⟨.inner (.maxLust l side next), InnerStep.mute (.maxLust l side next),
    heard_commitMaxLust l side next⟩

theorem deed_maxEnergy (l : Live α) (next : α) : Deed s t true l (l.commitMaxEnergy next) :=
  ⟨.inner (.maxEnergy l next), InnerStep.mute (.maxEnergy l next), heard_commitMaxEnergy l next⟩

theorem deed_storeModifier (l : Live α) (side : Side) {name : String} {a : Attribute}
    (hknown : s.catalog.get? name = some a) (hdomain : a.domain = .modifier) (x y : α) :
    Deed s t true l ((l.mapFighter side fun f => f.storeModifier name y).emit
      (.attributeChanged side name x y)) :=
  ⟨.trans (.inner (.storeModifier l side name y)) (.outer (.note _ _ (by simp))), ⟨rfl, rfl, rfl, rfl⟩,
    heard_storeModifier l side hknown hdomain x y⟩

/-! ### Attachments -/

theorem deed_addAbility (l : Live α) (side : Side) (effect : String) :
    Deed s t i l (l.addAbility? side effect).2 :=
  ⟨.outer (.addAbility l side effect), mute_addAbility l side effect,
    heard_addAbility l side effect⟩

theorem deed_removeAbilities (l : Live α) (side : Side) (key : String) :
    Deed s t i l (l.removeAbilities side key).2 :=
  ⟨.outer (.removeAbilities l side key), ⟨rfl, rfl, rfl, rfl⟩, heard_removeAbilities l side key⟩

theorem deed_gainStatus (l : Live α) (holder : Side) (d : StatusDefinition α) (stackCount : Nat)
    (defined : s.codex.get? d.id = some d) (positive : 0 < stackCount)
    (capped : stackCount ≤ d.stackCap s.rules.defaultMaxStacks)
    (free : (l.fighter holder).stacksOf d.id = 0) :
    Deed s t i l (l.gainStatus holder d stackCount) :=
  ⟨.outer (.gainStatus l holder d stackCount defined positive capped free), ⟨rfl, rfl, rfl, rfl⟩,
    heard_gainStatus l holder d stackCount defined positive capped free⟩

theorem deed_loseStatus (l : Live α) (holder : Side) (id : String) :
    Deed s t i l (l.loseStatus holder id (s.codex.get? id)) :=
  ⟨.outer (.loseStatus l holder id), mute_loseStatus l holder id _, heard_loseStatus l holder id _⟩

theorem deed_commitStacks (l : Live α) (holder : Side) (id : String) (stackCount : Nat)
    (held : ((l.fighter holder).statusIndex? id).isSome) (positive : 0 < stackCount) :
    Deed s t i l (l.commitStacks holder id (min stackCount (s.stackCap id))) :=
  ⟨.outer (.commitStacks l holder id stackCount held positive), mute_commitStacks l holder id _,
    heard_commitStacks l holder id stackCount held positive⟩

end

/-! ### Overflows begin and end -/

omit [Scalar α] in
/-- A lust overflow begins: it is marked and reported. -/
def beginOverflow (l : Live α) (side : Side) : Live α :=
  (l.markOverflow side true).emit (.lustOverflow side)

/-- It ends: lust starts anew, and the mark goes. -/
def endOverflow (l : Live α) (side : Side) : Live α :=
  ((l.clearLust side).markOverflow side false).write (.overflowEnded side)

/-- It is noted, and that is all. -/
theorem endOverflow_told (l : Live α) (side : Side) :
    (l.endOverflow side).memo = l.memo ∧ (l.endOverflow side).refusals = l.refusals ∧
      (l.endOverflow side).entered = l.entered := by
  have hcleared := InnerStep.mute (.clearLust l side)
  exact ⟨hcleared.memo, hcleared.refusals, hcleared.entered⟩

end Live

open Live

/-! ## Courses -/

variable [Scalar α]

/-- A stretch of a unit that runs in a context; `inside` tells that
numbers may be stored in it. -/
inductive Scene.Course (sc : Scene α) (ctx : Context α) : (inside : Bool) → Live α → Live α → Prop where
  | refl {i : Bool} (l : Live α) : Course sc ctx i l l
  | trans {i : Bool} {l m k : Live α} (first : Course sc ctx i l m) (rest : Course sc ctx i m k) :
      Course sc ctx i l k
  | deed {i : Bool} {l m : Live α} (h : Deed sc.toSetting false i l m) : Course sc ctx i l m
  | overflow {l m : Live α} (side : Side) (idle : l.overflowing.get side = false)
      (body : Course sc ctx true (l.beginOverflow side) m) :
      Course sc ctx true l (m.endOverflow side)
  /-- A text is set off. -/
  | text {i : Bool} (effect : String) (me : Side) {c : Context α} (hc : c = ctx ∨ c.target = none)
      (l : Live α) : Course sc ctx i l ((sc.run effect me c).run.run l).2

variable {sc : Scene α} {ctx : Context α} {i : Bool}

instance : IsPreorder (Live α) (sc.Course ctx i) where
  refl := .refl
  trans _ _ _ := .trans

/-- What deeds, the ends of an overflow and the texts that are set off
have in common, a course has. -/
theorem Scene.Course.carries {R : Live α → Live α → Prop} [IsPreorder (Live α) R]
    (hdeed : ∀ i l m, Deed sc.toSetting false i l m → R l m)
    (hbegin : ∀ l side, R l (l.beginOverflow side)) (hend : ∀ l side, R l (l.endOverflow side))
    (htext : ∀ text me c l, c = ctx ∨ c.target = none → Tries R (sc.run text me c) l)
    {l m : Live α} (h : sc.Course ctx i l m) : R l m := by
  induction h with
  | refl l => exact refl_of R l
  | trans _ _ ih₁ ih₂ => exact trans_of R ih₁ ih₂
  | deed h => exact hdeed _ _ _ h
  | @overflow l m side _ _ ih =>
    have hspilt : R l m := trans_of R (hbegin l side) ih
    exact trans_of R hspilt (hend m side)
  | text effect me hc l => exact htext effect me _ l hc

theorem course_emit {e : Event α} (haside : e.isAside = true)
    (quiet : (Note.event e).isOverflow = false) (h : ∀ w, e ≠ .gameOver w) (l : Live α) :
    Leads (sc.Course ctx i) (emit e) l :=
  Leads.modify (.deed (deed_emit l haside quiet h))

namespace Scene

/-! ## Moments -/

theorem course_runLoose (text : String) (me : Side) {c : Context α}
    (hc : c = ctx ∨ c.target = none) (l : Live α) :
    Leads (sc.Course ctx i) (sc.runLoose text me c) l :=
  Leads.bind (Course.text text me hc l) fun _ t => Leads.pure _ t

theorem course_runAbilities (side : Side) (t : Trigger) (ctx : Context α) (as : List Ability)
    (l : Live α) : Leads (sc.Course ctx i) (sc.runAbilities side t ctx as) l := by
  induction as generalizing l with
  | nil => exact Leads.pure _ l
  | cons a rest ih =>
    refine Leads.get_bind ?_
    split
    · exact Leads.pure _ l
    · split
      · exact ih l
      · refine Leads.bind (course_emit rfl rfl (by simp) l) fun _ l => ?_
        refine Leads.bind (course_runLoose _ _ (.inr rfl) l) fun _ l => ?_
        exact Leads.bind (ih l) fun _ l => Leads.pure _ l

theorem course_runStatusTexts (holder : Side) (id moment : String) (stackCount : Nat)
    (ctx : Context α) (texts : List String) (l : Live α) :
    Leads (sc.Course ctx i) (sc.runStatusTexts holder id moment stackCount ctx texts) l := by
  induction texts generalizing l with
  | nil => exact Leads.pure _ l
  | cons text rest ih => exact Leads.bind (course_runLoose _ _ (.inr rfl) l) fun _ l => ih l

theorem course_runStatusEvents (side : Side) (t : Trigger) (ctx : Context α)
    (held : List HeldStatus) (l : Live α) :
    Leads (sc.Course ctx i) (sc.runStatusEvents side t ctx held) l := by
  induction held generalizing l with
  | nil => exact Leads.pure _ l
  | cons h rest ih =>
    refine Leads.get_bind ?_
    refine Leads.bind (course_runStatusTexts _ _ _ _ _ _ l) fun _ l => ?_
    exact Leads.bind (ih l) fun _ l => Leads.pure _ l

theorem course_runRelics (t : Trigger) (ctx : Context α) (segments : List String) (l : Live α) :
    Leads (sc.Course ctx i) (sc.runRelics t ctx segments) l := by
  induction segments generalizing l with
  | nil => exact Leads.pure _ l
  | cons inner rest ih =>
    refine Leads.bind (course_emit rfl rfl (by simp) l) fun _ l => ?_
    refine Leads.bind (course_runLoose _ _ (.inr rfl) l) fun _ l => ?_
    exact Leads.bind (ih l) fun _ l => Leads.pure _ l

theorem course_react (side : Side) (t : Trigger) (ctx : Context α) (l : Live α) :
    Leads (sc.Course ctx i) (sc.react side t ctx) l := by
  unfold react
  split
  · exact Leads.pure _ l
  · refine Leads.bind (Leads.modify (.deed (deed_note l (by simp) ⟨rfl, rfl, rfl, rfl⟩))) fun _ l => ?_
    refine Leads.get_bind (Leads.bind (course_runAbilities _ _ _ _ l) fun _ l => ?_)
    refine Leads.get_bind (Leads.bind (course_runStatusEvents _ _ _ _ l) fun _ l => ?_)
    cases side with
    | player =>
      exact Leads.get_bind (Leads.bind (course_runRelics _ _ _ l) fun _ l => Leads.pure _ l)
    | enemy => exact Leads.pure _ l

theorem course_fire (side : Side) (t : Trigger) (ctx : Context α) (l : Live α) :
    Leads (sc.Course ctx i) (sc.fire side t ctx) l :=
  Leads.bind (course_react side t ctx l) fun _ l => Leads.pure _ l

/-! ## Stats -/

theorem course_adjustment (side : Side) (kind : Modifier) (l : Live α) :
    Leads (sc.Course ctx i) (sc.adjustment side kind) l :=
  Leads.get_bind (Leads.pure _ l)

theorem course_adjusted (side : Side) (kind : Modifier) (x : α) (l : Live α) :
    Leads (sc.Course ctx i) (sc.adjusted side kind x) l :=
  Leads.bind (course_adjustment side kind l) fun _ l => Leads.pure _ l

theorem course_value (c : Clause α) (me target : Side) (ctx : Context α) (l : Live α) :
    Tries (sc.Course ctx i) (sc.value c me target ctx) l :=
  Tries.get_bind (Tries.ofExcept _ l)

theorem course_damage (source target : Side) (amount : α) (ctx : Context α) (l : Live α) :
    Leads (sc.Course ctx true) (sc.damage source target amount ctx) l := by
  have hstrike : Deed sc.toSetting false true l (l.strike target amount).2 :=
    (deed_block l target _).trans ((deed_hp _ target _).trans (deed_emit _ rfl rfl (by simp)))
  refine Leads.bind (Leads.modifyGet (.deed hstrike)) fun hit l => ?_
  refine Leads.ite_bind (course_fire _ _ _ l) fun l => ?_
  refine Leads.ite_bind (course_fire _ _ _ l) fun l => ?_
  split
  · exact course_fire _ _ _ l
  · exact Leads.pure _ l

theorem course_heal (target : Side) (amount : α) (ctx : Context α) (l : Live α) :
    Leads (sc.Course ctx true) (sc.heal target amount ctx) l := by
  refine Leads.get_bind (Leads.bind (Leads.modify (.deed (deed_hp l _ _))) fun _ l => ?_)
  refine Leads.get_bind ?_
  dsimp only
  split
  · exact Leads.bind (course_emit rfl rfl (by simp) l) fun _ l => course_fire _ _ _ l
  · exact Leads.pure _ l

theorem course_computeHp (target : Side) (op : Arith) (x : α) (ctx : Context α) (l : Live α) :
    Tries (sc.Course ctx true) (sc.computeHp target op x ctx) l := by
  refine Tries.get_bind (Tries.ofExcept_bind fun next _ => ?_)
  refine Tries.bind (Tries.modify (.deed (deed_hp l _ _))) fun _ l => ?_
  refine Tries.get_bind ?_
  dsimp only
  split
  · refine Tries.bind (Tries.lift (course_emit rfl rfl (by simp) l)) fun _ l => ?_
    exact Tries.lift (course_fire _ _ _ l)
  · split
    · refine Tries.bind (Tries.lift (course_emit rfl rfl (by simp) l)) fun _ l => ?_
      exact Tries.lift (course_fire _ _ _ l)
    · exact Tries.pure _ l

theorem course_changeHp (me target : Side) (op : Arith) (x : α) (ctx : Context α) (l : Live α) :
    Tries (sc.Course ctx true) (sc.changeHp me target op x ctx) l := by
  unfold changeHp
  split
  · refine Tries.bind (Tries.lift (course_adjustment _ _ l)) fun _ l => ?_
    refine Tries.bind (Tries.lift (course_adjusted _ _ _ l)) fun _ l => ?_
    refine Tries.ofExcept_bind fun amount _ => ?_
    exact Tries.lift (course_damage _ _ _ _ l)
  · split
    · exact Tries.lift (course_heal _ _ _ l)
    · exact course_computeHp _ _ _ _ l

/-- What runs while an overflow is being settled. -/
def spill (sc : Scene α) (side : Side) (ctx : Context α) : Play α Unit := do
  match ((← get).fighter side.opponent).overflow with
  | some text =>
    sc.runLoose text side.opponent (ctx.onTrigger Trigger.lustOverflow.keyword)
  | none => pure ()
  sc.fire side .lustOverflow ctx

theorem run_spillLust (side : Side) (ctx : Context α) (l : Live α) :
    (sc.spillLust side ctx).run l =
      ((), ((sc.spill side ctx).run (l.emit (.lustOverflow side))).2.clearLust side) := by
  let told := l.emit (.lustOverflow side)
  show (match (told.fighter side.opponent).overflow with
    | some text => _
    | none => _ : Play α Unit).run told =
      ((), ((match (told.fighter side.opponent).overflow with
        | some text => _
        | none => _ : Play α Unit).run told).2.clearLust side)
  cases (told.fighter side.opponent).overflow with
  | some text => rfl
  | none => rfl

/-- An overflow begins, is settled, and ends; there is none of a side
whose overflow is being settled. -/
theorem run_overflowLust (side : Side) (ctx : Context α) (l : Live α) :
    (sc.overflowLust side ctx).run l =
      if l.overflowing.get side then ((), l)
      else ((), ((sc.spill side ctx).run (l.beginOverflow side)).2.endOverflow side) := by
  rw [overflowLust]
  show (if l.overflowing.get side then _ else _ : Play α Unit).run l = _
  split
  · rfl
  · show ((), (((sc.spillLust side ctx).run (l.markOverflow side true)).2.markOverflow side
      false).write (.overflowEnded side)) = _
    rw [run_spillLust]
    rfl

theorem course_spill (side : Side) (ctx : Context α) (l : Live α) :
    Leads (sc.Course ctx true) (sc.spill side ctx) l := by
  refine Leads.get_bind ?_
  split
  · exact Leads.bind (course_runLoose _ _ (.inr rfl) l) fun _ l => course_fire _ _ _ l
  · exact course_fire _ _ _ l

/-- An overflow that begins is one node of the course. -/
theorem course_overflowLust (side : Side) (ctx : Context α) (l : Live α) :
    Leads (sc.Course ctx true) (sc.overflowLust side ctx) l := by
  rw [Leads, run_overflowLust]
  split
  · exact .refl l
  · next hidle => exact .overflow side (by simpa using hidle) (course_spill side ctx _)

theorem course_nextLust (me target : Side) (op : Arith) (x : α) (l : Live α) :
    Tries (sc.Course ctx i) (sc.nextLust me target op x) l := by
  refine Tries.get_bind ?_
  dsimp only
  split
  · refine Tries.bind (Tries.lift (course_adjustment _ _ l)) fun _ l => ?_
    exact Tries.bind (Tries.lift (course_adjusted _ _ _ l)) fun _ l => Tries.ofExcept _ l
  · exact Tries.ofExcept_bind fun _ _ => Tries.ofExcept _ l

theorem course_changeLust (me target : Side) (op : Arith) (x : α) (ctx : Context α) (l : Live α) :
    Tries (sc.Course ctx true) (sc.changeLust me target op x ctx) l := by
  refine Tries.get_bind (Tries.bind (course_nextLust _ _ _ _ l) fun next l => ?_)
  refine Tries.bind (Tries.modify (.deed (deed_lust l _ _))) fun _ l => Tries.get_bind ?_
  refine Tries.ite_bind (Tries.lift (course_fire _ _ _ l)) fun l => Tries.get_bind ?_
  split
  · exact Tries.lift (course_overflowLust _ _ l)
  · exact Tries.pure _ l

theorem course_nextBlock (target : Side) (op : Arith) (x : α) (l : Live α) :
    Tries (sc.Course ctx i) (sc.nextBlock target op x) l := by
  refine Tries.get_bind ?_
  dsimp only
  split
  · exact Tries.bind (Tries.lift (course_adjusted _ _ _ l)) fun _ l => Tries.ofExcept _ l
  · exact Tries.ofExcept_bind fun _ _ => Tries.ofExcept _ l

theorem course_changeBlock (target : Side) (op : Arith) (x : α) (ctx : Context α) (l : Live α) :
    Tries (sc.Course ctx true) (sc.changeBlock target op x ctx) l := by
  refine Tries.get_bind (Tries.bind (course_nextBlock _ _ _ l) fun next l => ?_)
  refine Tries.bind (Tries.modify (.deed (deed_block l _ _))) fun _ l => Tries.get_bind ?_
  dsimp only
  split
  · exact Tries.lift (course_fire _ _ _ l)
  · split
    · exact Tries.lift (course_fire _ _ _ l)
    · exact Tries.pure _ l

theorem course_changeEnergy (op : Arith) (x : α) (l : Live α) :
    Tries (sc.Course ctx true) (changeEnergy op x) l :=
  Tries.get_bind (Tries.ofExcept_bind fun next _ => Tries.modify (.deed (deed_energy l next)))

theorem course_changeMaxHp (target : Side) (op : Arith) (x : α) (l : Live α) :
    Tries (sc.Course ctx true) (changeMaxHp target op x) l :=
  Tries.get_bind (Tries.ofExcept_bind fun next _ => Tries.modify (.deed (deed_maxHp l _ next)))

theorem course_changeMaxLust (target : Side) (op : Arith) (x : α) (l : Live α) :
    Tries (sc.Course ctx true) (changeMaxLust target op x) l :=
  Tries.get_bind (Tries.ofExcept_bind fun next _ => Tries.modify (.deed (deed_maxLust l _ next)))

theorem course_changeMaxEnergy (op : Arith) (x : α) (l : Live α) :
    Tries (sc.Course ctx true) (changeMaxEnergy op x) l :=
  Tries.get_bind (Tries.ofExcept_bind fun next _ => Tries.modify (.deed (deed_maxEnergy l next)))

theorem course_runStat (c : Clause α) (me : Side) (ctx : Context α) (l : Live α) :
    Tries (sc.Course ctx true) (sc.runStat c me ctx) l := by
  refine Tries.ofExcept_bind fun target _ => ?_
  split
  · exact Tries.throw _ l
  · refine Tries.bind (course_value _ _ _ _ l) fun _ l => Tries.ofExcept_bind fun x _ => ?_
    split
    · exact course_changeHp _ _ _ _ _ l
    · exact course_changeLust _ _ _ _ _ l
    · exact course_changeBlock _ _ _ _ l
    · exact course_changeEnergy _ _ l
    · exact course_changeMaxHp _ _ _ l
    · exact course_changeMaxLust _ _ _ l
    · exact course_changeMaxEnergy _ _ l
    · exact Tries.throw _ l

theorem course_runModifier (c : Clause α) (me : Side) (ctx : Context α) {a : Attribute}
    (hknown : sc.catalog.get? c.attr = some a) (hdomain : a.domain = .modifier) (l : Live α) :
    Tries (sc.Course ctx true) (sc.runModifier c me ctx) l := by
  refine Tries.ofExcept_bind fun target _ => ?_
  split
  · exact Tries.throw _ l
  · refine Tries.bind (course_value _ _ _ _ l) fun _ l => Tries.get_bind ?_
    dsimp only
    split
    · exact Tries.throw _ l
    · refine Tries.ofExcept_bind fun after _ => Tries.modify (.deed ?_)
      exact deed_storeModifier l target hknown hdomain _ after

/-! ## Statuses -/

theorem course_runLifecycle (holder : Side) (d : StatusDefinition α) (p : Lifecycle)
    (stackCount : Nat) (ctx : Context α) (l : Live α) :
    Leads (sc.Course ctx i) (sc.runLifecycle holder d p stackCount ctx) l :=
  course_runStatusTexts _ _ _ _ _ _ l

theorem course_endStatus (holder : Side) (id : String) (ctx : Context α) (l : Live α) :
    Leads (sc.Course ctx i) (sc.endStatus holder id ctx) l := by
  refine Leads.get_bind ?_
  have hlose (l : Live α) : sc.Course ctx i l (l.loseStatus holder id (sc.codex.get? id)) :=
    .deed (deed_loseStatus l holder id)
  dsimp only
  split
  · next d hd =>
    refine Leads.bind (course_runLifecycle _ _ _ _ _ l) fun _ l => Leads.modify ?_
    exact hd ▸ hlose l
  · next hd => exact Leads.modify (hd ▸ hlose l)

theorem course_setStacks (holder : Side) (id : String) (stackCount : Nat) (ctx : Context α)
    (l : Live α) : Tries (sc.Course ctx i) (sc.setStacks holder id stackCount ctx) l := by
  refine Tries.get_bind ?_
  split
  · exact Tries.throw _ l
  · next hheld =>
    split
    · exact Tries.lift (course_endStatus _ _ _ l)
    · next hpos =>
      refine Tries.modify (.deed (deed_commitStacks l holder id stackCount ?_ (by omega)))
      simpa [Option.isSome_iff_ne_none] using hheld

theorem course_applyStatus (holder : Side) (id : String) (stackCount : Nat) (ctx : Context α)
    (l : Live α) : Tries (sc.Course ctx i) (sc.applyStatus holder id stackCount ctx) l := by
  unfold applyStatus
  split
  · exact Tries.throw _ l
  · next d hd =>
    dsimp only
    split
    · exact Tries.pure _ l
    · next hpos =>
      refine Tries.get_bind ?_
      split
      · split
        · exact course_setStacks _ _ _ _ l
        · exact Tries.lift (course_runLifecycle _ _ _ _ _ l)
      · next hfree =>
        have hid : d.id = id := by simpa using List.find?_some hd
        have hgain : Deed sc.toSetting false i l
            (l.gainStatus holder d (min stackCount (sc.stackCap id))) := by
          refine deed_gainStatus l holder d _ (hid ▸ hd) (by omega) ?_ (by rw [hid]; omega)
          simp only [Setting.stackCap, hd]
          exact Nat.min_le_right _ _
        refine Tries.bind (Tries.modify (.deed hgain)) fun _ l => ?_
        refine Tries.bind (Tries.lift (course_runLifecycle _ _ _ _ _ l)) fun _ l => ?_
        split
        · exact Tries.lift (course_fire _ _ _ l)
        · exact Tries.pure _ l

theorem course_removeStatus (holder : Side) (id : String) (amount : Option Nat) (ctx : Context α)
    (l : Live α) : Tries (sc.Course ctx i) (sc.removeStatus holder id amount ctx) l := by
  refine Tries.get_bind ?_
  dsimp only
  split
  · exact Tries.throw _ l
  · split
    · exact Tries.lift (course_endStatus _ _ _ l)
    · exact course_setStacks _ _ _ _ l

theorem course_tick (side : Side) (ctx : Context α) (held : List HeldStatus) (l : Live α) :
    Leads (sc.Course ctx i) (sc.tick side ctx held) l := by
  induction held generalizing l with
  | nil => exact Leads.pure _ l
  | cons h rest ih =>
    refine Leads.get_bind ?_
    dsimp only
    split
    · split
      · exact Leads.bind (course_runLifecycle _ _ _ _ _ l) fun _ l => ih l
      · exact ih l
    · exact ih l

theorem course_decay (side : Side) (ctx : Context α) (held : List HeldStatus) (l : Live α) :
    Leads (sc.Course ctx i) (sc.decay side ctx held) l := by
  induction held generalizing l with
  | nil => exact Leads.pure _ l
  | cons h rest ih =>
    refine Leads.get_bind ?_
    dsimp only
    split
    · split
      · refine Leads.bind (course_setStacks _ _ _ _ l) fun _ l => ?_
        exact ih l
      · exact ih l
    · exact ih l

theorem course_amountOf (c : Clause α) (me holder : Side) (ctx : Context α) (l : Live α) :
    Tries (sc.Course ctx i) (sc.amountOf c me holder ctx) l := by
  unfold amountOf
  split
  · exact Tries.pure _ l
  · exact Tries.bind (course_value _ _ _ _ l) fun _ l => Tries.pure _ l

theorem course_changeStacks (c : Clause α) (id : String) (op : Arith) (me holder : Side)
    (ctx : Context α) (l : Live α) :
    Tries (sc.Course ctx i) (sc.changeStacks c id op me holder ctx) l := by
  refine Tries.get_bind (Tries.bind (course_value _ _ _ _ l) fun _ l => ?_)
  refine Tries.ofExcept_bind fun next _ => ?_
  dsimp only
  split
  · split
    · exact Tries.throw _ l
    · exact course_applyStatus _ _ _ _ l
  · exact course_setStacks _ _ _ _ l

theorem course_runStatus (c : Clause α) (me : Side) (ctx : Context α) (l : Live α) :
    Tries (sc.Course ctx i) (sc.runStatus c me ctx) l := by
  unfold runStatus
  split
  · exact Tries.throw _ l
  · refine Tries.ofExcept_bind fun explicit _ => ?_
    split
    · split
      · exact Tries.throw _ l
      · exact Tries.bind (course_amountOf _ _ _ _ l) fun _ l => course_applyStatus _ _ _ _ l
    · exact Tries.bind (course_amountOf _ _ _ _ l) fun _ l => course_removeStatus _ _ _ _ l
    · exact course_changeStacks _ _ _ _ _ _ l
    · exact Tries.throw _ l

end Scene

/-! ## Abilities -/

theorem course_addAbility (side : Side) (effect : String) (l : Live α) :
    Tries (sc.Course ctx i) (addAbility side effect) l := by
  refine Tries.bind (Tries.lift (Leads.modifyGet (.deed (deed_addAbility l side effect)))) ?_
  intro id l
  split
  · exact Tries.pure _ l
  · exact Tries.throw _ l

theorem course_runAbility (c : Clause α) (me : Side) (ctx : Context α) (l : Live α) :
    Tries (sc.Course ctx i) (runAbility c me ctx) l := by
  refine Tries.ofExcept_bind fun side _ => ?_
  split
  · exact Tries.bind (course_addAbility _ _ l) fun _ l => Tries.pure _ l
  · exact Tries.modify (.deed (deed_removeAbilities l side _))
  · exact Tries.throw _ l
  · exact Tries.throw _ l

/-! ## Cards -/

omit [Scalar α] in
/-- Drawing changes nothing but the piles and the random stream. -/
theorem drawUpTo_steps (limit count : Nat) (b : Battle α) :
    ∃ ps stream, Piles.Steps limit b.piles ps ∧
      (b.drawUpTo limit count).2 = { b.setPiles ps with stream := stream } := by
  induction count generalizing b with
  | zero => exact ⟨b.piles, b.stream, .refl, rfl⟩
  | succ count ih =>
    have hdraw : Piles.Step limit b.piles (b.piles.drawOne limit b.stream).2.1 := .draw _ _
    rcases hd : b.piles.drawOne limit b.stream with ⟨r, ps, stream⟩
    obtain ⟨ps', stream', hsteps, heq⟩ := ih { b.setPiles ps with stream := stream }
    rw [hd] at hdraw
    simp only [Battle.drawUpTo, hd]
    cases r with
    | empty => exact ⟨ps, stream, .single hdraw, rfl⟩
    | drawn uid => exact ⟨ps', stream', .head hdraw hsteps, heq⟩
    | burned uid => exact ⟨ps', stream', .head hdraw hsteps, heq⟩

omit [Scalar α] in
theorem takeIn_steps (limit : Nat) (uids : List Nat) (ps : Piles α) :
    Piles.Steps limit ps (ps.takeIn limit uids).2 := by
  induction uids generalizing ps with
  | nil => exact .refl
  | cons uid rest ih =>
    simp only [Piles.takeIn]
    split
    · next hroom => exact .head (.move ps uid .hand fun _ => hroom) (ih _)
    · exact .head (.move ps uid .discard (by simp)) (ih _)

omit [Scalar α] in
theorem moveAll_steps (limit : Nat) {goal : Pile} (hgoal : goal ≠ .hand) (uids : List Nat)
    (ps : Piles α) : Piles.Steps limit ps (ps.moveAll goal uids).2 := by
  induction uids generalizing ps with
  | nil => exact .refl
  | cons uid rest ih =>
    simp only [Piles.moveAll]
    split
    · next p ps' hmove =>
      have hstep : Piles.Step limit ps (ps.move uid goal) :=
        .move ps uid goal fun h => absurd h hgoal
      rw [Piles.move, hmove] at hstep
      exact .head hstep (ih _)
    · exact ih _

theorem changeCosts_steps (limit : Nat) (op : Arith) (x : α) (uids : List Nat) (ps : Piles α) :
    Piles.Steps limit ps (ps.changeCosts op x uids).2 := by
  induction uids generalizing ps with
  | nil => exact .refl
  | cons uid rest ih =>
    simp only [Piles.changeCosts]
    split
    · exact ih _
    · next card hcard =>
      split
      · exact .refl
      · exact .head (.reprice ps uid card _ hcard) (ih _)

omit [Scalar α] in
/-- Another element that maps to the same changes nothing of the map. -/
theorem map_set_of_eq {β γ : Type} {f : β → γ} {xs : List β} {i : Nat} {x y : β}
    (h : xs[i]? = some x) (hf : f y = f x) : (xs.set i y).map f = xs.map f := by
  obtain ⟨hi, rfl⟩ := List.getElem?_eq_some_iff.mp h
  rw [List.map_set, hf, ← List.getElem_map f (h := by simpa using hi)]
  exact List.set_getElem_self _

omit [Scalar α] in
/-- A card with the uid of the one before lies where that lay. -/
theorem map_uid_replace {ps : Piles α} {uid : Nat} {c d : Card α} (h : ps.card? uid = some c)
    (hd : d.uid = c.uid) (p : Pile) :
    ((ps.replace uid d).get p).map Card.uid = (ps.get p).map Card.uid := by
  unfold Piles.replace
  split
  · rfl
  · next q i hfind =>
    simp only [Piles.card?, hfind, Option.bind_some] at h
    have hset : ((ps.get q).set i d).map Card.uid = (ps.get q).map Card.uid := map_set_of_eq h hd
    cases q <;> cases p <;> first | rfl | exact hset


theorem map_uid_changeCosts (op : Arith) (x : α) (uids : List Nat) (ps : Piles α) (p : Pile) :
    (((ps.changeCosts op x uids).2).get p).map Card.uid = (ps.get p).map Card.uid := by
  induction uids generalizing ps with
  | nil => rfl
  | cons uid rest ih =>
    simp only [Piles.changeCosts]
    split
    · exact ih _
    · next card hcard =>
      split
      · rfl
      · rw [ih]
        refine map_uid_replace hcard ?_ p
        rfl

namespace Live

variable {s : Setting α} {t : Bool}

theorem trace_reportMoved {n : Nat} (l : Live α) (uids : List Nat) (goal : Pile) :
    Trace s n i l (l.reportMoved uids goal) := by
  unfold reportMoved
  split
  · exact .refl l
  · exact .outer (.note l _ (by simp))

omit [Scalar α] in
theorem mute_reportMoved (l : Live α) (uids : List Nat) (goal : Pile) :
    Mute l (l.reportMoved uids goal) := by
  unfold reportMoved
  split
  · exact .refl l
  · exact mute_emit l rfl

theorem trace_setPiles {n : Nat} (l : Live α) {ps : Piles α}
    (h : Piles.Steps s.rules.handLimit l.battle.piles ps) :
    Trace s n i l (l.mapBattle fun b => b.setPiles ps) :=
  .outer (.cards l ps l.battle.stream h)

theorem deed_draw (l : Live α) (count : Nat) :
    Deed s t i l ((l.mapBattle fun _ => (l.battle.drawUpTo s.rules.handLimit count).2).reportDrawn
      (l.battle.drawUpTo s.rules.handLimit count).1) := by
  obtain ⟨ps, stream, hsteps, heq⟩ := drawUpTo_steps s.rules.handLimit count l.battle
  have hdrawn : Trace s 0 i l
      (l.mapBattle fun _ => (l.battle.drawUpTo s.rules.handLimit count).2) := by
    rw [heq]
    exact .outer (.cards l ps stream hsteps)
  refine ⟨hdrawn.trans (.trans (trace_reportMoved _ _ _) (trace_reportMoved _ _ _)), ?_,
    heard_draw l count⟩
  exact Mute.trans (m := l.mapBattle _) ⟨rfl, rfl, rfl, rfl⟩
    ((mute_reportMoved _ _ _).trans (mute_reportMoved _ _ _))

theorem deed_take (l : Live α) {uids : List Nat} (picked : s.Picks l.battle.piles uids) :
    Deed s t i l ((l.mapBattle fun b =>
      b.setPiles (l.battle.piles.takeIn s.rules.handLimit uids).2).reportDrawn
        (l.battle.piles.takeIn s.rules.handLimit uids).1) := by
  refine ⟨.trans (trace_setPiles l (takeIn_steps _ _ _))
    (.trans (trace_reportMoved _ _ _) (trace_reportMoved _ _ _)), ?_, heard_take l picked⟩
  exact Mute.trans (m := l.mapBattle _) ⟨rfl, rfl, rfl, rfl⟩
    ((mute_reportMoved _ _ _).trans (mute_reportMoved _ _ _))

theorem deed_put (l : Live α) {goal : Pile} (hgoal : goal ≠ .hand) {uids : List Nat}
    (picked : s.Picks l.battle.piles uids) :
    Deed s t i l ((l.mapBattle fun b =>
      b.setPiles (l.battle.piles.moveAll goal uids).2).reportMoved
        (l.battle.piles.moveAll goal uids).1 goal) :=
  ⟨.trans (trace_setPiles l (moveAll_steps _ hgoal _ _)) (trace_reportMoved _ _ _),
    Mute.trans (m := l.mapBattle _) ⟨rfl, rfl, rfl, rfl⟩ (mute_reportMoved _ _ _), heard_put l goal picked⟩

theorem deed_changeCosts (l : Live α) (op : Arith) (x : α) (uids : List Nat) :
    Deed s t i l (l.mapBattle fun b =>
      b.setPiles (l.battle.piles.changeCosts op x uids).2) := by
  refine ⟨trace_setPiles l (changeCosts_steps _ _ _ _ _), ⟨rfl, rfl, rfl, rfl⟩, heard_unnoticed rfl ?_⟩
  exact .of_fighters (fun side => by cases side <;> exact .refl _)
    (fun side => by cases side <;> rfl) rfl rfl (map_uid_changeCosts op x uids _)

end Live

namespace Setting

/-- A draw that finds no card has nothing to report. -/
theorem course_drawCards (count : Nat) (l : Live α) :
    Tries (sc.Course ctx i) (sc.toSetting.drawCards count) l := by
  have hdrawn : sc.Course ctx i l _ := .deed (deed_draw l count)
  refine Tries.get_bind ?_
  show sc.Course ctx i l ((((if _ then throw _ else _) : Attempt α Nat).run.run
    (l.mapBattle fun _ => (l.battle.drawUpTo sc.rules.handLimit count).2)).2)
  split
  · next hnone =>
    simp only [Bool.and_eq_true] at hnone
    rw [reportDrawn, reportMoved, if_pos hnone.2, reportMoved, if_pos hnone.1.2] at hdrawn
    exact hdrawn
  · exact hdrawn

/-- What a selector picks is known to what follows. -/
theorem course_select_bind {β : Type} (selector : Selector) (home : Pile) (ctx' : Context α)
    (l : Live α) {f : List Nat → Attempt α β}
    (hf : ∀ uids l, sc.Picks l.battle.piles uids → Tries (sc.Course ctx i) (f uids) l) :
    Tries (sc.Course ctx i) (do f (← sc.toSetting.select selector home ctx')) l := by
  refine Tries.modifyGet_bind (.deed (deed_chance l _ _)) (hf _ _ ?_)
  exact ⟨home, ctx'.card, selector, ⟨l.battle.stream, l.questions⟩, rfl⟩

theorem course_cardValue (c : Clause α) (me : Side) (ctx : Context α) (l : Live α) :
    Tries (sc.Course ctx i) (sc.toSetting.cardValue c me ctx) l :=
  Tries.get_bind (Tries.ofExcept _ l)

theorem course_countOf (c : Clause α) (me : Side) (ctx : Context α) (l : Live α) :
    Tries (sc.Course ctx i) (sc.toSetting.countOf c me ctx) l := by
  unfold countOf
  split
  · exact Tries.bind (course_cardValue _ _ _ l) fun _ l => Tries.pure _ l
  · exact Tries.throw _ l

theorem course_runDraw (c : Clause α) (me : Side) (ctx : Context α) (l : Live α) :
    Tries (sc.Course ctx i) (sc.toSetting.runDraw c me ctx) l := by
  unfold runDraw
  split
  · exact course_select_bind _ _ _ l fun uids l picked => Tries.modify (.deed (deed_take l picked))
  · refine Tries.bind (course_countOf _ _ _ l) fun count l => ?_
    exact Tries.bind (course_drawCards _ l) fun _ l => Tries.pure _ l

theorem course_runMove (c : Clause α) (me : Side) (ctx : Context α) {goal : Pile}
    (hgoal : goal ≠ .hand) (l : Live α) :
    Tries (sc.Course ctx i) (sc.toSetting.runMove c me ctx goal) l := by
  have hmove (selector : Selector) (l : Live α) : Tries (sc.Course ctx i) (do
      let uids ← sc.toSetting.select selector .hand ctx
      modify fun l =>
        let moved := l.battle.piles.moveAll goal uids
        (l.mapBattle fun b => b.setPiles moved.2).reportMoved moved.1 goal : Attempt α Unit) l :=
    course_select_bind _ _ _ l fun uids l picked =>
      Tries.modify (.deed (deed_put l hgoal picked))
  unfold runMove
  dsimp only
  split
  · exact Tries.bind (Tries.pure _ l) fun selector l => hmove selector l
  · refine Tries.bind (course_countOf _ _ _ l) fun count l => ?_
    exact Tries.bind (Tries.pure _ l) fun selector l => hmove selector l

theorem course_runCost (c : Clause α) (me : Side) (ctx : Context α) (l : Live α) :
    Tries (sc.Course ctx i) (sc.toSetting.runCost c me ctx) l := by
  unfold runCost
  split
  · exact Tries.throw _ l
  · refine Tries.bind (course_cardValue _ _ _ l) fun x l => ?_
    refine course_select_bind _ _ _ l fun uids l _ => Tries.get_bind ?_
    refine Tries.bind (Tries.modify (.deed (deed_changeCosts l _ _ _))) fun _ l => ?_
    split
    · exact Tries.throw _ l
    · exact Tries.pure _ l

theorem course_runCards (c : Clause α) (me : Side) (ctx : Context α) (l : Live α) :
    Tries (sc.Course ctx i) (sc.toSetting.runCards c me ctx) l := by
  unfold runCards
  split
  · exact course_runDraw _ _ _ l
  · exact course_runMove _ _ _ (by simp) l
  · exact course_runMove _ _ _ (by simp) l
  · exact course_runCost _ _ _ l
  · exact Tries.throw _ l

end Setting

/-! ## Texts -/

theorem course_reportSkipped (raw reason : String) (ctx : Context α) (l : Live α) :
    Leads (sc.Course ctx i) (reportSkipped raw reason ctx) l :=
  course_emit rfl rfl (by simp) l

theorem course_reportFaults (ctx : Context α) (units : List (Reading α)) (l : Live α) :
    Leads (sc.Course ctx i) (reportFaults ctx units) l := by
  induction units generalizing l with
  | nil => exact Leads.pure _ l
  | cons u rest ih =>
    cases u with
    | clause c => exact ih l
    | fault raw f => exact Leads.bind (course_reportSkipped _ _ _ l) fun _ l => ih l

namespace Scene

theorem course_runBranch (condition effect : String) (otherwise : Option String) (me : Side)
    (ctx : Context α) (l : Live α) :
    Tries (sc.Course ctx i) (sc.runBranch condition effect otherwise me ctx) l := by
  refine Tries.get_bind ?_
  dsimp only
  split
  · split
    · exact Tries.pure _ l
    · exact Course.text _ me (.inl rfl) l
  · exact Tries.pure _ l

/-- One case for each form of a unit, and one for each domain of its
attribute. -/
theorem course_runClause (c : Clause α) (me : Side) (ctx : Context α) (l : Live α) :
    Tries (sc.Course ctx true) (sc.runClause c me ctx) l := by
  unfold runClause
  split
  · exact course_runBranch _ _ _ _ _ l
  · split
    · exact Tries.throw _ l
    · next hknown =>
      split
      · exact course_runStat _ _ _ l
      · next hdomain => exact course_runModifier _ _ _ hknown hdomain l
      · exact course_runStatus _ _ _ l
      · exact course_runAbility _ _ _ l
      · exact Setting.course_runCards _ _ _ l
      · exact Tries.pure _ l

end Scene
end DeckDuel
