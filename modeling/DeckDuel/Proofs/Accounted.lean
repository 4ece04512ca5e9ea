/-
DeckDuel.Proofs.Accounted — what a unit that fits may be refused for.

* `Accounted c r` — the unit may be refused for the cause: its attribute
  is known, its target is one side, and if its operation is not
  supported, it is one other than `+` on a number of cards.
* `Scene.accounted_runClause` — a unit that fits and acts on one side is
  refused for such a cause only, by the domain of its attribute.
* `Live.Vouched` — a stretch that starts with a faithful memo refuses
  units for such causes only, and leaves a faithful memo.
* `Setting.execute_accounted` — every text is such a stretch, however
  deep it runs.

What is planned fits since it was read, and what is refused is noted in
the journal; so the journal is where the two meet.
-/
import DeckDuel.Proofs.Causes
import DeckDuel.Proofs.Course
import DeckDuel.Proofs.Fitting

namespace DeckDuel

variable {α : Type}

/-- The unit may be refused for the cause. -/
structure Accounted (c : Clause α) (r : Refusal) : Prop where
  known (attr : String) : r ≠ .unknownAttribute attr
  expanded (raw : String) : r ≠ .unexpandedAll raw
  /-- Only a count of cards asks for one operation. -/
  supported {attr op : String} (h : r = .unsupportedOperator attr op) :
    c.attr ∈ ["draw", "discard", "exhaust"] ∧
      ∃ a x, c.form = .cards none (some (a, x)) ∧ a ≠ .increase

theorem Accounted.of_plain {c : Clause α} {r : Refusal} (h : r.isPlain = true) : Accounted c r where
  known _ hr := by simp [hr, Refusal.isPlain] at h
  expanded _ hr := by simp [hr, Refusal.isPlain] at h
  supported hr := by simp [hr, Refusal.isPlain] at h

theorem Accounted.missingTarget (c : Clause α) (attr : String) :
    Accounted c (.missingTarget attr) where
  known _ h := by cases h
  expanded _ h := by cases h
  supported h := by cases h

theorem Accounted.nestingLimit (c : Clause α) (limit : Nat) :
    Accounted c (.nestingLimit limit) where
  known _ h := by cases h
  expanded _ h := by cases h
  supported h := by cases h

/-- The causes that a step of a handler is refused for need no account. -/
theorem Raises.accounted {β : Type} {x : Attempt α β} (h : ∀ l, Refuses (Spared l.battle) x l)
    (c : Clause α) : Raises (Accounted c) x :=
  fun l => (h l).mono fun _ _ hr => .of_plain hr.plain

/-! ## Targets -/

section

variable {c : Clause α} {me : Side} {ctx : Context α} {r : Refusal} (htarget : c.target ≠ some .all)
include htarget

theorem accounted_side (h : c.side me ctx = .error r) : Accounted c r := by
  unfold Clause.side at h
  rw [if_neg htarget] at h
  split at h
  · cases h
  · split at h <;> cases h
    exact .missingTarget c _

theorem explicitSide?_ne_error : Scene.explicitSide? c me ≠ .error r := by
  intro h
  unfold Scene.explicitSide? at h
  split at h
  · cases h
  · cases h
  · cases h
  · next hall => exact htarget hall

theorem abilitySide_ne_error (hctx : ctx.target ≠ some .all) : abilitySide c me ctx ≠ .error r := by
  intro h
  unfold abilitySide at h
  split at h
  · next hall =>
    rcases Option.or_eq_some_iff.mp hall with hc | ⟨-, hc⟩
    · exact htarget hc
    · exact hctx hc
  all_goals cases h

end

/-! ## Handlers -/

/-- The attributes that stats are stored under. -/
theorem Attribute.mem_stats {a : Attribute} (ha : a ∈ Catalog.standard.attributes)
    (hdomain : a.domain = .stat) :
    a.name ∈ ["hp", "lust", "block", "energy", "max_hp", "max_lust", "max_energy"] := by
  revert a
  decide

/-- The attributes of stacks are statuses by another name. -/
theorem Attribute.eq_stacks {a : Attribute} (ha : a ∈ Catalog.standard.attributes)
    (hdomain : a.domain = .status) (hname : a.name ≠ "status") : a.name = "stacks" := by
  revert a
  decide

/-- The attributes of cards. -/
theorem Attribute.mem_cards {a : Attribute} (ha : a ∈ Catalog.standard.attributes)
    (hdomain : a.domain = .card) : a.name ∈ ["draw", "discard", "exhaust", "cost"] := by
  revert a
  decide

/-! ## Forms -/

variable {c : Clause α} {a : Attribute} {form : Form α}

theorem Attribute.Fits.exists_change (h : a.Fits form)
    (hdomain : a.domain = .stat ∨ a.domain = .modifier) : ∃ op x, form = .change op x := by
  cases h with
  | change op x _ => exact ⟨op, x, rfl⟩
  | _ => simp_all

/-- A fitting form of a status attribute has an operation of the
attribute. -/
theorem Attribute.Fits.operation (h : a.Fits form) (ha : a ∈ Catalog.standard.attributes)
    (hdomain : a.domain = .status) :
    (a.name = "status" ∧ form.operation? = some (.verb .apply)) ∨
      (a.name = "status" ∧ form.operation? = some (.verb .remove)) ∨
      (a.name = "stacks" ∧ ∃ op, form.operation? = some (.arith op)) := by
  cases h with
  | apply id amount duration _ hname => exact .inl ⟨hname, rfl⟩
  | remove id amount duration _ hname => exact .inr (.inl ⟨hname, rfl⟩)
  | stackChange id op value _ hname =>
    exact .inr (.inr ⟨Attribute.eq_stacks ha hdomain hname, op, rfl⟩)
  | _ => simp_all

theorem Attribute.Fits.exists_cards (h : a.Fits form) (hdomain : a.domain = .card) :
    ∃ selector change, form = .cards selector change ∧ (selector.isSome ∨ change.isSome) ∧
      (a.name = "cost" → change.isSome) := by
  cases h with
  | cards selector change _ given cost => exact ⟨selector, change, rfl, given, cost⟩
  | _ => simp_all

variable [Scalar α]

namespace Scene

variable {sc : Scene α}

theorem accounted_value (c : Clause α) (me target : Side) (ctx : Context α) :
    Raises (Accounted c) (sc.value c me target ctx) := by
  refine .get_bind fun _ => .ofExcept fun _ hr => ?_
  exact .of_plain (Clause.value_plain hr)

theorem accounted_amountOf (c : Clause α) (me holder : Side) (ctx : Context α) :
    Raises (Accounted c) (sc.amountOf c me holder ctx) := by
  unfold amountOf
  split
  · exact .pure _
  · refine .bind (accounted_value _ _ _ _) ?_
    intro x
    exact .pure _

theorem accounted_runStat (ha : a ∈ Catalog.standard.attributes) (hattr : c.attr = a.name)
    (hfits : a.Fits c.form) (hdomain : a.domain = .stat) (htarget : c.target ≠ some .all)
    (me : Side) (ctx : Context α) : Raises (Accounted c) (sc.runStat c me ctx) := by
  obtain ⟨op, x, hform⟩ := hfits.exists_change (.inl hdomain)
  have harith : c.form.arith? = some op := by rw [hform]; rfl
  have hname := Attribute.mem_stats ha hdomain
  rw [← hattr] at hname
  refine .bind (.ofExcept fun _ => accounted_side htarget) fun target => ?_
  rw [harith]
  refine .bind (accounted_value _ _ _ _) fun y => ?_
  refine .bind (Raises.ofExcept fun _ hr => .of_plain (ordinary_plain hr)) fun z => ?_
  split
  · exact .accounted (fun _ => spares_changeHp _ _ _ _ _) c
  · exact .accounted (fun _ => spares_changeLust _ _ _ _ _) c
  · exact .accounted (fun _ => spares_changeBlock _ _ _ _) c
  · exact .accounted (fun _ => spares_store _ _) c
  · exact .accounted (fun _ => spares_store _ _) c
  · exact .accounted (fun _ => spares_store _ _) c
  · exact .accounted (fun _ => spares_store _ _) c
  · simp_all

theorem accounted_runModifier (hfits : a.Fits c.form) (hdomain : a.domain = .modifier)
    (htarget : c.target ≠ some .all) (me : Side) (ctx : Context α) :
    Raises (Accounted c) (sc.runModifier c me ctx) := by
  obtain ⟨op, x, hform⟩ := hfits.exists_change (.inr hdomain)
  have hop : c.form.operation? = some (.arith op) := by rw [hform]; rfl
  refine .bind (.ofExcept fun _ => accounted_side htarget) fun target => ?_
  rw [hop]
  refine .bind (accounted_value _ _ _ _) fun y => .get_bind fun l => ?_
  exact .bind (.ofExcept fun _ hr => .of_plain (Arith.result_plain hr)) fun z => .modify _

theorem accounted_runStatus (ha : a ∈ Catalog.standard.attributes) (hattr : c.attr = a.name)
    (hfits : a.Fits c.form) (hdomain : a.domain = .status) (htarget : c.target ≠ some .all)
    (me : Side) (ctx : Context α) : Raises (Accounted c) (sc.runStatus c me ctx) := by
  unfold runStatus
  split
  · exact .throw (.of_plain rfl)
  · refine .bind (.ofExcept fun r hr => absurd hr (explicitSide?_ne_error htarget)) ?_
    intro explicit
    split
    · split
      · exact .throw (.of_plain rfl)
      · refine .bind (accounted_amountOf _ _ _ _) ?_
        intro amount
        exact .accounted (fun _ => spares_applyStatus _ _ _ _) c
    · refine .bind (accounted_amountOf _ _ _ _) ?_
      intro amount
      exact .accounted (fun _ => spares_removeStatus _ _ _ _) c
    · exact .accounted (fun _ => spares_changeStacks _ _ _ _ _ _) c
    · next happly hremove hstacks =>
      exfalso
      rcases hfits.operation ha hdomain with ⟨h, h'⟩ | ⟨h, h'⟩ | ⟨h, op, h'⟩
      · exact happly (hattr.trans h) h'
      · exact hremove (hattr.trans h) h'
      · exact hstacks op (hattr.trans h) h'

end Scene

omit [Scalar α] in
theorem accounted_runAbility (hfits : a.Fits c.form) (hdomain : a.domain = .ability)
    (htarget : c.target ≠ some .all) {ctx : Context α} (hctx : ctx.target ≠ some .all) (me : Side) :
    Raises (Accounted c) (runAbility c me ctx) := by
  refine .bind (.ofExcept fun r hr => absurd hr (abilitySide_ne_error htarget hctx)) ?_
  intro side
  split
  · refine .bind (.accounted (fun _ => spares_addAbility _ _) c) ?_
    intro id
    exact .pure _
  · exact .modify _
  · next inner hform =>
    rw [hform] at hfits
    cases hfits with
    | passive _ domain => simp [hdomain] at domain
  · exact .throw (.of_plain rfl)

/-! ## Cards -/

omit [Scalar α] in
/-- A unit that picks no cards counts them; only its operation may be
refused. -/
theorem accounted_unsupported (hfits : a.Fits c.form) (hdomain : a.domain = .card)
    (hname : c.attr ∈ ["draw", "discard", "exhaust"]) (hselector : c.form.selector? = none)
    (hop : c.form.arith? ≠ some .increase) : Accounted c (unsupported c) := by
  obtain ⟨selector, change, hform, hgiven, -⟩ := hfits.exists_cards hdomain
  obtain rfl : selector = none := by rw [hform] at hselector; exact hselector
  obtain ⟨⟨op, x⟩, rfl⟩ : ∃ r, change = some r := by simpa [Option.isSome_iff_exists] using hgiven
  have hne : op ≠ .increase := by
    rintro rfl
    rw [hform] at hop
    exact hop rfl
  exact {
    known := by intro attr h; cases h
    expanded := by intro raw h; cases h
    supported := by intro attr text h; exact ⟨hname, op, x, hform, hne⟩ }

namespace Setting

variable {s : Setting α}

theorem accounted_cardValue (c : Clause α) (me : Side) (ctx : Context α) :
    Raises (Accounted c) (s.cardValue c me ctx) := by
  refine .get_bind fun _ => .ofExcept fun _ hr => ?_
  exact .of_plain (Clause.value_plain hr)

theorem accounted_countOf (hfits : a.Fits c.form) (hdomain : a.domain = .card)
    (hname : c.attr ∈ ["draw", "discard", "exhaust"]) (hselector : c.form.selector? = none)
    (me : Side) (ctx : Context α) : Raises (Accounted c) (s.countOf c me ctx) := by
  unfold countOf
  split
  · refine .bind (accounted_cardValue _ _ _) ?_
    intro x
    exact .pure _
  · next hop => exact .throw (accounted_unsupported hfits hdomain hname hselector hop)

theorem accounted_runDraw (hfits : a.Fits c.form) (hdomain : a.domain = .card)
    (hname : c.attr ∈ ["draw", "discard", "exhaust"]) (me : Side) (ctx : Context α) :
    Raises (Accounted c) (s.runDraw c me ctx) := by
  unfold runDraw
  split
  · refine .bind (.lift _) ?_
    intro uids
    exact .modify _
  · next hselector =>
    refine .bind (accounted_countOf hfits hdomain hname hselector me ctx) ?_
    intro n
    refine .bind (.accounted (fun _ => spares_drawCards n) c) ?_
    intro drawn
    exact .pure _

theorem accounted_runMove (hfits : a.Fits c.form) (hdomain : a.domain = .card)
    (hname : c.attr ∈ ["draw", "discard", "exhaust"]) (me : Side) (ctx : Context α) (goal : Pile) :
    Raises (Accounted c) (s.runMove c me ctx goal) := by
  have hmove (selector : Selector) : Raises (Accounted c) (do
      let uids ← s.select selector .hand ctx
      modify fun l =>
        let moved := l.battle.piles.moveAll goal uids
        (l.mapBattle fun b => b.setPiles moved.2).reportMoved moved.1 goal : Attempt α Unit) := by
    refine .bind (.lift _) ?_
    intro uids
    exact .modify _
  unfold runMove
  dsimp only
  split
  · next selector _ => exact hmove selector
  · next hselector =>
    refine .bind (accounted_countOf hfits hdomain hname hselector me ctx) ?_
    intro n
    exact hmove _

/-- A `cost` unit has an operation. -/
theorem accounted_runCost (hattr : c.attr = "cost") (hname : c.attr = a.name)
    (hfits : a.Fits c.form) (hdomain : a.domain = .card) (me : Side) (ctx : Context α) :
    Raises (Accounted c) (s.runCost c me ctx) := by
  obtain ⟨selector, change, hform, -, hcost⟩ := hfits.exists_cards hdomain
  obtain ⟨⟨op, x⟩, rfl⟩ := Option.isSome_iff_exists.mp (hcost (hname.symm.trans hattr))
  have harith : c.form.arith? = some op := by rw [hform]; rfl
  unfold runCost
  rw [harith]
  refine .bind (accounted_cardValue _ _ _) ?_
  intro y
  refine .bind (.lift _) ?_
  intro uids
  refine .get_bind ?_
  intro l
  refine .bind (.modify _) ?_
  intro _
  split
  · next r hr => exact .throw (.of_plain (Piles.changeCosts_plain hr))
  · exact .pure _

theorem accounted_runCards (ha : a ∈ Catalog.standard.attributes) (hattr : c.attr = a.name)
    (hfits : a.Fits c.form) (hdomain : a.domain = .card) (me : Side) (ctx : Context α) :
    Raises (Accounted c) (s.runCards c me ctx) := by
  have hname := Attribute.mem_cards ha hdomain
  rw [← hattr] at hname
  unfold runCards
  split
  · next h => exact accounted_runDraw hfits hdomain (by simp [h]) me ctx
  · next h => exact accounted_runMove hfits hdomain (by simp [h]) me ctx .discard
  · next h => exact accounted_runMove hfits hdomain (by simp [h]) me ctx .exhaust
  · next h => exact accounted_runCost h hattr hfits hdomain me ctx
  · simp_all

end Setting

/-! ## Units -/

namespace Scene

variable {sc : Scene α}

/-- **A unit that fits is refused for a cause that it may be refused
for**, by the domain of its attribute; a branch for the cause that its
text was refused for. -/
theorem accounted_runClause (hcatalog : sc.catalog = .standard) {limit : Nat}
    (hrun : ∀ text me ctx, Raises (· = .nestingLimit limit) (sc.run text me ctx)) {c : Clause α}
    (hfits : c.Fits) (htarget : c.target ≠ some .all) {ctx : Context α}
    (hctx : ctx.target ≠ some .all) (me : Side) : Raises (Accounted c) (sc.runClause c me ctx) := by
  unfold runClause
  split
  · refine Raises.mono (fun l => refuses_runBranch hrun _ _ _ me ctx) ?_
    rintro r rfl
    exact .nestingLimit c limit
  · next hother =>
    rcases hfits with hbranch | ⟨a, ha, hattr, hfits⟩
    · cases hform : c.form <;> simp_all [Form.isBranch]
    · have hget : sc.catalog.get? c.attr = some a := by
        rw [hcatalog, hattr]
        exact Catalog.get?_standard ha
      rw [hget]
      dsimp only
      split
      · next hdomain => exact accounted_runStat ha hattr hfits hdomain htarget me ctx
      · next hdomain => exact accounted_runModifier hfits hdomain htarget me ctx
      · next hdomain => exact accounted_runStatus ha hattr hfits hdomain htarget me ctx
      · next hdomain => exact accounted_runAbility hfits hdomain htarget hctx me
      · next hdomain => exact Setting.accounted_runCards ha hattr hfits hdomain me ctx
      · exact .pure _

end Scene

/-! ## Runs -/

namespace Live

/-- From a faithful memo on, only units that may be refused for their
cause are refused, and the memo stays faithful. -/
def Vouched (l m : Live α) : Prop :=
  l.memo.Faithful .standard → m.memo.Faithful .standard ∧
    ∃ new, m.refusals = new ++ l.refusals ∧ ∀ p ∈ new, Accounted p.1 p.2

variable {l m k : Live α}

theorem Vouched.of_same (hmemo : m.memo = l.memo) (hrefusals : m.refusals = l.refusals) :
    Vouched l m := by
  intro hfaithful
  rw [hmemo, hrefusals]
  exact ⟨hfaithful, [], rfl, by simp⟩

theorem Mute.vouched (h : Mute l m) : Vouched l m := .of_same h.memo h.refusals

theorem vouched_enter (l : Live α) (text : String) (me : Side) : Vouched l (l.enter text me) := by
  obtain ⟨hmemo, hrefusals, -⟩ := enter_told l text me
  exact .of_same hmemo hrefusals

theorem vouched_beginOverflow (l : Live α) (side : Side) : Vouched l (l.beginOverflow side) :=
  .of_same rfl rfl

theorem vouched_endOverflow (l : Live α) (side : Side) : Vouched l (l.endOverflow side) := by
  obtain ⟨hmemo, hrefusals, -⟩ := endOverflow_told l side
  exact .of_same hmemo hrefusals

theorem Vouched.trans (h : Vouched l m) (h' : Vouched m k) : Vouched l k := by
  intro hmemo
  obtain ⟨hmemo, new, hnew, hall⟩ := h hmemo
  obtain ⟨hmemo, newer, hnewer, hall'⟩ := h' hmemo
  refine ⟨hmemo, newer ++ new, ?_, ?_⟩
  · rw [hnewer, hnew, List.append_assoc]
  · intro p hp
    rcases List.mem_append.mp hp with hp | hp
    · exact hall' p hp
    · exact hall p hp

instance : IsPreorder (Live α) Vouched where
  refl l := (Mute.refl l).vouched
  trans _ _ _ := .trans

theorem vouched_refused {c : Clause α} {r : Refusal} (h : Accounted c r) (l : Live α) :
    Vouched l (l.write (.refused c r)) := by
  intro hmemo
  refine ⟨hmemo, [(c, r)], rfl, ?_⟩
  intro p hp
  rw [List.mem_singleton.mp hp]
  exact h

/-- What is known from a faithful memo needs no memo to be faithful. -/
theorem Vouched.of_memo (h : l.memo.Faithful .standard → Vouched l m) : Vouched l m := by
  intro hmemo
  exact h hmemo hmemo

end Live

open Live

namespace Scene

variable {sc : Scene α}

section

variable (hcatalog : sc.catalog = .standard) {limit : Nat}
  (hlimit : ∀ text me ctx, Raises (· = .nestingLimit limit) (sc.run text me ctx))
  (hrun : ∀ text me (ctx : Context α) l, ctx.target ≠ some .all →
    Tries Vouched (sc.run text me ctx) l)
  {ctx : Context α} (hctx : ctx.target ≠ some .all)

include hrun hctx in
/-- Between the texts that it sets off a unit notes nothing. -/
theorem Course.vouched {i : Bool} {l m : Live α} (h : sc.Course ctx i l m) : Vouched l m := by
  refine h.carries (fun _ _ _ hdeed => hdeed.mute.vouched) vouched_beginOverflow
    vouched_endOverflow ?_
  rintro text me c l (rfl | hnone)
  · exact hrun text me _ l hctx
  · exact hrun text me c l (by simp [hnone])

include hcatalog hlimit hrun hctx

/-- A unit that is refused is noted with its cause. -/
theorem vouched_runClauses {cs : List (Clause α)} (hcs : ∀ c ∈ cs, c.Fits ∧ c.target ≠ some .all)
    (me : Side) (l : Live α) : Tries Vouched (sc.runClauses me ctx cs) l := by
  induction cs generalizing l with
  | nil => exact Tries.pure _ l
  | cons c rest ih =>
    have hrest (l : Live α) : Tries Vouched (sc.runClauses me ctx rest) l :=
      ih (fun c hc => hcs c (List.mem_cons_of_mem _ hc)) l
    obtain ⟨hfits, htarget⟩ := hcs c List.mem_cons_self
    have hcause := accounted_runClause hcatalog hlimit hfits htarget hctx me l
    refine Tries.caught_bind ((course_runClause c me ctx l).vouched hrun hctx) ?_
    intro r m hx
    cases r with
    | ok _ => exact hrest m
    | error r =>
      have hr : Accounted c r := hcause r (by rw [hx])
      refine Tries.bind (Tries.modify (vouched_refused hr m)) ?_
      intro _ m
      split
      · exact Tries.throw _ m
      · have hskip : Leads (sc.Course ctx true) (reportSkipped c.raw r.message ctx) m :=
          course_reportSkipped _ _ _ m
        refine Tries.bind (Tries.lift (hskip.vouched hrun hctx)) ?_
        intro _ m
        exact hrest m

/-- A faithful memo gives what reading gives, so what is planned fits. -/
theorem vouched_runUnits (text : String) (me : Side) (l : Live α) :
    Tries Vouched (sc.runUnits text me ctx) l := by
  refine Vouched.of_memo fun hmemo => ?_
  obtain ⟨hunits, hparsed⟩ := hmemo.parse text
  show Tries Vouched (sc.runUnits text me ctx) l
  refine Tries.modifyGet_bind ?_ ?_
  · intro _
    rw [hcatalog]
    exact ⟨hparsed, [], rfl, by simp⟩
  · rw [hcatalog, hunits]
    have hfaults (l : Live α) : Leads (sc.Course ctx true)
        (reportFaults ctx (Effect.parseEffect (α := α) .standard text)) l :=
      course_reportFaults _ _ l
    refine Tries.bind (Tries.lift ((hfaults _).vouched hrun hctx)) ?_
    intro _ m
    exact vouched_runClauses hcatalog hlimit hrun hctx (fun _ => fits_of_mem_plan) me m

end
end Scene

namespace Setting

/-- What runs within a text is vouched for, by induction on the levels:
a text that is set off runs in the same context, or in one that names no
target. -/
theorem vouched_runWithin {s : Setting α} (hs : s.catalog = .standard) (levels : Nat)
    (text : String) (me : Side) {ctx : Context α} (hctx : ctx.target ≠ some .all) (l : Live α) :
    Tries Vouched (s.runWithin levels text me ctx) l := by
  induction levels generalizing text me ctx l with
  | zero => exact Tries.throw _ l
  | succ levels ih =>
    have hunits (l : Live α) :
        Tries Vouched ((⟨s, s.runWithin levels⟩ : Scene α).runUnits text me ctx) l := by
      refine Scene.vouched_runUnits hs (s.refuses_runWithin levels) ?_ hctx text me l
      intro text me ctx l hctx
      exact ih text me hctx l
    refine Tries.bind (Tries.modify (vouched_enter l text me)) ?_
    intro _ l
    refine Tries.caught_bind (hunits l) ?_
    intro r l _
    refine Tries.bind (Tries.modify (mute_leave l).vouched) ?_
    intro _ l
    exact Tries.ofExcept r l

/-- **Every unit reaches its handler with what the handler needs.** What
is planned of a text fits; and whatever unit of a text is refused, at any
depth of the texts that it sets off, the cause is one that the unit may be
refused for. No cause concerns the syntax of a unit: units that do not
read are left out of the plan, and the one selector that is not part of a
unit, which changes of costs fall back on, reads. Units are known from
reading the text, so the memo has to be faithful, as it is in every
session (`Session.faithful_afterAll`). -/
theorem execute_accounted (s : Setting α) (hs : s.catalog = .standard) (text : String) (me : Side)
    (ctx : Context α) (hctx : ctx.target ≠ some .all) (l : Live α)
    (hmemo : l.memo.Faithful .standard) :
    (∀ c ∈ plan s.catalog (Effect.parseEffect (α := α) s.catalog text), c.Fits) ∧
      (∃ new, ((s.execute text me ctx).run.run l).2.refusals = new ++ l.refusals ∧
        ∀ p ∈ new, Accounted p.1 p.2) ∧
      Selector.parse "all".toList = .ok .everything := by
  have hvouched : Tries Vouched (s.execute text me ctx) l :=
    Tries.get_bind (vouched_runWithin hs _ text me hctx l)
  refine ⟨?_, (hvouched hmemo).2, by decide⟩
  intro c hc
  rw [hs] at hc
  exact (fits_of_mem_plan hc).1

/-- Cards are drawn and not undrawn. The unit stands in a branch, and is
noted as it would be anywhere. -/
theorem execute_accounted_draw :
    let s := Session.loadWith (.duel : Snapshot Double) .standard .leftmost .standard
    let text := "if[1=1][draw-1, ALL.hp-5]"
    let m := ((s.execute text .player .plain).run.run s.live).2
    s.catalog = .standard ∧ (Context.plain : Context Double).target ≠ some .all ∧
      s.live.memo.Faithful .standard ∧
      m.refusals.map Prod.snd = [.unsupportedOperator "draw" "-"] ∧
      ∃ new, m.refusals = new ++ s.live.refusals ∧ ∀ p ∈ new, Accounted p.1 p.2 := by
  intro s text m
  have hmemo : s.live.memo.Faithful .standard := Memo.faithful_empty _
  have hctx : (Context.plain : Context Double).target ≠ some .all := by decide
  have hrefused : m.refusals.map Prod.snd = [.unsupportedOperator "draw" "-"] := by
    decide +kernel
  exact ⟨rfl, hctx, hmemo, hrefused,
    (execute_accounted s.toSetting rfl text .player .plain hctx s.live hmemo).2.1⟩

end Setting
end DeckDuel
