/-
DeckDuel.Proofs.MirrorRun — the rules favour no side.

* `Scene.mirrors_runClause` — a unit that speaks of no energy and no
  cards, run for one side here and for the other side in the mirror. One
  case for each form, and one for each domain of its attribute.
* `Setting.mirroredRuns_runWithin` — so does a text, by induction on the
  levels that are left for what it sets off: only the outermost text
  decides a battle.
* `Setting.execute_mirror` — the outermost text too, unless both sides
  have fallen when it ends: then the player wins.
-/
import DeckDuel.Proofs.Call
import DeckDuel.Proofs.Double
import DeckDuel.Proofs.Fitting
import DeckDuel.Proofs.MirrorLockstep
import DeckDuel.Proofs.Reentrance

namespace DeckDuel

variable {α : Type} [Scalar α] {s : Setting α} {d : Nat} {l m : Live α} {c c' : Context α}

/-! ## Texts that are left out -/

theorem mirrors_reportSkipped (raw : String) (reason reason' : String)
    (h : Mirrored s.catalog d l m) :
    Agrees (Mirrored s.catalog d) (reportSkipped raw reason c) (reportSkipped raw reason' c') l m :=
  mirrors_emit h _ _

theorem mirrors_reportFaults (units : List (Reading α)) (h : Mirrored s.catalog d l m) :
    Agrees (Mirrored s.catalog d) (reportFaults c units) (reportFaults c' units) l m := by
  induction units generalizing l m with
  | nil => exact Agrees.pure _ h
  | cons u rest ih =>
    cases u with
    | clause cl => exact ih h
    | fault raw f => exact Agrees.bind (mirrors_reportSkipped _ _ _ h) fun _ _ _ h => ih h

/-! ## Units -/

omit [Scalar α] in
theorem explicitSide?_mirror (cl : Clause α) (me : Side) :
    Scene.explicitSide? cl me.opponent = (Scene.explicitSide? cl me).map (Option.map Side.opponent) := by
  unfold Scene.explicitSide?
  cases cl.target with
  | none => rfl
  | some t => cases t <;> rfl

theorem homeSide_mirror (me : Side) (kind : StatusKind) :
    Scene.homeSide me.opponent kind = (Scene.homeSide me kind).opponent := by
  cases kind <;> rfl

/-- Cards are the player's alone, and are not spoken of. -/
theorem runCards_eq_throw {cl : Clause α} (h : isPlayerOnly cl.attr = false) (me : Side)
    (ctx : Context α) : s.runCards cl me ctx = throw (.unknownAttribute cl.attr) := by
  unfold Setting.runCards
  split
  · next hattr => exact absurd h (by rw [hattr]; decide)
  · next hattr => exact absurd h (by rw [hattr]; decide)
  · next hattr => exact absurd h (by rw [hattr]; decide)
  · next hattr => exact absurd h (by rw [hattr]; decide)
  · rfl

namespace Scene

variable [CountsCommute α] [SpellsNumbers α]
variable {run run' : String → Side → Context α → Attempt α Unit} {cl : Clause α}

theorem mirrors_value (hcl : cl.Impartial) (me target : Side) (hc : c.Meets c')
    (h : Mirrored s.catalog d l m) :
    Reflects (Mirrored s.catalog d) ((s.running run).value cl me target c)
      ((s.running run').value cl me.opponent target.opponent c') l m := by
  refine Reflects.get_bind ?_
  have hrelics : (l.scope s me target c).battle.player.relics = [] := h.fair.relics
  rw [h.scope s me target hc, Scope.value_mirror hrelics hcl]
  exact Reflects.ofExcept _ h mirror_of_value

theorem mirrors_runModifier (hcl : cl.Impartial) (me : Side) (hc : c.Meets c')
    (h : Mirrored s.catalog d l m) :
    Reflects (Mirrored s.catalog d) ((s.running run).runModifier cl me c)
      ((s.running run').runModifier cl me.opponent c') l m := by
  refine Reflects.ofExcept_bind_map (Clause.side_mirror hcl.attr me hc.target) h mirror_of_side ?_
  intro target _
  split
  · exact Reflects.throw (.invalidValue cl.raw) h
  · refine Reflects.bind (mirrors_value hcl _ _ hc h) fun x l m h => Reflects.get_bind ?_
    dsimp only
    rw [h.fighter]
    split
    · exact Reflects.throw (noResult _ x) h
    · refine Reflects.ofExcept_bind h mirror_of_result fun after _ => ?_
      refine Reflects.modify ((h.mapFighter _ fun f hf => ?_).emit _ _)
      exact hf.of_texts rfl rfl

theorem mirrors_amountOf (hcl : cl.Impartial) (me holder : Side) (hc : c.Meets c')
    (h : Mirrored s.catalog d l m) :
    Reflects (Mirrored s.catalog d) ((s.running run).amountOf cl me holder c)
      ((s.running run').amountOf cl me.opponent holder.opponent c') l m := by
  unfold amountOf
  split
  · exact Reflects.pure _ h
  · exact Reflects.bind (mirrors_value hcl _ _ hc h) fun _ _ _ h => Reflects.pure _ h

section

variable (hr : MirroredRuns s.catalog d run run') (hcodex : s.codex.Fair)
include hr

theorem mirrors_runBranch {condition effect : String} {otherwise : Option String}
    (hform : cl.form = .branch condition effect otherwise) (hcl : cl.Impartial) (me : Side)
    (hc : c.Meets c') (h : Mirrored s.catalog d l m) :
    Reflects (Mirrored s.catalog d) ((s.running run).runBranch condition effect otherwise me c)
      ((s.running run').runBranch condition effect otherwise me.opponent c') l m := by
  have hparts (t : String) (ht : t ∈ condition :: effect :: otherwise.toList) :
      Impartial t.toList := hcl.parts t (by rw [hform]; exact ht)
  refine Reflects.get_bind ?_
  dsimp only
  have hrelics : (l.scope s me me c).battle.player.relics = [] := h.fair.relics
  rw [h.scope s me me hc, Scope.condition_mirror hrelics (hparts condition List.mem_cons_self)]
  split
  · next text htext =>
    have hthis : Impartial text.toList := by
      refine hparts text (List.mem_cons_of_mem _ ?_)
      split at htext
      · cases htext
        exact List.mem_cons_self
      · exact List.mem_cons_of_mem _ (by simp [htext])
    split
    · exact Reflects.pure _ h
    · exact hr text me hthis hc h
  · exact Reflects.pure _ h

include hcodex

/-- Energy is out of the question, so a unit of a stat acts on the side
that it names. -/
theorem mirrors_runStat (hcl : cl.Impartial) (me : Side) (hc : c.Meets c')
    (h : Mirrored s.catalog d l m) :
    Reflects (Mirrored s.catalog d) ((s.running run).runStat cl me c)
      ((s.running run').runStat cl me.opponent c') l m := by
  refine Reflects.ofExcept_bind_map (Clause.side_mirror hcl.attr me hc.target) h mirror_of_side ?_
  intro target _
  split
  · exact Reflects.throw (unsupported cl) h
  · refine Reflects.bind (mirrors_value hcl _ _ hc h) fun _ l m h => ?_
    refine Reflects.ofExcept_bind h mirror_of_ordinary fun x _ => ?_
    split
    · exact mirrors_changeHp hr hcodex _ _ _ _ hc h
    · exact mirrors_changeLust hr hcodex _ _ _ _ hc h
    · exact mirrors_changeBlock hr hcodex _ _ _ hc h
    · next hattr => exact absurd hcl.attr (by rw [hattr]; decide)
    · exact mirrors_changeMaxHp _ _ _ h
    · exact mirrors_changeMaxLust _ _ _ h
    · next hattr => exact absurd hcl.attr (by rw [hattr]; decide)
    · exact Reflects.throw (.unknownAttribute cl.attr) h

theorem mirrors_changeStacks (hcl : cl.Impartial) (id : String) (op : Arith) (me holder : Side)
    (hc : c.Meets c') (h : Mirrored s.catalog d l m) :
    Reflects (Mirrored s.catalog d) ((s.running run).changeStacks cl id op me holder c)
      ((s.running run').changeStacks cl id op me.opponent holder.opponent c') l m := by
  refine Reflects.get_bind ?_
  dsimp only
  rw [h.fighter]
  refine Reflects.bind (mirrors_value hcl _ _ hc h) fun _ l' m' h => ?_
  refine Reflects.ofExcept_bind h mirror_of_result fun next _ => ?_
  split
  · split
    · exact Reflects.throw (.statusNotHeld id holder) h
    · exact mirrors_applyStatus hr hcodex _ _ _ hc h
  · exact mirrors_setStacks hr hcodex _ _ _ hc h

/-- A unit of statuses that names no side acts on the side that runs it,
and on the other one if it applies a debuff. -/
theorem mirrors_runStatus (hcl : cl.Impartial) (me : Side) (hc : c.Meets c')
    (h : Mirrored s.catalog d l m) :
    Reflects (Mirrored s.catalog d) ((s.running run).runStatus cl me c)
      ((s.running run').runStatus cl me.opponent c') l m := by
  unfold runStatus
  split
  · exact Reflects.throw (.invalidValue cl.raw) h
  · next id hid =>
    refine Reflects.ofExcept_bind_map (explicitSide?_mirror cl me) h mirror_of_explicitSide? ?_
    intro explicit _
    have hgetD (side : Side) :
        (explicit.map Side.opponent).getD side.opponent = (explicit.getD side).opponent := by
      cases explicit <;> rfl
    dsimp only
    split
    · split
      · exact Reflects.throw (.unknownStatus id) h
      · rw [homeSide_mirror, hgetD]
        refine Reflects.bind (mirrors_amountOf hcl _ _ hc h) fun _ l m h => ?_
        exact mirrors_applyStatus hr hcodex _ _ _ hc h
    · rw [hgetD]
      refine Reflects.bind (mirrors_amountOf hcl _ _ hc h) fun _ l m h => ?_
      exact mirrors_removeStatus hr hcodex _ _ _ hc h
    · rw [hgetD]
      exact mirrors_changeStacks hr hcodex hcl _ _ _ _ hc h
    · exact Reflects.throw (unsupported cl) h

/-- One case for each form of a unit, and one for each domain of its
attribute. -/
theorem mirrors_runClause (hcl : cl.Impartial) (me : Side) (hc : c.Meets c')
    (h : Mirrored s.catalog d l m) :
    Reflects (Mirrored s.catalog d) ((s.running run).runClause cl me c)
      ((s.running run').runClause cl me.opponent c') l m := by
  unfold runClause
  dsimp only
  split
  · next hform => exact mirrors_runBranch hr hform hcl _ hc h
  · split
    · exact Reflects.throw (.unknownAttribute cl.attr) h
    · split
      · exact mirrors_runStat hr hcodex hcl _ hc h
      · exact mirrors_runModifier hcl _ hc h
      · exact mirrors_runStatus hr hcodex hcl _ hc h
      · exact mirrors_runAbility hcl _ hc h
      · rw [runCards_eq_throw hcl.attr, runCards_eq_throw hcl.attr]
        exact Reflects.throw (.unknownAttribute cl.attr) h
      · exact Reflects.pure _ h

/-- What is noted of a refused unit may tell the side. -/
theorem mirrors_runClauses {cls : List (Clause α)} (hcls : ∀ cl ∈ cls, cl.Impartial) (me : Side)
    (hc : c.Meets c') (h : Mirrored s.catalog d l m) :
    Reflects (Mirrored s.catalog d) ((s.running run).runClauses me c cls)
      ((s.running run').runClauses me.opponent c' cls) l m := by
  induction cls generalizing l m with
  | nil => exact Reflects.pure _ h
  | cons cl rest ih =>
    have hrest {l m : Live α} := @ih l m fun cl' hcl' => hcls cl' (List.mem_cons_of_mem cl hcl')
    have hcl : cl.Impartial := hcls cl List.mem_cons_self
    refine Reflects.caught_bind (mirrors_runClause hr hcodex hcl me hc h) fun r l m h => ?_
    cases r with
    | ok _ => exact hrest h
    | error r =>
      refine Reflects.bind (Reflects.modify (h.write _ _)) fun _ l m h => ?_
      rw [r.isFatal_mirror]
      split
      · exact Reflects.throw r h
      · refine Reflects.bind (Reflects.lift (mirrors_reportSkipped _ _ _ h)) fun _ l m h => ?_
        exact hrest h

/-- Faithful memos give the same units for both sides. -/
theorem mirrors_runUnits {text : String} (htext : Impartial text.toList) (me : Side)
    (hc : c.Meets c') (h : Mirrored s.catalog d l m) :
    Reflects (Mirrored s.catalog d) ((s.running run).runUnits text me c)
      ((s.running run').runUnits text me.opponent c') l m := by
  obtain ⟨hleft, hleft'⟩ := h.memo.1.parse text
  obtain ⟨hright, hright'⟩ := h.memo.2.parse text
  refine Reflects.modifyGet_bind hleft hright ?_
  have hparsed : Mirrored s.catalog d { l with memo := (l.memo.parse s.catalog text).2 }
      { m with memo := (m.memo.parse s.catalog text).2 } := { h with memo := ⟨hleft', hright'⟩ }
  refine Reflects.bind (Reflects.lift (mirrors_reportFaults _ hparsed)) fun _ l m h => ?_
  refine mirrors_runClauses hr hcodex (fun cl hcl => ?_) me hc h
  obtain ⟨read, hread, hattr, hform, -⟩ := exists_of_mem_plan hcl
  have hfair : read.Impartial := Effect.impartial_of_mem htext hread
  exact ⟨hattr ▸ hfair.attr, hform ▸ hfair.parts⟩

end
end Scene

/-! ## Texts -/

/-- The same running battle with the sides exchanged. -/
def Live.mirror (l : Live α) : Live α :=
  { l with battle := l.battle.mirror, overflowing := l.overflowing.swap }

theorem Live.mirrored_mirror {catalog : Catalog} {l : Live α} (hmemo : l.memo.Faithful catalog)
    (hfair : l.battle.Fair) : Mirrored catalog l.depth l l.mirror where
  battle := rfl
  left := rfl
  right := rfl
  overflowing := rfl
  abilitiesMade := rfl
  questions := rfl
  memo := ⟨hmemo, hmemo⟩
  fair := hfair

namespace Setting

/-- A running text after its units, and before it is left. -/
def unsettled (s : Setting α) (text : String) (me : Side) (ctx : Context α) (l : Live α) :
    Live α :=
  (((s.running s.execute).runUnits text me ctx).run.run (l.enter text me)).2

/-- A text that is left answers what its units came to. -/
theorem run_within (run : String → Side → Context α → Attempt α Unit) (text : String) (me : Side)
    (ctx : Context α) (l : Live α) :
    (s.within run text me ctx).run.run l =
      ((((s.running run).runUnits text me ctx).run.run (l.enter text me)).1,
        (((s.running run).runUnits text me ctx).run.run (l.enter text me)).2.leave) := by
  rfl

variable [CountsCommute α] [SpellsNumbers α]

/-- A text that is entered, run and left. Only the outermost one decides
the battle, so only there it matters whether both sides have fallen. -/
theorem mirrors_within {run run' : String → Side → Context α → Attempt α Unit}
    (hr : MirroredRuns s.catalog (d + 1) run run') (hcodex : s.codex.Fair) {text : String}
    (htext : Impartial text.toList) (me : Side) (hc : c.Meets c') (h : Mirrored s.catalog d l m)
    (hend : d = 0 → ¬ ∀ side, Live.hasFallen
      (((s.running run).runUnits text me c).run.run (l.enter text me)).2.battle side = true) :
    Reflects (Mirrored s.catalog d) (s.within run text me c) (s.within run' text me.opponent c')
      l m := by
  have hunits := Scene.mirrors_runUnits hr hcodex htext me hc (h.enter text me)
  constructor
  · rw [run_within, run_within]
    exact hunits.result
  · rw [run_within, run_within]
    exact hunits.ends.leave hend

/-- Texts that are set off leave mirrored battles mirrored, by induction
on the levels that are left for what they set off themselves. -/
theorem mirroredRuns_runWithin (hcodex : s.codex.Fair) (levels : Nat) (hd : d ≠ 0) :
    MirroredRuns s.catalog d (s.runWithin levels) (s.runWithin levels) := by
  induction levels generalizing d with
  | zero => exact fun _ _ _ _ _ _ _ _ h => Reflects.throw (.nestingLimit _) h
  | succ levels ih =>
    intro text me c c' l m htext hc h
    exact mirrors_within (ih (Nat.succ_ne_zero d)) hcodex htext me hc h fun h0 => absurd h0 hd

theorem mirroredRuns_execute (hcodex : s.codex.Fair) (hd : d ≠ 0) :
    MirroredRuns s.catalog d s.execute s.execute := by
  intro text me c c' l m htext hc h
  have hwithin := mirroredRuns_runWithin hcodex (s.rules.maxNesting - d) hd text me htext hc h
  have hleft := run_execute (s := s) text me c l
  have hright := run_execute (s := s) text me.opponent c' m
  rw [h.left] at hleft
  rw [h.right] at hright
  constructor
  · rw [hleft, hright]
    exact hwithin.result
  · rw [hleft, hright]
    exact hwithin.ends

/-- **The rules favour no side.** The player has no relics, and neither
the text nor what the fighters and the statuses bring speaks of energy or
cards. Then running the text for one side and exchanging the sides comes
to the same as exchanging the sides and running it for the other one:
both succeed or both are refused, and the battles, the overflows and the
ability ids are those of the mirror. This is so wherever the text runs,
unless it decides the battle with both sides fallen, and whatever
numbers are, if totals of stacks can be added in either order. -/
theorem execute_mirror (s : Setting α) (text : String) (me : Side) (ctx : Context α) (l : Live α)
    (hmemo : l.memo.Faithful s.catalog) (hcodex : s.codex.Fair) (hfair : l.battle.Fair)
    (htext : Impartial text.toList)
    (hend : l.depth = 0 →
      ¬ ∀ side, Live.hasFallen (s.unsettled text me ctx l).battle side = true) :
    let run := (s.execute text me ctx).run.run l
    let run' := (s.execute text me.opponent ctx).run.run l.mirror
    run'.1 = run.1 ∧ run'.2.battle = run.2.battle.mirror ∧
      run'.2.overflowing = run.2.overflowing.swap ∧
      run'.2.abilitiesMade = run.2.abilitiesMade := by
  intro run run'
  have hstart : Mirrored s.catalog l.depth l l.mirror := Live.mirrored_mirror hmemo hfair
  have hbounded : Reflects (Mirrored s.catalog l.depth) (s.bounded s.execute text me ctx)
      (s.bounded s.execute text me.opponent ctx) l l.mirror := by
    refine Reflects.get_bind ?_
    show Reflects _ (if s.rules.maxNesting ≤ l.depth then _ else _)
      (if s.rules.maxNesting ≤ l.depth then _ else _) l l.mirror
    split
    · exact Reflects.throw (.nestingLimit _) hstart
    · exact mirrors_within (mirroredRuns_execute hcodex (Nat.succ_ne_zero l.depth)) hcodex htext
        me ⟨rfl, rfl⟩ hstart hend
  rw [s.bounded_execute] at hbounded
  have hresult : run.1.mapError Refusal.mirror = run.1 := by
    have hlimit : Refuses (fun r _ => r = .nestingLimit s.rules.maxNesting)
        (s.execute text me ctx) l :=
      s.refuses_runWithin (s.rules.maxNesting - l.depth) text me ctx l
    cases hrun : run.1 with
    | ok _ => rfl
    | error r =>
      obtain rfl := hlimit r hrun
      rfl
  exact ⟨hbounded.result.trans hresult, hbounded.ends.battle, hbounded.ends.overflowing,
    hbounded.ends.abilitiesMade⟩

end Setting

instance : CountsCommute Double where
  add_comm m n := Double.add_comm (Double.isNumber_ofNat m) (Double.isNumber_ofNat n)

/-- A player who can bleed, and an enemy who answers damage. -/
def Snapshot.thorny : Snapshot Double :=
  { Snapshot.duel with
    enemy := { (.plain "Enemy" (Scalar.ofNat 15) : FighterEntry Double) with
      abilities := [⟨"thorns", "take_damage", "take_damage(OP.hp-2)", ""⟩] }
    definitions := .obj [("id", .str "bleed"), ("name", .str "Bleed"),
      ("triggers", .obj [("apply", .str "ME.hp-stacks")])] }

/-- The text sets off a status and the ability, which react in the
mirror too. -/
theorem Setting.execute_mirror_thorny :
    let s := Session.loadWith .thorny .standard .leftmost .standard
    let text := "ME.status.apply(bleed 3), OP.hp-5"
    s.live.memo.Faithful s.catalog ∧ s.codex.Fair ∧ s.live.battle.Fair ∧
      Impartial text.toList ∧
      (¬ ∀ side, Live.hasFallen (s.unsettled text .player .plain s.live).battle side = true) ∧
      ((s.execute text .player .plain).run.run s.live).2.battle.player.fighter.hp =
        Scalar.ofNat 15 ∧
      ((s.execute text Side.player.opponent .plain).run.run s.live.mirror).2.battle =
        ((s.execute text .player .plain).run.run s.live).2.battle.mirror := by
  intro s text
  have hmemo : s.live.memo.Faithful s.catalog := Memo.faithful_empty _
  have hcodex : s.codex.Fair := by
    unfold Codex.Fair
    decide +kernel
  have hfair : s.live.battle.Fair := by
    refine ⟨rfl, fun side => ⟨?_, ?_⟩⟩
    · cases side <;> decide +kernel
    · cases side <;> decide +kernel
  have htext : Impartial text.toList := by decide +kernel
  have hend : ¬ ∀ side, Live.hasFallen (s.unsettled text .player .plain s.live).battle side = true :=
    fun h => absurd (h .player) (by decide +kernel)
  have hhp : ((s.execute text .player .plain).run.run s.live).2.battle.player.fighter.hp =
      Scalar.ofNat 15 := by decide +kernel
  exact ⟨hmemo, hcodex, hfair, htext, hend, hhp,
    (execute_mirror s.toSetting text .player .plain s.live hmemo hcodex hfair htext fun _ =>
      hend).2.1⟩

end DeckDuel
