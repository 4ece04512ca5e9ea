/-
DeckDuel.Proofs.BatchOrder — what the order of units in a text matters.

* `Tolerance.untold` — runs may differ in faithful memos and in all that
  is told of them.
* `Setting.SameOutcome` — two texts come to the same: the answer, the
  battle, and everything else but the memo and the journal.
  `Setting.sameOutcome_of_plans` — so they do if their plans have the
  same units, however they are worded.
* `Effect.readPlain_aimed`, `Effect.reworded_copies` — a unit on both
  sides reads as one on each does.
* `Setting.execute_in_order` — the units of a text run in their order,
  and texts with the same order come to the same.
-/
import DeckDuel.Proofs.Call
import DeckDuel.Proofs.FaithfulMemo
import DeckDuel.Proofs.PlanOrder
import DeckDuel.Proofs.Rewording
import DeckDuel.Proofs.Splitting
import DeckDuel.Proofs.UnitText

namespace DeckDuel

open Tolerance

variable {α : Type} [Scalar α]

/-! ## Runs that are told differently -/

namespace Tolerance

/-- Runs may differ in faithful memos and in all that is told. -/
def untold (catalog : Catalog) : Tolerance α catalog where
  memo := (faithful catalog).memo
  look := id
  tells _ _ := True
  parse := (faithful catalog).parse
  write _ _ _ _ := trivial

namespace Alike

variable {catalog : Catalog} {d : Nat} {l m : Live α}

theorem untold_refl (h : l.memo.Faithful catalog) : (untold catalog).Alike l.depth l l :=
  ⟨rfl, rfl, rfl, rfl, rfl, rfl, ⟨h, h⟩, trivial⟩

theorem write_left (h : (untold catalog).Alike d l m) (n : Note α) :
    (untold catalog).Alike d (l.write n) m :=
  { h with journal := trivial }

theorem write_right (h : (untold catalog).Alike d l m) (n : Note α) :
    (untold catalog).Alike d l (m.write n) :=
  { h with journal := trivial }

/-- The texts that are entered are only told of. -/
theorem enter_untold (h : (untold catalog).Alike d l m) (text text' : String) (me : Side) :
    (untold catalog).Alike (d + 1) (l.enter text me) (m.enter text' me) := by
  have hsame := h.enter text me
  have htold : m.enter text' me =
      { m.enter text me with journal := (m.enter text' me).journal } := by
    unfold Live.enter
    split <;> rfl
  rw [htold]
  exact { hsame with journal := trivial }

theorem eq_of_untold (h : (untold catalog).Alike d l m) :
    m = { l with memo := m.memo, journal := m.journal } := by
  obtain ⟨battle, depth, overflowing, made, questions, memo, journal⟩ := m
  obtain ⟨rfl, hleft, rfl, rfl, rfl, rfl, -, -⟩ := h
  rw [hleft]

end Alike
end Tolerance

section

variable {s : Setting α} {d : Nat} {l m : Live α}

theorem alike_reportFaults_left (ctx : Context α) (units : List (Reading α))
    (h : (untold s.catalog).Alike d l m) :
    (untold s.catalog).Alike d ((reportFaults ctx units).run l).2 m := by
  induction units generalizing l with
  | nil => exact h
  | cons u rest ih =>
    cases u with
    | clause c => exact ih h
    | fault raw f => exact ih (h.write_left _)

theorem alike_reportFaults_right (ctx : Context α) (units : List (Reading α))
    (h : (untold s.catalog).Alike d l m) :
    (untold s.catalog).Alike d l ((reportFaults ctx units).run m).2 := by
  induction units generalizing m with
  | nil => exact h
  | cons u rest ih =>
    cases u with
    | clause c => exact ih h
    | fault raw f => exact ih (h.write_right _)

/-! ## Plans in other words -/

namespace Scene

variable {run run' : String → Side → Context α → Attempt α Unit}
  (hr : (untold s.catalog).SameRuns d run run') (me : Side) (ctx : Context α)
include hr

/-- By induction on the units: each pair leaves alike battles and is
refused or not alike, and the words of a cause are only told. -/
theorem triesAgree_runClauses_reworded {cs cs' : List (Clause α)}
    (hcs : List.Forall₂ Clause.Reworded cs cs') (h : (untold s.catalog).Alike d l m) :
    TriesAgree ((untold s.catalog).Alike d) ((s.running run).runClauses me ctx cs)
      ((s.running run').runClauses me ctx cs') l m := by
  induction hcs generalizing l m with
  | nil => exact TriesAgree.pure _ h
  | @cons c c' cs cs' hc _ ih =>
    have hunit := triesAgree_runClause hr c me (.refl ctx) h
    have hwords : Rewords ((s.running run').runClause c me ctx)
        ((s.running run').runClause c' me ctx) := rewords_runClause hc me ctx
    have hcheck := hwords.result m
    have hends := hunit.ends
    rw [hunit.result] at hcheck
    rw [← hwords.ends m] at hends
    have hrun := run_runClauses_cons (s.running run) me ctx c cs l
    have hrun' := run_runClauses_cons (s.running run') me ctx c' cs' m
    have hskip (e e' : Refusal) {l m : Live α} (h : (untold s.catalog).Alike d l m) :=
      ih ((((h.write_left (.refused c e)).write_right (.refused c' e')).write_left
        (.event (.skipped c.raw e.message ctx.origin))).write_right
          (.event (.skipped c'.raw e'.message ctx.origin)))
    revert hcheck hends hrun hrun'
    generalize ((s.running run).runClause c me ctx).run.run l = x
    generalize ((s.running run').runClause c' me ctx).run.run m = y
    obtain ⟨r, l'⟩ := x
    obtain ⟨r', m'⟩ := y
    intro hcheck hends hrun hrun'
    cases hcheck with
    | refl r =>
      cases r with
      | ok _ =>
        have hrest := ih hends
        exact ⟨by rw [hrun, hrun']; exact hrest.result, by rw [hrun, hrun']; exact hrest.ends⟩
      | error e =>
        cases hfatal : e.isFatal with
        | true =>
          simp only [hfatal, if_true] at hrun hrun'
          have hlast := (hends.write_left (.refused c e)).write_right (.refused c' e)
          exact ⟨by rw [hrun, hrun'], by rw [hrun, hrun']; exact hlast⟩
        | false =>
          simp only [hfatal, Bool.false_eq_true, if_false] at hrun hrun'
          have hrest := hskip e e hends
          exact ⟨by rw [hrun, hrun']; exact hrest.result, by rw [hrun, hrun']; exact hrest.ends⟩
    | @mild e e' left right =>
      simp only [left, right, Bool.false_eq_true, if_false] at hrun hrun'
      have hrest := hskip e e' hends
      exact ⟨by rw [hrun, hrun']; exact hrest.result, by rw [hrun, hrun']; exact hrest.ends⟩

theorem triesAgree_runUnits_reworded {text text' : String}
    (hplans : List.Forall₂ Clause.Reworded
      (plan (α := α) s.catalog (Effect.parseEffect s.catalog text))
      (plan s.catalog (Effect.parseEffect s.catalog text')))
    (h : (untold s.catalog).Alike d l m) :
    TriesAgree ((untold s.catalog).Alike d) ((s.running run).runUnits text me ctx)
      ((s.running run').runUnits text' me ctx) l m := by
  obtain ⟨hunits, hmemo⟩ := h.memo.1.parse text
  obtain ⟨hunits', hmemo'⟩ := h.memo.2.parse text'
  have hrun := run_runUnits (s.running run) me ctx text l
  have hrun' := run_runUnits (s.running run') me ctx text' m
  rw [hunits] at hrun
  rw [hunits'] at hrun'
  have hread : (untold s.catalog).Alike d
      { l with memo := (l.memo.parse s.catalog text).2 }
      { m with memo := (m.memo.parse s.catalog text').2 } :=
    { h with memo := ⟨hmemo, hmemo'⟩ }
  have hreported := alike_reportFaults_right ctx (Effect.parseEffect s.catalog text')
    (alike_reportFaults_left ctx (Effect.parseEffect s.catalog text) hread)
  have hrest := triesAgree_runClauses_reworded hr me ctx hplans hreported
  exact ⟨by rw [hrun, hrun']; exact hrest.result, by rw [hrun, hrun']; exact hrest.ends⟩

end Scene
end

namespace Setting

/-- Two texts come to the same: the answer, the battle, and everything
else but the memo and the journal. -/
def SameOutcome (s : Setting α) (text text' : String) (me : Side) (ctx : Context α) (l : Live α) :
    Prop :=
  let r := (s.execute text me ctx).run.run l
  let r' := (s.execute text' me ctx).run.run l
  r'.1 = r.1 ∧ r'.2 = { r.2 with memo := r'.2.memo, journal := r'.2.journal }

variable {s : Setting α} {l : Live α} {text text' : String}

/-- Texts whose plans have the same units come to the same. -/
theorem sameOutcome_of_plans (me : Side) (ctx : Context α) (hmemo : l.memo.Faithful s.catalog)
    (hplans : List.Forall₂ Clause.Reworded
      (plan (α := α) s.catalog (Effect.parseEffect s.catalog text))
      (plan s.catalog (Effect.parseEffect s.catalog text'))) :
    s.SameOutcome text text' me ctx l := by
  have hstart := Alike.untold_refl hmemo
  have hwithin (levels : Nat) : TriesAgree ((untold s.catalog).Alike l.depth)
      (s.runWithin levels text me ctx) (s.runWithin levels text' me ctx) l l := by
    cases levels with
    | zero => exact TriesAgree.throw _ hstart
    | succ levels =>
      refine TriesAgree.modify_bind (hstart.enter_untold text text' me) fun k k' h => ?_
      have hunits := Scene.triesAgree_runUnits_reworded (sameRuns_runWithin levels) me ctx hplans h
      refine TriesAgree.caught_bind hunits fun r k k' h => ?_
      exact TriesAgree.modify_bind h.leave fun _ _ h => TriesAgree.ofExcept _ h
  have hsame : TriesAgree ((untold s.catalog).Alike l.depth) (s.execute text me ctx)
      (s.execute text' me ctx) l l :=
    TriesAgree.get_bind (hwithin _)
  exact ⟨hsame.result, hsame.ends.eq_of_untold⟩

end Setting

/-! ## Units on both sides -/

omit [Scalar α] in
theorem Clause.Reworded.priority {c c' : Clause α} (h : c.Reworded c') (catalog : Catalog) :
    catalog.priority c' = catalog.priority c := by
  rw [Catalog.priority, Catalog.priority, h.form, h.attr]

omit [Scalar α] in
/-- The words of a unit do not matter for its place. -/
theorem reworded_sortByPriority (catalog : Catalog) {cs cs' : List (Clause α)}
    (h : List.Forall₂ Clause.Reworded cs cs') :
    List.Forall₂ Clause.Reworded (sortByPriority catalog cs) (sortByPriority catalog cs') := by
  have hinsert {c c' : Clause α} (hc : c.Reworded c') {cs cs' : List (Clause α)}
      (h : List.Forall₂ Clause.Reworded cs cs') :
      List.Forall₂ Clause.Reworded (insertByPriority catalog c cs)
        (insertByPriority catalog c' cs') := by
    induction h with
    | nil => exact .cons hc .nil
    | cons hd hrest ih =>
      unfold insertByPriority
      rw [hc.priority, hd.priority]
      split
      · exact .cons hc (.cons hd hrest)
      · exact .cons hd ih
  induction h with
  | nil => exact .nil
  | cons hc _ ih => exact hinsert hc ih

namespace Effect

open DeckDuel.Text

/-- A unit with a target reads the same for each. -/
theorem readPlain_aimed (catalog : Catalog) (t t' : Target) (u : List Char) :
    readPlain (α := α) catalog (targetText (some t') ++ u) =
      (readPlain catalog (targetText (some t) ++ u)).map fun r => (some t', r.2) := by
  unfold readPlain
  rw [splitTarget_some, splitTarget_some]
  dsimp only
  cases need .noAttribute (word? u) with
  | error f => rfl
  | ok r =>
    obtain ⟨name, rest⟩ := r
    dsimp only [bind, Except.bind]
    split
    · cases readWrapper (α := α) name u <;> rfl
    · cases need (.unknownAttribute (String.ofList name))
        (catalog.get? (canonicalName (String.ofList name))) with
      | error f => rfl
      | ok known =>
        dsimp only
        cases readBody (α := α) known.domain (canonicalName (String.ofList name))
          (trimStart rest) <;> rfl

theorem readUnit_aimed (catalog : Catalog) (t : Target) (u : List Char) :
    readUnit (α := α) catalog (targetText (some t) ++ u) =
      readPlain catalog (targetText (some t) ++ u) := by
  have hhead : (targetText (some t) ++ u).head? ≠ some 'i' := by
    cases t <;> simp [targetText, Target.name]
  rw [readUnit, after?_eq_none_of_head hhead]

/-- What stands behind a target reads the same whatever the target is. -/
theorem parseUnit_aimed (catalog : Catalog) {t : Target} {u : List Char}
    (htrim : Trimmed (targetText (some t) ++ u)) :
    parseUnit (α := α) catalog (targetText (some t) ++ u) =
      match readPlain catalog (targetText (some .all) ++ u) with
      | .ok (_, attr, form) => .clause ⟨String.ofList (targetText (some t) ++ u), some t, attr,
          form, Clause.describe (some t) (catalog.title attr) form⟩
      | .error f => .fault (String.ofList (targetText (some t) ++ u)) f := by
  have htrim : trim (targetText (some t) ++ u) = targetText (some t) ++ u := htrim
  unfold parseUnit
  dsimp only
  rw [htrim, readUnit_aimed, readPlain_aimed catalog .all t]
  cases readPlain (α := α) catalog (targetText (some .all) ++ u) <;> rfl

/-- So of a unit on both sides and of one on each all can be read, or
none. The copies of the first are the others in other words. -/
theorem reworded_copies (catalog : Catalog) {u : List Char}
    (hall : Trimmed (targetText (some .all) ++ u)) (hme : Trimmed (targetText (some .me) ++ u))
    (hop : Trimmed (targetText (some .op) ++ u)) :
    let clauses (us : List (List Char)) : List (Clause α) :=
      ((us.map (parseUnit catalog)).filterMap Reading.clause?).flatMap Clause.expand
    List.Forall₂ Clause.Reworded (clauses [targetText (some .all) ++ u])
      (clauses [targetText (some .me) ++ u, targetText (some .op) ++ u]) := by
  intro clauses
  simp only [clauses, List.map_cons, List.map_nil, parseUnit_aimed catalog hall,
    parseUnit_aimed catalog hme, parseUnit_aimed catalog hop]
  cases readPlain (α := α) catalog (targetText (some .all) ++ u) with
  | error f => exact .nil
  | ok r => exact .cons ⟨rfl, rfl, rfl⟩ (.cons ⟨rfl, rfl, rfl⟩ .nil)

/-- A text in which a unit on both sides gives way to one on each has
the same plan, in other words. -/
theorem reworded_plan_of_copies (catalog : Catalog) {text text' : String}
    {pre post : List (List Char)} {u : List Char}
    (h : split text.toList = pre ++ (targetText (some .all) ++ u) :: post)
    (h' : split text'.toList =
      pre ++ (targetText (some .me) ++ u) :: (targetText (some .op) ++ u) :: post) :
    List.Forall₂ Clause.Reworded (plan (α := α) catalog (parseEffect catalog text))
      (plan catalog (parseEffect catalog text')) := by
  have hall : Trimmed (targetText (some .all) ++ u) :=
    (mem_split (by rw [h]; simp : _ ∈ split text.toList)).2.1
  have hme : Trimmed (targetText (some .me) ++ u) :=
    (mem_split (by rw [h']; simp : _ ∈ split text'.toList)).2.1
  have hop : Trimmed (targetText (some .op) ++ u) :=
    (mem_split (by rw [h']; simp : _ ∈ split text'.toList)).2.1
  have hsame (cs : List (Clause α)) : List.Forall₂ Clause.Reworded cs cs :=
    List.forall₂_same.mpr fun c _ => .refl c
  apply reworded_sortByPriority
  have hcopies := reworded_copies (α := α) catalog hall hme hop
  have hunits : split text.toList = pre ++ ([targetText (some .all) ++ u] ++ post) := h
  have hunits' : split text'.toList =
      pre ++ ([targetText (some .me) ++ u, targetText (some .op) ++ u] ++ post) := h'
  simp only [parseEffect, hunits, hunits', List.map_append, List.filterMap_append,
    List.flatMap_append]
  exact List.rel_append (hsame _) (List.rel_append hcopies (hsame _))

end Effect

/-! ## The order of a text -/

namespace Setting

/-- **The units of a text run by priority, then as they stand.** The
units that can be read, those on both sides as one on the own side and
one on the other, are arranged in ascending priority, with units of one
priority in their order; with the built-in attributes that puts branches
last. These are run one after another, all of them unless one of them
ends the text. So it does not matter how units of different priorities
stand in a text, nor whether a unit on both sides is written as two: the
text comes to the same. -/
theorem execute_in_order (s : Setting α) (me : Side) (ctx : Context α) (l : Live α)
    (hmemo : l.memo.Faithful s.catalog) :
    (∀ (run : String → Side → Context α → Attempt α Unit) (text : String),
      ∃ planned ran,
        s.catalog.Arranged ((Effect.clauses s.catalog text).flatMap Clause.expand) planned ∧
        (s.catalog = .standard →
          planned.Pairwise fun c d => c.form.isBranch = true → d.form.isBranch = true) ∧
        let start := ((reportFaults ctx (Effect.parseEffect s.catalog text)).run
          { l with memo := (l.memo.parse s.catalog text).2 }).2
        let r := ((s.running run).runUnits text me ctx).run.run l
        (s.running run).Executes me ctx ran start r.1 r.2 ∧ ran <+: planned ∧
          (r.1 = .ok () → ran = planned)) ∧
      (∀ text text' : String,
        s.catalog.SameOrder (Effect.clauses (α := α) s.catalog text)
          (Effect.clauses s.catalog text') →
        s.SameOutcome text text' me ctx l) ∧
      ∀ (text text' : String) (pre post : List (List Char)) (u : List Char),
        Effect.split text.toList = pre ++ ("ALL.".toList ++ u) :: post →
        Effect.split text'.toList = pre ++ ("ME.".toList ++ u) :: ("OP.".toList ++ u) :: post →
        s.SameOutcome text text' me ctx l := by
  refine ⟨?_, ?_, ?_⟩
  · intro run text
    obtain ⟨ran, hprefix, hexecutes, hall⟩ :=
      Scene.executes_runUnits (s.running run) me ctx text l hmemo
    have harranged := arranged_plan (α := α) s.catalog text
    refine ⟨_, ran, harranged, ?_, hexecutes, hprefix, hall⟩
    intro hstandard
    rw [hstandard] at harranged ⊢
    exact harranged.branches_last
  · intro text text' hsame
    apply sameOutcome_of_plans me ctx hmemo
    rw [plan_eq_of_sameOrder hsame]
    exact List.forall₂_same.mpr fun c _ => .refl c
  · intro text text' pre post u h h'
    exact sameOutcome_of_plans me ctx hmemo (Effect.reworded_plan_of_copies s.catalog h h')

/-- A branch that asks for the block of the same text, before and after
the units it has to wait for; and block for both sides. -/
theorem execute_in_order_branch :
    let s := Session.loadWith (.duel : Snapshot Exact) .standard .leftmost .standard
    let text := "if[ME.block>0][OP.hp-5], OP.hp-6, ME.block+5"
    let text' := "ME.block+5\n if[ME.block>0][OP.hp-5], OP.hp-6"
    let both := "OP.hp-1, ALL.block+4"
    let each := "OP.hp-1,ME.block+4,OP.block+4"
    s.live.memo.Faithful s.catalog ∧
      s.catalog.SameOrder (Effect.clauses (α := Exact) s.catalog text)
        (Effect.clauses s.catalog text') ∧
      s.SameOutcome text text' .player .plain s.live ∧
      Effect.split both.toList = ["OP.hp-1".toList] ++ ("ALL.".toList ++ "block+4".toList) :: [] ∧
      Effect.split each.toList = ["OP.hp-1".toList] ++
        ("ME.".toList ++ "block+4".toList) :: ("OP.".toList ++ "block+4".toList) :: [] ∧
      s.SameOutcome both each .player .plain s.live := by
  intro s text text' both each
  have hmemo : s.live.memo.Faithful s.catalog := Memo.faithful_empty _
  obtain ⟨-, hsame, hcopies⟩ := execute_in_order s.toSetting .player .plain s.live hmemo
  have horder : s.catalog.SameOrder (Effect.clauses (α := Exact) s.catalog text)
      (Effect.clauses s.catalog text') := by
    decide +kernel
  have hboth : Effect.split both.toList =
      ["OP.hp-1".toList] ++ ("ALL.".toList ++ "block+4".toList) :: [] := by decide
  have heach : Effect.split each.toList = ["OP.hp-1".toList] ++
      ("ME.".toList ++ "block+4".toList) :: ("OP.".toList ++ "block+4".toList) :: [] := by decide
  exact ⟨hmemo, horder, hsame text text' horder, hboth, heach,
    hcopies both each _ _ _ hboth heach⟩

end Setting
end DeckDuel
