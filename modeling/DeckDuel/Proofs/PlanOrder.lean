/-
DeckDuel.Proofs.PlanOrder — in which order the units of a text run.

* `Catalog.SameOrder` — units of one priority stand in one order in two
  lists, and so the lists have the same units.
* `Catalog.Arranged` — a list of units in ascending priority, with units
  of one priority in the order they had. There is exactly one
  (`Catalog.Arranged.unique`), and `arranged_plan` says that it is the
  plan of a text.
* `Catalog.Arranged.branches_last` — with the built-in attributes
  branches come after everything else.
* `Scene.Executes` — units that run one after another, each from what
  the one before has left. `Scene.executes_runUnits` — a text runs the
  units of its plan like this, and stops early only where it is refused
  as a whole.
-/
import DeckDuel.Proofs.Fitting
import Mathlib.Data.List.Sort

namespace DeckDuel

variable {α : Type}

/-! ## Arrangements -/

namespace Catalog

/-- Units of one priority stand in one order in both lists. -/
def SameOrder (catalog : Catalog) (cs cs' : List (Clause α)) : Prop :=
  ∀ p, cs'.filter (fun c => catalog.priority c = p) = cs.filter (fun c => catalog.priority c = p)

/-- The units in ascending priority; units of one priority keep their
order. -/
structure Arranged (catalog : Catalog) (cs planned : List (Clause α)) : Prop where
  perm : planned.Perm cs
  ascending : planned.Pairwise fun c d => catalog.priority c ≤ catalog.priority d
  stable : catalog.SameOrder cs planned

variable {catalog : Catalog} {cs cs' planned planned' : List (Clause α)}

/-- Only the priorities of the units matter. -/
theorem sameOrder_iff : catalog.SameOrder cs cs' ↔ ∀ c ∈ cs ++ cs',
    cs'.filter (fun d => catalog.priority d = catalog.priority c) =
      cs.filter (fun d => catalog.priority d = catalog.priority c) := by
  constructor
  · intro h c _
    exact h _
  · intro h p
    by_cases hp : ∃ c ∈ cs ++ cs', catalog.priority c = p
    · obtain ⟨c, hc, rfl⟩ := hp
      exact h c hc
    · have hnone (ds : List (Clause α)) (hds : ds ⊆ cs ++ cs') :
          ds.filter (fun c => catalog.priority c = p) = [] := by
        apply List.filter_eq_nil_iff.mpr
        intro c hc
        simpa using fun heq => hp ⟨c, hds hc, heq⟩
      rw [hnone cs' (List.subset_append_right _ _), hnone cs (List.subset_append_left _ _)]

instance [DecidableEq α] : Decidable (catalog.SameOrder cs cs') :=
  decidable_of_iff _ sameOrder_iff.symm

/-- Every unit is counted among those of its priority. -/
theorem SameOrder.perm (h : catalog.SameOrder cs cs') : cs'.Perm cs := by
  classical
  rw [List.perm_iff_count]
  intro c
  have hcount (cs : List (Clause α)) :
      (cs.filter fun d => catalog.priority d = catalog.priority c).count c = cs.count c :=
    List.count_filter (by simp)
  rw [← hcount cs', h, hcount cs]

theorem SameOrder.of_cons {c : Clause α} (h : catalog.SameOrder (c :: cs) (c :: cs')) :
    catalog.SameOrder cs cs' := by
  intro p
  have hp := h p
  by_cases hc : catalog.priority c = p
  · simpa [List.filter_cons, hc] using hp
  · simpa [List.filter_cons, hc] using hp

/-- Lists in ascending priority that have the same order are equal: the
first units have the lowest priority, and are the first of it. -/
theorem SameOrder.eq (h : catalog.SameOrder cs cs')
    (hcs : cs.Pairwise fun c d => catalog.priority c ≤ catalog.priority d)
    (hcs' : cs'.Pairwise fun c d => catalog.priority c ≤ catalog.priority d) : cs' = cs := by
  induction cs generalizing cs' with
  | nil => exact h.perm.eq_nil
  | cons c cs ih =>
    cases cs' with
    | nil => exact absurd h.perm.symm.eq_nil (by simp)
    | cons d cs' =>
      obtain ⟨hc, htail⟩ := List.pairwise_cons.mp hcs
      obtain ⟨hd, htail'⟩ := List.pairwise_cons.mp hcs'
      have hle : catalog.priority c ≤ catalog.priority d := by
        rcases List.mem_cons.mp (h.perm.mem_iff.mp List.mem_cons_self) with rfl | hmem
        · exact Nat.le_refl _
        · exact hc d hmem
      have hge : catalog.priority d ≤ catalog.priority c := by
        rcases List.mem_cons.mp (h.perm.mem_iff.mpr List.mem_cons_self) with rfl | hmem
        · exact Nat.le_refl _
        · exact hd c hmem
      have hfirst := h (catalog.priority c)
      simp only [List.filter_cons, Nat.le_antisymm hge hle, decide_true, if_true,
        List.cons.injEq] at hfirst
      obtain ⟨rfl, -⟩ := hfirst
      rw [ih h.of_cons htail htail']

theorem Arranged.unique (h : catalog.Arranged cs planned) (h' : catalog.Arranged cs planned') :
    planned' = planned := by
  have hsame : catalog.SameOrder planned planned' := fun p => (h'.stable p).trans (h.stable p).symm
  exact hsame.eq h.ascending h'.ascending

/-- What stands in the same order is arranged in the same way. -/
theorem Arranged.congr (h : catalog.Arranged cs planned) (hsame : catalog.SameOrder cs cs') :
    catalog.Arranged cs' planned where
  perm := h.perm.trans hsame.perm.symm
  ascending := h.ascending
  stable p := (h.stable p).trans (hsame p).symm

end Catalog

/-! ## Sorting -/

section

variable (catalog : Catalog)

theorem sortByPriority_eq (cs : List (Clause α)) :
    sortByPriority catalog cs =
      cs.insertionSort fun c d => catalog.priority c ≤ catalog.priority d := by
  have hinsert (c : Clause α) (cs : List (Clause α)) : insertByPriority catalog c cs =
      cs.orderedInsert (fun c d => catalog.priority c ≤ catalog.priority d) c := by
    induction cs with
    | nil => rfl
    | cons d cs ih => simp only [insertByPriority, List.orderedInsert_cons, ih]
  induction cs with
  | nil => rfl
  | cons c cs ih =>
    rw [List.insertionSort_cons, ← ih, ← hinsert]
    rfl

/-- A unit is put behind units of lower priorities only. -/
theorem sameOrder_insertByPriority (c : Clause α) (cs : List (Clause α)) :
    catalog.SameOrder (c :: cs) (insertByPriority catalog c cs) := by
  intro p
  induction cs with
  | nil => rfl
  | cons d cs ih =>
    unfold insertByPriority
    split
    · rfl
    · next hlater =>
      rw [List.filter_cons, ih]
      by_cases hc : catalog.priority c = p
      · have hd : catalog.priority d ≠ p := by omega
        simp [hc, hd]
      · simp [List.filter_cons, hc]

theorem sameOrder_sortByPriority (cs : List (Clause α)) :
    catalog.SameOrder cs (sortByPriority catalog cs) := by
  induction cs with
  | nil =>
    intro p
    rfl
  | cons c cs ih =>
    intro p
    refine (sameOrder_insertByPriority catalog c (sortByPriority catalog cs) p).trans ?_
    simp only [List.filter_cons, ih p]

theorem arranged_sortByPriority (cs : List (Clause α)) :
    catalog.Arranged cs (sortByPriority catalog cs) := by
  have : Std.Total fun c d : Clause α => catalog.priority c ≤ catalog.priority d :=
    ⟨fun _ _ => Nat.le_total _ _⟩
  have : IsTrans (Clause α) fun c d => catalog.priority c ≤ catalog.priority d :=
    ⟨fun _ _ _ => Nat.le_trans⟩
  refine ⟨?_, ?_, sameOrder_sortByPriority catalog cs⟩
  · rw [sortByPriority_eq]
    exact List.perm_insertionSort _ cs
  · rw [sortByPriority_eq]
    exact List.pairwise_insertionSort _ cs

end

/-! ## Plans -/

/-- The units of a text that could be read, as they stand in it. -/
def Effect.clauses [Scalar α] (catalog : Catalog) (text : String) : List (Clause α) :=
  (parseEffect catalog text).filterMap Reading.clause?

section

variable {catalog : Catalog}

/-- The copies of a unit have its priority. -/
theorem Catalog.priority_of_mem_expand {c d : Clause α} (h : d ∈ c.expand) :
    catalog.priority d = catalog.priority c := by
  obtain ⟨hattr, hform, -⟩ := Clause.of_mem_expand h
  rw [priority, priority, hattr, hform]

/-- So the copies stand in the order of the units. -/
theorem Catalog.SameOrder.expand {cs cs' : List (Clause α)} (h : catalog.SameOrder cs cs') :
    catalog.SameOrder (cs.flatMap Clause.expand) (cs'.flatMap Clause.expand) := by
  intro p
  have hfilter (cs : List (Clause α)) :
      (cs.flatMap Clause.expand).filter (fun c => catalog.priority c = p) =
        (cs.filter fun c => catalog.priority c = p).flatMap Clause.expand := by
    induction cs with
    | nil => rfl
    | cons c cs ih =>
      by_cases hc : catalog.priority c = p
      · have hkept : c.expand.filter (fun c => catalog.priority c = p) = c.expand := by
          apply List.filter_eq_self.mpr
          intro d hd
          simpa [Catalog.priority_of_mem_expand hd] using hc
        simp [ih, hc, hkept]
      · have hgone : c.expand.filter (fun c => catalog.priority c = p) = [] := by
          apply List.filter_eq_nil_iff.mpr
          intro d hd
          simpa [Catalog.priority_of_mem_expand hd] using hc
        simp [ih, hc, hgone]
  rw [hfilter, hfilter, h p]

/-- The plan of a text: its units, those on both sides as one on each,
arranged by priority. -/
theorem arranged_plan [Scalar α] (catalog : Catalog) (text : String) :
    catalog.Arranged ((Effect.clauses catalog text).flatMap (Clause.expand (α := α)))
      (plan catalog (Effect.parseEffect catalog text)) :=
  arranged_sortByPriority catalog _

/-- Texts whose units stand in the same order have the same plan. -/
theorem plan_eq_of_sameOrder [Scalar α] {text text' : String}
    (h : catalog.SameOrder (Effect.clauses (α := α) catalog text) (Effect.clauses catalog text')) :
    plan (α := α) catalog (Effect.parseEffect catalog text') =
      plan catalog (Effect.parseEffect catalog text) :=
  (arranged_plan catalog text).unique ((arranged_plan catalog text').congr fun p =>
    (h.expand p).symm)

end

/-! ## Branches -/

namespace Effect

theorem attr_readWrapper (name body : List Char) :
    Yields (fun r : String × Form α => r.1 = "passive" ∨ r.1 = "ability")
      (readWrapper name body) := by
  unfold readWrapper
  dsimp only
  split
  · refine Yields.bind fun inner _ => ?_
    split
    · exact .ok (.inl rfl)
    · exact .ok (.inr rfl)
  · exact .error _

variable [Scalar α]

/-- An attribute without brackets is none of the special ones. -/
theorem domain_readBody {domain : Domain} (attr : String) (cs : List Char) :
    Yields (fun _ : Form α => domain ≠ .special) (readBody domain attr cs) := by
  intro form hform
  rintro rfl
  cases hform

/-- Everything but a branch runs before branches do. -/
theorem priorityOf_readPlain (cs : List Char) :
    Yields (fun r : Option Target × String × Form α =>
      Catalog.standard.priorityOf r.2.1 < branchPriority) (readPlain Catalog.standard cs) := by
  have hearly : ∀ a ∈ Catalog.standard.attributes, a.domain ≠ .special →
      a.priority < branchPriority := by decide
  unfold readPlain
  dsimp only
  refine Yields.bind fun r _ => ?_
  obtain ⟨name, rest⟩ := r
  dsimp only
  split
  · refine Yields.bind fun r hr => .ok ?_
    rcases attr_readWrapper _ _ r hr with hattr | hattr
    · rw [hattr]
      decide
    · rw [hattr]
      decide
  · refine Yields.bind fun known hknown => Yields.bind fun form hform => .ok ?_
    have hfound := need_eq_ok hknown
    simp only [Catalog.priorityOf, hfound]
    exact hearly known (name_of_get? hfound).1 (domain_readBody _ _ form hform)

theorem priorityOf_readUnit (cs : List Char) :
    Yields (fun r : Option Target × String × Form α => r.2.2.isBranch = true ∨
      Catalog.standard.priorityOf r.2.1 < branchPriority) (readUnit Catalog.standard cs) := by
  have hplain : Yields (fun r : Option Target × String × Form α => r.2.2.isBranch = true ∨
      Catalog.standard.priorityOf r.2.1 < branchPriority) (readPlain Catalog.standard cs) :=
    fun r hr => .inr (priorityOf_readPlain cs r hr)
  unfold readUnit
  split
  · split
    · exact Yields.map fun form hform => .inl (isBranch_readBranch _ form hform)
    · exact hplain
  · exact hplain

theorem priority_lt_of_mem_clauses {text : String} {c : Clause α}
    (h : c ∈ clauses Catalog.standard text) (hbranch : c.form.isBranch = false) :
    Catalog.standard.priority c < branchPriority := by
  obtain ⟨reading, hmem, hclause⟩ := List.mem_filterMap.mp h
  cases reading with
  | fault _ _ => cases hclause
  | clause _ =>
    cases hclause
    obtain ⟨u, -, hparse⟩ := List.mem_map.mp hmem
    have hpriority := priorityOf_readUnit _ _ (readUnit_of_parseUnit hparse)
    simpa [Catalog.priority, hbranch] using hpriority

end Effect

/-- With the built-in attributes only branches come after a branch. -/
theorem Catalog.Arranged.branches_last [Scalar α] {text : String} {planned : List (Clause α)}
    (h : standard.Arranged ((Effect.clauses standard text).flatMap Clause.expand) planned) :
    planned.Pairwise fun c d => c.form.isBranch = true → d.form.isBranch = true := by
  refine h.ascending.imp_of_mem fun {c d} _ hd hle hc => ?_
  obtain ⟨read, hread, hexpand⟩ := List.mem_flatMap.mp (h.perm.mem_iff.mp hd)
  obtain ⟨-, hform, -⟩ := Clause.of_mem_expand hexpand
  by_contra hnot
  have hearly : standard.priority d < branchPriority := by
    rw [priority_of_mem_expand hexpand]
    exact Effect.priority_lt_of_mem_clauses hread (by simpa [← hform] using hnot)
  have hlate : standard.priority c = branchPriority := by simp [priority, hc]
  omega

/-! ## Runs -/

variable [Scalar α]

/-- The units run one after another, each from what the one before has
left. A unit that is refused is noted and reported; if its cause is
fatal, it is the last one, and what came of it comes of all. -/
inductive Scene.Executes (sc : Scene α) (me : Side) (ctx : Context α) :
    List (Clause α) → Live α → Except Refusal Unit → Live α → Prop where
  | done (l : Live α) : Executes sc me ctx [] l (.ok ()) l
  | ran {c : Clause α} {cs : List (Clause α)} {l m k : Live α} {r : Except Refusal Unit}
      (unit : (sc.runClause c me ctx).run.run l = (.ok (), m))
      (rest : Executes sc me ctx cs m r k) : Executes sc me ctx (c :: cs) l r k
  | skipped {c : Clause α} {cs : List (Clause α)} {e : Refusal} {l m k : Live α}
      {r : Except Refusal Unit} (unit : (sc.runClause c me ctx).run.run l = (.error e, m))
      (mild : e.isFatal = false)
      (rest : Executes sc me ctx cs
        ((m.write (.refused c e)).emit (.skipped c.raw e.message ctx.origin)) r k) :
      Executes sc me ctx (c :: cs) l r k
  | ended {c : Clause α} {e : Refusal} {l m : Live α}
      (unit : (sc.runClause c me ctx).run.run l = (.error e, m)) (fatal : e.isFatal = true) :
      Executes sc me ctx [c] l (.error e) (m.write (.refused c e))

namespace Scene

variable (sc : Scene α) (me : Side) (ctx : Context α)

/-- What is done after a unit, by what came of it. -/
def afterUnit (c : Clause α) (cs : List (Clause α)) : Except Refusal Unit → Attempt α Unit
  | .ok () => sc.runClauses me ctx cs
  | .error e => do
    modify fun l => l.write (.refused c e)
    if e.isFatal then throw e
    else
      reportSkipped c.raw e.message ctx
      sc.runClauses me ctx cs

/-- What comes after a unit, by what came of it. -/
theorem run_runClauses_cons (c : Clause α) (cs : List (Clause α)) (l : Live α) :
    (sc.runClauses me ctx (c :: cs)).run.run l =
      match (sc.runClause c me ctx).run.run l with
      | (.ok (), m) => (sc.runClauses me ctx cs).run.run m
      | (.error e, m) =>
        if e.isFatal then (.error e, m.write (.refused c e))
        else (sc.runClauses me ctx cs).run.run
          ((m.write (.refused c e)).emit (.skipped c.raw e.message ctx.origin)) := by
  have hstep : (sc.runClauses me ctx (c :: cs)).run.run l =
      (sc.afterUnit me ctx c cs ((sc.runClause c me ctx).run.run l).1).run.run
        ((sc.runClause c me ctx).run.run l).2 := rfl
  rw [hstep]
  obtain ⟨r, m⟩ := (sc.runClause c me ctx).run.run l
  cases r with
  | ok _ => rfl
  | error e =>
    unfold afterUnit
    cases hfatal : e.isFatal
    · simp only [hfatal]
      rfl
    · simp only [hfatal]
      rfl

/-- By induction on the units: those that run are the first ones, and
all of them unless one ends the run. -/
theorem executes_runClauses (cs : List (Clause α)) (l : Live α) :
    let r := (sc.runClauses me ctx cs).run.run l
    ∃ ran, ran <+: cs ∧ sc.Executes me ctx ran l r.1 r.2 ∧ (r.1 = .ok () → ran = cs) := by
  induction cs generalizing l with
  | nil => exact ⟨[], List.prefix_rfl, .done l, fun _ => rfl⟩
  | cons c cs ih =>
    intro r
    have hr : r = _ := run_runClauses_cons sc me ctx c cs l
    cases hunit : (sc.runClause c me ctx).run.run l with
    | mk answer m =>
      rw [hunit] at hr
      cases answer with
      | ok _ =>
        obtain ⟨ran, hprefix, hexecutes, hall⟩ := ih m
        rw [hr]
        refine ⟨c :: ran, (List.cons_prefix_cons.mpr ⟨rfl, hprefix⟩), .ran hunit hexecutes, ?_⟩
        intro hok
        rw [hall hok]
      | error e =>
        cases hfatal : e.isFatal with
        | true =>
          simp only [hfatal, if_true] at hr
          rw [hr]
          refine ⟨[c], by simp, .ended hunit hfatal, ?_⟩
          intro hok
          cases hok
        | false =>
          obtain ⟨ran, hprefix, hexecutes, hall⟩ :=
            ih ((m.write (.refused c e)).emit (.skipped c.raw e.message ctx.origin))
          simp only [hfatal, Bool.false_eq_true, if_false] at hr
          rw [hr]
          refine ⟨c :: ran, (List.cons_prefix_cons.mpr ⟨rfl, hprefix⟩),
            .skipped hunit hfatal hexecutes, ?_⟩
          intro hok
          rw [hall hok]

theorem run_runUnits (text : String) (l : Live α) :
    (sc.runUnits text me ctx).run.run l =
      (sc.runClauses me ctx (plan sc.catalog (l.memo.parse sc.catalog text).1)).run.run
        ((reportFaults ctx (l.memo.parse sc.catalog text).1).run
          { l with memo := (l.memo.parse sc.catalog text).2 }).2 := rfl

/-- A text runs its plan, once it was looked up and what could not be
read was reported. -/
theorem executes_runUnits (text : String) (l : Live α) (h : l.memo.Faithful sc.catalog) :
    let start := ((reportFaults ctx (Effect.parseEffect sc.catalog text)).run
      { l with memo := (l.memo.parse sc.catalog text).2 }).2
    let planned := plan sc.catalog (Effect.parseEffect sc.catalog text)
    let r := (sc.runUnits text me ctx).run.run l
    ∃ ran, ran <+: planned ∧ sc.Executes me ctx ran start r.1 r.2 ∧
      (r.1 = .ok () → ran = planned) := by
  have hrun := run_runUnits sc me ctx text l
  rw [(h.parse text).1] at hrun
  dsimp only
  rw [hrun]
  exact executes_runClauses sc me ctx _ _

end Scene
end DeckDuel
