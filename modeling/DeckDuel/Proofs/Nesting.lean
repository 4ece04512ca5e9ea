/-
DeckDuel.Proofs.Nesting — how deep a text stands in itself.

* `Setting.branchTexts` — the texts of the branches of a text that are
  not blank.
* `Setting.nest` — none if there are no such texts, and one more than
  the deepest of them otherwise.
* `Setting.succeeds_runClauses` — units whose branches have levels
  enough are run to the last one, whatever they set off.
* `Setting.execute_ok_of_nest_lt` — a text that has levels enough for
  its branches is never refused, and no other cause than the nesting
  limit ever refuses a text.
-/
import DeckDuel.Proofs.FaithfulMemo
import DeckDuel.Proofs.Reading
import DeckDuel.Proofs.SkippedUnit

namespace DeckDuel

variable {α : Type} [Scalar α]

/-! ## Depth of branches -/

namespace Setting

/-- The texts of the branches of a text that are not blank. -/
def branchTexts (s : Setting α) (text : String) : List String :=
  ((Effect.parseEffect s.catalog text).filterMap Reading.clause?).flatMap fun c : Clause α =>
    c.form.branches

theorem length_lt_of_mem_branchTexts {s : Setting α} {text t : String}
    (h : t ∈ s.branchTexts text) : t.toList.length < text.toList.length := by
  obtain ⟨c, hc, ht⟩ := List.mem_flatMap.mp h
  obtain ⟨reading, hreading, hclause⟩ := List.mem_filterMap.mp hc
  cases reading with
  | clause c' =>
    cases hclause
    exact Effect.length_lt_of_mem_branches hreading ht
  | fault raw f => cases hclause

/-- How deep branches stand in branches of a text. -/
def nest (s : Setting α) (text : String) : Nat :=
  match ((s.branchTexts text).attach.map fun t => s.nest t.1).max? with
  | none => 0
  | some n => n + 1
termination_by text.toList.length
decreasing_by exact length_lt_of_mem_branchTexts t.2

theorem nest_eq (s : Setting α) (text : String) :
    s.nest text = match ((s.branchTexts text).map s.nest).max? with
      | none => 0
      | some n => n + 1 := by
  rw [nest, List.attach_map_val]

theorem nest_lt_nest {s : Setting α} {text t : String} (h : t ∈ s.branchTexts text) :
    s.nest t < s.nest text := by
  have hmem : s.nest t ∈ (s.branchTexts text).map s.nest := List.mem_map_of_mem h
  rw [s.nest_eq text]
  split
  · next hnone =>
    rw [List.max?_eq_none_iff.mp hnone] at hmem
    cases hmem
  · next n hsome => exact Nat.lt_succ_of_le ((List.max?_le_iff hsome).mp (Nat.le_refl n) _ hmem)

end Setting

/-! ## Plans -/

section

omit [Scalar α]

theorem mem_insertByPriority {catalog : Catalog} {c d : Clause α} {cs : List (Clause α)}
    (h : d ∈ insertByPriority catalog c cs) : d = c ∨ d ∈ cs := by
  induction cs with
  | nil => exact .inl (List.mem_singleton.mp h)
  | cons e rest ih =>
    simp only [insertByPriority] at h
    split at h
    · exact List.mem_cons.mp h
    · rcases List.mem_cons.mp h with rfl | h
      · exact .inr List.mem_cons_self
      · rcases ih h with rfl | h
        · exact .inl rfl
        · exact .inr (List.mem_cons_of_mem _ h)

theorem mem_sortByPriority {catalog : Catalog} {d : Clause α} {cs : List (Clause α)}
    (h : d ∈ sortByPriority catalog cs) : d ∈ cs := by
  induction cs with
  | nil => exact h
  | cons c rest ih =>
    rcases mem_insertByPriority h with rfl | h
    · exact List.mem_cons_self
    · exact List.mem_cons_of_mem _ (ih h)

theorem Clause.form_eq_of_mem_expand {c d : Clause α} (h : d ∈ c.expand) : d.form = c.form := by
  unfold expand at h
  split at h
  · rcases List.mem_cons.mp h with rfl | h
    · rfl
    · rw [List.mem_singleton.mp h]
      rfl
  · rw [List.mem_singleton.mp h]

end

/-- What is planned are units of the text, so their branches are
branches of the text. -/
theorem mem_branchTexts_of_mem_plan {s : Setting α} {text t : String} {c : Clause α}
    (hc : c ∈ plan s.catalog (Effect.parseEffect s.catalog text)) (ht : t ∈ c.form.branches) :
    t ∈ s.branchTexts text := by
  obtain ⟨d, hd, hexpand⟩ := List.mem_flatMap.mp (mem_sortByPriority hc)
  rw [Clause.form_eq_of_mem_expand hexpand] at ht
  exact List.mem_flatMap.mpr ⟨d, hd, ht⟩

/-! ## Runs -/

omit [Scalar α] in
@[simp] theorem Live.enter_memo (l : Live α) (text : String) (me : Side) :
    (l.enter text me).memo = l.memo := by
  unfold enter
  split <;> rfl

namespace Setting

variable {s : Setting α} {levels : Nat} {l : Live α}

/-- An attempt is never refused. -/
abbrev Succeeds {β : Type} (x : Attempt α β) (l : Live α) : Prop := Refuses (fun _ _ => False) x l

section

variable {me : Side} {ctx : Context α}
  (hok : ∀ t l, s.nest t < levels → l.memo.Faithful s.catalog →
    Succeeds (s.runWithin levels t me ctx) l)
include hok

/-- A branch runs one of its texts, unless it is blank. -/
theorem succeeds_runBranch {condition effect : String} {otherwise : Option String}
    (hnest : ∀ t ∈ (Form.branch condition effect otherwise : Form α).branches, s.nest t < levels)
    (hmemo : l.memo.Faithful s.catalog) :
    Succeeds ((s.running (s.runWithin levels)).runBranch condition effect otherwise me ctx) l := by
  refine Refuses.get_bind ?_
  dsimp only
  split
  · next t hchosen =>
    split
    · exact Refuses.pure _
    · next hblank =>
      have hmem : t ∈ effect :: otherwise.toList := by
        split at hchosen
        · cases hchosen
          exact List.mem_cons_self
        · rw [hchosen]
          simp
      exact hok t l (hnest t (List.mem_filter.mpr ⟨hmem, by simpa using hblank⟩)) hmemo
  · exact Refuses.pure _

/-- A unit whose branches have levels enough is refused for a mild cause
only. -/
theorem refuses_runClause_mild {c : Clause α} (hnest : ∀ t ∈ c.form.branches, s.nest t < levels)
    (hmemo : l.memo.Faithful s.catalog) :
    Refuses (fun r _ => r.isFatal = false) ((s.running (s.runWithin levels)).runClause c me ctx)
      l := by
  cases hform : c.form with
  | branch condition effect otherwise =>
    rw [hform] at hnest
    unfold Scene.runClause
    rw [hform]
    exact (succeeds_runBranch hok hnest hmemo).mono fun _ _ h => h.elim
  | _ =>
    have hplain : c.form.isBranch = false := by rw [hform]; rfl
    exact (Scene.refuses_runClause_of_not_isBranch hplain me ctx).mono fun _ _ hr => hr.mild

/-- A unit that is refused is left out, so the units after it run. -/
theorem succeeds_runClauses {cs : List (Clause α)}
    (hnest : ∀ c ∈ cs, ∀ t ∈ c.form.branches, s.nest t < levels)
    (hmemo : l.memo.Faithful s.catalog) :
    Succeeds ((s.running (s.runWithin levels)).runClauses me ctx cs) l := by
  induction cs generalizing l with
  | nil => exact Refuses.pure _
  | cons c rest ih =>
    have hmild := refuses_runClause_mild hok (hnest c List.mem_cons_self) hmemo
    have hafter := faithful_runClause levels c me ctx hmemo
    have hrest {m : Live α} (hm : m.memo.Faithful s.catalog) :
        Succeeds ((s.running (s.runWithin levels)).runClauses me ctx rest) m :=
      ih (fun c hc => hnest c (List.mem_cons_of_mem _ hc)) hm
    unfold Refuses at hmild
    refine Refuses.caught_bind ?_
    rcases hx : ((s.running (s.runWithin levels)).runClause c me ctx).run.run l with ⟨r, m⟩
    rw [hx] at hmild hafter
    cases r with
    | ok _ => exact hrest hafter
    | error r =>
      refine Refuses.modify_bind ?_
      rw [hmild r rfl]
      exact Refuses.lift_bind (hrest hafter)

theorem succeeds_runUnits {text : String} (hnest : s.nest text ≤ levels)
    (hmemo : l.memo.Faithful s.catalog) :
    Succeeds ((s.running (s.runWithin levels)).runUnits text me ctx) l := by
  obtain ⟨hunits, hparsed⟩ := hmemo.parse text
  refine Refuses.lift_bind (Refuses.lift_bind ?_)
  show Succeeds ((s.running (s.runWithin levels)).runClauses me ctx
    (plan s.catalog (l.memo.parse s.catalog text).1)) _
  rw [hunits]
  refine succeeds_runClauses hok (fun c hc t ht => ?_) (faithful_reportFaults ctx _ hparsed)
  exact Nat.lt_of_lt_of_le (nest_lt_nest (mem_branchTexts_of_mem_plan hc ht)) hnest

end

/-- A text with more levels than it has branches in branches succeeds,
by induction on the levels. -/
theorem succeeds_runWithin {text : String} (me : Side) (ctx : Context α)
    (hnest : s.nest text < levels) (hmemo : l.memo.Faithful s.catalog) :
    Succeeds (s.runWithin levels text me ctx) l := by
  induction levels generalizing text l with
  | zero => cases hnest
  | succ levels ih =>
    have hentered : (l.enter text me).memo.Faithful s.catalog := by rwa [Live.enter_memo]
    have hunits : Succeeds ((s.running (s.runWithin levels)).runUnits text me ctx)
        (l.enter text me) :=
      succeeds_runUnits (fun _ _ => ih) (Nat.le_of_lt_succ hnest) hentered
    refine Refuses.modify_bind (Refuses.caught_bind (Refuses.modify_bind ?_))
    exact Refuses.ofExcept fun r hr => hunits r hr

/-- **What a text sets off never ends it.** A text that has levels
enough for its branches is run to its end, whatever abilities, statuses,
relics and overflows make of it; and the only cause that any text is ever
refused for is the nesting limit. Branches are known from reading the
text, so the memo has to be faithful, as it is in every session
(`Session.faithful_afterAll`); and it stays so. -/
theorem execute_ok_of_nest_lt (s : Setting α) (text : String) (me : Side) (ctx : Context α)
    (l : Live α) :
    (l.memo.Faithful s.catalog → l.depth + s.nest text < s.rules.maxNesting →
        ((s.execute text me ctx).run.run l).1 = .ok ()) ∧
      (∀ r, ((s.execute text me ctx).run.run l).1 = .error r →
        r = .nestingLimit s.rules.maxNesting) ∧
      (l.memo.Faithful s.catalog →
        ((s.execute text me ctx).run.run l).2.memo.Faithful s.catalog) := by
  have hlimit : Refuses (fun r _ => r = .nestingLimit s.rules.maxNesting)
      (s.execute text me ctx) l :=
    s.refuses_runWithin (s.rules.maxNesting - l.depth) text me ctx l
  refine ⟨fun hmemo hdepth => ?_, hlimit, faithful_runWithin _ text me ctx⟩
  have hsucceeds : Succeeds (s.runWithin (s.rules.maxNesting - l.depth) text me ctx) l :=
    succeeds_runWithin me ctx (by omega) hmemo
  cases hrun : ((s.execute text me ctx).run.run l).1 with
  | ok _ => rfl
  | error r => exact (hsucceeds r hrun).elim

/-- Branches in branches, in a battle that has not begun. -/
theorem execute_ok_nested :
    let s := Session.loadWith (.duel : Snapshot Double) .standard .leftmost .standard
    let text := "if[1=1][if[2=2][OP.hp-5][ME.hp-5], ME.block+3]"
    s.live.memo.Faithful s.catalog ∧ s.nest text = 2 ∧ s.live.depth + 2 < s.rules.maxNesting ∧
      ((s.execute text .player .plain).run.run s.live).1 = .ok () := by
  intro s text
  have hmemo : s.live.memo.Faithful s.catalog := Memo.faithful_empty _
  have houter : s.branchTexts text = ["if[2=2][OP.hp-5][ME.hp-5], ME.block+3"] := by decide +kernel
  have hinner : s.branchTexts "if[2=2][OP.hp-5][ME.hp-5], ME.block+3" = ["OP.hp-5", "ME.hp-5"] := by
    decide +kernel
  have hplain : s.branchTexts "OP.hp-5" = [] ∧ s.branchTexts "ME.hp-5" = [] := by
    constructor <;> decide +kernel
  have hnest : s.nest text = 2 := by
    simp only [nest_eq, houter, hinner, hplain, List.map_cons, List.map_nil]
    rfl
  have hdepth : s.live.depth + 2 < s.rules.maxNesting := by decide
  exact ⟨hmemo, hnest, hdepth,
    (execute_ok_of_nest_lt s.toSetting text .player .plain s.live).1 hmemo (hnest ▸ hdepth)⟩

end Setting
end DeckDuel
