/-
DeckDuel.Proofs.GrantedAbility — what becomes of an ability that a unit
grants.

* `Effect.Binds` — how the body of a unit binds an inner text to a
  trigger: as a wrapper, or under the verb of abilities.
* `Effect.grantsBound_parseUnit` — every unit that grants an ability does
  it in one of these two ways.
* `Works` — an ability text that is attached when it is granted, and
  whose inner text runs when its moment comes, and at no other moment.
* `Effect.grant_works_or_refused` — so what is granted works if its
  parenthesis follows its keyword at once.

A wrapper is kept as it was written, and blanks may stand before its
parenthesis. No blank may stand there when the text is taken apart again
to be attached, so such a unit is read and never runs
(`Effect.exists_grant_not_unwrapped`).
-/
import DeckDuel.Proofs.Accounted
import DeckDuel.Proofs.UnitText
import DeckDuel.Scalar.Double

namespace DeckDuel

namespace Effect

open DeckDuel.Text

/-! ## Groups and wrapped texts -/

/-- A parenthesised group at the end of a text. -/
theorem eq_group_of_parenthesized {cs inner : List Char} (h : parenthesized cs = .ok inner)
    (hend : EndsVisible cs) : ∃ gap content, (∀ c ∈ gap, isBlank c = true) ∧
      cs = gap ++ group content ∧ inner = trim content := by
  obtain ⟨gap, hgap, hcs⟩ := exists_blanks_trimStart cs
  have hvisible : EndsVisible (trimStart cs) := by
    rw [hcs] at hend
    exact hend.right
  unfold parenthesized at h
  rw [trim, trimEnd_eq_self_iff.mpr hvisible] at h
  split at h
  · next tail hopen =>
    split at h
    · cases h
    · next content rest hclosing =>
      have htail : tail = content ++ ')' :: rest := eq_append_of_closing? hclosing
      split at h
      · next hblank =>
        cases h
        have hgroup : trimStart cs = group content ++ rest := by
          rw [hopen, htail]
          simp [group]
        have hrest : EndsVisible rest := by
          rw [hgroup] at hvisible
          exact hvisible.right
        have hnil : rest = [] := hrest.eq_nil (by simpa using hblank)
        rw [hnil, List.append_nil] at hgroup
        exact ⟨gap, content, hgap, hgroup ▸ hcs, rfl⟩
      · cases h
  · cases h

theorem eq_group_of_unwrap {cs name inner : List Char} (h : unwrap cs = some (name, inner))
    (htrim : Trimmed cs) : ∃ content, cs = name ++ group content ∧ inner = trim content := by
  have htrim' : trim cs = cs := htrim
  obtain ⟨⟨w, rest⟩, hword, hrest⟩ := Option.bind_eq_some_iff.mp h
  rw [htrim'] at hword
  dsimp only at hrest
  split at hrest
  · next tail =>
    obtain ⟨content, hlast, heq⟩ := Option.map_eq_some_iff.mp hrest
    cases heq
    have hcs := eq_append_of_word? hword
    rw [dropLast?_eq_some_iff.mp hlast] at hcs
    exact ⟨content, hcs, rfl⟩
  · cases hrest

/-! ## Granting units -/

/-- An ability as a unit keeps it: blanks may stand before the
parenthesis. -/
def spaced (k : Trigger) (gap content : List Char) : List Char :=
  k.keyword.toList ++ (gap ++ group content)

/-- How the body of a unit binds an inner text to a trigger. -/
inductive Binds : (body : List Char) → Trigger → (gap content : List Char) → Prop where
  /-- The body is the keyword, blanks, and the inner text as a group. -/
  | wrapper {k : Trigger} {gap content : List Char} (moment : k ≠ .passive)
      (blank : ∀ c ∈ gap, isBlank c = true)
      (balanced : parenthesized (gap ++ group content) = .ok (trim content)) :
      Binds (spaced k gap content) k gap content
  /-- The payload of `add` is the keyword, and the inner text between the
  parentheses that come first and last. -/
  | verb {k : Trigger} {body name rest content : List Char} (named : word? body = some (name, rest))
      (payload : readVerb (trimStart rest) = .ok (.add, wrap k content)) :
      Binds body k [] content

theorem Binds.isBlank {body gap content : List Char} {k : Trigger} (h : Binds body k gap content) :
    ∀ c ∈ gap, Text.isBlank c = true := by
  cases h with
  | wrapper _ blank _ => exact blank
  | verb _ _ => simp

/-- Where a blank stands before the parenthesis, the text is not taken
apart. -/
theorem unwrap_spaced (k : Trigger) {gap : List Char} (hgap : ∀ c ∈ gap, isBlank c = true)
    (hne : gap ≠ []) (content : List Char) : unwrap (spaced k gap content) = none := by
  have htrim : trim (spaced k gap content) = spaced k gap content := by
    refine trimmed_keyword_append k ?_
    have hend := endsVisible_group (k.keyword.toList ++ gap) content
    rwa [List.append_assoc] at hend
  have hword : word? (spaced k gap content) = some (k.keyword.toList, gap ++ group content) :=
    word?_append (isWord_keyword k) (endsWord_blanks hgap (endsWord_group content))
  rw [unwrap, htrim, hword]
  cases gap with
  | nil => exact absurd rfl hne
  | cons c gap =>
    have hopen : c ≠ '(' := by
      rintro rfl
      exact absurd (hgap '(' List.mem_cons_self) (by decide)
    simp [hopen]

/-! ## Reading -/

/-- A unit that grants an ability binds its text. -/
def GrantsBound (body : List Char) {α : Type} (form : Form α) : Prop :=
  ∀ p t, form = .grant p t → ∃ k gap content, Binds body k gap content ∧
    p = k.keyword ∧ t = String.ofList (spaced k gap content)

variable {α : Type}

theorem exists_trigger {name : List Char} (h : Trigger.isKeyword (String.ofList name) = true) :
    ∃ k : Trigger, name = k.keyword.toList := by
  obtain ⟨k, hk⟩ := Option.isSome_iff_exists.mp h
  have hname : k.keyword = String.ofList name := by simpa using List.find?_some hk
  exact ⟨k, by rw [hname, String.toList_ofList]⟩

theorem trimmed_parenthesized (cs : List Char) : Yields Trimmed (parenthesized cs) := by
  unfold parenthesized
  split
  · split
    · exact .error _
    · next content rest _ =>
      split
      · exact .ok (trimmed_trim content)
      · exact .error _
  · exact .error _

theorem trimmed_readVerb (cs : List Char) :
    Yields (fun r : Verb × List Char => Trimmed r.2) (readVerb cs) := by
  unfold readVerb
  split
  · refine Yields.bind fun r _ => Yields.bind fun v _ => Yields.bind fun payload hpayload => ?_
    exact .ok (trimmed_parenthesized _ payload hpayload)
  · exact .error _

theorem grantsBound_readAbilityVerb {body name rest : List Char}
    (hname : word? body = some (name, rest)) :
    Yields (GrantsBound body (α := α)) (readAbilityVerb (trimStart rest)) := by
  unfold readAbilityVerb
  refine Yields.bind fun r hverb => ?_
  obtain ⟨v, payload⟩ := r
  cases v with
  | add =>
    refine Yields.bind fun r hwrapped => ?_
    obtain ⟨w, inner⟩ := r
    dsimp only
    split
    · next hkeyword =>
      refine .ok fun p t hform => ?_
      cases hform
      obtain ⟨k, rfl⟩ := exists_trigger hkeyword
      have htrim : Trimmed payload := trimmed_readVerb _ _ hverb
      obtain ⟨content, hpayload, -⟩ := eq_group_of_unwrap (need_eq_ok hwrapped) htrim
      rw [hpayload] at hverb ⊢
      exact ⟨k, [], content, .verb hname hverb, by simp, rfl⟩
    · exact .error _
  | remove =>
    dsimp only
    split
    · exact .error _
    · exact .ok fun p t hform => by cases hform
  | apply => exact .error _

theorem grantsBound_readWrapper {body name rest : List Char}
    (hname : word? body = some (name, rest)) (hend : EndsVisible body) :
    Yields (fun r : String × Form α => GrantsBound body r.2) (readWrapper name body) := by
  have hbody : body = name ++ rest := eq_append_of_word? hname
  subst hbody
  unfold readWrapper
  dsimp only
  split
  · next hkeyword =>
    obtain ⟨k, rfl⟩ := exists_trigger hkeyword
    have htrim : trim (k.keyword.toList ++ rest) = k.keyword.toList ++ rest :=
      trimmed_keyword_append k hend
    rw [htrim, List.drop_left]
    refine Yields.bind fun inner hinner => ?_
    obtain ⟨gap, content, hgap, rfl, rfl⟩ := eq_group_of_parenthesized hinner hend.right
    split
    · exact .ok fun p t hform => by cases hform
    · next hmoment =>
      refine .ok fun p t hform => ?_
      cases hform
      have hpassive : k ≠ .passive := by
        rintro rfl
        exact hmoment String.ofList_toList
      exact ⟨k, gap, content, .wrapper hpassive hgap hinner, String.ofList_toList, rfl⟩
  · exact .error _

variable [Scalar α]

theorem grantsBound_readBody {body name rest : List Char} (hname : word? body = some (name, rest))
    (domain : Domain) (attr : String) :
    Yields (GrantsBound body (α := α)) (readBody domain attr (trimStart rest)) := by
  intro form hform p t hgrant
  have hfits := fits_readBody (⟨attr, domain, "", 0⟩ : Attribute) (trimStart rest) form hform
  rw [hgrant] at hfits
  cases hfits with
  | grant _ _ hdomain =>
    obtain rfl : domain = .ability := hdomain
    exact grantsBound_readAbilityVerb hname form hform p t hgrant

theorem grantsBound_readPlain (catalog : Catalog) {cs : List Char} (h : Trimmed cs) :
    Yields (fun r : Option Target × String × Form α => GrantsBound (splitTarget cs).2 r.2.2)
      (readPlain catalog cs) := by
  have hend : EndsVisible (splitTarget cs).2 := by
    obtain ⟨before, hbefore⟩ := suffix_splitTarget cs
    have hend := h.endsVisible
    rw [← hbefore] at hend
    exact hend.right
  unfold readPlain
  dsimp only
  refine Yields.bind fun r hr => ?_
  obtain ⟨name, rest⟩ := r
  have hname : word? (splitTarget cs).2 = some (name, rest) := need_eq_ok hr
  dsimp only
  split
  · exact Yields.bind fun r hr => .ok (grantsBound_readWrapper hname hend r hr)
  · refine Yields.bind fun known _ => Yields.bind fun form hform => ?_
    exact .ok (grantsBound_readBody hname _ _ form hform)

/-- Every unit that grants an ability binds its text. -/
theorem grantsBound_parseUnit {catalog : Catalog} {raw : List Char} {c : Clause α}
    (h : parseUnit catalog raw = .clause c) : GrantsBound (splitTarget (trim raw)).2 c.form := by
  have hplain := grantsBound_readPlain (α := α) catalog (trimmed_trim raw)
  have hunit : Yields (fun r : Option Target × String × Form α =>
      GrantsBound (splitTarget (trim raw)).2 r.2.2) (readUnit catalog (trim raw)) := by
    unfold readUnit
    split
    · next rest _ =>
      split
      · refine Yields.map fun form hform p t hgrant => ?_
        have hbranch : form.isBranch = true := isBranch_readBranch rest form hform
        rw [show form = .grant p t from hgrant] at hbranch
        cases hbranch
      · exact hplain
    · exact hplain
  exact hunit (c.target, c.attr, c.form) (readUnit_of_parseUnit h)

end Effect

/-! ## Attaching -/

variable {α : Type}

/-- The battle after a side was given an ability. -/
def Live.grant (l : Live α) (side : Side) (k : Trigger) (text : String) : Live α :=
  let made := l.abilitiesMade + 1
  let a : Ability := ⟨"ability_" ++ toString made, k.keyword, text, ""⟩
  (({ l with abilitiesMade := made }).mapFighter side fun f =>
    { f with abilities := f.abilities ++ [a] }).emit (.abilityAdded side text)

theorem Live.addAbility?_of_unwrap {text : String} {k : Trigger} {inner : List Char}
    (h : unwrap text.toList = some (k.keyword.toList, inner)) (l : Live α) (side : Side) :
    l.addAbility? side text =
      (some ("ability_" ++ toString (l.abilitiesMade + 1)), l.grant side k text) := by
  have hkept (id : String) : (Ability.ofEffect? id text).filter
      (fun a => Trigger.isKeyword a.trigger) = some ⟨id, k.keyword, text, ""⟩ := by
    simp [Ability.ofEffect?, h, Option.filter, Effect.isKeyword_keyword]
  simp only [addAbility?, hkept]
  rfl

theorem Live.addAbility?_of_not_unwrap {text : String} (h : unwrap text.toList = none)
    (l : Live α) (side : Side) :
    l.addAbility? side text = (none, { l with abilitiesMade := l.abilitiesMade + 1 }) := by
  simp [addAbility?, Ability.ofEffect?, h]

/-- A text that is attached is wrapped in a keyword; any other uses up an
id. -/
theorem Live.addAbility?_cases (l : Live α) (side : Side) (text : String) :
    l.addAbility? side text = (none, { l with abilitiesMade := l.abilitiesMade + 1 }) ∨
      ∃ (k : Trigger) (inner : List Char), unwrap text.toList = some (k.keyword.toList, inner) ∧
        l.addAbility? side text =
          (some ("ability_" ++ toString (l.abilitiesMade + 1)), l.grant side k text) := by
  rcases hunwrap : unwrap text.toList with _ | ⟨name, inner⟩
  · exact .inl (addAbility?_of_not_unwrap hunwrap l side)
  · cases hkeyword : Trigger.isKeyword (String.ofList name) with
    | true =>
      obtain ⟨k, rfl⟩ := Effect.exists_trigger hkeyword
      exact .inr ⟨k, inner, rfl, addAbility?_of_unwrap hunwrap l side⟩
    | false => exact .inl (by simp [addAbility?, Ability.ofEffect?, hunwrap, Option.filter, hkeyword])

variable [Scalar α]

/-- A unit that grants an ability is run by the handler of abilities. -/
theorem Scene.runClause_grant {c : Clause α} {p t : String} (hfits : c.Fits)
    (hform : c.form = .grant p t) {sc : Scene α} (hcatalog : sc.catalog = Catalog.standard)
    (me : Side) (ctx : Context α) : sc.runClause c me ctx = runAbility c me ctx := by
  rcases hfits with hbranch | ⟨a, ha, hname, hfits⟩
  · rw [hform] at hbranch
    cases hbranch
  · rw [hform] at hfits
    cases hfits with
    | grant _ _ hdomain =>
      rw [runClause, hform, hcatalog, hname, Catalog.get?_standard ha]
      dsimp only
      rw [hdomain]

omit [Scalar α] in
/-- The text is attached, or refused. -/
theorem run_runAbility_grant {c : Clause α} {p t : String} (hform : c.form = .grant p t)
    {me side : Side} {ctx : Context α} (hside : abilitySide c me ctx = .ok side) (l : Live α) :
    (runAbility c me ctx).run.run l =
      ((l.addAbility? side t).1.elim (.error (.invalidValue t)) fun _ => .ok (),
        (l.addAbility? side t).2) := by
  have hadd : (runAbility c me ctx).run.run l =
      (addAbility side t >>= fun _ => (pure () : Attempt α Unit)).run.run l := by
    rw [runAbility, hside, hform]
    rfl
  have hmodify (g : Option String → Attempt α Unit) :
      ((modifyGet fun m => m.addAbility? side t) >>= g).run.run l =
        (g (l.addAbility? side t).1).run.run (l.addAbility? side t).2 := rfl
  rw [hadd, addAbility, bind_assoc, hmodify]
  cases (l.addAbility? side t).1 <;> rfl

/-! ## Dispatching -/

namespace Scene

/-- An ability has its moment: its inner text is reported, and run with
the moment and the ability in its context. -/
def heed (sc : Scene α) (side : Side) (k : Trigger) (ctx : Context α) (a : Ability)
    (inner : String) (l : Live α) : Live α :=
  ((sc.runLoose inner side { ctx.onTrigger k.keyword with ability := some a.id }).run
    (l.emit (.abilityTriggered side k.keyword inner))).2

/-- What a moment sets off besides the abilities of a side. -/
def reactOtherwise (sc : Scene α) (side : Side) (t : Trigger) (ctx : Context α) : Play α Nat := do
  let statuses ← sc.runStatusEvents side t ctx ((← get).fighter side).statuses
  let relics ←
    match side with
    | .player => sc.runRelics t ctx ((← get).battle.player.relics.flatMap (relicSegments t))
    | .enemy => pure 0
  pure (statuses + relics)

variable (sc : Scene α) (side : Side) (t : Trigger) (ctx : Context α)

omit [Scalar α] in
theorem run_runAbilities_cons (a : Ability) (rest : List Ability) (l : Live α) :
    (sc.runAbilities side t ctx (a :: rest)).run l =
      if l.battle.isOver then (0, l)
      else
        match a.innerFor? t.keyword with
        | none => (sc.runAbilities side t ctx rest).run l
        | some inner =>
          let r := (sc.runAbilities side t ctx rest).run (sc.heed side t ctx a inner l)
          (r.1 + 1, r.2) := by
  rw [runAbilities]
  show (if l.battle.isOver then _ else _ : Play α Nat).run l = _
  split
  · rfl
  · cases a.innerFor? t.keyword with
    | none => rfl
    | some inner => rfl

omit [Scalar α] in
theorem run_runAbilities_of_isOver (as : List Ability) {l : Live α}
    (h : l.battle.isOver = true) : (sc.runAbilities side t ctx as).run l = (0, l) := by
  cases as with
  | nil => rfl
  | cons a rest => rw [run_runAbilities_cons, if_pos h]

omit [Scalar α] in
/-- Abilities are passed through one after the other. Once the battle is
decided, no more of them has its moment. -/
theorem run_runAbilities_append (before after : List Ability) (l : Live α) :
    (sc.runAbilities side t ctx (before ++ after)).run l =
      let first := (sc.runAbilities side t ctx before).run l
      let later := (sc.runAbilities side t ctx after).run first.2
      (first.1 + later.1, later.2) := by
  induction before generalizing l with
  | nil =>
    show _ = (0 + _, _)
    rw [Nat.zero_add]
    rfl
  | cons a before ih =>
    rw [List.cons_append, run_runAbilities_cons, run_runAbilities_cons]
    cases hover : l.battle.isOver with
    | true =>
      simp only [if_true]
      rw [run_runAbilities_of_isOver sc side t ctx after hover]
      rfl
    | false =>
      simp only [Bool.false_eq_true, if_false]
      cases a.innerFor? t.keyword with
      | none => exact ih l
      | some inner =>
        simp only [ih]
        rw [Nat.add_right_comm]

omit [Scalar α] in
theorem run_react (h : t ≠ .passive) (l : Live α) :
    (sc.react side t ctx).run l =
      let own := (sc.runAbilities side t ctx (l.fighter side).abilities).run
        (l.write (.fired side t))
      let others := (sc.reactOtherwise side t ctx).run own.2
      (own.1 + others.1, others.2) := by
  rw [react, if_neg h]
  cases side with
  | player =>
    show (_ + _ + _, _) = (_ + (_ + _), _)
    rw [Nat.add_assoc]
    rfl
  | enemy =>
    show (_ + _ + _, _) = (_ + (_ + _), _)
    rw [Nat.add_assoc]
    rfl

end Scene

/-- A text stands for an inner text at one moment only. -/
theorem Ability.innerFor?_of_unwrap {a : Ability} {k : Trigger} {inner : List Char}
    (h : unwrap a.effect.toList = some (k.keyword.toList, inner)) (moment : Trigger) :
    a.innerFor? moment.keyword = if moment = k then some (String.ofList inner) else none := by
  have hsame : k.keyword = moment.keyword ↔ moment = k := Effect.keyword_inj.trans eq_comm
  simp [innerFor?, h, hsame]

/-- An ability text that works: its inner text runs whenever the moment
`k` comes for a side that holds it, as long as the battle is not decided,
and at no other moment. -/
structure Works (α : Type) [Scalar α] (text : String) (k : Trigger) (inner : List Char) : Prop where
  unwrapped : unwrap text.toList = some (k.keyword.toList, inner)
  heeded {sc : Scene α} {side : Side} {moment : Trigger} {ctx : Context α} {l : Live α}
    {before after : List Ability} {a : Ability} (hmoment : moment ≠ .passive)
    (hheld : (l.fighter side).abilities = before ++ a :: after) (htext : a.effect = text) :
    (sc.react side moment ctx).run l =
      let first := (sc.runAbilities side moment ctx before).run (l.write (.fired side moment))
      let own :=
        if moment = k ∧ first.2.battle.isOver = false then
          (1, sc.heed side k ctx a (String.ofList inner) first.2)
        else (0, first.2)
      let later := (sc.runAbilities side moment ctx after).run own.2
      let others := (sc.reactOtherwise side moment ctx).run later.2
      (first.1 + own.1 + later.1 + others.1, others.2)

/-- A text that is taken apart works. -/
theorem works_of_unwrap {text : String} {k : Trigger} {inner : List Char}
    (h : unwrap text.toList = some (k.keyword.toList, inner)) : Works α text k inner := by
  refine ⟨h, ?_⟩
  intro sc side moment ctx l before after a hmoment hheld htext
  have hinner := Ability.innerFor?_of_unwrap (a := a) (by rw [htext, h]) moment
  rw [Scene.run_react sc side moment ctx hmoment, hheld, Scene.run_runAbilities_append]
  generalize (sc.runAbilities side moment ctx before).run (l.write (.fired side moment)) = first
  simp only [Scene.run_runAbilities_cons, hinner]
  cases hover : first.2.battle.isOver with
  | true =>
    simp only [if_true, Bool.true_eq_false, and_false, if_false,
      Scene.run_runAbilities_of_isOver sc side moment ctx after hover]
  | false =>
    by_cases heq : moment = k
    · subst heq
      simp only [and_self, if_true, Bool.false_eq_true, if_false]
      rw [Nat.add_right_comm first.1 1, ← Nat.add_assoc first.1]
    · simp only [heq, false_and, if_false, Bool.false_eq_true]
      rfl

/-! ## Granting -/

/-- What a unit that grants an ability does, wherever it is run with the
built-in attributes: it names a side, and does it to that side. -/
def Clause.GrantDoes (c : Clause α)
    (does : Side → Live α → Except Refusal Unit × Live α) : Prop :=
  ∀ d ∈ c.expand, ∀ (me : Side) (ctx : Context α), ctx.target ≠ some .all →
    ∃ side, abilitySide d me ctx = .ok side ∧
      ∀ sc : Scene α, sc.catalog = Catalog.standard → ∀ l,
        (sc.runClause d me ctx).run.run l = does side l

theorem Clause.grantDoes {c : Clause α} {p t : String} (hfits : c.Fits)
    (hform : c.form = .grant p t) : c.GrantDoes fun side l =>
      ((l.addAbility? side t).1.elim (.error (.invalidValue t)) fun _ => .ok (),
        (l.addAbility? side t).2) := by
  intro d hd me ctx hctx
  obtain ⟨hattr, hsame, htarget⟩ := of_mem_expand hd
  have hgrant : d.form = .grant p t := hsame.trans hform
  have hfits' : d.Fits := by
    rw [Fits, hattr, hsame]
    exact hfits
  cases hside : abilitySide d me ctx with
  | error r => exact absurd hside (abilitySide_ne_error htarget hctx)
  | ok side =>
    refine ⟨side, rfl, fun sc hcatalog l => ?_⟩
    rw [Scene.runClause_grant hfits' hgrant hcatalog, run_runAbility_grant hgrant hside]

namespace Effect

open DeckDuel.Text

/-- **What becomes of a granted ability.** A unit that grants an ability
binds its text to a trigger, as a wrapper or under the verb of abilities.
Where no blank stands before the parenthesis, running the unit attaches
the ability, and its inner text runs whenever its moment comes. Where
blanks do, the text is refused, and nothing but an id is used up. -/
theorem grant_works_or_refused {raw : List Char} {c : Clause α} {p t : String}
    (hread : parseUnit Catalog.standard raw = .clause c) (hform : c.form = .grant p t) :
    ∃ k gap content, Binds (splitTarget (trim raw)).2 k gap content ∧
      p = k.keyword ∧ t = String.ofList (spaced k gap content) ∧
      (gap = [] → Works α t k (trim content) ∧
        c.GrantDoes fun side l => (.ok (), l.grant side k t)) ∧
      (gap ≠ [] → unwrap t.toList = none ∧
        c.GrantDoes fun _ l =>
          (.error (.invalidValue t), { l with abilitiesMade := l.abilitiesMade + 1 })) := by
  obtain ⟨k, gap, content, hbinds, hp, ht⟩ := grantsBound_parseUnit hread p t hform
  have hdoes := Clause.grantDoes (fits_of_parseUnit hread) hform
  have htext : t.toList = spaced k gap content := by rw [ht, String.toList_ofList]
  refine ⟨k, gap, content, hbinds, hp, ht, fun hnone => ?_, fun hblanks => ?_⟩
  · have hunwrap : unwrap t.toList = some (k.keyword.toList, trim content) := by
      rw [htext, hnone]
      exact unwrap_wrap k content
    refine ⟨works_of_unwrap hunwrap, ?_⟩
    simpa only [Live.addAbility?_of_unwrap hunwrap, Option.elim_some] using hdoes
  · have hunwrap : unwrap t.toList = none := by
      rw [htext]
      exact unwrap_spaced k hbinds.isBlank hblanks content
    refine ⟨hunwrap, ?_⟩
    simpa only [Live.addAbility?_of_not_unwrap hunwrap, Option.elim_none] using hdoes

/-- An ability for both sides, with blanks inside its parentheses. -/
theorem grant_works_or_refused_both :
    let t := "turn_start( ME.block+3 )"
    ∃ c : Clause Double,
      parseUnit Catalog.standard "ALL.turn_start( ME.block+3 ) ".toList = .clause c ∧
      c.form = .grant "turn_start" t ∧ Works Double t .turnStart "ME.block+3".toList ∧
      c.GrantDoes fun side l => (.ok (), l.grant side .turnStart t) := by
  intro t
  let form : Form Double := .grant "turn_start" t
  let c : Clause Double := ⟨"ALL.turn_start( ME.block+3 )", some .all, "ability", form,
    Clause.describe (some .all) "Ability" form⟩
  have hread : parseUnit Catalog.standard "ALL.turn_start( ME.block+3 ) ".toList = .clause c := by
    rfl
  obtain ⟨k, gap, content, hbinds, hp, ht, hworks, -⟩ := grant_works_or_refused hread rfl
  obtain rfl : Trigger.turnStart = k := keyword_inj.mp hp
  have htext : "turn_start".toList ++ "( ME.block+3 )".toList =
      "turn_start".toList ++ (gap ++ group content) := by
    have hsplit : t.toList = "turn_start".toList ++ "( ME.block+3 )".toList := by decide
    rw [← hsplit, ht, String.toList_ofList]
    rfl
  have hgroup := List.append_cancel_left htext
  cases gap with
  | cons b gap =>
    obtain rfl : '(' = b := (List.cons.inj hgroup).1
    exact absurd (hbinds.isBlank '(' List.mem_cons_self) (by decide)
  | nil =>
    obtain rfl : " ME.block+3 ".toList = content :=
      List.append_cancel_right (List.cons.inj hgroup).2
    exact ⟨c, hread, rfl, hworks rfl⟩

/-- A blank before the parenthesis is read, and never taken apart. -/
theorem exists_grant_not_unwrapped :
    ¬ ∀ (raw : List Char) (c : Clause Double) (p t : String),
      parseUnit Catalog.standard raw = .clause c → c.form = .grant p t →
        ∃ inner, unwrap t.toList = some (p.toList, inner) := by
  intro h
  let form : Form Double := .grant "turn_start" "turn_start (ME.block+3)"
  obtain ⟨inner, hinner⟩ := h "turn_start (ME.block+3)".toList
    ⟨"turn_start (ME.block+3)", none, "ability", form, Clause.describe none "Ability" form⟩
    _ _ rfl rfl
  have hnone : unwrap "turn_start (ME.block+3)".toList = none := by decide +kernel
  rw [hnone] at hinner
  cases hinner

end Effect
end DeckDuel
