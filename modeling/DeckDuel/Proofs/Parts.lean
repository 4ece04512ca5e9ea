/-
DeckDuel.Proofs.Parts — what a unit is made of stands in its text.

* `Form.parts` — the texts that a unit keeps: names and formulas to
  evaluate, payloads, the condition and the effects of a branch.
* `Effect.standsIn_of_mem` — they all stand in the text that the unit
  was read from, and so does the name of its attribute, unless the shape
  of the unit tells it.

So what does not occur in a text does not occur in what comes of it.
-/
import DeckDuel.Proofs.Reading

namespace DeckDuel

open DeckDuel.Text

/-! ## Parts of units -/

/-- The text of a right-hand side that is no plain number. -/
def Operand.text? {α : Type} : Operand α → Option String
  | .literal _ => none
  | .path p => some p
  | .formula f => some f
  | .payload t => some t

/-- The texts that a unit keeps. -/
def Form.parts {α : Type} : Form α → List String
  | .branch condition effect otherwise => condition :: effect :: otherwise.toList
  | form => (form.operand?.bind Operand.text?).toList

namespace Effect

theorem infix_parenthesized (cs : List Char) :
    Yields (fun content => content <:+: cs) (parenthesized cs) := by
  unfold parenthesized
  split
  · next inner hopen =>
    split
    · exact .error _
    · next content rest hclosing =>
      split
      · have hinner : inner <:+: cs := (hopen ▸ List.suffix_cons '(' inner).isInfix.trans (infix_trim cs)
        exact .ok ((infix_trim content).trans ((prefix_of_closing? hclosing).isInfix.trans hinner))
      · exact .error _
  · exact .error _

variable {α : Type} [Scalar α]

/-- The parts of the form that a reader answers stand in the text. -/
abbrev ReadsParts (cs : List Char) (x : Parse (Form α)) : Prop :=
  Yields (fun form => ∀ t ∈ form.parts, t.toList <:+: cs) x

/-! ## Values -/

theorem infix_readValue (cs : List Char) :
    Yields (fun v : Operand α => ∀ t ∈ v.text?, t.toList <:+: cs) (readValue cs) := by
  unfold readValue classify
  dsimp only
  split
  · next v hv =>
    refine .ok ?_
    split at hv
    · cases hv
      nofun
    · split at hv
      · cases hv
        intro t ht
        cases ht
        simpa using infix_trim cs
      · split at hv
        · cases hv
          intro t ht
          cases ht
          simpa using infix_trim cs
        · cases hv
  · exact .error _

theorem infix_readChange (cs : List Char) :
    Yields (fun r : Arith × Operand α => ∀ t ∈ r.2.text?, t.toList <:+: cs) (readChange cs) := by
  unfold readChange
  split
  · exact .error _
  · next c rest htrim =>
    have hrest : rest <:+: cs := (htrim ▸ List.suffix_cons c rest).isInfix.trans (infix_trim cs)
    refine Yields.bind fun op _ => ?_
    dsimp only
    split
    · exact .error _
    · refine Yields.bind fun v hv => .ok fun t ht => ?_
      exact (infix_readValue _ v hv t ht).trans ((infix_trim rest).trans hrest)

theorem infix_readVerb (cs : List Char) :
    Yields (fun r : Verb × List Char => r.2 <:+: cs) (readVerb cs) := by
  unfold readVerb
  split
  · next rest =>
    refine Yields.bind fun r hr => Yields.bind fun v _ => Yields.bind fun payload hpayload => .ok ?_
    have hgroup : payload <:+: r.2 := infix_parenthesized r.2 payload hpayload
    have hrest : r.2 <:+ rest := (prefix_of_word? (need_eq_ok hr)).2
    exact hgroup.trans (hrest.isInfix.trans (List.suffix_cons '.' rest).isInfix)
  · exact .error _

theorem infix_splitPayload (payload : List Char) : (splitPayload payload).2 <:+: payload := by
  unfold splitPayload
  split
  · next id tail hcut => exact (infix_trim tail).trans (suffix_of_cutAt? hcut).isInfix
  · split
    · next id tail hcut => exact (infix_trim tail).trans (suffix_of_cutAt? hcut).isInfix
    · exact List.nil_infix

theorem infix_readPayload (payload : List Char) :
    Yields (fun p : Payload α => ∀ v ∈ p.2.1, ∀ t ∈ v.text?, t.toList <:+: payload)
      (readPayload payload) := by
  have hword {w : List Char} {v : Operand α} (hw : w ∈ words (splitPayload payload).2)
      (hv : readValue w = .ok v) : ∀ t ∈ v.text?, t.toList <:+: payload := fun t ht =>
    (infix_readValue w v hv t ht).trans ((infix_of_mem_words hw).trans (infix_splitPayload payload))
  unfold readPayload
  dsimp only
  split
  · exact .error _
  · split
    · exact .ok nofun
    · next v hwords =>
      refine Yields.bind fun amount hamount => .ok fun u hu => ?_
      cases hu
      exact hword (by simp [hwords]) hamount
    · next v d more hwords =>
      refine Yields.bind fun amount hamount => Yields.bind fun duration _ => ?_
      split
      · refine .ok fun u hu => ?_
        cases hu
        exact hword (by simp [hwords]) hamount
      · exact .error _

/-! ## Selectors -/

theorem suffix_of_keyword? {cs rest : List Char} {k : Selector.Keyword}
    (h : Selector.keyword? cs = some (k, rest)) : rest <:+ cs := by
  obtain ⟨k', -, hk⟩ := List.exists_of_findSome?_eq_some h
  obtain ⟨rest', hafter, heq⟩ := Option.map_eq_some_iff.mp hk
  cases heq
  obtain ⟨after, hspelled, hend⟩ := Option.bind_eq_some_iff.mp hafter
  have hrest : after = rest := by
    split at hend
    · split at hend
      · cases hend
      · exact Option.some.inj hend
    · exact Option.some.inj hend
  exact hrest ▸ suffix_of_after? hspelled

/-- A count in brackets is followed by the rest of the text. -/
theorem suffix_readCount {whole cs rest : List Char} {n : Nat}
    (h : Selector.readCount whole cs = .ok (n, rest)) : rest <:+ cs := by
  unfold Selector.readCount at h
  split at h
  · next inner =>
    split at h
    · cases h
    · next content after hcut =>
      split at h
      · cases h
      · cases h
        exact (suffix_of_cutAt? hcut).trans (List.suffix_cons '[' inner)
  · cases h
    exact List.suffix_rfl

theorem suffix_readPick {whole cs rest : List Char} {k : Selector.Keyword} {p : Pick}
    (h : Selector.readPick whole k cs = .ok (p, rest)) : rest <:+ cs := by
  have hcount {f : Nat → Pick}
      (h : (Selector.readCount whole cs).map (fun r => (f r.1, r.2)) = .ok (p, rest)) :
      rest <:+ cs := by
    cases hread : Selector.readCount whole cs with
    | error e =>
      rw [hread] at h
      cases h
    | ok r =>
      rw [hread] at h
      cases h
      exact suffix_readCount hread
  cases k with
  | allCards | all =>
    cases h
    exact List.suffix_rfl
  | current =>
    simp only [Selector.readPick] at h
    split at h
    · next inner =>
      split at h
      · cases h
      · next content after hcut =>
        cases h
        exact (suffix_of_cutAt? hcut).trans (List.suffix_cons '[' inner)
    · cases h
      exact List.suffix_rfl
  | random | leftmost | rightmost | choose => exact hcount h

theorem suffix_readTerm {whole cs rest : List Char} {t : SelectorTerm}
    (h : Selector.readTerm whole cs = .ok (t, rest)) : rest <:+ cs := by
  have hpick {pile : Option Pile} {k : Selector.Keyword} {body after : List Char}
      (hbody : body <:+ cs) (hkeyword : Selector.keyword? body = some (k, after))
      (h : (Selector.readPick whole k after).map (fun r => ((⟨pile, r.1⟩ : SelectorTerm), r.2)) =
        .ok (t, rest)) : rest <:+ cs := by
    cases hread : Selector.readPick whole k after with
    | error e =>
      rw [hread] at h
      cases h
    | ok r =>
      rw [hread] at h
      cases h
      exact (suffix_readPick hread).trans ((suffix_of_keyword? hkeyword).trans hbody)
  unfold Selector.readTerm at h
  cases hpile : Selector.pile? cs with
  | none =>
    simp only [hpile] at h
    split at h
    · cases h
    · next k after hkeyword => exact hpick List.suffix_rfl hkeyword h
  | some r =>
    obtain ⟨q, hcut, heq⟩ := Option.bind_eq_some_iff.mp hpile
    obtain ⟨p, -, rfl⟩ := Option.map_eq_some_iff.mp heq
    simp only [hpile] at h
    split at h
    · cases h
    · next k after hkeyword => exact hpick (suffix_of_cutAt? hcut) hkeyword h

theorem suffix_readTerms {whole cs rest : List Char} {steps : Nat} {ts : List SelectorTerm}
    (h : Selector.readTerms whole steps cs = .ok (ts, rest)) : rest <:+ cs := by
  induction steps generalizing cs ts with
  | zero => cases h
  | succ steps ih =>
    simp only [Selector.readTerms] at h
    split at h
    · cases h
    · next t after hterm =>
      have hafter : after <:+ cs := suffix_readTerm hterm
      split at h
      · next next =>
        split at h
        · cases hread : Selector.readTerms whole steps next with
          | error e =>
            rw [hread] at h
            cases h
          | ok r =>
            rw [hread] at h
            cases h
            exact (ih hread).trans ((List.suffix_cons '+' next).trans hafter)
        · cases h
          exact hafter
      · cases h
        exact hafter

theorem suffix_readSelector (cs : List Char) :
    Yields (fun r : Option Selector × List Char => r.2 <:+ cs) (readSelector cs) := by
  unfold readSelector
  split
  · next rest =>
    split
    · next sel after hread =>
      refine .ok (List.IsSuffix.trans ?_ (List.suffix_cons '.' rest))
      unfold Selector.read at hread
      cases hterms : Selector.readTerms rest (rest.length + 1) rest with
      | error e =>
        rw [hterms] at hread
        cases hread
      | ok r =>
        rw [hterms] at hread
        cases hread
        exact suffix_readTerms hterms
    · exact .error _
  · exact .ok List.suffix_rfl

/-! ## Forms -/

theorem readsParts_readStatusVerb (cs : List Char) : ReadsParts (α := α) cs (readStatusVerb cs) := by
  unfold readStatusVerb
  refine Yields.bind fun r hr => ?_
  have hpayload : r.2 <:+: cs := infix_readVerb cs r hr
  obtain ⟨v, payload⟩ := r
  have hparts {p : Payload α} (hp : readPayload payload = .ok p) :
      ∀ t ∈ (p.2.1.bind Operand.text?).toList, t.toList <:+: cs := by
    intro t ht
    obtain ⟨v, hv, ht⟩ := Option.bind_eq_some_iff.mp (Option.mem_toList.mp ht)
    exact (infix_readPayload payload p hp v hv t ht).trans hpayload
  cases v with
  | apply => exact Yields.bind fun p hp => .ok (hparts hp)
  | remove => exact Yields.bind fun p hp => .ok (hparts hp)
  | add => exact .error _

theorem readsParts_readStacks (cs : List Char) : ReadsParts (α := α) cs (readStacks cs) := by
  unfold readStacks
  split
  · next rest =>
    refine Yields.bind fun r hr => Yields.bind fun change hchange => .ok fun t ht => ?_
    have hrest : r.2 <:+ rest := (prefix_of_word? (need_eq_ok hr)).2
    exact (infix_readChange r.2 change hchange t (Option.mem_toList.mp ht)).trans
      (hrest.isInfix.trans (List.suffix_cons '.' rest).isInfix)
  · exact .error _

omit [Scalar α] in
theorem readsParts_readAbilityVerb (cs : List Char) :
    ReadsParts (α := α) cs (readAbilityVerb cs) := by
  unfold readAbilityVerb
  refine Yields.bind fun r hr => ?_
  have hpayload : r.2 <:+: cs := infix_readVerb cs r hr
  obtain ⟨v, payload⟩ := r
  cases v with
  | add =>
    refine Yields.bind fun r _ => ?_
    dsimp only
    split
    · refine .ok fun t ht => ?_
      cases List.mem_singleton.mp ht
      simpa using hpayload
    · exact .error _
  | remove =>
    dsimp only
    split
    · exact .error _
    · refine .ok fun t ht => ?_
      cases List.mem_singleton.mp ht
      simpa using hpayload
  | apply => exact .error _

theorem readsParts_readCards (attr : String) (cs : List Char) :
    ReadsParts (α := α) cs (readCards attr cs) := by
  unfold readCards
  refine Yields.bind fun r hr => ?_
  have hrest : r.2 <:+ cs := suffix_readSelector cs r hr
  obtain ⟨selector, rest⟩ := r
  dsimp only
  split
  · split
    · exact .error _
    · split
      · exact .error _
      · exact .ok nofun
  · refine Yields.bind fun change hchange => .ok fun t ht => ?_
    exact (infix_readChange rest change hchange t (Option.mem_toList.mp ht)).trans hrest.isInfix

theorem readsParts_readNumeric (cs : List Char) : ReadsParts (α := α) cs (readNumeric cs) := by
  refine Yields.bind fun change hchange => .ok fun t ht => ?_
  exact infix_readChange cs change hchange t (Option.mem_toList.mp ht)

/-- One case for each domain. -/
theorem readsParts_readBody (domain : Domain) (attr : String) (cs : List Char) :
    ReadsParts (α := α) cs (readBody domain attr cs) := by
  cases domain with
  | status =>
    unfold readBody
    dsimp only
    split
    · exact readsParts_readStatusVerb cs
    · exact readsParts_readStacks cs
  | ability => exact readsParts_readAbilityVerb cs
  | card => exact readsParts_readCards attr cs
  | special => exact .error _
  | stat => exact readsParts_readNumeric cs
  | modifier => exact readsParts_readNumeric cs

omit [Scalar α] in
theorem readsParts_readBranch (cs : List Char) : ReadsParts (α := α) cs (readBranch cs) := by
  unfold readBranch
  refine Yields.bind fun r hr => ?_
  have hgroups : ∀ g ∈ r.2.1.map trim, g <:+: cs := by
    intro g hg
    obtain ⟨p, hp, rfl⟩ := List.mem_map.mp hg
    exact (infix_trim p).trans ((infix_readGroups (need_eq_ok hr)).2.2 p hp)
  obtain ⟨first, groups, rest⟩ := r
  dsimp only at hgroups ⊢
  split
  · exact .error _
  · have hend (c : List Char) (form : Form α) (h : ∀ t ∈ form.parts, t.toList <:+: cs) :
        ReadsParts cs (if c.isEmpty then .error .emptyCondition else .ok form) := by
      split
      · exact .error _
      · exact .ok h
    split
    · next c effect hmap =>
      refine hend c _ ?_
      simpa [Form.parts, hmap] using hgroups
    · next c effect otherwise hmap =>
      refine hend c _ ?_
      simpa [Form.parts, hmap] using hgroups
    · exact .error _

/-! ## Units -/

/-- The name of an attribute stands in the text, or is one of those that
the shape of a unit tells. -/
def NamesAttribute (cs : List Char) (attr : String) : Prop :=
  attr ∈ ["if", "ability", "passive"] ∨ ∃ name, name <:+: cs ∧ attr = canonicalName (String.ofList name)

/-- What was read of a unit stands in the text. -/
def StandsIn {α : Type} (cs : List Char) (attr : String) (form : Form α) : Prop :=
  NamesAttribute cs attr ∧ ∀ t ∈ form.parts, t.toList <:+: cs

omit [Scalar α] in
theorem StandsIn.mono {cs ds : List Char} {attr : String} {form : Form α}
    (h : StandsIn cs attr form) (hcs : cs <:+: ds) : StandsIn ds attr form :=
  ⟨h.1.imp_right fun ⟨name, hname, hattr⟩ => ⟨name, hname.trans hcs, hattr⟩,
    fun t ht => (h.2 t ht).trans hcs⟩

omit [Scalar α] in
theorem standsIn_readWrapper (name body : List Char) :
    Yields (fun r : String × Form α => StandsIn body r.1 r.2) (readWrapper name body) := by
  unfold readWrapper
  dsimp only
  split
  · refine Yields.bind fun inner hinner => ?_
    split
    · refine .ok ⟨.inl (by simp), fun t ht => ?_⟩
      cases List.mem_singleton.mp ht
      rw [String.toList_ofList]
      exact (infix_parenthesized _ inner hinner).trans
        ((List.drop_suffix _ _).isInfix.trans (infix_trim body))
    · refine .ok ⟨.inl (by simp), fun t ht => ?_⟩
      cases List.mem_singleton.mp ht
      rw [String.toList_ofList]
      exact infix_trim body
  · exact .error _

theorem standsIn_readPlain (catalog : Catalog) (cs : List Char) :
    Yields (fun r : Option Target × String × Form α => StandsIn cs r.2.1 r.2.2)
      (readPlain catalog cs) := by
  have hbody : (splitTarget cs).2 <:+: cs := (suffix_splitTarget cs).isInfix
  unfold readPlain
  dsimp only
  refine Yields.bind fun r hr => ?_
  obtain ⟨name, rest⟩ := r
  obtain ⟨hname, hrest⟩ := prefix_of_word? (need_eq_ok hr)
  dsimp only
  split
  · exact Yields.bind fun r hr => .ok ((standsIn_readWrapper _ _ r hr).mono hbody)
  · refine Yields.bind fun known _ => Yields.bind fun form hform => .ok ⟨.inr ?_, fun t ht => ?_⟩
    · exact ⟨name, hname.isInfix.trans hbody, rfl⟩
    · exact (readsParts_readBody _ _ _ form hform t ht).trans
        ((suffix_trimStart rest).isInfix.trans (hrest.isInfix.trans hbody))

theorem standsIn_readUnit (catalog : Catalog) (cs : List Char) :
    Yields (fun r : Option Target × String × Form α => StandsIn cs r.2.1 r.2.2)
      (readUnit catalog cs) := by
  unfold readUnit
  split
  · next rest hif =>
    split
    · refine Yields.map fun form hform => ⟨.inl (by simp), fun t ht => ?_⟩
      exact (readsParts_readBranch rest form hform t ht).trans (suffix_of_after? hif).isInfix
    · exact standsIn_readPlain catalog cs
  · exact standsIn_readPlain catalog cs

/-- What the units of a text are made of stands in the text. -/
theorem standsIn_of_mem {catalog : Catalog} {text : String} {c : Clause α}
    (hc : .clause c ∈ parseEffect catalog text) : StandsIn text.toList c.attr c.form := by
  obtain ⟨u, hu, hparse⟩ := List.mem_map.mp hc
  have hunit : StandsIn (trim u) c.attr c.form :=
    standsIn_readUnit catalog (trim u) _ (readUnit_of_parseUnit hparse)
  exact hunit.mono ((infix_trim u).trans (infix_of_mem_split hu))

end Effect
end DeckDuel
