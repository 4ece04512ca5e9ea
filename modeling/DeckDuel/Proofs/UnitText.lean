/-
DeckDuel.Proofs.UnitText — units as they are written.

* `Effect.WritesBody` — the texts of a unit without its target, one rule
  for each form, with the attribute and the form that they write.
* `Effect.WritesUnit` — the texts of a unit: a body, after a target or
  without one, or a branch.
* `Effect.parseUnit_writes` — a written unit is read as the unit it
  writes, and as nothing else.

The forms share their first characters, so each reader is shown to stop
where the next one has to start.
-/
import DeckDuel.Proofs.PartText
import DeckDuel.Scalar.Exact

namespace DeckDuel.Effect

open DeckDuel.Text

variable {α : Type} [Scalar α]

/-! ## Writing -/

/-- The text of a trigger around an inner text. -/
def wrap (t : Trigger) (inner : List Char) : List Char := t.keyword.toList ++ group inner

/-- The text of a target, with its point. -/
def targetText : Option Target → List Char
  | some t => t.name.toList ++ ['.']
  | none => []

/-- The texts of a unit without its target, with the attribute and the
form that they write. -/
inductive WritesBody : String → Form α → List Char → Prop where
  /-- `attribute op value` -/
  | change {a : Attribute} {op : Arith} {x : Operand α} {w : List Char} :
      a ∈ Catalog.standard.attributes → a.domain = .stat ∨ a.domain = .modifier →
      WritesChange (op, x) w → WritesBody a.name (.change op x) (a.name.toList ++ w)
  /-- `stacks.id op value` -/
  | stackChange {id : List Char} {op : Arith} {x : Operand α} {w : List Char} : IsWord id →
      WritesChange (op, x) w → WritesBody "stacks" (.stackChange (String.ofList id) op x)
        ("stacks".toList ++ '.' :: (id ++ w))
  /-- `status.apply(payload)` -/
  | apply {id : String} {amount : Option (Operand α)} {duration : Option Nat}
      {payload : List Char} : WritesPayload (id, amount, duration) payload →
      WritesBody "status" (.apply id amount duration)
        ("status".toList ++ '.' :: (Verb.apply.name.toList ++ group payload))
  /-- `status.remove(payload)` -/
  | remove {id : String} {amount : Option (Operand α)} {duration : Option Nat}
      {payload : List Char} : WritesPayload (id, amount, duration) payload →
      WritesBody "status" (.remove id amount duration)
        ("status".toList ++ '.' :: (Verb.remove.name.toList ++ group payload))
  /-- `ability.add(trigger(inner))` -/
  | grant (t : Trigger) {inner : List Char} : IsInner inner →
      WritesBody "ability" (.grant t.keyword (String.ofList (wrap t inner)))
        ("ability".toList ++ '.' :: (Verb.add.name.toList ++ group (wrap t inner)))
  /-- `ability.remove(key)` -/
  | revoke {key : List Char} : key ≠ [] → IsInner key →
      WritesBody "ability" (.revoke (String.ofList key))
        ("ability".toList ++ '.' :: (Verb.remove.name.toList ++ group key))
  /-- `trigger(inner)` -/
  | wrapper {t : Trigger} {inner : List Char} : t ≠ .passive → IsInner inner →
      WritesBody "ability" (.grant t.keyword (String.ofList (wrap t inner))) (wrap t inner)
  /-- `passive(inner)` -/
  | passive {inner : List Char} : IsInner inner →
      WritesBody "passive" (.passive (String.ofList inner)) (wrap .passive inner)
  /-- `attribute.selector` -/
  | picked {a : Attribute} {terms : List SelectorTerm} {w : List Char} :
      a ∈ Catalog.standard.attributes → a.domain = .card → a.name ≠ "cost" →
      Selector.Writes terms w →
      WritesBody a.name (.cards (some ⟨terms⟩) none) (a.name.toList ++ '.' :: w)
  /-- `attribute op value` -/
  | counted {a : Attribute} {op : Arith} {x : Operand α} {w : List Char} :
      a ∈ Catalog.standard.attributes → a.domain = .card → WritesChange (op, x) w →
      WritesBody a.name (.cards none (some (op, x))) (a.name.toList ++ w)
  /-- `attribute.selector op value`; after a `+` the value must not look
  like one more term. -/
  | pickedCounted {a : Attribute} {terms : List SelectorTerm} {w : List Char} {op : Arith}
      {x : Operand α} {w' : List Char} :
      a ∈ Catalog.standard.attributes → a.domain = .card → Selector.Writes terms w →
      WritesChange (op, x) w' → (∀ next, w' = '+' :: next → Selector.starts next = false) →
      WritesBody a.name (.cards (some ⟨terms⟩) (some (op, x))) (a.name.toList ++ '.' :: (w ++ w'))

/-- The texts of a unit, with the target, the attribute and the form that
they write. -/
inductive WritesUnit : Option Target → String → Form α → List Char → Prop where
  | body (target : Option Target) {attr : String} {form : Form α} {w : List Char} :
      WritesBody attr form w → WritesUnit target attr form (targetText target ++ w)
  /-- `if[condition][effect]` -/
  | branch {c t : List Char} : c ≠ [] → IsPart c → IsPart t →
      WritesUnit none "if" (.branch (String.ofList c) (String.ofList t) none)
        ("if".toList ++ (bracket c ++ bracket t))
  /-- `if[condition][effect][else]` -/
  | branchElse {c t e : List Char} : c ≠ [] → IsPart c → IsPart t → IsPart e →
      WritesUnit none "if"
        (.branch (String.ofList c) (String.ofList t) (some (String.ofList e)))
        ("if".toList ++ (bracket c ++ (bracket t ++ bracket e)))

/-! ## First characters -/

/-- Does the text start like a body? Targets start with a capital, and
branches with an `i`. -/
def startsBody (cs : List Char) : Bool := cs.head?.any fun c => c.isLower && c != 'i'

theorem startsBody_append {cs : List Char} (h : startsBody cs = true) (rest : List Char) :
    startsBody (cs ++ rest) = true := by
  cases cs with
  | nil => cases h
  | cons c cs => exact h

theorem startsBody_cons {c : Char} {cs : List Char} :
    startsBody (c :: cs) = true ↔ c.isLower = true ∧ c ≠ 'i' := by
  simp [startsBody]

/-! ## Names -/

section

variable {a : Attribute} (ha : a ∈ Catalog.standard.attributes)
include ha

theorem canonicalName_name : canonicalName a.name = a.name := by
  have hfound := List.find?_some (Catalog.get?_standard ha)
  exact (eq_of_beq hfound).symm

theorem isWord_name : IsWord a.name.toList := by
  revert a
  unfold IsWord
  decide

/-- Only `if` starts like a branch. -/
theorem startsBody_name (hdomain : a.domain ≠ .special) : startsBody a.name.toList = true := by
  revert a
  decide

end

theorem isWord_keyword (t : Trigger) : IsWord t.keyword.toList := by
  unfold IsWord
  cases t <;> decide

theorem startsBody_keyword (t : Trigger) : startsBody t.keyword.toList = true := by
  cases t <;> decide

theorem ofKeyword?_keyword (t : Trigger) : Trigger.ofKeyword? t.keyword = some t := by
  cases t <;> decide

theorem isKeyword_keyword (t : Trigger) : Trigger.isKeyword t.keyword = true := by
  rw [Trigger.isKeyword, ofKeyword?_keyword]
  rfl

/-- No two triggers share a keyword. -/
theorem keyword_inj {t t' : Trigger} : t.keyword = t'.keyword ↔ t = t' := by
  constructor
  · intro h
    have hfound := ofKeyword?_keyword t
    rw [h, ofKeyword?_keyword] at hfound
    exact (Option.some.inj hfound).symm
  · rintro rfl
    rfl

/-! ## Targets -/

theorem splitTarget_some (t : Target) (w : List Char) :
    splitTarget (targetText (some t) ++ w) = (some t, w) := by
  cases t <;> simp [splitTarget, targetSpellings, targetText, Target.name, after?]

/-- A target is split off, and only where one is written. -/
theorem splitTarget_targetText (target : Option Target) {w : List Char} (h : startsBody w = true) :
    splitTarget (targetText target ++ w) = (target, w) := by
  cases target with
  | some t => exact splitTarget_some t w
  | none =>
    cases w with
    | nil => cases h
    | cons c cs =>
      have hlower : c.isLower = true := (startsBody_cons.mp h).1
      have hne {d : Char} (hd : d.isLower = false) : d ≠ c := by
        rintro rfl
        exact absurd hlower (by simp [hd])
      have hm : 'M' ≠ c := hne (by decide)
      have ho : 'O' ≠ c := hne (by decide)
      have ha : 'A' ≠ c := hne (by decide)
      simp [splitTarget, targetSpellings, targetText, after?, hm, ho, ha]

/-- A body is no branch. -/
theorem readUnit_targetText (catalog : Catalog) (target : Option Target) {w : List Char}
    (h : startsBody w = true) : readUnit catalog (targetText target ++ w) =
      (readPlain catalog (targetText target ++ w) : Parse (Option Target × String × Form α)) := by
  have hhead : (targetText target ++ w).head? ≠ some 'i' := by
    cases target with
    | some t => cases t <;> simp [targetText, Target.name]
    | none =>
      cases w with
      | nil => cases h
      | cons c cs =>
        intro hc
        cases hc
        exact (startsBody_cons.mp h).2 rfl
  rw [readUnit, after?_eq_none_of_head hhead]

/-! ## Bodies -/

/-- A named body is left to the reader of its domain, from its first
character that is no blank on. -/
theorem readPlain_named (target : Option Target) {a : Attribute}
    (ha : a ∈ Catalog.standard.attributes) (hdomain : a.domain ≠ .special) {rest : List Char}
    (hword : EndsWord rest) {c : Char} {tail : List Char} (hrest : trimStart rest = c :: tail)
    (hc : c ≠ '(') :
    readPlain Catalog.standard (targetText target ++ (a.name.toList ++ rest)) =
      (readBody a.domain a.name (c :: tail)).map fun form : Form α => (target, a.name, form) := by
  have hsplit := splitTarget_targetText target (startsBody_append (startsBody_name ha hdomain) rest)
  cases hread : readBody (α := α) a.domain a.name (c :: tail) <;>
    simp [readPlain, hsplit, word?_append (isWord_name ha) hword, need, hrest, hc,
      canonicalName_name ha, Catalog.get?_standard ha, hread, bind, Except.bind, Except.map]

/-- A body with a point after its attribute. -/
theorem readPlain_dotted (target : Option Target) {a : Attribute}
    (ha : a ∈ Catalog.standard.attributes) (hdomain : a.domain ≠ .special) (rest : List Char) :
    readPlain Catalog.standard (targetText target ++ (a.name.toList ++ '.' :: rest)) =
      (readBody a.domain a.name ('.' :: rest)).map fun form : Form α => (target, a.name, form) := by
  refine readPlain_named target ha hdomain (fun c hc => ?_) rfl (by decide)
  cases hc
  decide

theorem readPlain_pointed (target : Option Target) {a : Attribute}
    (ha : a ∈ Catalog.standard.attributes) (hdomain : a.domain ≠ .special) {rest : List Char}
    {form : Form α} (hread : readBody a.domain a.name ('.' :: rest) = .ok form) :
    readPlain Catalog.standard (targetText target ++ (a.name.toList ++ '.' :: rest)) =
      .ok (target, a.name, form) := by
  rw [readPlain_dotted target ha hdomain, hread]
  rfl

/-- A body with a change after its attribute. -/
theorem readPlain_changed (target : Option Target) {a : Attribute}
    (ha : a ∈ Catalog.standard.attributes) (hdomain : a.domain ≠ .special) {op : Arith}
    {x : Operand α} {w : List Char} (hw : WritesChange (op, x) w) {form : Form α}
    (hread : ∀ rest, readChange (op.symbol :: rest) = .ok (op, x) →
      readBody a.domain a.name (op.symbol :: rest) = .ok form) :
    readPlain Catalog.standard (targetText target ++ (a.name.toList ++ w)) =
      .ok (target, a.name, form) := by
  obtain ⟨rest, hstart, hchange⟩ := hw.exists_trimStart
  have hopen : op.symbol ≠ '(' := symbol_ne op (by decide)
  rw [readPlain_named target ha hdomain hw.endsWord hstart hopen, hread rest hchange]
  rfl

/-- A text that starts with a keyword is trimmed if it does not end in a
blank. -/
theorem trimmed_keyword_append (t : Trigger) {rest : List Char}
    (h : EndsVisible (t.keyword.toList ++ rest)) : Trimmed (t.keyword.toList ++ rest) := by
  refine trimmed_iff.mpr ⟨fun c hc => ?_, h⟩
  rw [List.head?_append_of_ne_nil _ (by cases t <;> decide)] at hc
  exact isBlank_of_isWordChar ((isWord_keyword t).2 c (List.mem_of_mem_head? hc))

theorem trimmed_wrap (t : Trigger) (inner : List Char) : Trimmed (wrap t inner) :=
  trimmed_keyword_append t (endsVisible_group _ inner)

theorem isInner_wrap (t : Trigger) {inner : List Char} (h : IsInner inner) : IsInner (wrap t inner) := by
  refine ⟨trimmed_wrap t inner, ?_⟩
  have hkeyword : Balanced '(' ')' t.keyword.toList :=
    balanced_of_forall (by cases t <;> decide)
  exact hkeyword.append (.group h.2 .nil)

theorem word?_wrap (t : Trigger) (inner : List Char) :
    word? (wrap t inner) = some (t.keyword.toList, group inner) :=
  word?_append (isWord_keyword t) (endsWord_group inner)

/-- A wrapped text is taken apart again. -/
theorem unwrap_wrap (t : Trigger) (inner : List Char) :
    unwrap (wrap t inner) = some (t.keyword.toList, trim inner) := by
  have htrim : trim (wrap t inner) = wrap t inner := trimmed_wrap t inner
  have hlast : dropLast? ')' (inner ++ [')']) = some inner := dropLast?_eq_some_iff.mpr rfl
  rw [unwrap, htrim, word?_wrap]
  simp [group, hlast]

/-- A wrapped text is read as an ability, or as the passive text. -/
theorem readPlain_wrap (catalog : Catalog) (target : Option Target) (t : Trigger) {inner : List Char}
    (h : IsInner inner) : readPlain catalog (targetText target ++ wrap t inner) =
      (.ok (target, if t = .passive then ("passive", .passive (String.ofList inner))
        else ("ability", .grant t.keyword (String.ofList (wrap t inner)))) :
        Parse (Option Target × String × Form α)) := by
  have hkeyword : Trigger.isKeyword t.keyword = true := isKeyword_keyword t
  have hsplit :=
    splitTarget_targetText target (startsBody_append (startsBody_keyword t) (group inner))
  have htrim : trim (wrap t inner) = wrap t inner := trimmed_wrap t inner
  have hdrop : (wrap t inner).drop t.keyword.toList.length = group inner := List.drop_left
  have hgroup : trimStart (group inner) = '(' :: (inner ++ [')']) :=
    trimStart_eq_self_iff.mpr fun c hc => by cases hc; decide
  have hwrapper : readWrapper t.keyword.toList (wrap t inner) =
      (.ok (if t = .passive then ("passive", .passive (String.ofList inner))
        else ("ability", .grant t.keyword (String.ofList (wrap t inner)))) :
        Parse (String × Form α)) := by
    by_cases ht : t = .passive
    · subst ht
      simp [readWrapper, hkeyword, htrim, hdrop, parenthesized_group h, bind, Except.bind]
    · have hne : t.keyword ≠ Trigger.passive.keyword := mt keyword_inj.mp ht
      simp [readWrapper, hkeyword, htrim, hdrop, parenthesized_group h, bind, Except.bind, hne, ht]
  rw [← wrap] at hsplit
  simp [readPlain, hsplit, word?_wrap, need, hgroup, hwrapper, bind, Except.bind]

/-! ## Card bodies -/

theorem endsTerm_change {op : Arith} {x : Operand α} {w : List Char} (h : WritesChange (op, x) w) :
    Selector.EndsTerm w := by
  obtain ⟨rest, hstart, -⟩ := h.exists_trimStart
  refine fun c hc => ⟨h.endsWord c hc, ?_⟩
  rintro rfl
  cases w with
  | nil => cases hc
  | cons d w =>
    cases hc
    -- a bracket is no blank, so it would be the operator
    have hop : '[' = op.symbol := (List.cons.inj hstart).1
    exact symbol_ne op (by decide) hop.symm

theorem readCards_picked {attr : String} (hcost : attr ≠ "cost") {terms : List SelectorTerm}
    {w : List Char} (h : Selector.Writes terms w) :
    readCards attr ('.' :: w) = (.ok (.cards (some ⟨terms⟩) none) : Parse (Form α)) := by
  have hread : Selector.read w = .ok (⟨terms⟩, []) := by
    have hends : Selector.Ends [] := ⟨by simp [Selector.EndsTerm], by simp⟩
    simpa using Selector.read_writes h hends
  simp [readCards, readSelector, hread, isBlankText, hcost, bind, Except.bind]

theorem readCards_counted (attr : String) {op : Arith} {x : Operand α} {rest : List Char}
    (h : readChange (op.symbol :: rest) = .ok (op, x)) :
    readCards attr (op.symbol :: rest) = .ok (.cards none (some (op, x))) := by
  have hpoint : op.symbol ≠ '.' := symbol_ne op (by decide)
  simp [readCards, readSelector, hpoint, isBlankText, h, bind, Except.bind]

theorem readCards_pickedCounted (attr : String) {terms : List SelectorTerm} {w w' : List Char}
    {op : Arith} {x : Operand α} (h : Selector.Writes terms w) (hchange : WritesChange (op, x) w')
    (hplus : ∀ next, w' = '+' :: next → Selector.starts next = false) :
    readCards attr ('.' :: (w ++ w')) = .ok (.cards (some ⟨terms⟩) (some (op, x))) := by
  have hselector := Selector.read_writes h ⟨endsTerm_change hchange, hplus⟩
  simp [readCards, readSelector, hselector, hchange.isBlankText, hchange.read, bind, Except.bind]

/-! ## Units -/

theorem startsBody_of_writesBody {attr : String} {form : Form α} {w : List Char}
    (h : WritesBody attr form w) : startsBody w = true := by
  have hattribute {a : Attribute} (ha : a ∈ Catalog.standard.attributes) (h : a.domain ≠ .special)
      (rest : List Char) : startsBody (a.name.toList ++ rest) = true :=
    startsBody_append (startsBody_name ha h) rest
  cases h with
  | change ha hd _ => exact hattribute ha (by rcases hd with hd | hd <;> simp [hd]) _
  | stackChange _ _ => exact startsBody_append (by decide) _
  | apply _ => exact startsBody_append (by decide) _
  | remove _ => exact startsBody_append (by decide) _
  | grant t _ => exact startsBody_append (by decide) _
  | revoke _ _ => exact startsBody_append (by decide) _
  | wrapper _ _ => exact startsBody_append (startsBody_keyword _) _
  | passive _ => exact startsBody_append (startsBody_keyword _) _
  | picked ha hd _ _ => exact hattribute ha (by simp [hd]) _
  | counted ha hd _ => exact hattribute ha (by simp [hd]) _
  | pickedCounted ha hd _ _ _ => exact hattribute ha (by simp [hd]) _

theorem endsVisible_of_writesBody {attr : String} {form : Form α} {w : List Char}
    (h : WritesBody attr form w) (before : List Char) : EndsVisible (before ++ w) := by
  have hgroup (name verb : String) (cs : List Char) :
      EndsVisible (before ++ (name.toList ++ '.' :: (verb.toList ++ group cs))) := by
    simpa using endsVisible_group (before ++ name.toList ++ '.' :: verb.toList) cs
  cases h with
  | @change a _ _ _ _ _ hw => simpa using hw.endsVisible (before ++ a.name.toList)
  | @stackChange id _ _ _ _ hw => simpa using hw.endsVisible (before ++ "stacks".toList ++ '.' :: id)
  | apply _ => exact hgroup "status" Verb.apply.name _
  | remove _ => exact hgroup "status" Verb.remove.name _
  | grant t _ => exact hgroup "ability" Verb.add.name _
  | revoke _ _ => exact hgroup "ability" Verb.remove.name _
  | @wrapper t inner _ _ => simpa [wrap] using endsVisible_group (before ++ t.keyword.toList) inner
  | @passive inner _ =>
    simpa [wrap] using endsVisible_group (before ++ Trigger.passive.keyword.toList) inner
  | @picked a _ w _ _ _ hw =>
    simpa using hw.endsVisible.append hw.ne_nil (before ++ a.name.toList ++ ['.'])
  | @counted a _ _ _ _ _ hw => simpa using hw.endsVisible (before ++ a.name.toList)
  | @pickedCounted a _ w _ _ _ _ _ _ hw _ =>
    simpa using hw.endsVisible (before ++ a.name.toList ++ '.' :: w)

/-- One case for each form. -/
theorem readPlain_writes (target : Option Target) {attr : String} {form : Form α} {w : List Char}
    (h : WritesBody attr form w) :
    readPlain Catalog.standard (targetText target ++ w) = .ok (target, attr, form) := by
  cases h with
  | @change a op x w ha hd hw =>
    refine readPlain_changed target ha (by rcases hd with hd | hd <;> simp [hd]) hw fun rest hread => ?_
    rcases hd with hd | hd <;> simp [readBody, hd, readNumeric, hread, bind, Except.bind]
  | @stackChange id op x w hid hw =>
    refine readPlain_pointed target (a := ⟨"stacks", .status, "Stacks", 50⟩) (by decide) (by decide) ?_
    simp [readBody, readStacks, word?_append hid hw.endsWord, need, hw.read, bind, Except.bind]
  | apply hpayload =>
    refine readPlain_pointed target (a := ⟨"status", .status, "Status", 50⟩) (by decide) (by decide) ?_
    simp [readBody, readStatusVerb, readVerb_group .apply hpayload.isInner,
      readPayload_writes hpayload, bind, Except.bind]
  | remove hpayload =>
    refine readPlain_pointed target (a := ⟨"status", .status, "Status", 50⟩) (by decide) (by decide) ?_
    simp [readBody, readStatusVerb, readVerb_group .remove hpayload.isInner,
      readPayload_writes hpayload, bind, Except.bind]
  | grant t hinner =>
    refine readPlain_pointed target (a := ⟨"ability", .ability, "Ability", 60⟩) (by decide) (by decide) ?_
    simp [readBody, readAbilityVerb, readVerb_group .add (isInner_wrap t hinner), unwrap_wrap t,
      need, isKeyword_keyword t, bind, Except.bind]
  | revoke hne hkey =>
    refine readPlain_pointed target (a := ⟨"ability", .ability, "Ability", 60⟩) (by decide) (by decide) ?_
    simp [readBody, readAbilityVerb, readVerb_group .remove hkey, hne, bind, Except.bind]
  | wrapper ht hinner => rw [readPlain_wrap _ target _ hinner, if_neg ht]
  | passive hinner => rw [readPlain_wrap _ target _ hinner, if_pos rfl]
  | picked ha hd hcost hw =>
    refine readPlain_pointed target ha (by simp [hd]) ?_
    rw [hd]
    exact readCards_picked hcost hw
  | counted ha hd hw =>
    refine readPlain_changed target ha (by simp [hd]) hw fun rest hread => ?_
    rw [hd]
    exact readCards_counted _ hread
  | pickedCounted ha hd hw hchange hplus =>
    refine readPlain_pointed target ha (by simp [hd]) ?_
    rw [hd]
    exact readCards_pickedCounted _ hw hchange hplus

omit [Scalar α] in
/-- The groups of a branch are its parts. -/
theorem readBranch_two {c t : List Char} (hne : c ≠ []) (hc : IsPart c) (ht : IsPart t) :
    readBranch (bracket c ++ bracket t) =
      (.ok (.branch (String.ofList c) (String.ofList t) none) : Parse (Form α)) := by
  have hgroups : readGroups none (bracket c ++ bracket t) = some ([], [c, t], []) := by
    have hlast := readGroups_bracket ht.2 []
    rw [List.append_nil] at hlast
    rw [readGroups_bracket hc.2, hlast]
    rfl
  have hcTrim : trim c = c := hc.1
  have htTrim : trim t = t := ht.1
  simp [readBranch, hgroups, need, isBlankText, hcTrim, htTrim, hne, bind, Except.bind]

omit [Scalar α] in
theorem readBranch_three {c t e : List Char} (hne : c ≠ []) (hc : IsPart c) (ht : IsPart t)
    (he : IsPart e) : readBranch (bracket c ++ (bracket t ++ bracket e)) =
      (.ok (.branch (String.ofList c) (String.ofList t) (some (String.ofList e))) :
        Parse (Form α)) := by
  have hgroups : readGroups none (bracket c ++ (bracket t ++ bracket e)) =
      some ([], [c, t, e], []) := by
    have hlast := readGroups_bracket he.2 []
    rw [List.append_nil] at hlast
    rw [readGroups_bracket hc.2, readGroups_bracket ht.2, hlast]
    rfl
  have hcTrim : trim c = c := hc.1
  have htTrim : trim t = t := ht.1
  have heTrim : trim e = e := he.1
  simp [readBranch, hgroups, need, isBlankText, hcTrim, htTrim, heTrim, hne, bind, Except.bind]

theorem readUnit_writes {target : Option Target} {attr : String} {form : Form α} {w : List Char}
    (h : WritesUnit target attr form w) :
    readUnit Catalog.standard w = .ok (target, attr, form) := by
  have hstarts (c rest : List Char) : startsGroup (bracket c ++ rest) = true := rfl
  cases h with
  | body target hbody =>
    rw [readUnit_targetText Catalog.standard target (startsBody_of_writesBody hbody),
      readPlain_writes target hbody]
  | branch hne hc ht =>
    rw [readUnit, show "if".toList = ['i', 'f'] from by decide, after?_append]
    simp [hstarts, readBranch_two hne hc ht, Except.map]
  | branchElse hne hc ht he =>
    rw [readUnit, show "if".toList = ['i', 'f'] from by decide, after?_append]
    simp [hstarts, readBranch_three hne hc ht he, Except.map]

/-- A written unit has no blanks around it. -/
theorem trimmed_of_writesUnit {target : Option Target} {attr : String} {form : Form α}
    {w : List Char} (h : WritesUnit target attr form w) : Trimmed w := by
  have hif : "if".toList = ['i', 'f'] := by decide
  cases h with
  | @body target _ _ w hbody =>
    refine trimmed_iff.mpr ⟨fun c hc => ?_, endsVisible_of_writesBody hbody (targetText target)⟩
    have hstart := startsBody_of_writesBody hbody
    cases target with
    | some t =>
      have hhead : ∀ c ∈ t.name.toList.head?, isBlank c = false := by cases t <;> decide
      have hne : t.name.toList ≠ [] := by cases t <;> decide
      rw [targetText, List.append_assoc, List.head?_append_of_ne_nil _ hne] at hc
      exact hhead c hc
    | none =>
      cases w with
      | nil => cases hc
      | cons d w =>
        cases hc
        have hlower : c.isLower = true := (startsBody_cons.mp hstart).1
        have halpha : c.isAlpha = true := isAlpha_iff.mpr (.inr hlower)
        exact isBlank_of_isWordChar (by simp [isWordChar, Char.isAlphanum, halpha])
  | @branch c t _ _ _ =>
    rw [hif]
    refine trimmed_cons (by decide) ?_
    simpa using endsVisible_bracket ('i' :: 'f' :: bracket c) t
  | @branchElse c t e _ _ _ _ =>
    rw [hif]
    refine trimmed_cons (by decide) ?_
    simpa using endsVisible_bracket ('i' :: 'f' :: (bracket c ++ bracket t)) e

/-- **Units print and parse back.** -/
theorem parseUnit_writes {target : Option Target} {attr : String} {form : Form α} {w : List Char}
    (h : WritesUnit target attr form w) : parseUnit Catalog.standard w =
      .clause ⟨String.ofList w, target, attr, form,
        Clause.describe target (Catalog.standard.title attr) form⟩ := by
  have htrim : trim w = w := trimmed_of_writesUnit h
  rw [parseUnit]
  simp only [htrim, readUnit_writes h]

/-- Two cards of the hand that the host chooses and as many more as the
opponent has hit points: the `+` starts no second term. -/
theorem parseUnit_writes_discard :
    WritesUnit (some .all) "discard"
      (.cards (some ⟨[⟨some .hand, .choose 2⟩]⟩) (some (.increase, (.path "OP.hp" : Operand Exact))))
      "ALL.discard.hand.choose[2]+OP.hp".toList ∧
    parseUnit Catalog.standard "ALL.discard.hand.choose[2]+OP.hp".toList =
      .clause ⟨"ALL.discard.hand.choose[2]+OP.hp", some .all, "discard",
        .cards (some ⟨[⟨some .hand, .choose 2⟩]⟩) (some (.increase, (.path "OP.hp" : Operand Exact))),
        "ALL Discard +OP.hp"⟩ := by
  have hcount : Selector.WritesCount 2 ['2'] :=
    @Selector.WritesCount.mk 2 [] [] ['2'] [] (by simp) (.inl rfl)
      ⟨by decide, by decide, by decide, by decide⟩ (by simp)
  have hselector : Selector.Writes [⟨some .hand, .choose 2⟩] "hand.choose[2]".toList :=
    .last (.pile .hand (.counted (k := .choose) rfl hcount))
  have hchange : WritesChange (.increase, (.path "OP.hp" : Operand Exact)) "+OP.hp".toList :=
    @WritesChange.mk _ _ .increase _ [] [] "OP.hp".toList (by simp) (by simp) ⟨rfl, rfl⟩
  have hunit : WritesUnit (some .all) "discard" (.cards (some ⟨[⟨some .hand, .choose 2⟩]⟩)
      (some (.increase, (.path "OP.hp" : Operand Exact)))) "ALL.discard.hand.choose[2]+OP.hp".toList :=
    .body (some .all) (.pickedCounted (a := ⟨"discard", .card, "Discard", 70⟩) (by decide) rfl hselector
      hchange fun next hnext => by cases hnext; decide)
  exact ⟨hunit, parseUnit_writes hunit⟩

end DeckDuel.Effect
