/-
DeckDuel.Proofs.StatusAddress — reaching a status by its id.

The id of a status is read by three readers. The payload that applies a
status takes letters, digits, underscores and hyphens in any order
(`Effect.isStatusId_of_readPayload`). A unit on its stacks takes a word,
and a value takes names joined by points.

* `Effect.named` — the word characters that an id starts with; this is
  as far as the address of a status is read.
* `Effect.reached_iff_isWord` — so exactly the ids that are words are
  reached by a unit and by a path. Any other id can be applied, but a
  unit on it is refused or lowers another status, and a value on it is
  arithmetic that starts with the stacks of `named`.

A hyphen is a minus sign to the other two readers, so they cannot take it
for a part of an id; a digit at the front is missed by the words alone
(`Effect.exists_status_out_of_reach`).
-/
import DeckDuel.Proofs.OnePass
import DeckDuel.Proofs.UnitText

namespace DeckDuel

open DeckDuel.Text DeckDuel.Variable

namespace Effect

variable {α : Type} [Scalar α]

/-- The path to the stacks of a status on the side that runs the
effect. -/
def stacksAddress (id : List Char) : List Char :=
  targetText (some .me) ++ ("stacks".toList ++ '.' :: id)

example : String.ofList (stacksAddress "burn".toList) = "ME.stacks.burn" := by decide

/-- The word characters that an id starts with. -/
def named (id : List Char) : List Char := id.takeWhile isWordChar

/-! ## Ids -/

/-- What a payload takes for an id is one. -/
theorem isStatusId_of_readPayload {payload : List Char} {id : String}
    {amount : Option (Operand α)} {duration : Option Nat}
    (h : readPayload payload = .ok (id, amount, duration)) : IsStatusId id.toList := by
  unfold readPayload at h
  dsimp only at h
  split at h
  · cases h
  · next hid =>
    have hsame : id = String.ofList (splitPayload payload).1 := by
      simp only [bind, Except.bind] at h
      repeat' split at h
      all_goals cases h
      all_goals rfl
    simp only [Bool.or_eq_true, Bool.not_eq_true', not_or, Bool.not_eq_true, Bool.not_eq_false,
      List.isEmpty_eq_false_iff, List.all_eq_true] at hid
    rw [hsame, String.toList_ofList]
    exact hid

theorem isWord_iff_named {id : List Char} :
    IsWord id ↔ id.head?.any isWordStart = true ∧ named id = id := by
  rw [IsWord, named, List.takeWhile_eq_self_iff]

theorem isOperandChar_of_isIdChar {c : Char} (h : isIdChar c = true) : isOperandChar c = true := by
  rw [isIdChar, Bool.or_eq_true, beq_iff_eq] at h
  rcases h with hword | rfl
  · exact isOperandChar_of_isWordChar hword
  · rfl

theorem isWordChar_named (id : List Char) : ∀ c ∈ named id, isWordChar c = true :=
  List.all_eq_true.mp List.all_takeWhile

theorem contains_point {w : List Char} (h : ∀ c ∈ w, isWordChar c = true) :
    w.contains '.' = false := by
  rw [← Bool.not_eq_true, List.contains_iff_mem]
  exact fun hmem => absurd (h '.' hmem) (by decide)

theorem isWord_named {id : List Char} (h : id.head?.any isWordStart = true) :
    IsWord (named id) := by
  refine ⟨?_, isWordChar_named id⟩
  cases id with
  | nil => cases h
  | cons c id =>
    have hc : isWordStart c = true := h
    simp [named, isWordChar_of_isWordStart hc, hc]

/-- An id ends with its word characters, or goes on with a hyphen. -/
theorem dropWhile_cases {id : List Char} (h : IsStatusId id) : id.dropWhile isWordChar = [] ∨
    ∃ more, id.dropWhile isWordChar = '-' :: more ∧ ∀ c ∈ more, isIdChar c = true := by
  have hrest : ∀ c ∈ id.dropWhile isWordChar, isIdChar c = true := fun c hc =>
    h.2 c ((List.dropWhile_sublist isWordChar).mem hc)
  cases hmore : id.dropWhile isWordChar with
  | nil => exact .inl rfl
  | cons c more =>
    rw [hmore, List.forall_mem_cons] at hrest
    have hword : isWordChar c = false := by
      simpa [hmore] using List.head?_dropWhile_not isWordChar id
    have hhyphen : c = '-' := by simpa [isIdChar, hword] using hrest.1
    exact .inr ⟨more, by rw [hhyphen], hrest.2⟩

/-! ## Operands -/

/-- A text of operand characters is an operand, if it has a character and
no blanks at its ends. -/
theorem exists_writesOperand {cs : List Char} (hne : cs ≠ []) (htrim : Trimmed cs)
    (h : ∀ c ∈ cs, isOperandChar c = true) : ∃ v : Operand α, WritesOperand cs v := by
  have hcs : trim cs = cs := htrim
  have hall : (!cs.isEmpty && cs.all isOperandChar) = true := by
    simpa [hne] using h
  unfold WritesOperand classify
  simp only [hcs, hall, if_true]
  split
  · exact ⟨_, htrim, rfl⟩
  · split
    · exact ⟨_, htrim, rfl⟩
    · exact ⟨_, htrim, rfl⟩

/-! ## Units -/

/-- The three names of an address. -/
theorem stacksAddress_eq (id : List Char) :
    stacksAddress id = "ME".toList ++ '.' :: ("stacks".toList ++ '.' :: id) := by
  rw [stacksAddress, targetText, List.append_assoc]
  rfl

theorem stacksAddress_split (id : List Char) :
    stacksAddress id = targetText (some .me) ++ ("stacks".toList ++ ['.']) ++ id := by
  simp [stacksAddress]

theorem stacksAddress_append (id cs : List Char) :
    stacksAddress id ++ cs = stacksAddress (id ++ cs) := by
  simp [stacksAddress]

/-- A word in the place of the id is the id of the unit. -/
theorem parseUnit_stackChange {w cs : List Char} {op : Arith} {x : Operand α} (hw : IsWord w)
    (hcs : WritesChange (op, x) cs) :
    ∃ raw text, parseUnit Catalog.standard (stacksAddress (w ++ cs)) =
      .clause ⟨raw, some .me, "stacks", .stackChange (String.ofList w) op x, text⟩ := by
  have hunit : WritesUnit (some .me) "stacks" (.stackChange (String.ofList w) op x)
      (stacksAddress (w ++ cs)) := .body (some .me) (.stackChange hw hcs)
  have htrim : trim (stacksAddress (w ++ cs)) = stacksAddress (w ++ cs) :=
    trimmed_of_writesUnit hunit
  refine ⟨String.ofList (stacksAddress (w ++ cs)), Clause.describe (some .me)
    (Catalog.standard.title "stacks") (.stackChange (String.ofList w) op x), ?_⟩
  simp only [parseUnit, htrim, readUnit_writes hunit]

/-- Anything else in its place is no id. -/
theorem parseUnit_of_not_start {cs : List Char} (h : cs.head?.any isWordStart = false)
    (hvisible : ∀ c ∈ cs, isBlank c = false) :
    ∃ raw, parseUnit Catalog.standard (stacksAddress cs) =
      (.fault raw .noStatusId : Reading α) := by
  have hfront : ∀ c ∈ targetText (some .me) ++ ("stacks".toList ++ ['.']), isBlank c = false := by
    decide
  have htrim : trim (stacksAddress cs) = stacksAddress cs := by
    refine trimmed_of_forall fun c hc => ?_
    rw [stacksAddress_split] at hc
    exact (List.mem_append.mp hc).elim (hfront c) (hvisible c)
  have hword : word? cs = none := by
    cases cs with
    | nil => rfl
    | cons c cs =>
      have hc : isWordStart c = false := h
      rw [word?, if_neg (by simp [hc])]
  have hread : readUnit Catalog.standard (stacksAddress cs) =
      (.error .noStatusId : Parse (Option Target × String × Form α)) := by
    have hbody : readStacks ('.' :: cs) = (.error .noStatusId : Parse (Form α)) := by
      simp [readStacks, hword, need, bind, Except.bind]
    have hplain := readPlain_dotted (α := α) (some .me) (a := ⟨"stacks", .status, "Stacks", 50⟩)
      (by decide) (by decide) cs
    rw [stacksAddress, readUnit_targetText _ _ (startsBody_append (by decide) _), hplain]
    simp [readBody, hbody, Except.map]
  refine ⟨String.ofList (stacksAddress cs), ?_⟩
  simp only [parseUnit, htrim, hread]

/-- The unit that adds one to the stacks of an id. -/
def addOne (id : List Char) : List Char := stacksAddress (id ++ ['+', '1'])

theorem writesChange_addOne : WritesChange (.increase, .literal (1 : Double)) ['+', '1'] :=
  @WritesChange.mk _ _ .increase _ [] [] ['1'] (by simp) (by simp) ⟨rfl, by decide +kernel⟩

/-- The characters of an id, and of what is added to it, are no blanks and
make operands. -/
theorem forall_addOne {cs : List Char} (h : ∀ c ∈ cs, isIdChar c = true) :
    ∀ c ∈ cs ++ ['+', '1'], isBlank c = false ∧ isOperandChar c = true := by
  rw [List.forall_mem_append]
  exact ⟨fun c hc => ⟨isBlank_of_isIdChar (h c hc), isOperandChar_of_isIdChar (h c hc)⟩, by decide⟩

/-- What the unit on an id is: with a word for an id it is on that id. An
id that starts like a word lowers the status that it is named after, by
whatever stands behind the hyphen. Any other id is refused. -/
theorem parseUnit_addOne {id : List Char} (h : IsStatusId id) :
    (IsWord id → ∃ raw text, parseUnit Catalog.standard (addOne id) =
      .clause ⟨raw, some .me, "stacks",
        .stackChange (String.ofList id) .increase (.literal (1 : Double)), text⟩) ∧
    (¬ IsWord id → id.head?.any isWordStart = true → named id ≠ id ∧
      ∃ raw text, ∃ v : Operand Double, parseUnit Catalog.standard (addOne id) =
        .clause ⟨raw, some .me, "stacks",
          .stackChange (String.ofList (named id)) .decrease v, text⟩) ∧
    (id.head?.any isWordStart = false → ∃ raw, parseUnit Catalog.standard (addOne id) =
      (.fault raw .noStatusId : Reading Double)) := by
  have hsplit : named id ++ id.dropWhile isWordChar = id := List.takeWhile_append_dropWhile
  refine ⟨fun hword => parseUnit_stackChange hword writesChange_addOne, fun hnot hstart => ?_,
    fun hstart => ?_⟩
  · have hne : named id ≠ id := fun hsame => hnot (isWord_iff_named.mpr ⟨hstart, hsame⟩)
    refine ⟨hne, ?_⟩
    rcases dropWhile_cases h with hrest | ⟨more, hrest, hmore⟩
    · rw [hrest, List.append_nil] at hsplit
      exact absurd hsplit hne
    · have hchars := forall_addOne hmore
      have htrim : Trimmed (more ++ ['+', '1']) := trimmed_of_forall fun c hc => (hchars c hc).1
      obtain ⟨v, hv⟩ := exists_writesOperand (α := Double) (by simp) htrim fun c hc =>
        (hchars c hc).2
      have hword : IsWord (named id) := isWord_named hstart
      have hchange : WritesChange (.decrease, v) ('-' :: (more ++ ['+', '1'])) :=
        @WritesChange.mk _ _ .decrease _ [] [] _ (by simp) (by simp) hv
      have happend : id ++ ['+', '1'] = named id ++ '-' :: (more ++ ['+', '1']) := by
        rw [← List.cons_append, ← hrest, ← List.append_assoc, hsplit]
      obtain ⟨raw, text, hunit⟩ := parseUnit_stackChange hword hchange
      rw [addOne, happend]
      exact ⟨raw, text, v, hunit⟩
  · have hhead : (id ++ ['+', '1']).head?.any isWordStart = false := by
      rw [List.head?_append_of_ne_nil _ h.1]
      exact hstart
    exact parseUnit_of_not_start hhead fun c hc => (forall_addOne h.2 c hc).1

/-! ## Values -/

theorem isPathFrom_isWordChar {w : List Char} (h : ∀ c ∈ w, isWordChar c = true)
    (rest : List Char) : isPathFrom false (w ++ rest) = isPathFrom false rest := by
  induction w with
  | nil => rfl
  | cons c w ih =>
    rw [List.forall_mem_cons] at h
    have hpoint : c ≠ '.' := by
      rintro rfl
      exact absurd h.1 (by decide)
    rw [List.cons_append, isPathFrom, if_neg (by decide), if_neg hpoint, h.1, Bool.true_and, ih h.2]

/-- Without its first name a path is one still, if it has another. -/
theorem isPath_dotted {w : List Char} (h : IsWord w) (rest : List Char) :
    isPath (w ++ '.' :: rest) = isPath rest := by
  obtain ⟨hstart, hall⟩ := h
  cases w with
  | nil => cases hstart
  | cons c w =>
    rw [List.forall_mem_cons] at hall
    have hc : isWordStart c = true := hstart
    rw [isPath, List.cons_append, isPathFrom, if_pos rfl, hc, Bool.true_and,
      isPathFrom_isWordChar hall.2, isPathFrom, if_neg (by decide), if_pos rfl, isPath]

theorem isWordChar_of_isPathFrom {cs : List Char} (h : isPathFrom false cs = true)
    (hpoint : ∀ c ∈ cs, c ≠ '.') : ∀ c ∈ cs, isWordChar c = true := by
  induction cs with
  | nil => simp
  | cons c cs ih =>
    rw [List.forall_mem_cons] at hpoint
    rw [isPathFrom, if_neg (by decide), if_neg hpoint.1, Bool.and_eq_true] at h
    exact List.forall_mem_cons.mpr ⟨h.1, ih h.2 hpoint.2⟩

/-- Of the ids only the words are paths. -/
theorem isPath_iff_isWord {id : List Char} (h : IsStatusId id) : isPath id = true ↔ IsWord id := by
  obtain ⟨c, cs, rfl⟩ := List.exists_cons_of_ne_nil h.1
  have hcs : ∀ d ∈ cs, d ≠ '.' := fun d hd =>
    ne_of_isIdChar (h.2 d (List.mem_cons_of_mem c hd)) (by decide)
  rw [isPath, isPathFrom, if_pos rfl, Bool.and_eq_true]
  constructor
  · rintro ⟨hstart, hpath⟩
    exact ⟨hstart, List.forall_mem_cons.mpr
      ⟨isWordChar_of_isWordStart hstart, isWordChar_of_isPathFrom hpath hcs⟩⟩
  · rintro ⟨hstart, hall⟩
    have hpath := isPathFrom_isWordChar (List.forall_mem_cons.mp hall).2 []
    rw [List.append_nil] at hpath
    exact ⟨hstart, hpath⟩

theorem isPath_stacksAddress (id : List Char) : isPath (stacksAddress id) = isPath id := by
  have hme : IsWord "ME".toList := by unfold IsWord; decide
  have hstacks : IsWord "stacks".toList := by unfold IsWord; decide
  rw [stacksAddress_eq, isPath_dotted hme, isPath_dotted hstacks]

/-- The address of an id is a path if the id is a word, and arithmetic
otherwise. -/
theorem classify_stacksAddress {id : List Char} (h : IsStatusId id) :
    (classify (stacksAddress id) : Except (List Char) (Operand α)) =
      .ok (if isPath id then .path (String.ofList (stacksAddress id))
        else .formula (String.ofList (stacksAddress id))) := by
  have hfront : ∀ c ∈ targetText (some .me) ++ ("stacks".toList ++ ['.']),
      isBlank c = false ∧ isOperandChar c = true := by
    decide
  have hchars : ∀ c ∈ stacksAddress id, isBlank c = false ∧ isOperandChar c = true := by
    rw [stacksAddress_split, List.forall_mem_append]
    exact ⟨hfront, fun c hc =>
      ⟨isBlank_of_isIdChar (h.2 c hc), isOperandChar_of_isIdChar (h.2 c hc)⟩⟩
  have htrim : trim (stacksAddress id) = stacksAddress id :=
    trimmed_of_forall fun c hc => (hchars c hc).1
  have hliteral : (literal? (stacksAddress id) : Option α) = none := rfl
  have hall : (!(stacksAddress id).isEmpty && (stacksAddress id).all isOperandChar) = true := by
    have hne : (stacksAddress id).isEmpty = false := rfl
    rw [hne, List.all_eq_true.mpr fun c hc => (hchars c hc).2]
    rfl
  unfold classify
  simp only [htrim, hliteral, hall, isPath_stacksAddress, if_true]
  split <;> rfl

end Effect

namespace Scope

variable {α : Type} [Scalar α]

theorem points_dotted {cs : List Char} (h : cs.contains '.' = false) (rest : List Char) :
    points (cs ++ '.' :: rest) = cs :: points rest := by
  induction cs with
  | nil => simp [points]
  | cons c cs ih =>
    simp only [List.contains_cons, Bool.or_eq_false_iff] at h
    have hc : c ≠ '.' := by
      rintro rfl
      simp at h
    rw [List.cons_append, points, if_neg hc, ih h.2]

/-- A path to stacks is worth the stacks of what stands behind the second
point. -/
theorem stacksPath_stacksAddress (sc : Scope α) {w : List Char} (h : w.contains '.' = false) :
    sc.stacksPath (Effect.stacksAddress w) = some (sc.stackCount sc.me (String.ofList w)) := by
  have hpoints : points (Effect.stacksAddress w) = ["ME".toList, "stacks".toList, w] := by
    rw [Effect.stacksAddress_eq, points_dotted (by decide), points_dotted (by decide),
      points_of_not_contains h]
  rw [stacksPath, hpoints]
  simp

/-- What is read of an address is the stacks of the word characters that
the id starts with; the rest of the id stays behind the number. -/
theorem substitute_stacksAddress [SpellsNumbers α] (sc : Scope α) {id : List Char}
    (h : Effect.IsStatusId id) : sc.substitute (Effect.stacksAddress id) =
      spell (sc.stackCount sc.me (String.ofList (Effect.named id))) ++
        sc.substitute (id.dropWhile isWordChar) := by
  have hword := Effect.isWordChar_named id
  have hrun : ∀ c ∈ Effect.stacksAddress (Effect.named id), isPathChar c = true := by
    have hfront : ∀ c ∈ Effect.targetText (some .me) ++ ("stacks".toList ++ ['.']),
        isPathChar c = true := by decide
    rw [Effect.stacksAddress_split, List.forall_mem_append]
    exact ⟨hfront, fun c hc => isPathChar_of_isWordChar (hword c hc)⟩
  have hends : EndsRun (id.dropWhile isWordChar) := by
    rcases Effect.dropWhile_cases h with hrest | ⟨more, hrest, -⟩
    · rw [hrest]
      exact endsRun_nil
    · rw [hrest]
      exact endsRun_cons (by decide)
  have hpoint : (Effect.named id).contains '.' = false := Effect.contains_point hword
  have hresolve := resolve_of_stacksPath (sc.stacksPath_stacksAddress hpoint)
  have hsplit : Effect.stacksAddress id =
      Effect.stacksAddress (Effect.named id) ++ id.dropWhile isWordChar := by
    rw [Effect.stacksAddress_append, Effect.named, List.takeWhile_append_dropWhile]
  rw [hsplit, substitute_run hrun hends]
  refine congrArg (· ++ _) (replaceRun_of_some (by decide) ?_)
  exact congrArg (Option.map spell) hresolve

/-- The keys that stand for several statuses. -/
def groupKeys : List String := ["buffs", "debuffs", "all_buffs"]

theorem counts_id {key : String} (h : key ∉ groupKeys) (s : HeldStatus) :
    counts key s = (s.id == key) := by
  unfold counts
  split <;> simp_all [groupKeys]

/-- Of distinct statuses at most one has the id. -/
theorem filter_id {held : List HeldStatus} (h : (held.map HeldStatus.id).Nodup) (id : String) :
    held.filter (·.id == id) = (held.find? (·.id == id)).toList := by
  induction held with
  | nil => rfl
  | cons s held ih =>
    rw [List.map_cons, List.nodup_cons] at h
    by_cases hs : s.id = id
    · have hnone : held.filter (·.id == id) = [] := by
        refine List.filter_eq_nil_iff.mpr fun t ht heq => h.1 ?_
        rw [hs, ← eq_of_beq heq]
        exact List.mem_map_of_mem ht
      simp [hs, hnone]
    · simp [hs, ih h.2]

theorem stackCount_id (sc : Scope α) (side : Side) {id : String} (h : id ∉ groupKeys)
    (hdistinct : ((sc.battle.fighter side).statuses.map HeldStatus.id).Nodup) :
    sc.stackCount side id = Scalar.ofNat ((sc.battle.fighter side).stacksOf id) := by
  have hcounts : counts id = (·.id == id) := funext (counts_id h)
  rw [stackCount, hcounts, filter_id hdistinct, Fighter.stacksOf, Fighter.status?]
  cases (sc.battle.fighter side).statuses.find? (·.id == id) <;> simp

end Scope

namespace Effect

/-- A unit on an id that is no word is refused, or is on the part of the
id before its first hyphen. -/
theorem parseUnit_addOne_of_not_isWord {id : List Char} (h : IsStatusId id) (hnot : ¬ IsWord id)
    {c : Clause Double} (hc : parseUnit Catalog.standard (addOne id) = .clause c) :
    named id ≠ id ∧ ∃ v, c.form = .stackChange (String.ofList (named id)) .decrease v := by
  obtain ⟨-, hother, hrefused⟩ := parseUnit_addOne h
  cases hstart : id.head?.any isWordStart with
  | true =>
    obtain ⟨hne, raw, text, v, hunit⟩ := hother hnot hstart
    rw [hunit] at hc
    cases hc
    exact ⟨hne, v, rfl⟩
  | false =>
    obtain ⟨raw, hfault⟩ := hrefused hstart
    rw [hfault] at hc
    cases hc

/-- **A status is reached by its id exactly if the id is a word.** An id
that the payload of `status.apply` takes, and that stands for no group of
statuses, names a unit on its stacks exactly if it is a word, and then
also a path, which resolves to the stacks that are held. If it is none, a
unit that is read at all lowers the status named by what stands before the
first hyphen, and a value is arithmetic: that status's stacks, followed by
what is left of the id. -/
theorem reached_iff_isWord {payload : List Char} {id : String} {amount : Option (Operand Double)}
    {duration : Option Nat} (h : readPayload payload = .ok (id, amount, duration))
    (hkey : id ∉ Scope.groupKeys) :
    ((∃ raw text, parseUnit Catalog.standard (addOne id.toList) = .clause ⟨raw, some .me, "stacks",
        .stackChange id .increase (.literal (1 : Double)), text⟩) ↔ IsWord id.toList) ∧
    ((classify (stacksAddress id.toList) : Except (List Char) (Operand Double)) =
        .ok (.path (String.ofList (stacksAddress id.toList))) ↔ IsWord id.toList) ∧
    (∀ sc : Scope Double, IsWord id.toList →
      sc.resolve (stacksAddress id.toList) = some (sc.stackCount sc.me id) ∧
        (((sc.battle.fighter sc.me).statuses.map HeldStatus.id).Nodup →
          sc.stackCount sc.me id = Scalar.ofNat ((sc.battle.fighter sc.me).stacksOf id))) ∧
    (¬ IsWord id.toList →
      (∀ c : Clause Double, parseUnit Catalog.standard (addOne id.toList) = .clause c →
        String.ofList (named id.toList) ≠ id ∧
          ∃ v, c.form = .stackChange (String.ofList (named id.toList)) .decrease v) ∧
      ∀ sc : Scope Double, sc.substitute (stacksAddress id.toList) =
        Scope.spell (sc.stackCount sc.me (String.ofList (named id.toList))) ++
          sc.substitute (id.toList.dropWhile isWordChar)) := by
  have hid : IsStatusId id.toList := isStatusId_of_readPayload h
  have hsame : String.ofList id.toList = id := String.ofList_toList
  refine ⟨⟨?_, fun hword => ?_⟩, ?_, fun sc hword => ⟨?_, sc.stackCount_id sc.me hkey⟩,
    fun hnot => ⟨fun c hc => ?_, fun sc => sc.substitute_stacksAddress hid⟩⟩
  · rintro ⟨raw, text, hunit⟩
    by_contra hnot
    obtain ⟨-, v, hform⟩ := parseUnit_addOne_of_not_isWord hid hnot hunit
    simp at hform
  · have hunit := (parseUnit_addOne hid).1 hword
    rwa [hsame] at hunit
  · rw [classify_stacksAddress hid, ← isPath_iff_isWord hid]
    cases isPath id.toList <;> simp
  · have hpath := sc.stacksPath_stacksAddress (contains_point hword.2)
    rw [hsame] at hpath
    exact Scope.resolve_of_stacksPath hpath
  · obtain ⟨hne, hform⟩ := parseUnit_addOne_of_not_isWord hid hnot hc
    refine ⟨fun heq => hne ?_, hform⟩
    have hlist := congrArg String.toList heq
    rwa [String.toList_ofList] at hlist

/-- A burning enemy runs an effect. -/
def burning : Scope Double := { Scope.boundless with me := .enemy }

/-- An id that is a word and one with a hyphen: the stacks of `burn` are
read for those of `burn-hot`. -/
theorem reached_iff_isWord_burn :
    readPayload "burn 2".toList = .ok ("burn", some (.literal (Scalar.ofNat 2 : Double)), none) ∧
    readPayload "burn-hot".toList = .ok ("burn-hot", (none : Option (Operand Double)), none) ∧
    burning.resolve (stacksAddress "burn".toList) = some (Scalar.ofNat 3) ∧
    burning.substitute (stacksAddress "burn-hot".toList) = "3-hot".toList ∧
    ¬ ∃ raw text, parseUnit Catalog.standard (addOne "burn-hot".toList) =
      .clause ⟨raw, some .me, "stacks",
        .stackChange "burn-hot" .increase (.literal (1 : Double)), text⟩ := by
  have hburn : readPayload "burn 2".toList =
      .ok ("burn", some (.literal (Scalar.ofNat 2 : Double)), none) := by decide +kernel
  have hhot : readPayload "burn-hot".toList =
      .ok ("burn-hot", (none : Option (Operand Double)), none) := by decide +kernel
  have hword : IsWord "burn".toList := by
    unfold IsWord
    decide
  have hnot : ¬ IsWord "burn-hot".toList := by
    unfold IsWord
    decide
  obtain ⟨-, -, hresolve, -⟩ := reached_iff_isWord hburn (by decide)
  obtain ⟨hunit, -, -, hother⟩ := reached_iff_isWord hhot (by decide)
  refine ⟨hburn, hhot, ?_, ?_, mt hunit.mp hnot⟩
  · have hheld : (burning.battle.fighter burning.me).stacksOf "burn" = 3 := by decide
    obtain ⟨hvalue, hcount⟩ := hresolve burning hword
    rw [hvalue, hcount (by decide), hheld]
  · rw [(hother hnot).2 burning]
    decide +kernel

/-- The id `burn-hot` can be applied, but not be reached. -/
theorem exists_status_out_of_reach : ¬ ∀ (payload : List Char) (id : String)
    (amount : Option (Operand Double)) (duration : Option Nat),
    readPayload payload = .ok (id, amount, duration) → id ∉ Scope.groupKeys →
      (∃ raw text, parseUnit Catalog.standard (addOne id.toList) = .clause ⟨raw, some .me, "stacks",
        .stackChange id .increase (.literal (1 : Double)), text⟩) ∧
      ∀ sc : Scope Double, id ∈ (sc.battle.fighter sc.me).statuses.map HeldStatus.id →
        (classify (stacksAddress id.toList) : Except (List Char) (Operand Double)) =
            .ok (.path (String.ofList (stacksAddress id.toList))) ∧
          sc.resolve (stacksAddress id.toList) =
            some (Scalar.ofNat ((sc.battle.fighter sc.me).stacksOf id)) := by
  intro hall
  have hhot : readPayload "burn-hot".toList =
      .ok ("burn-hot", (none : Option (Operand Double)), none) := by decide +kernel
  have hnot : ¬ IsWord "burn-hot".toList := by
    unfold IsWord
    decide
  obtain ⟨raw, text, hunit⟩ := (hall _ _ _ _ hhot (by decide)).1
  obtain ⟨-, v, hform⟩ :=
    parseUnit_addOne_of_not_isWord (isStatusId_of_readPayload hhot) hnot hunit
  simp at hform

end Effect
end DeckDuel
