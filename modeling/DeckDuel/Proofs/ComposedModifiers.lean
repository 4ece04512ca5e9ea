/-
DeckDuel.Proofs.ComposedModifiers — the modifier of a side, from the
terms that its texts write.

* `Factor` — what a `hold` text may multiply with: a number or the
  stacks of its status.
* `WritesList.substitute` — putting a stack count into a written list
  gives a written list that does the same as the terms with the count
  in the place of the stacks. The pass also qualifies modifier names,
  and replaces `stacks` where it stands as the name of a term; neither
  makes a term count that did not, nor the other way round
  (`Item.replaced`).
* `Battle.adjustment_eq_foldl` — so the modifier of a side takes the
  terms of the player's relics, then those of the held statuses, each
  one once and in order, and adds the stored value at the end.
-/
import DeckDuel.Modifier.Resolve
import DeckDuel.Proofs.WrittenTerms

namespace DeckDuel.Modifier

open DeckDuel.Effect DeckDuel.Formula DeckDuel.Text DeckDuel.Variable

variable {α β : Type}

/-! ## Stacks in values -/

/-- A factor in a text of a status. -/
inductive Factor where
  | number (d : Unsigned)
  | stackCount

/-- A count, as it is written. -/
def Unsigned.ofCount (n : Nat) : Unsigned where
  text := (toString n).toList
  unsigned := by
    have hprint : (toString n).toList = Nat.toDigits 10 n := Nat.toList_repr
    rw [hprint]
    exact Double.isUnsigned_toDigits n

namespace Factor

/-- The text of a factor. -/
def text : Factor → List Char
  | number d => d.text
  | stackCount => "stacks".toList

/-- The factor with a count in the place of the stacks. -/
def put (n : Nat) : Factor → Unsigned
  | number d => d
  | stackCount => .ofCount n

end Factor

/-! ## The pass over a text -/

/-- What the pass puts in the place of a path. -/
def replacement? (n : Nat) (path : List Char) : Option (List Char) :=
  if path = "stacks".toList then some (Unsigned.ofCount n).text
  else if isModifierName (String.ofList path) then some ("ME.".toList ++ path)
  else none

variable {n : Nat} {rest : List Char}

theorem substituteStacks_run {run : List Char} (hrun : ∀ c ∈ run, isPathChar c = true)
    (hrest : EndsRun rest) : substituteStacks n (run ++ rest) =
      replaceRun (replacement? n) run ++ substituteStacks n rest :=
  mapPaths_run hrun hrest

theorem substituteStacks_gap {gap : List Char} (h : IsGap gap) :
    substituteStacks n (gap ++ rest) = gap ++ substituteStacks n rest :=
  mapPaths_outside fun c hc => isPathChar_of_isSeparator (h c hc)

theorem substituteStacks_cons {c : Char} (h : isPathChar c = false) :
    substituteStacks n (c :: rest) = c :: substituteStacks n rest := by
  have hpath : ∀ d ∈ [c], isPathChar d = false := by simpa using h
  exact mapPaths_outside hpath

/-- Stacks are replaced by their count, numbers stay. -/
theorem Factor.substitute (f : Factor) (hrest : EndsRun rest) :
    substituteStacks n (f.text ++ rest) = (f.put n).text ++ substituteStacks n rest := by
  cases f with
  | number d =>
    obtain ⟨c, cs, htext, hc, -⟩ := d.exists_cons
    have hkept : replaceRun (replacement? n) d.text = d.text := by
      rw [htext, replaceRun_of_not_start (isWordStart_of_isNumberChar hc)]
    have hpath : ∀ c ∈ d.text, isPathChar c = true := fun c hc =>
      isPathChar_of_isNumberChar (d.unsigned.2 c hc)
    calc substituteStacks n (d.text ++ rest)
        = replaceRun (replacement? n) d.text ++ substituteStacks n rest :=
          substituteStacks_run hpath hrest
      _ = d.text ++ substituteStacks n rest := by rw [hkept]
  | stackCount =>
    have hpath : ∀ c ∈ "stacks".toList, isPathChar c = true := by decide
    exact substituteStacks_run hpath hrest

theorem WritesMore.substitute {more : List (Joint × Factor)} {w : List Char}
    (h : WritesMore Factor.text more w) (n : Nat) :
    ∃ w', WritesMore Unsigned.text (more.map fun p => (p.1, p.2.put n)) w' ∧
      ∀ rest, EndsRun rest → substituteStacks n (w ++ rest) = w' ++ substituteStacks n rest := by
  induction h with
  | nil => exact ⟨[], .nil, fun _ _ => rfl⟩
  | @cons before after w j f more hbefore hafter hmore ih =>
    obtain ⟨w', hw', hpass⟩ := ih
    refine ⟨_, .cons hbefore hafter hw', fun rest hrest => ?_⟩
    simp only [List.append_assoc, List.cons_append]
    rw [substituteStacks_gap hbefore, substituteStacks_cons (isPathChar_symbol j),
      substituteStacks_gap hafter, f.substitute (hmore.endsRun hrest), hpass rest hrest]

theorem Chain.Writes.substitute {c : Chain Factor} {w : List Char} (h : c.Writes Factor.text w)
    (n : Nat) : ∃ w', (c.map (Factor.put n)).Writes Unsigned.text w' ∧
      ∀ rest, EndsRun rest → substituteStacks n (w ++ rest) = w' ++ substituteStacks n rest := by
  obtain @⟨w, hmore⟩ := h
  obtain ⟨w', hw', hpass⟩ := hmore.substitute n
  refine ⟨_, .intro hw', fun rest hrest => ?_⟩
  simp only [List.append_assoc]
  rw [c.first.substitute (hmore.endsRun hrest), hpass rest hrest]
  rfl

/-! ## Names in the pass -/

theorem isModifierName_iff {cs : List Char} :
    isModifierName (String.ofList cs) = true ↔ ∃ m : Modifier, cs = m.name.toList := by
  have hmem (m : Modifier) : m ∈ all := by cases m <;> decide
  simp only [isModifierName, ofName?, List.find?_isSome, beq_iff_eq]
  constructor
  · rintro ⟨m, -, hm⟩
    exact ⟨m, by rw [hm, String.toList_ofList]⟩
  · rintro ⟨m, rfl⟩
    exact ⟨m, hmem m, by rw [String.ofList_toList]⟩

/-- A path with a point is left alone. -/
theorem replacement?_of_point {path : List Char} (h : '.' ∈ path) (n : Nat) :
    replacement? n path = none := by
  have hstacks : path ≠ "stacks".toList := by
    rintro rfl
    exact absurd h (by decide)
  have hname : ¬isModifierName (String.ofList path) = true := by
    rw [isModifierName_iff]
    rintro ⟨m, rfl⟩
    exact absurd (isWordChar_name m '.' h) (by decide)
  rw [replacement?, if_neg hstacks, if_neg hname]

/-- A count is the name of no modifier. -/
theorem ofCount_ne_name (n : Nat) (m : Modifier) : (Unsigned.ofCount n).text ≠ m.name.toList := by
  intro heq
  obtain ⟨d, ds, htext, hd, -⟩ := (Unsigned.ofCount n).exists_cons
  have hstart : isWordStart d = true := isWordStart_name m d (by rw [← heq, htext]; rfl)
  simp [isWordStart_of_isNumberChar hd] at hstart

theorem isWordChar_ofCount (n : Nat) : ∀ c ∈ (Unsigned.ofCount n).text, isWordChar c = true := by
  have hprint : (Unsigned.ofCount n).text = Nat.toDigits 10 n := Nat.toList_repr
  intro c hc
  rw [hprint] at hc
  have hdigit : c.isDigit = true := Nat.isDigit_of_mem_toDigits (by omega) (by omega) hc
  simp [isWordChar, Char.isAlphanum, hdigit]

theorem replaceRun_name {replace? : List Char → Option (List Char)} {m : Modifier}
    {out : List Char} (h : replace? m.name.toList = some out) :
    replaceRun replace? m.name.toList = out := by
  have hstart := isWordStart_name m
  have hne : m.name.toList ≠ [] := by cases m <;> decide
  generalize m.name.toList = cs at h hstart hne
  cases cs with
  | nil => exact absurd rfl hne
  | cons c cs => exact replaceRun_of_some (hstart c rfl) h

/-- What becomes of the path of a term is the path of a term that counts
for the same modifiers. -/
theorem Item.replaced (i : Item β) (n : Nat) : ∃ j : Item β, j.op = i.op ∧ j.value = i.value ∧
    replaceRun (replacement? n) i.path = j.path ∧ ∀ kind, j.Names kind ↔ i.Names kind := by
  cases htarget : i.target with
  | some t =>
    have hpoint : '.' ∈ i.path := by simp [path_of_some htarget, targetText]
    exact ⟨i, rfl, rfl, replaceRun_of_none (replacement?_of_point hpoint n), fun _ => Iff.rfl⟩
  | none =>
    have hpath : i.path = i.name := path_of_none htarget
    by_cases hstacks : i.name = "stacks".toList
    · refine ⟨{ i with
          name := (Unsigned.ofCount n).text
          isName := ⟨(Unsigned.ofCount n).unsigned.1, isWordChar_ofCount n⟩ }, rfl, rfl, ?_, ?_⟩
      · rw [hpath, hstacks, path, htarget]
        rfl
      · intro kind
        have hkind : i.name ≠ kind.name.toList := by
          rw [hstacks]
          cases kind <;> decide
        exact iff_of_false (fun h => ofCount_ne_name n kind h.1) fun h => hkind h.1
    · by_cases hname : ∃ m : Modifier, i.name = m.name.toList
      · have hrun : replaceRun (replacement? n) i.name = "ME.".toList ++ i.name := by
          obtain ⟨m, hm⟩ := hname
          rw [hm]
          refine replaceRun_name ?_
          rw [← hm, replacement?, if_neg hstacks, if_pos (isModifierName_iff.mpr ⟨m, hm⟩)]
        refine ⟨{ i with target := some .me }, rfl, rfl, ?_, fun kind => ?_⟩
        · rw [hpath, hrun]
          rfl
        · simp [Names, htarget]
      · refine ⟨i, rfl, rfl, ?_, fun _ => Iff.rfl⟩
        rw [hpath]
        refine replaceRun_of_none ?_
        rw [replacement?, if_neg hstacks, if_neg (mt isModifierName_iff.mp hname)]

/-! ## Lists in the pass -/

section

variable [Scalar α]

/-- What counts for the same modifiers, with one operation and one
value, does the same. -/
theorem take_congr {i j : Item Unsigned} {kind : Modifier} (hop : j.op = i.op)
    (hvalue : j.value = i.value) (hnames : j.Names kind ↔ i.Names kind) (a : Adjustment α) :
    a.take kind j = a.take kind i := by
  simp only [Adjustment.take, hop, hvalue, hnames]

variable (α) in
/-- A term after the pass does what the term does with the count in the
place of the stacks. -/
theorem Item.Writes.substitute {i : Item Factor} {w : List Char} (h : i.Writes Factor.text w)
    (n : Nat) : ∃ (j : Item Unsigned) (w' : List Char), j.Writes Unsigned.text w' ∧
      (∀ rest, EndsRun rest → substituteStacks n (w ++ rest) = w' ++ substituteStacks n rest) ∧
      ∀ kind (a : Adjustment α), a.take kind j = a.take kind (i.map (Factor.put n)) := by
  obtain @⟨before, after, v, hbefore, hafter, hv⟩ := h
  obtain ⟨j, hop, hvalue, hpath, hnames⟩ := i.replaced n
  obtain ⟨v', hv', hpass⟩ := hv.substitute n
  refine ⟨j.map (Factor.put n), j.path ++ (before ++ j.op.symbol :: (after ++ v')),
    .intro hbefore hafter ?_, fun rest hrest => ?_, fun kind a => ?_⟩
  · rw [← hvalue] at hv'
    exact hv'
  · have hends : EndsRun (before ++ i.op.symbol :: (after ++ (v ++ rest))) :=
      endsRun_gap hbefore (endsRun_cons (isPathChar_arith i.op))
    have hrun : substituteStacks n (i.path ++ (before ++ i.op.symbol :: (after ++ (v ++ rest)))) =
        j.path ++ substituteStacks n (before ++ i.op.symbol :: (after ++ (v ++ rest))) := by
      rw [substituteStacks_run i.isPathChar_path hends, hpath]
    simp only [List.append_assoc, List.cons_append, hop]
    rw [hrun, substituteStacks_gap hbefore, substituteStacks_cons (isPathChar_arith i.op),
      substituteStacks_gap hafter, hpass rest hrest]
  · exact take_congr hop (congrArg (Chain.map (Factor.put n)) hvalue) (hnames kind) a

variable (α) in
/-- **Putting a stack count into a written list** gives a written list
that does what the terms do with the count in the place of the stacks.
By induction on the list. -/
theorem WritesList.substitute {items : List (Item Factor)} {cs : List Char}
    (h : WritesList Factor.text items cs) (n : Nat) :
    ∃ items', WritesList Unsigned.text items' (substituteStacks n cs) ∧
      ∀ kind (a : Adjustment α), items'.foldl (Adjustment.take kind) a =
        (items.map (Item.map (Factor.put n))).foldl (Adjustment.take kind) a := by
  have hgapEnd {gap : List Char} (hgap : IsGap gap) : substituteStacks n gap = gap := by
    have hpass : substituteStacks n (gap ++ []) = gap ++ [] := substituteStacks_gap hgap
    simpa using hpass
  induction h with
  | nil hgap =>
    rw [hgapEnd hgap]
    exact ⟨[], .nil hgap, fun _ _ => rfl⟩
  | @single i before w after hbefore hw hafter =>
    obtain ⟨j, w', hw', hpass, htake⟩ := hw.substitute α n
    have hends : EndsRun after := by simpa using endsRun_gap hafter endsRun_nil
    rw [substituteStacks_gap hbefore, hpass after hends, hgapEnd hafter]
    exact ⟨[j], .single hbefore hw' hafter, fun kind a => htake kind a⟩
  | @cons i items before w after rest hbefore hw hafter _ ih =>
    obtain ⟨j, w', hw', hpass, htake⟩ := hw.substitute α n
    obtain ⟨items', hitems', hfold⟩ := ih
    have hcomma : isPathChar ',' = false := by decide
    have hends : EndsRun (after ++ ',' :: rest) := endsRun_gap hafter (endsRun_cons hcomma)
    rw [substituteStacks_gap hbefore, hpass _ hends, substituteStacks_gap hafter,
      substituteStacks_cons hcomma]
    refine ⟨j :: items', .cons hbefore hw' hafter hitems', fun kind a => ?_⟩
    rw [List.foldl_cons, htake kind a, hfold, List.map_cons, List.foldl_cons]

end

end DeckDuel.Modifier

namespace DeckDuel

open DeckDuel.Modifier

variable {α : Type} [Scalar α]

/-! ## The modifier of a side -/

/-- The terms of a relic, if `passives` tells what a segment writes. -/
def relicTerms (passives : List Char → List (Item Unsigned)) (r : Relic) : List (Item Unsigned) :=
  (passiveSegments r.effect.toList).flatMap passives

/-- The terms of a held status with its stacks put in, if `holds` tells
what a `hold` text writes. -/
def heldTerms (codex : Codex α) (holds : List Char → List (Item Factor)) (s : HeldStatus) :
    List (Item Unsigned) :=
  match codex.get? s.id with
  | some d => d.triggers.hold.flatMap fun t =>
      (holds t.toList).map (Item.map (Factor.put s.stackCount))
  | none => []

/-- The terms of a side, in order. Only the player carries relics, and
their terms are the player's own. -/
def Battle.terms (b : Battle α) (codex : Codex α) (side : Side)
    (passives : List Char → List (Item Unsigned)) (holds : List Char → List (Item Factor)) :
    List (Item Unsigned) :=
  let relics :=
    match side with
    | .player => b.player.relics.flatMap (relicTerms passives)
    | .enemy => []
  relics ++ (b.fighter side).statuses.flatMap (heldTerms codex holds)

/-- Scanning texts one after the other takes what each of them
writes. -/
theorem foldl_scan {kind : Modifier} {texts : List (List Char)}
    {terms : List Char → List (Item Unsigned)}
    (h : ∀ t ∈ texts, WritesList Unsigned.text (terms t) t) (a : Adjustment α) :
    texts.foldl (fun a t => a.scan kind t) a =
      (texts.flatMap terms).foldl (Adjustment.take kind) a := by
  rw [List.foldl_flatMap]
  exact List.foldl_ext _ _ _ fun a t ht => (h t ht).scan kind a

/-- The texts of a status, after the pass, do what its terms do with its
stacks. -/
theorem foldl_scan_substitute {kind : Modifier} {texts : List String} {n : Nat}
    {terms : List Char → List (Item Factor)}
    (h : ∀ t ∈ texts, WritesList Factor.text (terms t.toList) t.toList) (a : Adjustment α) :
    (texts.map fun t => substituteStacks n t.toList).foldl (fun a t => a.scan kind t) a =
      (texts.flatMap fun t => (terms t.toList).map (Item.map (Factor.put n))).foldl
        (Adjustment.take kind) a := by
  rw [List.foldl_map, List.foldl_flatMap]
  refine List.foldl_ext _ _ _ fun a t ht => ?_
  obtain ⟨items, hitems, hfold⟩ := (h t ht).substitute α n
  rw [hitems.scan kind a, hfold kind a]

/-- **The modifier of a side is composed of the written terms**, and of
nothing else. Wherever the passive segments of the player's relics and
the `hold` texts of the held statuses are lists of terms, the adjustment
of a kind takes them from left to right: for the player those of the
relics, then for either side those of the statuses, with the stacks of
each status in its own terms. The directly stored value is added at the
end. -/
theorem Battle.adjustment_eq_foldl (b : Battle α) (codex : Codex α) (side : Side)
    (kind : Modifier) {passives : List Char → List (Item Unsigned)}
    {holds : List Char → List (Item Factor)}
    (hpassives : side = .player → ∀ r ∈ b.player.relics, ∀ t ∈ passiveSegments r.effect.toList,
      WritesList Unsigned.text (passives t) t)
    (hholds : ∀ s ∈ (b.fighter side).statuses, ∀ d, codex.get? s.id = some d →
      ∀ t ∈ d.triggers.hold, WritesList Factor.text (holds t.toList) t.toList) :
    b.adjustment codex side kind =
      let a := (b.terms codex side passives holds).foldl (Adjustment.take kind) .identity
      match (b.fighter side).modifier? kind.name with
      | some x => { a with sum := a.sum + x }
      | none => a := by
  have hheld (a : Adjustment α) (s : HeldStatus) (hs : s ∈ (b.fighter side).statuses) :
      List.foldl (fun a t => Adjustment.scan kind a t) a (match codex.get? s.id with
        | some d => d.triggers.hold.map fun t => substituteStacks s.stackCount t.toList
        | none => []) =
      (heldTerms codex holds s).foldl (Adjustment.take kind) a := by
    unfold heldTerms
    cases hd : codex.get? s.id with
    | none => rfl
    | some d => exact foldl_scan_substitute (hholds s hs d hd) a
  have hfold : (modifierTexts codex b side).foldl (fun a t => a.scan kind t)
      (Adjustment.identity : Adjustment α) =
      (b.terms codex side passives holds).foldl (Adjustment.take kind) .identity := by
    unfold modifierTexts terms
    dsimp only
    rw [List.foldl_append, List.foldl_append, List.foldl_flatMap, List.foldl_flatMap]
    refine (List.foldl_ext _ _ _ hheld).trans ?_
    congr 1
    cases side with
    | player =>
      show (b.player.relics.flatMap _).foldl _ _ = (b.player.relics.flatMap _).foldl _ _
      rw [List.foldl_flatMap, List.foldl_flatMap]
      exact List.foldl_ext _ _ _ fun a r hr => foldl_scan (hpassives rfl r hr) a
    | enemy => rfl
  unfold Battle.adjustment
  cases (b.fighter side).modifier? kind.name with
  | none => exact hfold
  | some x => exact congrArg (fun a : Adjustment α => { a with sum := a.sum + x }) hfold

/-- A status that multiplies block by half its stacks. -/
def hardened : StatusDefinition Double :=
  { (.plain "hard" "Hard" .buff : StatusDefinition Double) with
    triggers := { StatusTriggers.empty with hold := ["block_modifier*stacks/2"] } }

/-- A player with a relic, three stacks of that status and a stored
value. -/
def shielded : Battle Double :=
  .start
    { Player.fresh { Fighter.fresh "Player" (Scalar.ofNat 20) (Scalar.ofNat 100) with
        statuses := [.ofDefinition hardened 3]
        modifiers := [("block_modifier", Scalar.ofNat 1)] } (Scalar.ofNat 3) with
      relics := [⟨"shell", "Shell", "passive(block_modifier+2, OP.block_modifier*9)", ""⟩] }
    ⟨.fresh "Enemy" (Scalar.ofNat 15) (Scalar.ofNat 100), [], 0⟩ 0

/-- Two and one more to add, three halves to multiply with; what is
written for the opponent is not the player's. -/
theorem Battle.adjustment_eq_foldl_shielded :
    let codex : Codex Double := Codex.empty.define hardened
    ∃ (passives : List Char → List (Item Unsigned)) (holds : List Char → List (Item Factor)),
      (Side.player = .player → ∀ r ∈ shielded.player.relics,
        ∀ t ∈ passiveSegments r.effect.toList, WritesList Unsigned.text (passives t) t) ∧
      (∀ s ∈ (shielded.fighter .player).statuses, ∀ d, codex.get? s.id = some d →
        ∀ t ∈ d.triggers.hold, WritesList Factor.text (holds t.toList) t.toList) ∧
      shielded.adjustment codex .player .block =
        ⟨Scalar.ofNat 3, Scalar.ofNat 3 / Scalar.ofNat 2⟩ := by
  intro codex
  let two : Unsigned := ⟨['2'], by decide, by decide⟩
  let nine : Unsigned := ⟨['9'], by decide, by decide⟩
  let block : List Char := "block_modifier".toList
  let mine : Item Unsigned := ⟨none, block, by decide, .increase, ⟨two, []⟩⟩
  let theirs : Item Unsigned := ⟨some .op, block, by decide, .multiply, ⟨nine, []⟩⟩
  let half : Item Factor :=
    ⟨none, block, by decide, .multiply, ⟨.stackCount, [(.dividedBy, .number two)]⟩⟩
  have hnone : Formula.IsGap [] := by simp [Formula.IsGap]
  have hblank : Formula.IsGap [' '] := by simp [Formula.IsGap, Formula.isSeparator]
  let passives : List Char → List (Item Unsigned) := fun _ => [mine, theirs]
  let holds : List Char → List (Item Factor) := fun _ => [half]
  have hpassives : Side.player = .player → ∀ r ∈ shielded.player.relics,
      ∀ t ∈ passiveSegments r.effect.toList, WritesList Unsigned.text (passives t) t := by
    intro _ r hr t ht
    obtain rfl := List.mem_singleton.mp hr
    have hsegment : t = "block_modifier+2, OP.block_modifier*9".toList := by
      have hsegments : passiveSegments "passive(block_modifier+2, OP.block_modifier*9)".toList =
          ["block_modifier+2, OP.block_modifier*9".toList] := by decide +kernel
      exact List.mem_singleton.mp (hsegments ▸ ht)
    rw [hsegment]
    exact .cons (i := mine) hnone (.intro hnone hnone (.intro .nil)) hnone
      (.single (i := theirs) hblank (.intro hnone hnone (.intro .nil)) hnone)
  have hholds : ∀ s ∈ (shielded.fighter .player).statuses, ∀ d, codex.get? s.id = some d →
      ∀ t ∈ d.triggers.hold, WritesList Factor.text (holds t.toList) t.toList := by
    intro s hs d hd t ht
    obtain rfl := List.mem_singleton.mp hs
    obtain rfl : hardened = d := by simpa [codex, Codex.define, Codex.contains, Codex.get?,
      Codex.empty, HeldStatus.ofDefinition] using hd
    obtain rfl := List.mem_singleton.mp ht
    exact .single (i := half) hnone (.intro hnone hnone (.intro (.cons hnone hnone .nil))) hnone
  refine ⟨passives, holds, hpassives, hholds, ?_⟩
  rw [shielded.adjustment_eq_foldl codex .player .block hpassives hholds]
  decide +kernel

end DeckDuel
