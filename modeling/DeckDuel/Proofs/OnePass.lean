/-
DeckDuel.Proofs.OnePass — three passes over a text are one.

* `SpellsNumbers` — numbers that print as digits and points, after a
  minus sign at most, or as one of three words when they are not finite.
  Double-precision numbers are such.
* `Scope.mapPaths_spell` — no pass changes a printed number. The words
  look like names, but no scope has a value for them.
* `Variable.runs_induction` — a text is taken apart into runs of path
  characters and the characters between them.
* `Scope.substitute_eq_mapPaths` — so the three passes put in the place
  of every path what it resolves to, as a single pass would. A path that
  does not resolve is left, and makes the text worthless.
-/
import DeckDuel.Proofs.Sandbox
import DeckDuel.Proofs.Scanning
import DeckDuel.Proofs.Substitution

namespace DeckDuel

open DeckDuel.Text DeckDuel.Variable DeckDuel.Formula DeckDuel.Scalar

/-! ## Runs -/

namespace Variable

variable {replace? : List Char → Option (List Char)} {rest : List Char}

/-- A text is empty, or starts with a character outside paths, or with a
whole run of path characters. -/
@[elab_as_elim]
theorem runs_induction {motive : List Char → Prop} (nil : motive [])
    (outside : ∀ c rest, isPathChar c = false → motive rest → motive (c :: rest))
    (run : ∀ run rest, run ≠ [] → (∀ c ∈ run, isPathChar c = true) → EndsRun rest →
      motive rest → motive (run ++ rest))
    (cs : List Char) : motive cs := by
  induction hn : cs.length using Nat.strongRecOn generalizing cs with
  | ind n ih =>
    cases cs with
    | nil => exact nil
    | cons c rest =>
      cases hc : isPathChar c with
      | false => exact outside c rest hc (ih rest.length (by simp [← hn]) rest rfl)
      | true =>
        have hsplit := List.takeWhile_append_dropWhile (p := isPathChar) (l := c :: rest)
        have hends : EndsRun ((c :: rest).dropWhile isPathChar) := by
          intro d hd
          have hhead := List.head?_dropWhile_not isPathChar (c :: rest)
          rw [hd] at hhead
          simpa using hhead
        have hshort : ((c :: rest).dropWhile isPathChar).length < n := by
          have hle : (rest.dropWhile isPathChar).length ≤ rest.length :=
            (List.dropWhile_sublist isPathChar).length_le
          simp only [List.dropWhile_cons, hc, if_true, ← hn, List.length_cons]
          omega
        rw [← hsplit]
        refine run _ _ (by simp [hc]) (fun d hd => ?_) hends (ih _ hshort _ rfl)
        exact List.all_eq_true.mp List.all_takeWhile d hd

theorem mapPaths_cons {c : Char} (h : isPathChar c = false) :
    mapPaths replace? (c :: rest) = c :: mapPaths replace? rest := by
  have houtside : ∀ d ∈ [c], isPathChar d = false := by simpa using h
  exact mapPaths_outside houtside

/-- A pass leaves the ends of runs where they are. -/
theorem EndsRun.mapPaths (h : EndsRun rest) : EndsRun (mapPaths replace? rest) := by
  cases rest with
  | nil => exact endsRun_nil
  | cons c rest =>
    have hc : isPathChar c = false := h c rfl
    rw [mapPaths_cons hc]
    exact endsRun_cons hc

/-! ## The paths of a text -/

theorem pathsFrom_run {run : List Char} (hrun : ∀ c ∈ run, isPathChar c = true)
    (held : List Char) : pathsFrom held (run ++ rest) = pathsFrom (run.reverse ++ held) rest := by
  induction run generalizing held with
  | nil => rfl
  | cons c run ih =>
    rw [List.cons_append, pathsFrom, if_pos (hrun c List.mem_cons_self),
      ih (fun d hd => hrun d (List.mem_cons_of_mem c hd)) (c :: held)]
    simp

theorem paths_outside {c : Char} (h : isPathChar c = false) : paths (c :: rest) = paths rest := by
  simp [paths, pathsFrom, h]

/-- Where a run ends, nothing is held any more. -/
theorem pathsFrom_of_endsRun (h : EndsRun rest) (held : List Char) :
    pathsFrom held rest = pathsFrom held [] ++ paths rest := by
  cases rest with
  | nil => simp [paths, pathsFrom]
  | cons c rest =>
    have hc : isPathChar c = false := h c rfl
    simp [paths, pathsFrom, hc]

/-- A run is a path if it starts like a word. -/
theorem mem_paths_run {run p : List Char} (hrun : ∀ c ∈ run, isPathChar c = true)
    (h : EndsRun rest) (hp : p ∈ paths (run ++ rest)) :
    (p = run ∧ p.head?.any isWordStart = true) ∨ p ∈ paths rest := by
  rw [paths, pathsFrom_run hrun, List.append_nil, pathsFrom_of_endsRun h, List.mem_append] at hp
  refine hp.imp_left fun hhere => ?_
  simp only [pathsFrom, List.reverse_reverse] at hhere
  cases run with
  | nil => cases hhere
  | cons c run =>
    cases hc : isWordStart c with
    | false => simp [hc] at hhere
    | true =>
      simp only [hc, if_true, List.mem_singleton] at hhere
      subst hhere
      exact ⟨rfl, hc⟩

/-- A path that nothing is put in the place of is left in the text. -/
theorem subset_mapPaths_of_mem_paths {cs p : List Char} (hp : p ∈ paths cs)
    (hkept : replace? p = none) : p ⊆ mapPaths replace? cs ∧ p.head?.any isWordStart = true := by
  induction cs using runs_induction with
  | nil => cases hp
  | outside c rest hc ih =>
    rw [paths_outside hc] at hp
    obtain ⟨hsubset, hstart⟩ := ih hp
    rw [mapPaths_cons hc]
    exact ⟨fun d hd => List.mem_cons_of_mem c (hsubset hd), hstart⟩
  | run run rest _ hrun hends ih =>
    rw [mapPaths_run hrun hends]
    rcases mem_paths_run hrun hends hp with ⟨rfl, hstart⟩ | hp
    · rw [replaceRun_of_none hkept]
      exact ⟨fun d hd => List.mem_append_left _ hd, hstart⟩
    · obtain ⟨hsubset, hstart⟩ := ih hp
      exact ⟨fun d hd => List.mem_append_right _ (hsubset hd), hstart⟩

end Variable

/-! ## Names in formulas -/

namespace Formula

/-- A character that may start a name is none of conditions, and neither
a sign nor a mask. -/
theorem foreign_of_isWordStart {c : Char} (h : isWordStart c = true) :
    isConditionChar c = false ∧ c ∉ fullWidthSigns ∧ c ∉ maskChars := by
  have hnot {cs : List Char} (hcs : ∀ d ∈ cs, isWordStart d = false) : c ∉ cs := by
    intro hc
    rw [hcs c hc] at h
    cases h
  have hletter : c.isAlpha = true ∨ c = '_' := by simpa [isWordStart] using h
  have hdigit : c.isDigit = false := by
    rcases hletter with hletter | rfl
    · rw [Bool.eq_false_iff, Ne, Char.isDigit_iff_toNat]
      rintro ⟨-, hnine : c.toNat ≤ 57⟩
      rw [isAlpha_iff, isUpper_iff, isLower_iff] at hletter
      omega
    · decide
  have hblank : isBlank c = false := by
    apply isBlank_of_isWordChar
    rcases hletter with hletter | rfl
    · simp [isWordChar, Char.isAlphanum, hletter]
    · decide
  have hoperator : c ∉ ['+', '-', '*', '/', '.', '(', ')', '<', '>', '=', '!', '&', '|'] :=
    hnot (by decide)
  simp only [List.mem_cons, List.not_mem_nil, or_false, not_or] at hoperator
  refine ⟨?_, hnot (by decide), hnot (by decide)⟩
  simp [isConditionChar, isArithmeticChar, hdigit, hblank, hoperator]

end Formula

/-! ## Printed numbers -/

/-- The words for numbers that are not finite. -/
def specialWords : List (List Char) := ["inf".toList, "-inf".toList, "NaN".toList]

/-- Numbers that print as digits and points, after a minus sign at most,
or as a special word. -/
class SpellsNumbers (α : Type) [Scalar α] : Prop where
  spell_cases : ∀ x : α, IsPlainNumber (Scope.spell x) ∨ Scope.spell x ∈ specialWords

instance : SpellsNumbers Double where
  spell_cases x := by
    cases hfinite : (isFinite x : Bool) with
    | true => exact .inl (PrintsPlainly.spell_cases hfinite)
    | false =>
      have hparts : Binary64.parts? x.bits = none := by
        simpa using Option.isSome_eq_false_iff.mp hfinite
      have hspell : Scope.spell x = (Double.write Double.plainLayout "NaN" "inf" x).toList := by
        have hinteger : (integer? x : Option Int) = none := by
          show (Binary64.parts? x.bits).bind Binary64.Parts.integer? = none
          rw [hparts]
          rfl
        rw [Scope.spell, formulaText, hinteger]
        rfl
      right
      rw [hspell, Double.write, hparts]
      dsimp only
      split
      · simp [specialWords]
      · split <;> simp [specialWords]

namespace Scope

variable {α : Type} [Scalar α] {sc : Scope α}

/-- No side has a value for a word that only looks like a name. -/
theorem lookup_special (side : Side) {w : String} (hw : w = "inf" ∨ w = "NaN") :
    sc.lookup side w = none := by
  rcases hw with rfl | rfl <;> cases side <;> rfl

/-- So no pass puts anything in the place of such a word. -/
theorem special_kept {w : List Char} (hw : w ∈ ["inf".toList, "NaN".toList]) :
    sc.qualifiedPath w = none ∧ sc.barePath w = none := by
  have hcut : cutAt? (· == '.') w = none ∧ w.contains '.' = false := by
    revert w
    decide
  have hword : String.ofList w = "inf" ∨ String.ofList w = "NaN" := by
    revert w
    decide
  constructor
  · rw [qualifiedPath, hcut.1]
    rfl
  · rw [barePath, hcut.2]
    exact lookup_special sc.bare hword

/-! ## Passes -/

/-- A pass that prints the numbers it has for paths turns `w` into `w'`,
wherever `w` stands before the end of a run. -/
def Turns (value? : List Char → Option α) (w w' : List Char) : Prop :=
  ∀ rest, EndsRun rest → mapPaths (fun p => (value? p).map spell) (w ++ rest) =
    w' ++ mapPaths (fun p => (value? p).map spell) rest

variable {value? : List Char → Option α} {run : List Char}

/-- A run stays that is no path, or that the pass has no number for. -/
theorem turns_kept (hrun : ∀ c ∈ run, isPathChar c = true)
    (h : run.head?.any isWordStart = true → value? run = none) : Turns value? run run := by
  intro rest hrest
  rw [mapPaths_run hrun hrest]
  cases run with
  | nil => rfl
  | cons c cs =>
    cases hc : isWordStart c with
    | false => rw [replaceRun_of_not_start hc]
    | true => rw [replaceRun_of_none (by rw [h hc]; rfl)]

theorem turns_replaced (hrun : ∀ c ∈ run, isPathChar c = true)
    (hstart : run.head?.any isWordStart = true) {x : α} (h : value? run = some x) :
    Turns value? run (spell x) := by
  intro rest hrest
  cases run with
  | nil => cases hstart
  | cons c cs => rw [mapPaths_run hrun hrest, replaceRun_of_some hstart (by rw [h]; rfl)]

/-- A pass that has nothing for the special words leaves a printed number
as it is. -/
theorem turns_spell [SpellsNumbers α]
    (hspecial : ∀ w ∈ ["inf".toList, "NaN".toList], value? w = none) (x : α) :
    Turns value? (spell x) (spell x) := by
  intro rest hrest
  have hword {w : List Char} (hw : w ∈ ["inf".toList, "NaN".toList]) : Turns value? w w := by
    refine turns_kept ?_ fun _ => hspecial w hw
    clear hspecial
    revert w
    decide
  rcases SpellsNumbers.spell_cases x with hplain | hspell
  · exact hplain.mapPaths hrest
  · simp only [specialWords, List.mem_cons, List.not_mem_nil, or_false] at hspell
    rcases hspell with hspell | hspell | hspell
    · rw [hspell]
      exact hword (by simp) rest hrest
    · rw [hspell]
      show mapPaths _ ('-' :: ("inf".toList ++ rest)) = '-' :: ("inf".toList ++ mapPaths _ rest)
      rw [mapPaths_cons (by decide), hword (by simp) rest hrest]
    · rw [hspell]
      exact hword (by simp) rest hrest

theorem substitute_turns {w w₁ w₂ w₃ rest : List Char} (hends : EndsRun rest)
    (hstacks : Turns sc.stacksPath w w₁) (hqualified : Turns sc.qualifiedPath w₁ w₂)
    (hbare : Turns sc.barePath w₂ w₃) :
    sc.substitute (w ++ rest) = w₃ ++ sc.substitute rest := by
  simp only [substitute]
  rw [hstacks _ hends, hqualified _ hends.mapPaths, hbare _ hends.mapPaths.mapPaths]

theorem substitute_outside {c : Char} (hc : isPathChar c = false) (rest : List Char) :
    sc.substitute (c :: rest) = c :: sc.substitute rest := by
  simp only [substitute, mapPaths_cons hc]

/-- A path that no pass has a number for does not resolve. -/
theorem resolve_eq_none {path : List Char} (hstacks : sc.stacksPath path = none)
    (hqualified : sc.qualifiedPath path = none) (hbare : sc.barePath path = none) :
    sc.resolve path = none := by
  cases hresolve : sc.resolve path with
  | none => rfl
  | some x => simpa [hstacks, hqualified, hbare] using isSome_of_resolve hresolve

/-- A run is replaced by the pass that has a number for it, and kept by
the others: those before it have none, and those after it meet the printed
number. -/
theorem substitute_run [SpellsNumbers α] {rest : List Char} (hrun : ∀ c ∈ run, isPathChar c = true)
    (hends : EndsRun rest) : sc.substitute (run ++ rest) =
      replaceRun (fun p => (sc.resolve p).map spell) run ++ sc.substitute rest := by
  have hqualified (x : α) : Turns sc.qualifiedPath (spell x) (spell x) :=
    turns_spell (fun w hw => (special_kept hw).1) x
  have hbare (x : α) : Turns sc.barePath (spell x) (spell x) :=
    turns_spell (fun w hw => (special_kept hw).2) x
  -- what all three passes make of the run is what one pass over the resolved paths makes of it
  have hone {w : List Char} (h : Turns sc.resolve run w) :
      replaceRun (fun p => (sc.resolve p).map spell) run = w := by
    have hnil := h [] endsRun_nil
    rw [mapPaths_run hrun endsRun_nil] at hnil
    simpa using hnil
  cases hstart : run.head?.any isWordStart with
  | false =>
    have hkept {value? : List Char → Option α} : Turns value? run run :=
      turns_kept hrun (by simp [hstart])
    rw [substitute_turns hends hkept hkept hkept, hone hkept]
  | true =>
    have hkept {value? : List Char → Option α} (h : value? run = none) : Turns value? run run :=
      turns_kept hrun fun _ => h
    have hreplaced {value? : List Char → Option α} {x : α} (h : value? run = some x) :
        Turns value? run (spell x) := turns_replaced hrun hstart h
    cases hs : sc.stacksPath run with
    | some x =>
      rw [substitute_turns hends (hreplaced hs) (hqualified x) (hbare x),
        hone (hreplaced (resolve_of_stacksPath hs))]
    | none =>
      cases hq : sc.qualifiedPath run with
      | some x =>
        rw [substitute_turns hends (hkept hs) (hreplaced hq) (hbare x),
          hone (hreplaced (resolve_of_qualifiedPath hs hq))]
      | none =>
        cases hb : sc.barePath run with
        | some x =>
          rw [substitute_turns hends (hkept hs) (hkept hq) (hreplaced hb),
            hone (hreplaced (resolve_of_barePath hb))]
        | none =>
          rw [substitute_turns hends (hkept hs) (hkept hq) (hkept hb),
            hone (hkept (resolve_eq_none hs hq hb))]

/-! ## One pass -/

/-- **Three passes are one.** The passes put in the place of every path
the number that it resolves to, and keep the paths that do not resolve, as
one pass over the text would: none of them takes a number that an earlier
one has printed for a name, be it negative, a fraction or not finite. So
a path that does not resolve is left in the text, which makes arithmetic
zero and a condition false. -/
theorem substitute_eq_mapPaths [SpellsNumbers α] (sc : Scope α) (cs : List Char) :
    sc.substitute cs = mapPaths (fun p => (sc.resolve p).map spell) cs ∧
      ((∃ p ∈ paths cs, sc.resolve p = none) → sc.evaluate cs = 0 ∧ sc.condition cs = false) := by
  have honce : sc.substitute cs = mapPaths (fun p => (sc.resolve p).map spell) cs := by
    induction cs using runs_induction with
    | nil => rfl
    | outside c rest hc ih => rw [substitute_outside hc, mapPaths_cons hc, ih]
    | run run rest _ hrun hends ih => rw [substitute_run hrun hends, mapPaths_run hrun hends, ih]
  refine ⟨honce, ?_⟩
  rintro ⟨p, hp, hunresolved⟩
  have hkept : (sc.resolve p).map spell = none := by rw [hunresolved]; rfl
  obtain ⟨hsubset, hstart⟩ : p ⊆ mapPaths (fun p => (sc.resolve p).map spell) cs ∧
      p.head?.any isWordStart = true := subset_mapPaths_of_mem_paths hp hkept
  cases p with
  | nil => cases hstart
  | cons c p =>
    have hmem : c ∈ sc.substitute cs := honce ▸ hsubset List.mem_cons_self
    obtain ⟨hcondition, hsign, hmask⟩ := foreign_of_isWordStart hstart
    have harithmetic : isArithmeticChar c = false := by
      cases harithmetic : isArithmeticChar c with
      | false => rfl
      | true =>
        rw [isConditionChar_of_isArithmeticChar harithmetic] at hcondition
        cases hcondition
    constructor
    · rw [evaluate, Formula.amount, number?, evaluate_eq_none_of_mem harithmetic hmem]
      rfl
    · rw [condition, Formula.holds,
        evaluate_eq_none_of_mem hcondition (mem_promote_normalize hcondition hsign hmask hmem)]
      rfl

/-- A player with boundless health, whose damage is lowered by two and a
half, against a burning enemy. -/
def boundless : Scope Double where
  battle := .start
    (.fresh { Fighter.fresh "Player" ⟨0x7FF0000000000000⟩ (Scalar.ofNat 100) with
      modifiers := [("damage_modifier", ⟨0xC004000000000000⟩)] } (Scalar.ofNat 3))
    ⟨{ Fighter.fresh "Enemy" (Scalar.ofNat 15) (Scalar.ofNat 100) with
      statuses := [⟨"burn", "Burn", .debuff, 3, "", ""⟩] }, [], 0⟩ 0
  codex := .empty
  me := .player
  bare := .player
  energyBefore := none

/-- Numbers of every kind, and a name that no side knows. -/
theorem substitute_eq_mapPaths_boundless :
    let text := "OP.stacks.burn*ME.hp+damage_modifier-mana".toList
    boundless.substitute text = "3*inf+-2.5-mana".toList ∧
      boundless.evaluate text = 0 ∧ boundless.condition text = false := by
  intro text
  obtain ⟨honce, hworthless⟩ := substitute_eq_mapPaths boundless text
  have hpass : mapPaths (fun p => (boundless.resolve p).map spell) text =
      "3*inf+-2.5-mana".toList := by decide +kernel
  exact ⟨honce.trans hpass, hworthless ⟨"mana".toList, by decide +kernel, by decide +kernel⟩⟩

end Scope
end DeckDuel
