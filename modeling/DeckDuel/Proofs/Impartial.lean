/-
DeckDuel.Proofs.Impartial — texts that do not speak of energy or cards.

* `Impartial` — none of the words that only the player's side gives a
  meaning to occurs in a text.
* `Impartial.substituteStacks` — putting stacks into such a text leaves
  it such a text, and every part of it is one (`Impartial.part`).
* `Clause.Impartial` — a unit that names no attribute of energy or
  cards, and that is made of such texts. Such texts consist of such units
  (`Effect.impartial_of_mem`).

What only the player has is told by seven words, each of them made of
characters that paths are made of. So whether one occurs is seen from the
paths alone.
-/
import DeckDuel.Proofs.OnePass
import DeckDuel.Proofs.Parts

namespace DeckDuel

open DeckDuel.Text DeckDuel.Variable

/-! ## Words of one side -/

/-- The words that tell of energy and cards. -/
def playerWords : List (List Char) :=
  ["energy".toList, "hand_size".toList, "draw".toList, "deck_size".toList, "discard".toList,
   "exhaust".toList, "cost".toList]

/-- None of the words that tell of energy and cards occurs in the text. -/
def Impartial (cs : List Char) : Prop := ∀ w ∈ playerWords, ¬ w <:+: cs

instance : DecidablePred Impartial := fun cs =>
  inferInstanceAs (Decidable (∀ w ∈ playerWords, ¬ w <:+: cs))

/-- A word that does not contain a character lies on one side of it. -/
theorem infix_append_cons {w a b : List Char} {c : Char} (hc : c ∉ w) (h : w <:+: a ++ c :: b) :
    w <:+: a ∨ w <:+: b := by
  induction a with
  | nil =>
    rcases List.infix_cons_iff.mp h with h | h
    · rcases List.prefix_cons_iff.mp h with rfl | ⟨t, rfl, -⟩
      · exact .inl List.nil_infix
      · exact absurd List.mem_cons_self hc
    · exact .inr h
  | cons d a ih =>
    rcases List.infix_cons_iff.mp h with h | h
    · left
      have hend : w <+: d :: a ∨ d :: a ++ [c] <+: w := by
        have hpart : d :: a ++ [c] <+: d :: (a ++ c :: b) := ⟨b, by simp⟩
        rcases List.prefix_or_prefix_of_prefix h hpart with hw | hw
        · rcases List.prefix_concat_iff.mp hw with rfl | hw
          · exact .inr List.prefix_rfl
          · exact .inl hw
        · exact .inr hw
      rcases hend with hend | hend
      · exact hend.isInfix
      · exact absurd (hend.subset (by simp)) hc
    · exact (ih h).imp_left List.infix_cons

namespace Impartial

variable {cs ds : List Char}

theorem part (h : Impartial cs) (hds : ds <:+: cs) : Impartial ds :=
  fun w hw hin => h w hw (hin.trans hds)

theorem nil : Impartial [] := by decide

/-- The words are made of path characters. -/
theorem isPathChar_of_mem {w : List Char} (hw : w ∈ playerWords) : ∀ c ∈ w, isPathChar c = true := by
  revert w
  decide

theorem append_cons {c : Char} (h : Impartial cs) (hc : isPathChar c = false) (h' : Impartial ds) :
    Impartial (cs ++ c :: ds) := by
  intro w hw hin
  have hnot : c ∉ w := fun hmem => by
    rw [isPathChar_of_mem hw c hmem] at hc
    cases hc
  rcases infix_append_cons hnot hin with hin | hin
  · exact h w hw hin
  · exact h' w hw hin

/-- What ends a run keeps words apart. -/
theorem append_endsRun (h : Impartial cs) (hends : EndsRun ds) (h' : Impartial ds) :
    Impartial (cs ++ ds) := by
  cases ds with
  | nil => simpa using h
  | cons c ds => exact h.append_cons (hends c rfl) (h'.part (List.suffix_cons c ds).isInfix)

/-- Replaced by texts without the words, paths do not bring them into a
text. -/
theorem mapPaths {replace? : List Char → Option (List Char)}
    (hreplace : ∀ p out, Impartial p → replace? p = some out → Impartial out)
    (h : Impartial cs) : Impartial (Variable.mapPaths replace? cs) := by
  induction cs using runs_induction with
  | nil => exact nil
  | outside c rest hc ih =>
    rw [mapPaths_cons hc]
    exact nil.append_cons hc (ih (h.part (List.suffix_cons c rest).isInfix))
  | run run rest _ hrun hends ih =>
    have hhere : Impartial run := h.part (List.prefix_append run rest).isInfix
    have hrest := ih (h.part (List.suffix_append run rest).isInfix)
    rw [mapPaths_run hrun hends]
    refine append_endsRun ?_ hends.mapPaths hrest
    unfold replaceRun
    split
    · exact nil
    · split
      · cases hout : replace? _ with
        | none => exact hhere
        | some out => exact hreplace _ out hhere hout
      · exact hhere

theorem of_digits (h : ∀ c ∈ cs, c.isDigit = true) : Impartial cs := by
  intro w hw hin
  have hletter : w.any (fun c => !c.isDigit) = true := by
    clear hin
    revert w
    decide
  obtain ⟨c, hc, hletter⟩ := List.any_eq_true.mp hletter
  rw [h c (hin.subset hc)] at hletter
  cases hletter

/-- Stacks are put in as digits, and the names of modifiers get a prefix
that completes no word. -/
theorem substituteStacks (h : Impartial cs) (stackCount : Nat) :
    Impartial (DeckDuel.substituteStacks stackCount cs) := by
  refine mapPaths (fun p out _ hout => ?_) h
  split at hout
  · cases hout
    refine of_digits fun c hc => ?_
    rw [Nat.toString_eq_repr, Nat.toList_repr] at hc
    exact Nat.isDigit_of_mem_toDigits (b := 10) (by decide) (by decide) hc
  · split at hout
    · next hname =>
      cases hout
      obtain ⟨kind, hkind⟩ := Option.isSome_iff_exists.mp hname
      have hp : p = kind.name.toList := by
        have hfound := List.find?_some hkind
        rw [beq_iff_eq] at hfound
        rw [hfound, String.toList_ofList]
      rw [hp]
      cases kind <;> decide +kernel
    · cases hout

theorem spell {α : Type} [Scalar α] [SpellsNumbers α] (x : α) : Impartial (Scope.spell x) := by
  rcases SpellsNumbers.spell_cases x with hplain | hspecial
  · intro w hw hin
    have hletter : w.any isWordStart = true := by
      clear hin
      revert w
      decide
    obtain ⟨c, hc, hstart⟩ := List.any_eq_true.mp hletter
    have hnone := hplain.forall_mem (p := fun c => !isWordStart c) (by decide)
      (fun hc => by simp [isWordStart_of_isNumberChar hc]) c (hin.subset hc)
    rw [hstart] at hnone
    cases hnone
  · have hwords : ∀ w ∈ specialWords, Impartial w := by decide +kernel
    exact hwords _ hspecial

/-- What is put in the place of the paths of such a text is asked for
without the words. -/
theorem mapPaths_congr {replace? replace'? : List Char → Option (List Char)}
    (hreplace : ∀ p, Impartial p → replace? p = replace'? p) (h : Impartial cs) :
    Variable.mapPaths replace? cs = Variable.mapPaths replace'? cs := by
  induction cs using runs_induction with
  | nil => rfl
  | outside c rest hc ih =>
    rw [mapPaths_cons hc, mapPaths_cons hc, ih (h.part (List.suffix_cons c rest).isInfix)]
  | run run rest _ hrun hends ih =>
    have hhere : Impartial run := h.part (List.prefix_append run rest).isInfix
    have hsame : replaceRun replace? run = replaceRun replace'? run := by
      cases run with
      | nil => rfl
      | cons c run => rw [replaceRun, replaceRun, hreplace _ hhere]
    rw [mapPaths_run hrun hends, mapPaths_run hrun hends, hsame,
      ih (h.part (List.suffix_append run rest).isInfix)]

/-- A name that only the player has a value for is one of the words, or
contains one. -/
theorem not_playerOnlyName (h : Impartial cs) :
    playerOnlyNames.contains (String.ofList cs) = false := by
  have hnames : ∀ n ∈ playerOnlyNames, ¬ Impartial n.toList := by decide +kernel
  rw [← Bool.not_eq_true, List.contains_iff_mem]
  intro hmem
  have hnot := hnames _ hmem
  rw [String.toList_ofList] at hnot
  exact hnot h

/-- So is an attribute that acts on the player, whoever runs it. -/
theorem not_isPlayerOnly {attr : String} (h : Impartial cs)
    (hattr : Effect.NamesAttribute cs attr) : isPlayerOnly attr = false := by
  rcases hattr with hattr | ⟨name, hname, rfl⟩
  · revert attr
    decide
  · have hattrs : ∀ a ∈ playerOnlyAttributes, ¬ Impartial a.toList := by decide +kernel
    have haliases : ∀ a ∈ attributeAliases, a.2 ∉ playerOnlyAttributes := by decide
    rw [isPlayerOnly, ← Bool.not_eq_true, List.contains_iff_mem, canonicalName]
    intro hmem
    cases hlookup : attributeAliases.lookup (String.ofList name) with
    | none =>
      rw [hlookup] at hmem
      have hnot := hattrs _ hmem
      rw [Option.getD_none, String.toList_ofList] at hnot
      exact hnot (h.part hname)
    | some known =>
      rw [hlookup] at hmem
      obtain ⟨before, after, heq, -⟩ := List.lookup_eq_some_iff.mp hlookup
      exact haliases (String.ofList name, known) (by simp [heq]) hmem

end Impartial

/-! ## Units -/

/-- A unit that acts on no side of its own, and that is made of texts
that do not speak of energy or cards. -/
structure Clause.Impartial {α : Type} (c : Clause α) : Prop where
  attr : isPlayerOnly c.attr = false
  parts : ∀ t ∈ c.form.parts, DeckDuel.Impartial t.toList

variable {α : Type} [Scalar α]

/-- The units of a text do not speak of energy or cards if it does not. -/
theorem Effect.impartial_of_mem {catalog : Catalog} {text : String} (h : Impartial text.toList)
    {c : Clause α} (hc : .clause c ∈ parseEffect catalog text) : c.Impartial := by
  obtain ⟨hattr, hparts⟩ := standsIn_of_mem hc
  exact ⟨h.not_isPlayerOnly hattr, fun t ht => h.part (hparts t ht)⟩

end DeckDuel
