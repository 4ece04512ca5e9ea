/-
DeckDuel.Proofs.MaximalRuns — a text cut where it enters or leaves a
class of characters.

* `Text.runs` — the maximal runs of a text: every one lies in the class
  or outside of it.
* `Text.AreRuns` — what makes pieces the maximal runs of the text that
  they make up (`areRuns_runs`, `AreRuns.runs_flatten`). Inductions on a
  text run by run are inductions on this.
* `Text.AreRuns.congr` — a rewriting that leaves every piece on its side
  of the class leaves the cuts where they are.
-/
import Mathlib.Data.List.SplitBy

namespace DeckDuel.Text

variable {p : Char → Bool}

/-- The maximal runs of characters of a text that are all in a class, or
all outside of it, in order. -/
def runs (p : Char → Bool) (cs : List Char) : List (List Char) :=
  cs.splitBy fun c d => p c == p d

/-- The pieces are maximal runs: none is empty, each lies in the class or
outside of it, and the one after it lies on the other side. -/
inductive AreRuns (p : Char → Bool) : List (List Char) → Prop where
  | nil : AreRuns p []
  | cons {k : Bool} {run : List Char} {more : List (List Char)} : run ≠ [] →
      (∀ c ∈ run, p c = k) → (∀ c ∈ more.flatten.head?, p c = !k) → AreRuns p more →
      AreRuns p (run :: more)

/-! ## Cutting -/

@[simp] theorem runs_nil : runs p [] = [] := rfl

theorem flatten_runs (cs : List Char) : (runs p cs).flatten = cs := List.flatten_splitBy _ cs

/-- Neighbours on the same side put all characters there. -/
theorem forall_of_isChain {c : Char} {cs : List Char}
    (h : (c :: cs).IsChain fun x y => (p x == p y) = true) : ∀ d ∈ c :: cs, p d = p c := by
  induction cs generalizing c with
  | nil => simp
  | cons e cs ih =>
    obtain ⟨hhead, htail⟩ := List.isChain_cons_cons.mp h
    have hsame : p c = p e := eq_of_beq hhead
    intro d hd
    rcases List.mem_cons.mp hd with rfl | hd
    · rfl
    · exact (ih htail d hd).trans hsame.symm

theorem areRuns_runs (p : Char → Bool) (cs : List Char) : AreRuns p (runs p cs) := by
  obtain ⟨-, hne, hwithin, hbetween⟩ := List.splitBy_eq_iff.mp (rfl : runs p cs = runs p cs)
  generalize runs p cs = pieces at hne hwithin hbetween
  induction pieces with
  | nil => exact .nil
  | cons run more ih =>
    simp only [List.mem_cons, not_or] at hne
    have hmore : AreRuns p more :=
      ih hne.2 (fun m hm => hwithin m (List.mem_cons_of_mem run hm)) hbetween.tail
    cases run with
    | nil => exact absurd rfl hne.1
    | cons c cs =>
      have hall : ∀ d ∈ c :: cs, p d = p c := forall_of_isChain (hwithin _ List.mem_cons_self)
      refine .cons (List.cons_ne_nil c cs) hall (fun d hd => ?_) hmore
      cases more with
      | nil => cases hd
      | cons next more =>
        obtain ⟨hlast, hnext, hdiffer⟩ := (List.isChain_cons_cons.mp hbetween).1
        have hhead : next.head? = some d := by
          rwa [List.flatten_cons, List.head?_append_of_ne_nil _ hnext] at hd
        rw [hall _ (List.getLast_mem hlast),
          (List.head_eq_iff_head?_eq_some hnext).mpr hhead] at hdiffer
        cases hd' : p d <;> cases hc' : p c <;> simp_all

theorem AreRuns.runs_flatten {pieces : List (List Char)} (h : AreRuns p pieces) :
    runs p pieces.flatten = pieces := by
  refine List.splitBy_eq_iff.mpr ⟨rfl, ?_⟩
  induction h with
  | nil => simp
  | @cons k run more hne hall hnext hmore ih =>
    obtain ⟨hnil, hwithin, hbetween⟩ := ih
    refine ⟨by simp [hne.symm, hnil], fun m hm => ?_, List.isChain_cons.mpr ⟨?_, hbetween⟩⟩
    · rcases List.mem_cons.mp hm with rfl | hm
      · have hpairs : m.Pairwise fun x y => (p x == p y) = true :=
          List.pairwise_of_forall_mem_list fun c hc d hd => by
            rw [hall c hc, hall d hd, beq_self_eq_true]
        exact hpairs.isChain
      · exact hwithin m hm
    · intro next hhead
      have hmem : next ∈ more := List.mem_of_mem_head? hhead
      have hne' : next ≠ [] := by
        rintro rfl
        exact hnil hmem
      refine ⟨hne, hne', ?_⟩
      have hflat : next.head hne' ∈ more.flatten.head? := by
        cases more with
        | nil => cases hhead
        | cons m more =>
          obtain rfl : m = next := by simpa using hhead
          rw [List.flatten_cons, List.head?_append_of_ne_nil _ hne', List.head?_eq_some_head hne']
          rfl
      rw [hall _ (List.getLast_mem hne), hnext _ hflat]
      cases k <;> rfl

/-! ## Rewriting -/

/-- The second text lies on every side that the first one lies on, and
is empty only if that is. -/
def SameSide (p : Char → Bool) (cs ds : List Char) : Prop :=
  (cs ≠ [] → ds ≠ []) ∧ ∀ k, (∀ c ∈ cs, p c = k) → ∀ d ∈ ds, p d = k

theorem head?_flatten_sameSide {k : Bool} {pieces pieces' : List (List Char)}
    (hpieces : AreRuns p pieces) (hsame : List.Forall₂ (SameSide p) pieces pieces')
    (h : ∀ c ∈ pieces.flatten.head?, p c = k) : ∀ d ∈ pieces'.flatten.head?, p d = k := by
  cases hsame with
  | nil => simp
  | @cons run run' more more' hrun _ =>
    obtain ⟨⟩ | @⟨k', _, _, hne, hall, -, -⟩ := hpieces
    intro d hd
    rw [List.flatten_cons, List.head?_append_of_ne_nil _ (hrun.1 hne)] at hd
    rw [List.flatten_cons, List.head?_append_of_ne_nil _ hne] at h
    have hk : k' = k := by
      cases run with
      | nil => exact absurd rfl hne
      | cons c cs => exact (hall c List.mem_cons_self).symm.trans (h c rfl)
    exact hk ▸ hrun.2 k' hall d (List.mem_of_mem_head? hd)

/-- Pieces that stay on their sides stay maximal runs. -/
theorem AreRuns.congr {pieces pieces' : List (List Char)} (h : AreRuns p pieces)
    (hsame : List.Forall₂ (SameSide p) pieces pieces') : AreRuns p pieces' := by
  induction h generalizing pieces' with
  | nil =>
    cases hsame
    exact .nil
  | @cons k run more hne hall hnext hmore ih =>
    obtain ⟨⟩ | @⟨_, run', _, more', hrun, hrest⟩ := hsame
    exact .cons (hrun.1 hne) (hrun.2 k hall) (head?_flatten_sameSide hmore hrest hnext) (ih hrest)

end DeckDuel.Text
