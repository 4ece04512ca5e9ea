/-
DeckDuel.Proofs.Paths — replacing names, piece by piece.

* `Variable.EndsRun` — no path character comes next, so a run of them
  ends here.
* `Variable.mapPaths_outside` — characters outside paths stay.
* `Variable.mapPaths_run` — a run of path characters is replaced as a
  whole.

With both a text is taken apart from left to right, without a look at
how the scanner holds the run that it is in.
-/
import DeckDuel.Variable.Path

namespace DeckDuel.Variable

open DeckDuel.Text

variable {replace? : List Char → Option (List Char)} {rest : List Char}

theorem isWordChar_of_isWordStart {c : Char} (h : isWordStart c = true) : isWordChar c = true := by
  simp only [isWordStart, Bool.or_eq_true] at h
  rcases h with h | h <;> simp [isWordChar, Char.isAlphanum, h]

theorem isPathChar_of_isWordChar {c : Char} (h : isWordChar c = true) : isPathChar c = true := by
  simp [isPathChar, h]

theorem isPathChar_of_isWordStart {c : Char} (h : isWordStart c = true) : isPathChar c = true :=
  isPathChar_of_isWordChar (isWordChar_of_isWordStart h)

theorem isWordStart_of_not_isPathChar {c : Char} (h : isPathChar c = false) :
    isWordStart c = false := by
  rw [← Bool.not_eq_true] at h ⊢
  exact mt isPathChar_of_isWordStart h

/-- No path character comes next. -/
def EndsRun (rest : List Char) : Prop := ∀ c ∈ rest.head?, isPathChar c = false

theorem endsRun_nil : EndsRun [] := by simp [EndsRun]

theorem endsRun_cons {c : Char} (h : isPathChar c = false) : EndsRun (c :: rest) := by
  simpa [EndsRun] using h

/-- What is not empty ends a run with its first character. -/
theorem EndsRun.append {cs : List Char} (h : EndsRun cs) (hne : cs ≠ []) :
    EndsRun (cs ++ rest) := by
  cases cs with
  | nil => exact absurd rfl hne
  | cons c cs => exact h

@[simp] theorem mapPaths_nil : mapPaths replace? [] = [] := rfl

theorem mapPathsFrom_run {run : List Char} (hrun : ∀ c ∈ run, isPathChar c = true)
    (held : List Char) :
    mapPathsFrom replace? held (run ++ rest) = mapPathsFrom replace? (run.reverse ++ held) rest := by
  induction run generalizing held with
  | nil => rfl
  | cons c run ih =>
    rw [List.cons_append, mapPathsFrom, if_pos (hrun c List.mem_cons_self),
      ih (fun d hd => hrun d (List.mem_cons_of_mem c hd)) (c :: held)]
    simp

/-- Where a run ends, it is replaced and nothing is held any more. -/
theorem mapPathsFrom_of_endsRun (h : EndsRun rest) (held : List Char) :
    mapPathsFrom replace? held rest = replaceRun replace? held.reverse ++ mapPaths replace? rest := by
  cases rest with
  | nil => simp [mapPathsFrom]
  | cons c cs =>
    have hc : isPathChar c = false := h c rfl
    simp [mapPaths, mapPathsFrom, hc, replaceRun]

theorem mapPaths_run {run : List Char} (hrun : ∀ c ∈ run, isPathChar c = true) (h : EndsRun rest) :
    mapPaths replace? (run ++ rest) = replaceRun replace? run ++ mapPaths replace? rest := by
  rw [mapPaths, mapPathsFrom_run hrun, mapPathsFrom_of_endsRun h]
  simp

theorem mapPaths_outside {cs : List Char} (h : ∀ c ∈ cs, isPathChar c = false) :
    mapPaths replace? (cs ++ rest) = cs ++ mapPaths replace? rest := by
  induction cs with
  | nil => rfl
  | cons c cs ih =>
    have hstep : mapPaths replace? (c :: (cs ++ rest)) = c :: mapPaths replace? (cs ++ rest) := by
      simp [mapPaths, mapPathsFrom, replaceRun, h c List.mem_cons_self]
    rw [List.cons_append, hstep, ih fun d hd => h d (List.mem_cons_of_mem c hd), List.cons_append]

/-- A run that starts like a number is no path. -/
theorem replaceRun_of_not_start {c : Char} {run : List Char} (h : isWordStart c = false) :
    replaceRun replace? (c :: run) = c :: run := by
  simp [replaceRun, h]

theorem replaceRun_of_none {run : List Char} (h : replace? run = none) :
    replaceRun replace? run = run := by
  cases run with
  | nil => rfl
  | cons c run => simp [replaceRun, h]

theorem replaceRun_of_some {c : Char} {run out : List Char} (hc : isWordStart c = true)
    (h : replace? (c :: run) = some out) : replaceRun replace? (c :: run) = out := by
  simp [replaceRun, hc, h]

end DeckDuel.Variable
