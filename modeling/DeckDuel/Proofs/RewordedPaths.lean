/-
DeckDuel.Proofs.RewordedPaths — a stack count in the place of the name
`stacks`, run by run.

* `Variable.mapPaths_flatten` — a pass over the paths of a text is the
  same as replacing its maximal runs one at a time.
* `Modifier.reworded` — what becomes of a run: a count, a qualified
  modifier name, or the run itself.
* `Modifier.substituteStacks_eq_reworded` — so this is all that the pass
  does to a text, and a second pass finds nothing left to do. A count
  starts with a digit and a qualified name holds a point, so neither is
  one of the names that are replaced; and what replaces a run is made of
  path characters again, so it joins no neighbour.
-/
import DeckDuel.Proofs.ComposedModifiers
import DeckDuel.Proofs.MaximalRuns

namespace DeckDuel

open DeckDuel.Formula DeckDuel.Text DeckDuel.Variable

/-! ## Passes over paths -/

/-- A pass replaces each maximal run by itself; between the runs of path
characters it finds nothing to replace. By induction on the runs. -/
theorem Variable.mapPaths_flatten {replace? : List Char → Option (List Char)}
    {pieces : List (List Char)} (h : AreRuns isPathChar pieces) :
    mapPaths replace? pieces.flatten = pieces.flatMap (replaceRun replace?) := by
  induction h with
  | nil => rfl
  | @cons k run more hne hall hnext _ ih =>
    rw [List.flatten_cons, List.flatMap_cons, ← ih]
    cases k with
    | true => exact mapPaths_run hall hnext
    | false =>
      have hkept : replaceRun replace? run = run := by
        cases run with
        | nil => exact absurd rfl hne
        | cons c cs =>
          exact replaceRun_of_not_start (isWordStart_of_not_isPathChar (hall c List.mem_cons_self))
      rw [mapPaths_outside hall, hkept]

namespace Modifier

variable {n : Nat}

/-! ## Runs -/

/-- What becomes of a run: `stacks` gives way to the digits of the count,
and the name of a modifier is qualified. -/
def reworded (n : Nat) (run : List Char) : List Char :=
  if run = "stacks".toList then Nat.toDigits 10 n
  else if run ∈ all.map (fun m => m.name.toList) then "ME.".toList ++ run
  else run

theorem mem_names_iff {run : List Char} :
    run ∈ all.map (fun m => m.name.toList) ↔ ∃ m : Modifier, run = m.name.toList := by
  simp only [List.mem_map]
  constructor
  · rintro ⟨m, -, rfl⟩
    exact ⟨m, rfl⟩
  · rintro ⟨m, rfl⟩
    exact ⟨m, by cases m <;> decide, rfl⟩

theorem reworded_stacks {run : List Char} (h : run = "stacks".toList) (n : Nat) :
    reworded n run = (Unsigned.ofCount n).text := by
  have hdigits : (Unsigned.ofCount n).text = Nat.toDigits 10 n := Nat.toList_repr
  rw [reworded, if_pos h, hdigits]

theorem reworded_name (m : Modifier) (n : Nat) :
    reworded n m.name.toList = "ME.".toList ++ m.name.toList := by
  have hstacks : m.name.toList ≠ "stacks".toList := by cases m <;> decide
  rw [reworded, if_neg hstacks, if_pos (mem_names_iff.mpr ⟨m, rfl⟩)]

/-- The names that are replaced start like words, so the pass takes them
for paths. -/
theorem replaceRun_replacement (n : Nat) (run : List Char) :
    replaceRun (replacement? n) run = reworded n run := by
  by_cases hstacks : run = "stacks".toList
  · have hstart : run.head?.any isWordStart = true := by
      rw [hstacks]
      decide
    have hreplaced : replacement? n run = some (Unsigned.ofCount n).text := by
      rw [replacement?, if_pos hstacks]
    rw [reworded_stacks hstacks]
    cases run with
    | nil => cases hstart
    | cons c cs => exact replaceRun_of_some hstart hreplaced
  · by_cases hname : ∃ m : Modifier, run = m.name.toList
    · obtain ⟨m, rfl⟩ := hname
      rw [reworded_name]
      refine replaceRun_name ?_
      rw [replacement?, if_neg hstacks, if_pos (isModifierName_iff.mpr ⟨m, rfl⟩)]
    · have hkept : replacement? n run = none := by
        rw [replacement?, if_neg hstacks, if_neg (mt isModifierName_iff.mp hname)]
      rw [replaceRun_of_none hkept, reworded, if_neg hstacks, if_neg (mt mem_names_iff.mp hname)]

/-- A replaced run is a run of path characters still. -/
theorem sameSide_reworded (n : Nat) (run : List Char) :
    SameSide isPathChar run (reworded n run) := by
  have hside {ds : List Char} (hne : run ≠ []) (hrun : ∀ c ∈ run, isPathChar c = true)
      (hds : ds ≠ []) (hall : ∀ d ∈ ds, isPathChar d = true) : SameSide isPathChar run ds := by
    refine ⟨fun _ => hds, fun k hk d hd => ?_⟩
    obtain ⟨c, cs, rfl⟩ := List.exists_cons_of_ne_nil hne
    rw [hall d hd, ← hrun c List.mem_cons_self, hk c List.mem_cons_self]
  by_cases hstacks : run = "stacks".toList
  · have hunsigned : IsUnsigned (Unsigned.ofCount n).text := (Unsigned.ofCount n).unsigned
    have hrun : ∀ c ∈ run, isPathChar c = true := by
      rw [hstacks]
      decide
    rw [reworded_stacks hstacks]
    exact hside (by simp [hstacks]) hrun hunsigned.1 fun d hd =>
      isPathChar_of_isNumberChar (hunsigned.2 d hd)
  · by_cases hname : ∃ m : Modifier, run = m.name.toList
    · obtain ⟨m, rfl⟩ := hname
      have hfront : ∀ c ∈ "ME.".toList, isPathChar c = true := by decide
      have hall : ∀ c ∈ m.name.toList, isPathChar c = true := fun c hc =>
        isPathChar_of_isWordChar (isWordChar_name m c hc)
      rw [reworded_name]
      refine hside (by cases m <;> decide) hall (by simp) fun d hd => ?_
      exact (List.mem_append.mp hd).elim (hfront d) (hall d)
    · rw [reworded, if_neg hstacks, if_neg (mt mem_names_iff.mp hname)]
      exact ⟨id, fun _ => id⟩

/-- There is nothing to replace in what has replaced a run: a count
starts with a digit, a qualified name holds a point. -/
theorem reworded_reworded (m n : Nat) (run : List Char) :
    reworded m (reworded n run) = reworded n run := by
  by_cases hstacks : run = "stacks".toList
  · obtain ⟨d, ds, hdigits, hd, -⟩ := (Unsigned.ofCount n).exists_cons
    rw [reworded_stacks hstacks, hdigits, ← replaceRun_replacement]
    exact replaceRun_of_not_start (isWordStart_of_isNumberChar hd)
  · by_cases hname : ∃ m : Modifier, run = m.name.toList
    · obtain ⟨name, rfl⟩ := hname
      rw [reworded_name, ← replaceRun_replacement]
      exact replaceRun_of_none (replacement?_of_point (by simp) m)
    · have hkept : ∀ n, reworded n run = run := fun n => by
        rw [reworded, if_neg hstacks, if_neg (mt mem_names_iff.mp hname)]
      rw [hkept n, hkept m]

/-! ## The whole text -/

theorem substituteStacks_flatten {pieces : List (List Char)} (h : AreRuns isPathChar pieces)
    (n : Nat) : substituteStacks n pieces.flatten = (pieces.map (reworded n)).flatten := by
  have hpass : substituteStacks n pieces.flatten = pieces.flatMap (replaceRun (replacement? n)) :=
    mapPaths_flatten h
  rw [hpass, List.flatMap_def]
  exact congrArg List.flatten (List.map_congr_left fun run _ => replaceRun_replacement n run)

/-- **Putting in a stack count** changes maximal runs of path characters
and nothing else: each run `stacks` becomes the digits of the count, each
run that is a modifier name gets the prefix `ME.`, and every other run and
all between the runs stays. After that there is nothing to put in, be it
the same count or another one. -/
theorem substituteStacks_eq_reworded (n m : Nat) (cs : List Char) :
    substituteStacks n cs = ((runs isPathChar cs).map (reworded n)).flatten ∧
      substituteStacks m (substituteStacks n cs) = substituteStacks n cs := by
  have hruns : AreRuns isPathChar (runs isPathChar cs) := areRuns_runs isPathChar cs
  have hfirst : substituteStacks n cs = ((runs isPathChar cs).map (reworded n)).flatten := by
    rw [← substituteStacks_flatten hruns n, flatten_runs]
  -- the replaced runs are the maximal runs of the new text
  have hagain : AreRuns isPathChar ((runs isPathChar cs).map (reworded n)) :=
    hruns.congr (List.forall₂_map_right_iff.mpr
      (List.forall₂_same.mpr fun run _ => sameSide_reworded n run))
  refine ⟨hfirst, ?_⟩
  rw [hfirst, substituteStacks_flatten hagain m, List.map_map]
  exact congrArg List.flatten (List.map_congr_left fun run _ => reworded_reworded m n run)

/-- Names inside longer names, qualified names, stacks of an id, numbers
and other letters stand around what is replaced. -/
example : String.ofList (substituteStacks 12
    "é.stacks+0.5stacks*stacks, ME.stacks.burn-block_modifier".toList) =
      "é.stacks+0.5stacks*12, ME.stacks.burn-ME.block_modifier" := by decide +kernel

end Modifier
end DeckDuel
