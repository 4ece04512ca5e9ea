/-
DeckDuel.Proofs.Promotion — lengthening lone equals signs, piece by
piece.

* `Text.replaceAll_append` — occurrences of a pattern do not reach into
  a text whose first character is none that the pattern goes on with.
* `Formula.promote_append` — so texts are promoted one after the other
  if the second one does not start with an equals sign.
* `Formula.promote_plain` — a text without comparison signs stays.
-/
import DeckDuel.Formula

namespace DeckDuel

namespace Text

variable {rest : List Char}

theorem isPrefixOf_append {pattern : List Char} (h : ∀ c ∈ rest.head?, c ∉ pattern)
    (cs : List Char) : pattern.isPrefixOf (cs ++ rest) = pattern.isPrefixOf cs := by
  induction pattern generalizing cs with
  | nil => simp
  | cons p ps ih =>
    cases cs with
    | nil =>
      cases rest with
      | nil => rfl
      | cons c rest =>
        have hne : c ∉ p :: ps := h c rfl
        have hpc : (p == c) = false := by
          rw [beq_eq_false_iff_ne]
          rintro rfl
          exact hne List.mem_cons_self
        simp [List.isPrefixOf, hpc]
    | cons c cs =>
      have hps : ∀ d ∈ rest.head?, d ∉ ps := fun d hd hmem => h d hd (List.mem_cons_of_mem p hmem)
      simp [List.isPrefixOf, ih hps cs]

/-- Occurrences do not reach into a text that the pattern cannot go on
with. By induction on the first text; what is still to be skipped of an
occurrence lies in it. -/
theorem replaceFrom_append {p : Char} {ps replacement : List Char}
    (h : ∀ c ∈ rest.head?, c ∉ ps) {skip : Nat} {cs : List Char} (hskip : skip ≤ cs.length) :
    replaceFrom (p :: ps) replacement skip (cs ++ rest) =
      replaceFrom (p :: ps) replacement skip cs ++ replaceFrom (p :: ps) replacement 0 rest := by
  induction cs generalizing skip with
  | nil =>
    obtain rfl : skip = 0 := by simpa using hskip
    simp [replaceFrom]
  | cons c cs ih =>
    cases skip with
    | succ skip => exact ih (by simpa using hskip)
    | zero =>
      have hsame : (p :: ps).isPrefixOf (c :: (cs ++ rest)) = (p :: ps).isPrefixOf (c :: cs) := by
        simp [List.isPrefixOf, isPrefixOf_append h cs]
      rw [List.cons_append, replaceFrom, replaceFrom, hsame]
      split
      · next hoccurs =>
        have hlength := (List.isPrefixOf_iff_prefix.mp hoccurs).length_le
        rw [ih (by simp at hlength ⊢; omega), List.append_assoc]
      · rw [ih (Nat.zero_le _), List.cons_append]

theorem replaceAll_append {p : Char} {ps replacement : List Char} (h : ∀ c ∈ rest.head?, c ∉ ps)
    (cs : List Char) : replaceAll (p :: ps) replacement (cs ++ rest) =
      replaceAll (p :: ps) replacement cs ++ replaceAll (p :: ps) replacement rest :=
  replaceFrom_append h (Nat.zero_le _)

/-- No occurrence starts with a character that the pattern does not start
with. -/
theorem replaceAll_cons {p c : Char} {ps replacement : List Char} (h : c ≠ p) (cs : List Char) :
    replaceAll (p :: ps) replacement (c :: cs) = c :: replaceAll (p :: ps) replacement cs := by
  have hpc : (p == c) = false := by
    rw [beq_eq_false_iff_ne]
    exact h.symm
  simp [replaceAll, replaceFrom, List.isPrefixOf, hpc]

theorem head?_replaceAll {p d : Char} {ps : List Char} {c : Char}
    (h : c ∈ (replaceAll (p :: ps) [d] rest).head?) : c = d ∨ c ∈ rest.head? := by
  cases rest with
  | nil => simp [replaceAll, replaceFrom] at h
  | cons e rest =>
    simp only [replaceAll, replaceFrom] at h
    split at h
    · exact .inl (by simpa using h.symm)
    · exact .inr (by simpa using h)

end Text

namespace Formula

open DeckDuel.Text

variable {rest : List Char}

/-- The text does not start with an equals sign. -/
def NoEquals (rest : List Char) : Prop := ∀ c ∈ rest.head?, c ≠ '='

/-- A mask hides an operator that goes on with equals signs only, and is
none itself. -/
def HidesEquals (m : List Char × Char) : Prop :=
  m.1 ≠ [] ∧ (∀ c ∈ m.1.tail, c = '=') ∧ m.2 ≠ '='

theorem hidesEquals_masks : ∀ m ∈ masks, HidesEquals m := by
  simp [masks, HidesEquals]

theorem HidesEquals.append {m : List Char × Char} (hm : HidesEquals m) (h : NoEquals rest)
    (cs : List Char) : NoEquals (replaceAll m.1 [m.2] rest) ∧
      replaceAll m.1 [m.2] (cs ++ rest) =
        replaceAll m.1 [m.2] cs ++ replaceAll m.1 [m.2] rest := by
  obtain ⟨pattern, d⟩ := m
  obtain ⟨hne, htail, hd⟩ := hm
  cases pattern with
  | nil => exact absurd rfl hne
  | cons p ps =>
    refine ⟨fun c hc => ?_, replaceAll_append (fun c hc hmem => h c hc (htail c hmem)) cs⟩
    rcases head?_replaceAll hc with rfl | hc
    · exact hd
    · exact h c hc

theorem mask_append (h : NoEquals rest) (cs : List Char) :
    mask (cs ++ rest) = mask cs ++ mask rest := by
  unfold mask
  have hall := hidesEquals_masks
  generalize masks = ms at hall
  induction ms generalizing cs rest with
  | nil => rfl
  | cons m ms ih =>
    obtain ⟨hhead, happend⟩ := (hall m List.mem_cons_self).append h cs
    rw [List.foldl_cons, List.foldl_cons, List.foldl_cons, happend]
    exact ih hhead _ fun m' hm' => hall m' (List.mem_cons_of_mem m hm')

theorem unmask_append (cs : List Char) : unmask (cs ++ rest) = unmask cs ++ unmask rest := by
  unfold unmask
  generalize masks = ms
  induction ms generalizing cs rest with
  | nil => rfl
  | cons m ms ih =>
    rw [List.foldl_cons, List.foldl_cons, List.foldl_cons, replaceAll_append (by simp) cs]
    exact ih _

/-- Texts are promoted one after the other, unless the second one starts
with an equals sign. -/
theorem promote_append (h : NoEquals rest) (cs : List Char) :
    promote (cs ++ rest) = promote cs ++ promote rest := by
  unfold promote
  rw [mask_append h, replaceAll_append (by simp), unmask_append]

/-! ## Plain characters -/

/-- A character that no comparison is made of, and that hides none. -/
def isPlain (c : Char) : Bool :=
  masks.all fun m => m.1.head? != some c && m.2 != c

theorem mask_cons {c : Char} (h : isPlain c = true) (cs : List Char) :
    mask (c :: cs) = c :: mask cs := by
  unfold mask
  unfold isPlain at h
  have hall : ∀ m ∈ masks, m.1 ≠ [] := fun m hm => (hidesEquals_masks m hm).1
  generalize masks = ms at h hall
  induction ms generalizing cs with
  | nil => rfl
  | cons m ms ih =>
    obtain ⟨pattern, d⟩ := m
    simp only [List.all_cons, Bool.and_eq_true, bne_iff_ne, ne_eq] at h
    cases pattern with
    | nil => exact absurd rfl (hall _ List.mem_cons_self)
    | cons p ps =>
      have hne : c ≠ p := fun heq => h.1.1 (by simp [heq])
      rw [List.foldl_cons, List.foldl_cons, replaceAll_cons hne]
      exact ih _ (by simpa using h.2) fun m hm => hall m (List.mem_cons_of_mem _ hm)

theorem unmask_cons {c : Char} (h : isPlain c = true) (cs : List Char) :
    unmask (c :: cs) = c :: unmask cs := by
  unfold unmask
  unfold isPlain at h
  generalize masks = ms at h
  induction ms generalizing cs with
  | nil => rfl
  | cons m ms ih =>
    simp only [List.all_cons, Bool.and_eq_true, bne_iff_ne, ne_eq] at h
    rw [List.foldl_cons, List.foldl_cons, replaceAll_cons fun heq => h.1.2 heq.symm]
    exact ih _ (by simpa using h.2)

theorem promote_cons {c : Char} (h : isPlain c = true) (cs : List Char) :
    promote (c :: cs) = c :: promote cs := by
  have hne : c ≠ '=' := by
    rintro rfl
    exact absurd h (by decide)
  unfold promote
  rw [mask_cons h, replaceAll_cons hne, unmask_cons h]

/-- A text without comparison signs stays as it is. -/
theorem promote_plain {cs : List Char} (h : ∀ c ∈ cs, isPlain c = true) :
    promote (cs ++ rest) = cs ++ promote rest := by
  induction cs with
  | nil => rw [List.nil_append, List.nil_append]
  | cons c cs ih =>
    rw [List.cons_append, promote_cons (h c List.mem_cons_self),
      ih fun d hd => h d (List.mem_cons_of_mem c hd), List.cons_append]

/-! ## Full-width signs -/

/-- No full-width sign may stand in a condition, so what may stand there
needs no replacement. -/
theorem normalize_of_allowed {cs : List Char} (h : ∀ c ∈ cs, isConditionChar c = true) :
    normalize cs = cs := by
  induction cs with
  | nil => rfl
  | cons c cs ih =>
    have hc : normalizeChar c = [c] := by
      have hallowed := h c List.mem_cons_self
      unfold normalizeChar
      split <;> first | exact absurd hallowed (by decide) | rfl
    have hcs : normalize cs = cs := ih fun d hd => h d (List.mem_cons_of_mem c hd)
    rw [normalize, List.flatMap_cons, hc]
    exact congrArg (c :: ·) hcs

end Formula
end DeckDuel
