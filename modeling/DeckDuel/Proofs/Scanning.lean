/-
DeckDuel.Proofs.Scanning — what the text scanners make of texts that
were put together, and which texts they take apart.

* `Trimmed` — no blank at either end (`trimmed_iff`); what is left after
  trimming is such a text (`trimmed_trim`).
* `Balanced` — every bracket has its partner. A scanner for a closing
  bracket goes past a balanced text (`closing?_balanced`), so a group
  around it is found whole (`closing?_group`).
* `word?_append`, `words_append`, `cutAt?_append`, `after?_append` — a
  word, a run without blanks, a text up to a mark and a given start are
  found in front of what follows.
* `eq_append_of_word?`, `eq_append_of_after?`, `eq_append_of_closing?`,
  `dropLast?_eq_some_iff` — whatever a scanner answers makes up the text
  again.
-/
import Mathlib.Data.List.Basic
import Mathlib.Data.List.TakeWhile
import DeckDuel.Text.Blank
import DeckDuel.Text.Word

namespace DeckDuel.Text

variable {cs rest : List Char}

/-! ## Trimmed texts -/

/-- The text has no blank at either end. -/
def Trimmed (cs : List Char) : Prop := trim cs = cs

theorem trimStart_eq_self_iff : trimStart cs = cs ↔ ∀ c ∈ cs.head?, isBlank c = false := by
  cases cs with
  | nil => simp [trimStart]
  | cons d cs =>
    have hshort : (cs.dropWhile isBlank).length ≤ cs.length := length_trimStart_le cs
    cases hd : isBlank d with
    | false => simp [trimStart, hd]
    | true =>
      have hne : cs.dropWhile isBlank ≠ d :: cs := by
        intro heq
        rw [heq, List.length_cons] at hshort
        omega
      simp [trimStart, hd, hne]

/-- The text does not end in a blank. -/
def EndsVisible (cs : List Char) : Prop := ∀ c ∈ cs.getLast?, isBlank c = false

theorem trimEnd_eq_self_iff : trimEnd cs = cs ↔ EndsVisible cs := by
  have hreverse : trimEnd cs = cs ↔ trimStart cs.reverse = cs.reverse := by
    rw [trimEnd, trimStart, List.reverse_eq_iff]
  rw [hreverse, trimStart_eq_self_iff, List.head?_reverse]
  rfl

theorem trimmed_iff : Trimmed cs ↔ (∀ c ∈ cs.head?, isBlank c = false) ∧ EndsVisible cs := by
  rw [← trimStart_eq_self_iff, ← trimEnd_eq_self_iff]
  constructor
  · intro h
    have hstart : trimStart cs = cs := by
      have hlength : (trim cs).length = cs.length := congrArg List.length h
      have hend : (trim cs).length ≤ (trimStart cs).length := length_trimEnd_le (trimStart cs)
      exact (List.dropWhile_sublist isBlank).eq_of_length
        (Nat.le_antisymm (length_trimStart_le cs) (hlength ▸ hend))
    refine ⟨hstart, ?_⟩
    rw [Trimmed, trim, hstart] at h
    exact h
  · rintro ⟨hstart, hend⟩
    rw [Trimmed, trim, hstart, hend]

theorem Trimmed.endsVisible (h : Trimmed cs) : EndsVisible cs := (trimmed_iff.mp h).2

/-- A text without blanks is trimmed. -/
theorem trimmed_of_forall (h : ∀ c ∈ cs, isBlank c = false) : Trimmed cs :=
  trimmed_iff.mpr ⟨fun c hc => h c (List.mem_of_mem_head? hc),
    fun c hc => h c (List.mem_of_mem_getLast? hc)⟩

theorem trimmed_cons {c : Char} (hc : isBlank c = false) (h : EndsVisible (c :: cs)) :
    Trimmed (c :: cs) := by
  refine trimmed_iff.mpr ⟨fun d hd => ?_, h⟩
  cases hd
  exact hc

/-- The last part of a text decides how the text ends. -/
theorem EndsVisible.append (h : EndsVisible cs) (hne : cs ≠ []) (before : List Char) :
    EndsVisible (before ++ cs) := by
  intro c hc
  rw [List.getLast?_append_of_ne_nil _ hne] at hc
  exact h c hc

/-- A text is trimmed if its first part and its last part are. -/
theorem Trimmed.append {before : List Char} (hbefore : Trimmed before) (hne : before ≠ [])
    (h : Trimmed cs) (hne' : cs ≠ []) (between : List Char) : Trimmed (before ++ between ++ cs) := by
  refine trimmed_iff.mpr ⟨fun c hc => ?_, (trimmed_iff.mp h).2.append hne' _⟩
  rw [List.append_assoc, List.head?_append_of_ne_nil _ hne] at hc
  exact (trimmed_iff.mp hbefore).1 c hc

theorem endsVisible_append_singleton {c : Char} (hc : isBlank c = false) (before : List Char) :
    EndsVisible (before ++ [c]) := by
  intro d hd
  rw [List.getLast?_concat] at hd
  cases hd
  exact hc

theorem trimStart_blanks {gap : List Char} (h : ∀ c ∈ gap, isBlank c = true)
    (hcs : ∀ c ∈ cs.head?, isBlank c = false) : trimStart (gap ++ cs) = cs := by
  rw [trimStart, List.dropWhile_append_of_pos h]
  exact trimStart_eq_self_iff.mpr hcs

theorem trim_blanks {gap : List Char} (h : ∀ c ∈ gap, isBlank c = true) (hcs : Trimmed cs) :
    trim (gap ++ cs) = cs := by
  obtain ⟨hhead, hlast⟩ := trimmed_iff.mp hcs
  rw [trim, trimStart_blanks h hhead, trimEnd_eq_self_iff.mpr hlast]

theorem trimEnd_append_blanks {gap : List Char} (h : ∀ c ∈ gap, isBlank c = true)
    (hcs : EndsVisible cs) : trimEnd (cs ++ gap) = cs := by
  have hblanks : trimStart (gap.reverse ++ cs.reverse) = cs.reverse :=
    trimStart_blanks (fun c hc => h c (List.mem_reverse.mp hc))
      (by rw [List.head?_reverse]; exact hcs)
  rw [trimEnd, List.reverse_append, ← trimStart, hblanks, List.reverse_reverse]

theorem trimEnd_prefix (cs : List Char) : trimEnd cs <+: cs := by
  have hsuffix : cs.reverse.dropWhile isBlank <:+ cs.reverse := List.dropWhile_suffix isBlank
  have hprefix := List.reverse_prefix.mpr hsuffix
  rwa [List.reverse_reverse] at hprefix

theorem endsVisible_trimEnd (cs : List Char) : EndsVisible (trimEnd cs) := by
  intro c hc
  rw [trimEnd, List.getLast?_reverse] at hc
  have hhead := List.head?_dropWhile_not isBlank cs.reverse
  rw [hc] at hhead
  simpa using hhead

/-- What is left of a text is trimmed. -/
theorem trimmed_trim (cs : List Char) : Trimmed (trim cs) := by
  refine trimmed_iff.mpr ⟨fun c hc => ?_, endsVisible_trimEnd _⟩
  obtain ⟨rest, hrest⟩ := trimEnd_prefix (trimStart cs)
  have hhead := List.head?_dropWhile_not isBlank cs
  have hfirst : (trimStart cs).head? = some c := by
    rw [← hrest, List.head?_append]
    simp only [trim] at hc
    rw [hc]
    rfl
  rw [trimStart] at hfirst
  rw [hfirst] at hhead
  simpa using hhead

/-- What is trimmed off the start of a text is blank. -/
theorem exists_blanks_trimStart (cs : List Char) :
    ∃ gap, (∀ c ∈ gap, isBlank c = true) ∧ cs = gap ++ trimStart cs :=
  ⟨cs.takeWhile isBlank, fun _ hc => List.all_eq_true.mp List.all_takeWhile _ hc,
    List.takeWhile_append_dropWhile.symm⟩

theorem EndsVisible.right {before : List Char} (h : EndsVisible (before ++ cs)) :
    EndsVisible cs := by
  intro c hc
  exact h c (by rw [List.getLast?_append, hc]; rfl)

/-- Nothing stands at the end of a text that would be trimmed off. -/
theorem EndsVisible.eq_nil (h : EndsVisible cs) (htrim : trim cs = []) : cs = [] := by
  have hstart : EndsVisible (trimStart cs) := by
    obtain ⟨gap, -, hcs⟩ := exists_blanks_trimStart cs
    rw [hcs] at h
    exact h.right
  have hnone : trimStart cs = [] := by rw [← trimEnd_eq_self_iff.mpr hstart, ← trim, htrim]
  have hblank : ∀ c ∈ cs, isBlank c = true := List.dropWhile_eq_nil_iff.mp hnone
  cases hlast : cs.getLast? with
  | none => exact List.getLast?_eq_none_iff.mp hlast
  | some c =>
    have hc := h c hlast
    rw [hblank c (List.mem_of_mem_getLast? hlast)] at hc
    cases hc

/-! ## Brackets -/

/-- Every bracket of a kind has its partner. -/
inductive Balanced (opener closer : Char) : List Char → Prop where
  | nil : Balanced opener closer []
  | char {c : Char} {cs : List Char} : c ≠ opener → c ≠ closer → Balanced opener closer cs →
      Balanced opener closer (c :: cs)
  | group {a b : List Char} : Balanced opener closer a → Balanced opener closer b →
      Balanced opener closer (opener :: (a ++ closer :: b))

theorem balanced_of_forall {opener closer : Char} (h : ∀ c ∈ cs, c ≠ opener ∧ c ≠ closer) :
    Balanced opener closer cs := by
  induction cs with
  | nil => exact .nil
  | cons c cs ih =>
    obtain ⟨hopen, hclose⟩ := h c List.mem_cons_self
    exact .char hopen hclose (ih fun d hd => h d (List.mem_cons_of_mem c hd))

theorem Balanced.append {opener closer : Char} {a b : List Char} (ha : Balanced opener closer a)
    (hb : Balanced opener closer b) : Balanced opener closer (a ++ b) := by
  induction ha with
  | nil => exact hb
  | char hopen hclose _ ih => exact .char hopen hclose ih
  | @group a c h _ _ ih =>
    have happend : opener :: (a ++ closer :: c) ++ b = opener :: (a ++ closer :: (c ++ b)) := by
      simp
    rw [happend]
    exact .group h ih

/-- A balanced text lies inside the group that it starts in. By induction
on the brackets. -/
theorem closing?_balanced {opener closer : Char} (hne : opener ≠ closer)
    (h : Balanced opener closer cs) (depth : Nat) (rest : List Char) :
    closing? opener closer depth (cs ++ rest) =
      (closing? opener closer depth rest).map fun r => (cs ++ r.1, r.2) := by
  induction h generalizing depth rest with
  | nil => simp
  | char hopen hclose _ ih => simp [closing?, hopen, hclose, ih, Function.comp_def]
  | @group a b _ _ iha ihb =>
    have happend : opener :: (a ++ closer :: b) ++ rest = opener :: (a ++ closer :: (b ++ rest)) := by
      simp
    rw [happend]
    simp [closing?, iha, hne.symm, ihb, Function.comp_def]

/-- A group around a balanced text is found whole. -/
theorem closing?_group {opener closer : Char} (hne : opener ≠ closer)
    (h : Balanced opener closer cs) (rest : List Char) :
    closing? opener closer 0 (cs ++ closer :: rest) = some (cs, rest) := by
  rw [closing?_balanced hne h]
  simp [closing?, hne.symm]

/-! ## Words and marks -/

theorem isBlank_of_isWordChar {c : Char} (h : isWordChar c = true) : isBlank c = false := by
  have hrange : (48 ≤ c.toNat ∧ c.toNat ≤ 57) ∨ (65 ≤ c.toNat ∧ c.toNat ≤ 90) ∨
      (97 ≤ c.toNat ∧ c.toNat ≤ 122) ∨ c.toNat = 95 := by
    simp only [isWordChar, Char.isAlphanum, Bool.or_eq_true, beq_iff_eq, isAlpha_iff, isUpper_iff,
      isLower_iff, Char.isDigit_iff_toNat] at h
    rcases h with ((h | h) | h) | rfl
    · exact .inr (.inl h)
    · exact .inr (.inr (.inl h))
    · exact .inl h
    · exact .inr (.inr (.inr (by decide)))
  cases hblank : isBlank c with
  | false => rfl
  | true =>
    simp only [isBlank, Bool.or_eq_true, Bool.and_eq_true, decide_eq_true_eq, beq_iff_eq] at hblank
    omega

theorem ne_of_isBlank {c d : Char} (h : isBlank c = true) (hd : isBlank d = false) : c ≠ d := by
  rintro rfl
  rw [h] at hd
  cases hd

theorem not_mem_of_isBlank {c : Char} (h : isBlank c = true) (hcs : ∀ d ∈ cs, isBlank d = false) :
    c ∉ cs :=
  fun hc => ne_of_isBlank h (hcs c hc) rfl

/-- No word character comes next. -/
def EndsWord (rest : List Char) : Prop := ∀ c ∈ rest.head?, isWordChar c = false

theorem takeWhile_append_of_head {p : Char → Bool} (h : ∀ c ∈ cs, p c = true)
    (hrest : ∀ c ∈ rest.head?, p c = false) :
    (cs ++ rest).takeWhile p = cs ∧ (cs ++ rest).dropWhile p = rest := by
  rw [List.takeWhile_append_of_pos h, List.dropWhile_append_of_pos h]
  cases rest with
  | nil => simp
  | cons c rest => simp [hrest c rfl]

/-- The text is a word. -/
def IsWord (cs : List Char) : Prop :=
  cs.head?.any isWordStart = true ∧ ∀ c ∈ cs, isWordChar c = true

theorem word?_append (h : IsWord cs) (hrest : EndsWord rest) :
    word? (cs ++ rest) = some (cs, rest) := by
  obtain ⟨hstart, hall⟩ := h
  cases cs with
  | nil => cases hstart
  | cons d cs =>
    have hd : isWordStart d = true := hstart
    obtain ⟨htake, hdrop⟩ :=
      takeWhile_append_of_head (fun e he => hall e (List.mem_cons_of_mem _ he)) hrest
    rw [List.cons_append, word?, if_pos hd, htake, hdrop]

theorem cutAt?_append {p : Char → Bool} (h : ∀ c ∈ cs, p c = false) (rest : List Char) :
    cutAt? p (cs ++ rest) = (cutAt? p rest).map fun r => (cs ++ r.1, r.2) := by
  induction cs with
  | nil => simp
  | cons c cs ih =>
    rw [List.cons_append, cutAt?, if_neg (by simp [h c List.mem_cons_self]),
      ih fun d hd => h d (List.mem_cons_of_mem c hd), Option.map_map]
    rfl

theorem cutAt?_eq_none {p : Char → Bool} (h : ∀ c ∈ cs, p c = false) : cutAt? p cs = none := by
  simpa [cutAt?] using cutAt?_append h []

/-- The text before a mark holds no mark. -/
theorem cutAt?_mark {p : Char → Bool} (h : ∀ c ∈ cs, p c = false) {m : Char} (hm : p m = true)
    (rest : List Char) : cutAt? p (cs ++ m :: rest) = some (cs, rest) := by
  rw [cutAt?_append h, cutAt?, if_pos hm]
  simp

theorem after?_append (pattern rest : List Char) : after? pattern (pattern ++ rest) = some rest := by
  induction pattern with
  | nil => rfl
  | cons c pattern ih => rw [List.cons_append, after?, if_pos rfl, ih]

theorem after?_eq_none_of_head {c : Char} {pattern : List Char} (h : cs.head? ≠ some c) :
    after? (c :: pattern) cs = none := by
  cases cs with
  | nil => rfl
  | cons d cs =>
    have hne : c ≠ d := fun heq => h (by rw [heq]; rfl)
    rw [after?, if_neg hne]

@[simp] theorem words_nil : words [] = [] := rfl

/-- A run without blanks is the first word; the rest goes on after a
blank. -/
theorem words_append (hne : cs ≠ []) (h : ∀ c ∈ cs, isBlank c = false)
    (hrest : ∀ c ∈ rest.head?, isBlank c = true) : words (cs ++ rest) = cs :: words rest := by
  induction cs with
  | nil => exact absurd rfl hne
  | cons c cs ih =>
    have hc : isBlank c = false := h c List.mem_cons_self
    cases cs with
    | nil =>
      rw [List.singleton_append, words.eq_def]
      cases rest with
      | nil => simp [hc]
      | cons d rest => simp [hc, hrest d rfl]
    | cons d cs =>
      have hd : isBlank d = false := h d (by simp)
      have hwords : words (d :: (cs ++ rest)) = (d :: cs) :: words rest :=
        ih (by simp) fun e he => h e (List.mem_cons_of_mem c he)
      rw [List.cons_append, List.cons_append, words.eq_def]
      simp [hc, hd, hwords]

theorem words_run (hne : cs ≠ []) (h : ∀ c ∈ cs, isBlank c = false) : words cs = [cs] := by
  simpa using @words_append cs [] hne h (by simp)

theorem words_blank {c : Char} (h : isBlank c = true) (cs : List Char) : words (c :: cs) = words cs := by
  rw [words.eq_def]
  simp [h]

/-! ## Scanned texts -/

theorem eq_append_of_word? {w : List Char} (h : word? cs = some (w, rest)) : cs = w ++ rest := by
  cases cs with
  | nil => cases h
  | cons c cs =>
    simp only [word?] at h
    split at h
    · cases h
      simp
    · cases h

theorem eq_append_of_after? {pattern : List Char} (h : after? pattern cs = some rest) :
    cs = pattern ++ rest := by
  induction pattern generalizing cs with
  | nil =>
    cases h
    rfl
  | cons p ps ih =>
    cases cs with
    | nil => cases h
    | cons c cs =>
      simp only [after?] at h
      split at h
      · next heq => rw [heq, ih h, List.cons_append]
      · cases h

theorem eq_append_of_closing? {opener closer : Char} {depth : Nat} {content : List Char}
    (h : closing? opener closer depth cs = some (content, rest)) :
    cs = content ++ closer :: rest := by
  induction cs generalizing depth content with
  | nil => cases h
  | cons c cs ih =>
    -- a character that does not close the group belongs to its content
    have hinside {depth : Nat}
        (h : (closing? opener closer depth cs).map (fun r => (c :: r.1, r.2)) =
          some (content, rest)) : c :: cs = content ++ closer :: rest := by
      obtain ⟨⟨content', rest'⟩, hclosing, heq⟩ := Option.map_eq_some_iff.mp h
      cases heq
      rw [List.cons_append, ← ih hclosing]
    rw [closing?.eq_def] at h
    dsimp only at h
    split at h
    · exact hinside h
    · split at h
      · next hcloser =>
        cases depth with
        | zero =>
          cases h
          simp [hcloser]
        | succ outer => exact hinside h
      · exact hinside h

theorem dropLast?_eq_some_iff {c : Char} {ds : List Char} :
    dropLast? c cs = some ds ↔ cs = ds ++ [c] := by
  constructor
  · intro h
    unfold dropLast? at h
    split at h
    · cases h
    · next d ds' hreverse =>
      split at h
      · next hd =>
        cases h
        rw [← cs.reverse_reverse, hreverse, hd]
        simp
      · cases h
  · rintro rfl
    simp [dropLast?]

end DeckDuel.Text
