/-
DeckDuel.Proofs.Infixes — scanners answer parts of the text.

* `infix_trim`, `prefix_of_word?`, `prefix_of_closing?`,
  `suffix_of_cutAt?`, … — whatever a scanner answers is a part of the text
  that was scanned, and what it leaves is the end of it.
* `infix_of_unwrap`, `Effect.infix_of_mem_split`,
  `Effect.infix_readGroups` — so are inner texts, units and groups.

So nothing that is read is longer than its text, and what does not occur
in a text does not occur in its parts.
-/
import DeckDuel.Effect.Parser
import DeckDuel.Proofs.Scanning

namespace DeckDuel

open DeckDuel.Text

namespace Text

variable {cs rest : List Char}

theorem infix_trim (cs : List Char) : trim cs <:+: cs := by
  have hend : trim cs <+: trimStart cs := trimEnd_prefix (trimStart cs)
  exact hend.isInfix.trans (List.dropWhile_suffix isBlank).isInfix

theorem suffix_trimStart (cs : List Char) : trimStart cs <:+ cs := List.dropWhile_suffix isBlank

theorem prefix_of_word? {w : List Char} (h : word? cs = some (w, rest)) : w <+: cs ∧ rest <:+ cs := by
  rw [eq_append_of_word? h]
  exact ⟨List.prefix_append w rest, List.suffix_append w rest⟩

theorem suffix_of_after? {pattern : List Char} (h : after? pattern cs = some rest) :
    rest <:+ cs := by
  rw [eq_append_of_after? h]
  exact List.suffix_append pattern rest

theorem prefix_of_closing? {opener closer : Char} {depth : Nat} {content : List Char}
    (h : closing? opener closer depth cs = some (content, rest)) : content <+: cs := by
  rw [eq_append_of_closing? h]
  exact List.prefix_append content _

theorem eq_append_of_cutAt? {p : Char → Bool} {before : List Char}
    (h : cutAt? p cs = some (before, rest)) : ∃ c, cs = before ++ c :: rest := by
  induction cs generalizing before with
  | nil => cases h
  | cons c cs ih =>
    simp only [cutAt?] at h
    split at h
    · cases h
      exact ⟨c, rfl⟩
    · obtain ⟨⟨b, r⟩, hcut, heq⟩ := Option.map_eq_some_iff.mp h
      cases heq
      obtain ⟨d, hd⟩ := ih hcut
      exact ⟨d, by rw [hd, List.cons_append]⟩

theorem suffix_of_cutAt? {p : Char → Bool} {before : List Char}
    (h : cutAt? p cs = some (before, rest)) : rest <:+ cs := by
  obtain ⟨c, hc⟩ := eq_append_of_cutAt? h
  exact ⟨before ++ [c], by rw [hc, List.append_assoc, List.singleton_append]⟩

/-- A text that starts with no blank starts with its first word. -/
theorem prefix_of_words_eq_cons {c : Char} {w : List Char} {ws : List (List Char)}
    (hc : isBlank c = false) (h : words (c :: cs) = w :: ws) : w <+: c :: cs := by
  induction cs generalizing c w ws with
  | nil =>
    rw [words.eq_def] at h
    simp only [hc, Bool.false_eq_true, if_false, List.cons.injEq] at h
    exact h.1 ▸ List.prefix_rfl
  | cons d cs ih =>
    rw [words.eq_def] at h
    simp only [hc, Bool.false_eq_true, if_false] at h
    split at h
    · cases h
      exact List.cons_prefix_cons.mpr ⟨rfl, List.nil_prefix⟩
    · next hd =>
      split at h
      · cases h
        exact List.cons_prefix_cons.mpr ⟨rfl, List.nil_prefix⟩
      · next v vs hwords =>
        cases h
        exact List.cons_prefix_cons.mpr ⟨rfl, ih (by simpa using hd) hwords⟩

theorem infix_of_mem_words {w : List Char} (h : w ∈ words cs) : w <:+: cs := by
  induction cs with
  | nil => cases h
  | cons c cs ih =>
    cases hc : isBlank c with
    | true =>
      rw [words_blank hc] at h
      exact List.infix_cons (ih h)
    | false =>
      obtain ⟨v, vs, hwords⟩ := List.exists_cons_of_ne_nil (List.ne_nil_of_mem h)
      have hfirst : v <+: c :: cs := prefix_of_words_eq_cons hc hwords
      have hrest : ∀ u ∈ vs, u ∈ words cs := by
        rw [words.eq_def] at hwords
        simp only [hc, Bool.false_eq_true, if_false] at hwords
        split at hwords
        · cases hwords
          simp
        · split at hwords
          · cases hwords
            exact fun u hu => hu
          · split at hwords
            · cases hwords
              simp
            · next first others heq =>
              cases hwords
              exact fun u hu => heq ▸ List.mem_cons_of_mem first hu
      rw [hwords] at h
      rcases List.mem_cons.mp h with rfl | h
      · exact hfirst.isInfix
      · exact List.infix_cons (ih (hrest w h))

end Text

/-- The inner text of a wrapped one. -/
theorem infix_of_unwrap {cs name inner : List Char} (h : unwrap cs = some (name, inner)) :
    inner <:+: cs := by
  obtain ⟨⟨w, rest⟩, hword, hrest⟩ := Option.bind_eq_some_iff.mp h
  dsimp only at hrest
  split at hrest
  · next tail =>
    obtain ⟨content, hlast, heq⟩ := Option.map_eq_some_iff.mp hrest
    cases heq
    have hcontent : content <+: tail := ⟨[')'], (dropLast?_eq_some_iff.mp hlast).symm⟩
    have htail : tail <:+ trim cs := (List.suffix_cons '(' tail).trans (prefix_of_word? hword).2
    exact (infix_trim content).trans
      (hcontent.isInfix.trans (htail.isInfix.trans (infix_trim cs)))
  · cases hrest

/-- The text that a moment runs stands in the text of the ability. -/
theorem Ability.infix_of_innerFor? {a : Ability} {name inner : String}
    (h : a.innerFor? name = some inner) : inner.toList <:+: a.effect.toList := by
  obtain ⟨⟨n, found⟩, hunwrap, hif⟩ := Option.bind_eq_some_iff.mp h
  dsimp only at hif
  split at hif
  · cases hif
    rw [String.toList_ofList]
    exact infix_of_unwrap hunwrap
  · cases hif

namespace Effect

theorem infix_of_mem_pieces (depth : Nat) (cs : List Char) :
    (pieces depth cs).1 <+: cs ∧ ∀ p ∈ (pieces depth cs).2, p <:+: cs := by
  induction cs generalizing depth with
  | nil => simp [pieces]
  | cons c cs ih =>
    simp only [pieces]
    split
    · obtain ⟨hfirst, hrest⟩ := ih 0
      refine ⟨List.nil_prefix, fun p hp => ?_⟩
      rcases List.mem_cons.mp hp with rfl | hp
      · exact List.infix_cons hfirst.isInfix
      · exact List.infix_cons (hrest p hp)
    · obtain ⟨hfirst, hrest⟩ := ih (depthAfter depth c)
      exact ⟨List.cons_prefix_cons.mpr ⟨rfl, hfirst⟩, fun p hp => List.infix_cons (hrest p hp)⟩

/-- The units of a text stand in it. -/
theorem infix_of_mem_split {cs u : List Char} (h : u ∈ split cs) : u <:+: cs := by
  obtain ⟨p, hp, rfl⟩ := List.mem_map.mp (List.mem_filter.mp h).1
  obtain ⟨hfirst, hrest⟩ := infix_of_mem_pieces 0 cs
  refine (infix_trim p).trans ?_
  rcases List.mem_cons.mp hp with rfl | hp
  · exact hfirst.isInfix
  · exact hrest p hp

/-- The rest of the open group starts the text, the groups after it stand
in it. -/
theorem infix_readGroups {o : Option Nat} {cs : List Char}
    {r : List Char × List (List Char) × List Char} (h : readGroups o cs = some r) :
    (o = none → r.1 = []) ∧ r.1 <+: cs ∧ ∀ g ∈ r.2.1, g <:+: cs := by
  induction cs generalizing o r with
  | nil =>
    cases o with
    | none =>
      cases h
      simp
    | some depth => cases h
  | cons c cs ih =>
    -- the rest of the open group is one character longer, the groups after it are the same
    have hopen {o : Option Nat} {depth : Nat}
        (h : (readGroups o cs).map (fun r => (c :: r.1, r.2)) = some r) :
        (some depth = none → r.1 = []) ∧ r.1 <+: c :: cs ∧ ∀ g ∈ r.2.1, g <:+: c :: cs := by
      obtain ⟨q, hq, rfl⟩ := Option.map_eq_some_iff.mp h
      obtain ⟨-, hfirst, hrest⟩ := ih hq
      exact ⟨by simp, List.cons_prefix_cons.mpr ⟨rfl, hfirst⟩, fun g hg => List.infix_cons (hrest g hg)⟩
    cases o with
    | none =>
      simp only [readGroups] at h
      split at h
      · obtain ⟨hnil, -, hrest⟩ := ih h
        exact ⟨hnil, hnil rfl ▸ List.nil_prefix, fun g hg => List.infix_cons (hrest g hg)⟩
      · split at h
        · obtain ⟨q, hq, rfl⟩ := Option.map_eq_some_iff.mp h
          obtain ⟨-, hfirst, hrest⟩ := ih hq
          refine ⟨fun _ => rfl, List.nil_prefix, fun g hg => ?_⟩
          rcases List.mem_cons.mp hg with rfl | hg
          · exact List.infix_cons hfirst.isInfix
          · exact List.infix_cons (hrest g hg)
        · cases h
          simp
    | some depth =>
      simp only [readGroups] at h
      split at h
      · exact hopen h
      · split at h
        · cases depth with
          | zero =>
            obtain ⟨q, hq, rfl⟩ := Option.map_eq_some_iff.mp h
            obtain ⟨-, -, hrest⟩ := ih hq
            exact ⟨by simp, List.nil_prefix, fun g hg => List.infix_cons (hrest g hg)⟩
          | succ outer => exact hopen h
        · exact hopen h

theorem suffix_splitTarget (cs : List Char) : (splitTarget cs).2 <:+ cs := by
  unfold splitTarget
  split
  · next t rest hfound =>
    obtain ⟨p, -, hp⟩ := List.exists_of_findSome?_eq_some hfound
    obtain ⟨rest', hafter, heq⟩ := Option.map_eq_some_iff.mp hp
    cases heq
    exact suffix_of_after? hafter
  · exact List.suffix_rfl

end Effect
end DeckDuel
