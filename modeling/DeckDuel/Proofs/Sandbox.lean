/-
DeckDuel.Proofs.Sandbox — what a condition can be made of.

* `Formula.fullWidthSigns` — the nine signs that become comparisons and
  parentheses; `Formula.maskChars` — the six private-use characters that
  hide an operator while lone equals signs are lengthened.
* `Formula.mem_promote_normalize` — no other character is lost before
  the whitelist is looked at, unless the whitelist has it.
* `Formula.allowed_of_holds` — so a condition that holds is made of the
  characters of conditions, full-width signs and masks.

The masks are the gap: one that stands in the text from the start comes
out as its operator, and the whitelist never sees it
(`Formula.exists_holds_masked`).
-/
import DeckDuel.Proofs.Promotion
import DeckDuel.Scalar.Double

namespace DeckDuel

namespace Text

/-! ## Replacing -/

/-- A character that the pattern has not is never replaced. By induction
on the text; what is still to be skipped belongs to an occurrence. -/
theorem mem_replaceFrom {p : Char} {ps replacement cs : List Char} {c : Char} (h : c ∉ p :: ps)
    {skip : Nat} (hskip : ∀ d ∈ cs.take skip, d ∈ ps) (hc : c ∈ cs) :
    c ∈ replaceFrom (p :: ps) replacement skip cs := by
  induction cs generalizing skip with
  | nil => cases hc
  | cons d cs ih =>
    cases skip with
    | succ skip =>
      have hd : d ∈ ps := hskip d List.mem_cons_self
      have hrest : c ∈ cs := by
        rcases List.mem_cons.mp hc with rfl | hc
        · exact absurd (List.mem_cons_of_mem p hd) h
        · exact hc
      exact ih (fun e he => hskip e (List.mem_cons_of_mem d he)) hrest
    | zero =>
      rw [replaceFrom]
      split
      · next hoccurs =>
        obtain ⟨rest, hrest⟩ := List.isPrefixOf_iff_prefix.mp hoccurs
        obtain ⟨rfl, rfl⟩ := List.cons.inj hrest
        have hmem : c ∈ ps ++ rest := by
          rcases List.mem_cons.mp hc with rfl | hc
          · exact absurd List.mem_cons_self h
          · exact hc
        exact List.mem_append_right _ (ih (by simp) hmem)
      · rcases List.mem_cons.mp hc with rfl | hc
        · exact List.mem_cons_self
        · exact List.mem_cons_of_mem d (ih (by simp) hc)

theorem mem_replaceAll {pattern replacement cs : List Char} (hne : pattern ≠ []) {c : Char}
    (h : c ∉ pattern) (hc : c ∈ cs) : c ∈ replaceAll pattern replacement cs := by
  cases pattern with
  | nil => exact absurd rfl hne
  | cons p ps => exact mem_replaceFrom h (by simp) hc

end Text

namespace Formula

open DeckDuel.Text

/-! ## Characters that stay -/

/-- The full-width signs with an ASCII form. -/
def fullWidthSigns : List Char := ['≥', '≤', '≠', '＝', '＞', '＜', '！', '（', '）']

/-- The private-use characters that stand for operators. -/
def maskChars : List Char := masks.map Prod.snd

theorem normalizeChar_of_not_mem {c : Char} (h : c ∉ fullWidthSigns) : normalizeChar c = [c] := by
  unfold normalizeChar
  split <;> first | exact absurd (by decide) h | rfl

theorem mem_normalize {cs : List Char} {c : Char} (h : c ∉ fullWidthSigns) (hc : c ∈ cs) :
    c ∈ normalize cs :=
  List.mem_flatMap.mpr ⟨c, hc, by simp [normalizeChar_of_not_mem h]⟩

theorem mem_mask {cs : List Char} {c : Char} (h : ∀ m ∈ masks, c ∉ m.1) (hc : c ∈ cs) :
    c ∈ mask cs :=
  List.foldlRecOn masks _ hc fun _ ht m hm =>
    mem_replaceAll (hidesEquals_masks m hm).1 (h m hm) ht

theorem mem_unmask {cs : List Char} {c : Char} (h : c ∉ maskChars) (hc : c ∈ cs) :
    c ∈ unmask cs := by
  refine List.foldlRecOn masks _ hc fun _ ht m hm => mem_replaceAll (by simp) ?_ ht
  rw [List.mem_singleton]
  rintro rfl
  exact h (List.mem_map_of_mem hm)

/-- The operators are made of characters of conditions. -/
theorem isConditionChar_of_mem_masks : ∀ m ∈ masks, ∀ c ∈ m.1, isConditionChar c = true := by
  decide

/-- Whatever may not stand in a condition is still there when the
whitelist is looked at, unless it was a sign or a mask. -/
theorem mem_promote_normalize {cs : List Char} {c : Char} (hallowed : isConditionChar c = false)
    (hsign : c ∉ fullWidthSigns) (hmask : c ∉ maskChars) (hc : c ∈ cs) :
    c ∈ promote (normalize cs) := by
  have hoperator : ∀ m ∈ masks, c ∉ m.1 := by
    intro m hm hmem
    rw [isConditionChar_of_mem_masks m hm c hmem] at hallowed
    cases hallowed
  have hequals : c ∉ ['='] := by
    rw [List.mem_singleton]
    rintro rfl
    cases hallowed
  have hmasked : c ∈ mask (normalize cs) := mem_mask hoperator (mem_normalize hsign hc)
  exact mem_unmask hmask (mem_replaceAll (by simp) hequals hmasked)

/-! ## The whitelist -/

variable {α : Type} [Scalar α]

/-- One character that is not allowed makes a text worthless. -/
theorem evaluate_eq_none_of_mem {allowed : Char → Bool} {cs : List Char} {c : Char}
    (h : allowed c = false) (hc : c ∈ cs) : (evaluate allowed cs : Option (Value α)) = none := by
  have hall : cs.all allowed = false := List.all_eq_false.mpr ⟨c, hc, by simp [h]⟩
  simp [evaluate, hall]

/-- **What a condition that holds is made of:** characters of conditions,
full-width signs that have an ASCII form, and masks. Any other character
makes a condition false. -/
theorem allowed_of_holds {cs : List Char} (h : holds α cs = true) :
    ∀ c ∈ cs, isConditionChar c = true ∨ c ∈ fullWidthSigns ∨ c ∈ maskChars := by
  intro c hc
  by_cases hsign : c ∈ fullWidthSigns
  · exact .inr (.inl hsign)
  by_cases hmask : c ∈ maskChars
  · exact .inr (.inr hmask)
  cases hallowed : isConditionChar c with
  | true => exact .inl rfl
  | false =>
    have hmem : c ∈ promote (normalize cs) := mem_promote_normalize hallowed hsign hmask hc
    rw [holds, evaluate_eq_none_of_mem hallowed hmem] at h
    cases h

/-- A condition with a full-width sign and blanks. -/
theorem allowed_of_holds_fullWidth : holds Double "3 ≥ 2.5 && ！(1=2)".toList = true ∧
    ∀ c ∈ "3 ≥ 2.5 && ！(1=2)".toList,
      isConditionChar c = true ∨ c ∈ fullWidthSigns ∨ c ∈ maskChars := by
  have h : holds Double "3 ≥ 2.5 && ！(1=2)".toList = true := by decide +kernel
  exact ⟨h, allowed_of_holds h⟩

/-- A mask does get past the whitelist: between two fives it is the
equality that it stands for. -/
theorem exists_holds_masked : ¬ ∀ cs : List Char, holds Double cs = true →
    ∀ c ∈ cs, isConditionChar c = true ∨ c ∈ fullWidthSigns := by
  intro h
  have hholds : holds Double ['5', '\ue002', '5'] = true := by decide +kernel
  exact absurd (h _ hholds '\ue002' (by simp)) (by decide)

end Formula
end DeckDuel
