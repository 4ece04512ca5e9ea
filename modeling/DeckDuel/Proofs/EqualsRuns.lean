/-
DeckDuel.Proofs.EqualsRuns — which equals signs a condition gains.

* `Formula.lengthened` — a run of equals signs gains two of them if one
  is left over after cutting it in threes, unless it is a single one
  that belongs to the sign before it.
* `Formula.promote_eq_lengthenRuns` — for a text without masks this is
  all that promotion does, at each maximal run of equals signs. So the
  six operators stay, and a second promotion changes nothing.

The longest operator is hidden first, wherever it stands, so a run loses
three signs at a time from its front (`Formula.promote_three`); what is
left of it decides. Only a run that was never cut still stands behind
its sign, which is why `!====` gains two and `!=` does not.
-/
import DeckDuel.Proofs.MaximalRuns
import DeckDuel.Proofs.Sandbox

namespace DeckDuel.Formula

open DeckDuel.Text

/-- The signs that make one operator with a single equals sign behind
them. -/
def joiningSigns : List Char := ['!', '<', '>']

/-- What becomes of a run behind a character: two equals signs more, if
it is made of equals signs, its length leaves one when cut in threes, and
it is not a single one that belongs to the character. -/
def lengthened (before : Option Char) (run : List Char) : List Char :=
  if (∀ c ∈ run, c = '=') ∧ run.length % 3 = 1 ∧
      ¬ (run.length = 1 ∧ before.any joiningSigns.contains = true) then
    run ++ ['=', '=']
  else run

/-- The runs of a text behind a character, each one lengthened. -/
def lengthenRuns : Option Char → List (List Char) → List (List Char)
  | _, [] => []
  | before, run :: more => lengthened before run :: lengthenRuns run.getLast? more

/-- The operators that an equals sign takes part in. -/
def equalsOperators : List (List Char) :=
  ["==".toList, "===".toList, "!=".toList, "!==".toList, "<=".toList, ">=".toList]

/-! ## One run -/

/-- Three equals signs at the front are one operator, whatever follows. -/
theorem promote_three (cs : List Char) :
    promote ('=' :: '=' :: '=' :: cs) = '=' :: '=' :: '=' :: promote cs := by
  simp [promote, mask, unmask, masks, replaceAll, replaceFrom, List.isPrefixOf]

theorem head?_masks : ∀ m ∈ masks, ∀ c ∈ m.1.head?, c = '=' ∨ c ∈ joiningSigns := by decide

/-- A character that is no equals sign, joins none and hides none is
plain. -/
theorem isPlain_of_not_joins {c : Char} (hequals : c ≠ '=') (hmask : c ∉ maskChars)
    (hjoins : c ∉ joiningSigns) : isPlain c = true := by
  refine List.all_eq_true.mpr fun m hm => ?_
  have hhead : m.1.head? ≠ some c := fun heq => (head?_masks m hm c heq).elim hequals hjoins
  have hhidden : m.2 ≠ c := fun heq => hmask (List.mem_map.mpr ⟨m, hm, heq⟩)
  rw [bne_iff_ne.mpr hhead, bne_iff_ne.mpr hhidden, Bool.true_and]

theorem promote_cons_three {c : Char} (hequals : c ≠ '=') (hmask : c ∉ maskChars)
    (cs : List Char) :
    promote (c :: '=' :: '=' :: '=' :: cs) = c :: '=' :: '=' :: '=' :: promote cs := by
  by_cases hjoins : c ∈ joiningSigns
  · simp only [joiningSigns, List.mem_cons, List.not_mem_nil, or_false] at hjoins
    rcases hjoins with rfl | rfl | rfl <;>
      simp [promote, mask, unmask, masks, replaceAll, replaceFrom, List.isPrefixOf]
  · rw [promote_cons (isPlain_of_not_joins hequals hmask hjoins), promote_three]

theorem lengthened_replicate (before : Option Char) (n : Nat) :
    lengthened before (List.replicate n '=') =
      if n % 3 = 1 ∧ ¬ (n = 1 ∧ before.any joiningSigns.contains = true) then List.replicate (n + 2) '='
      else List.replicate n '=' := by
  simp [lengthened, List.mem_replicate, List.replicate_add]

theorem lengthened_three (before : Option Char) (n : Nat) :
    lengthened before (List.replicate (n + 3) '=') =
      '=' :: '=' :: '=' :: lengthened none (List.replicate n '=') := by
  have hmod : (n + 3) % 3 = n % 3 := Nat.add_mod_right n 3
  have hlong : n + 3 ≠ 1 := by omega
  rw [lengthened_replicate, lengthened_replicate, hmod]
  by_cases h : n % 3 = 1 <;> simp [h, hlong, List.replicate_succ]

theorem promote_replicate : ∀ n, promote (List.replicate n '=') =
    lengthened none (List.replicate n '=')
  | 0 => by decide
  | 1 => by decide
  | 2 => by decide
  | n + 3 => by
    rw [lengthened_three, ← promote_replicate n]
    exact promote_three _

/-- A run behind a character that is no equals sign: with fewer than
three signs the character decides, otherwise the first three of them are
an operator of their own. -/
theorem promote_cons_replicate {c : Char} (hequals : c ≠ '=') (hmask : c ∉ maskChars) (n : Nat) :
    promote (c :: List.replicate n '=') = c :: lengthened (some c) (List.replicate n '=') := by
  by_cases hjoins : c ∈ joiningSigns
  · match n with
    | n + 3 =>
      rw [lengthened_three, ← promote_replicate n]
      exact promote_cons_three hequals hmask _
    | 0 | 1 | 2 =>
      simp only [joiningSigns, List.mem_cons, List.not_mem_nil, or_false] at hjoins
      rcases hjoins with rfl | rfl | rfl <;> decide
  · have hsame : lengthened (some c) (List.replicate n '=') =
        lengthened none (List.replicate n '=') := by
      simp [lengthened_replicate, hjoins]
    rw [promote_cons (isPlain_of_not_joins hequals hmask hjoins), promote_replicate, hsame]

theorem promote_singleton {c : Char} (hequals : c ≠ '=') (hmask : c ∉ maskChars) :
    promote [c] = [c] := by
  simpa [lengthened] using promote_cons_replicate hequals hmask 0

/-! ## Run by run -/

variable {cs : List Char}

/-- A run without equals signs and masks stays. -/
theorem promote_of_no_equals (hequals : ∀ c ∈ cs, c ≠ '=') (hmask : ∀ c ∈ cs, c ∉ maskChars) :
    promote cs = cs := by
  induction cs with
  | nil => rfl
  | cons c cs ih =>
    have hnext : NoEquals cs := fun d hd =>
      hequals d (List.mem_cons_of_mem c (List.mem_of_mem_head? hd))
    have hfirst : promote [c] = [c] :=
      promote_singleton (hequals c List.mem_cons_self) (hmask c List.mem_cons_self)
    have hrest : promote cs = cs := ih (fun d hd => hequals d (List.mem_cons_of_mem c hd))
      fun d hd => hmask d (List.mem_cons_of_mem c hd)
    calc promote (c :: cs) = promote [c] ++ promote cs := promote_append hnext [c]
      _ = c :: cs := by rw [hfirst, hrest, List.singleton_append]

theorem lengthened_of_not_equals {before : Option Char} {c : Char} (hc : c ∈ cs) (hne : c ≠ '=') :
    lengthened before cs = cs :=
  if_neg fun h => hne (h.1 c hc)

/-- One more run behind a text that it does not go on: what the text is
promoted to stays, and the run is lengthened or not. -/
theorem promote_append_run {pre run : List Char} {k : Bool} (hall : ∀ c ∈ run, (c == '=') = k)
    (hpre : ∀ c ∈ pre.getLast?, k = true → c ≠ '=') (hmask : ∀ c ∈ pre ++ run, c ∉ maskChars) :
    promote (pre ++ run) = promote pre ++ lengthened pre.getLast? run := by
  cases k with
  | false =>
    have hne : ∀ c ∈ run, c ≠ '=' := fun c hc => beq_eq_false_iff_ne.mp (hall c hc)
    have hkept : lengthened pre.getLast? run = run := by
      cases run with
      | nil => simp [lengthened]
      | cons c run => exact lengthened_of_not_equals List.mem_cons_self (hne c List.mem_cons_self)
    rw [promote_append fun c hc => hne c (List.mem_of_mem_head? hc),
      promote_of_no_equals hne fun c hc => hmask c (List.mem_append_right pre hc), hkept]
  | true =>
    have hrun : run = List.replicate run.length '=' :=
      List.eq_replicate_iff.mpr ⟨rfl, fun c hc => eq_of_beq (hall c hc)⟩
    rw [hrun]
    rcases List.eq_nil_or_concat pre with rfl | ⟨init, c, rfl⟩
    · exact promote_replicate _
    · rw [List.concat_eq_append] at hpre hmask ⊢
      have hlast : (init ++ [c]).getLast? = some c := List.getLast?_concat
      have hequals : c ≠ '=' := hpre c hlast rfl
      have hfree : c ∉ maskChars := hmask c (by simp)
      have hnext (rest : List Char) : NoEquals (c :: rest) := fun d hd => by
        obtain rfl : c = d := by simpa using hd
        exact hequals
      rw [List.append_assoc, List.singleton_append, promote_append (hnext _),
        promote_append (hnext _), promote_cons_replicate hequals hfree, hlast,
        promote_singleton hequals hfree, List.append_assoc, List.singleton_append]

/-- By induction on the runs, with what stands before them. -/
theorem promote_append_flatten {pre : List Char} {pieces : List (List Char)}
    (h : AreRuns (· == '=') pieces)
    (hpre : ∀ c ∈ pre.getLast?, ∀ d ∈ pieces.flatten.head?, d = '=' → c ≠ '=')
    (hmask : ∀ c ∈ pre ++ pieces.flatten, c ∉ maskChars) :
    promote (pre ++ pieces.flatten) =
      promote pre ++ (lengthenRuns pre.getLast? pieces).flatten := by
  induction h generalizing pre with
  | nil => simp [lengthenRuns]
  | @cons k run more hne hall hnext _ ih =>
    have hlast : (pre ++ run).getLast? = run.getLast? := List.getLast?_append_of_ne_nil pre hne
    have hfirst : promote (pre ++ run) = promote pre ++ lengthened pre.getLast? run := by
      refine promote_append_run hall (fun c hc hk => ?_) fun c hc => ?_
      · obtain ⟨d, ds, rfl⟩ := List.exists_cons_of_ne_nil hne
        exact hpre c hc d rfl (eq_of_beq ((hall d List.mem_cons_self).trans hk))
      · rw [List.flatten_cons, ← List.append_assoc] at hmask
        exact hmask c (List.mem_append_left _ hc)
    have hrest : promote ((pre ++ run) ++ more.flatten) =
        promote (pre ++ run) ++ (lengthenRuns run.getLast? more).flatten := by
      rw [← hlast]
      refine ih (fun c hc d hd hd' hc' => ?_) fun c hc => hmask c (by simpa using hc)
      rw [hlast] at hc
      have hside : (c == '=') = !(d == '=') := by
        rw [hall c (List.mem_of_mem_getLast? hc), hnext d hd, Bool.not_not]
      simp [hc', hd'] at hside
    rw [List.flatten_cons, ← List.append_assoc, hrest, hfirst, lengthenRuns, List.flatten_cons,
      List.append_assoc]

theorem promote_flatten {pieces : List (List Char)} (h : AreRuns (· == '=') pieces)
    (hmask : ∀ c ∈ pieces.flatten, c ∉ maskChars) :
    promote pieces.flatten = (lengthenRuns none pieces).flatten :=
  @promote_append_flatten [] pieces h (by simp) hmask

/-! ## Once more -/

/-- A run is lengthened by equals signs that join those at its end. -/
theorem lengthened_cases (before : Option Char) (run : List Char) :
    lengthened before run = run ∨ (∀ c ∈ run, c = '=') ∧ run.length % 3 = 1 ∧
      lengthened before run = run ++ ['=', '='] := by
  unfold lengthened
  split
  · next h => exact .inr ⟨h.1, h.2.1, rfl⟩
  · exact .inl rfl

theorem lengthened_lengthened (before : Option Char) (run : List Char) :
    lengthened before (lengthened before run) = lengthened before run := by
  rcases lengthened_cases before run with h | ⟨-, hlength, h⟩
  · rw [h, h]
  · have hthrees : (run ++ ['=', '=']).length % 3 ≠ 1 := by
      rw [List.length_append, List.length_cons, List.length_singleton]
      omega
    rw [h]
    exact if_neg fun hagain => hthrees hagain.2.1

theorem getLast?_lengthened (before : Option Char) (run : List Char) :
    (lengthened before run).getLast? = run.getLast? := by
  rcases lengthened_cases before run with h | ⟨hall, hlength, h⟩
  · rw [h]
  · have hne : run ≠ [] := by
      rintro rfl
      cases hlength
    rw [h, List.getLast?_eq_some_getLast hne, hall _ (List.getLast_mem hne)]
    simp

theorem mem_lengthened {before : Option Char} {run : List Char} {c : Char}
    (h : c ∈ lengthened before run) : c ∈ run ∨ c = '=' := by
  rcases lengthened_cases before run with hsame | ⟨-, -, hmore⟩
  · exact .inl (hsame ▸ h)
  · rw [hmore] at h
    simpa using h

theorem sameSide_lengthened (before : Option Char) (run : List Char) :
    SameSide (· == '=') run (lengthened before run) := by
  rcases lengthened_cases before run with h | ⟨hall, hlength, h⟩
  · rw [h]
    exact ⟨id, fun _ => id⟩
  · rw [h]
    refine ⟨fun _ => by simp, fun k hk d hd => ?_⟩
    obtain ⟨c, cs, rfl⟩ : ∃ c cs, run = c :: cs :=
      List.exists_cons_of_length_pos (Nat.pos_of_ne_zero fun h0 => by simp [h0] at hlength)
    have hd' : d = '=' := (List.mem_append.mp hd).elim (hall d) (by simp)
    rw [hd', ← hk c List.mem_cons_self, hall c List.mem_cons_self]

theorem sameSide_lengthenRuns (before : Option Char) (pieces : List (List Char)) :
    List.Forall₂ (SameSide (· == '=')) pieces (lengthenRuns before pieces) := by
  induction pieces generalizing before with
  | nil => exact .nil
  | cons run more ih => exact .cons (sameSide_lengthened before run) (ih _)

/-- The last characters of the runs stay, so each run is looked at behind
the same character again. -/
theorem lengthenRuns_lengthenRuns (before : Option Char) (pieces : List (List Char)) :
    lengthenRuns before (lengthenRuns before pieces) = lengthenRuns before pieces := by
  induction pieces generalizing before with
  | nil => rfl
  | cons run more ih =>
    simp only [lengthenRuns, lengthened_lengthened, getLast?_lengthened, ih]

theorem mem_flatten_lengthenRuns {before : Option Char} {pieces : List (List Char)} {c : Char}
    (h : c ∈ (lengthenRuns before pieces).flatten) : c ∈ pieces.flatten ∨ c = '=' := by
  induction pieces generalizing before with
  | nil => cases h
  | cons run more ih =>
    rw [lengthenRuns, List.flatten_cons, List.mem_append] at h
    rw [List.flatten_cons]
    rcases h with h | h
    · exact (mem_lengthened h).imp_left (List.mem_append_left _)
    · exact (ih h).imp_left (List.mem_append_right _)

/-! ## Whole texts -/

/-- Two of the operators are runs that are not lengthened; the others
start with another sign and are promoted to themselves. -/
theorem equalsOperators_cases : ∀ operator ∈ equalsOperators,
    operator.head? = some '=' ∧ (∀ c ∈ operator, c = '=') ∧ operator.length % 3 ≠ 1 ∨
      operator.head? ≠ some '=' ∧ promote operator = operator := by
  decide

/-- An operator stays if its equals signs are all that stand there. -/
theorem promote_operator {pre operator post : List Char} (hoperator : operator ∈ equalsOperators)
    (hpre : operator.head? = some '=' → pre.getLast? ≠ some '=') (hpost : NoEquals post)
    (hmask : ∀ c ∈ pre, c ∉ maskChars) :
    promote (pre ++ (operator ++ post)) = promote pre ++ (operator ++ promote post) := by
  have hkept : promote (pre ++ operator) = promote pre ++ operator := by
    rcases equalsOperators_cases operator hoperator with ⟨hhead, hall, hlength⟩ | ⟨hhead, hsame⟩
    · have hequals : ∀ c ∈ operator, (c == '=') = true := fun c hc => beq_iff_eq.mpr (hall c hc)
      have hfree : ∀ c ∈ pre ++ operator, c ∉ maskChars := by
        intro c hc
        rcases List.mem_append.mp hc with hc | hc
        · exact hmask c hc
        · rw [hall c hc]
          decide
      rw [promote_append_run hequals (fun c hc _ heq => hpre hhead (heq ▸ hc)) hfree]
      exact congrArg (promote pre ++ ·) (if_neg fun h => hlength h.2.1)
    · rw [promote_append fun c hc heq => hhead (heq ▸ hc), hsame]
  rw [← List.append_assoc, promote_append hpost, hkept, List.append_assoc]

/-- **Promotion lengthens lone equals signs and nothing else.** In a text
without masks, a maximal run of equals signs gains two of them exactly if
its length leaves one when cut in threes and it is not a single sign
right behind `!`, `<` or `>`. Promoting once more changes nothing, and
`==`, `===`, `!=`, `!==`, `<=` and `>=` stay as they are wherever no other
equals sign touches theirs. -/
theorem promote_eq_lengthenRuns (cs : List Char) (hmask : ∀ c ∈ cs, c ∉ maskChars) :
    promote cs = (lengthenRuns none (runs (· == '=') cs)).flatten ∧
      promote (promote cs) = promote cs ∧
      ∀ pre operator post, cs = pre ++ (operator ++ post) → operator ∈ equalsOperators →
        (operator.head? = some '=' → pre.getLast? ≠ some '=') → post.head? ≠ some '=' →
        promote cs = promote pre ++ (operator ++ promote post) := by
  have hruns : AreRuns (· == '=') (runs (· == '=') cs) := areRuns_runs _ cs
  have hfirst : promote cs = (lengthenRuns none (runs (· == '=') cs)).flatten := by
    rw [← promote_flatten hruns (by rwa [flatten_runs]), flatten_runs]
  refine ⟨hfirst, ?_, ?_⟩
  · -- the lengthened runs are the maximal runs of the new text, which has no masks either
    have hagain : AreRuns (· == '=') (lengthenRuns none (runs (· == '=') cs)) :=
      hruns.congr (sameSide_lengthenRuns none _)
    have hfree : ∀ c ∈ (lengthenRuns none (runs (· == '=') cs)).flatten, c ∉ maskChars := by
      intro c hc
      rcases mem_flatten_lengthenRuns hc with hmem | rfl
      · rw [flatten_runs] at hmem
        exact hmask c hmem
      · decide
    rw [hfirst, promote_flatten hagain hfree, lengthenRuns_lengthenRuns]
  · rintro pre operator post rfl hoperator hpre hpost
    exact promote_operator hoperator hpre (fun c hc heq => hpost (heq ▸ hc)) fun c hc =>
      hmask c (List.mem_append_left _ hc)

/-- A single sign, one behind `<`, four and five signs. -/
theorem promote_eq_lengthenRuns_mixed :
    (∀ c ∈ "2<=3&&1=1&&!====5=====".toList, c ∉ maskChars) ∧
      promote "2<=3&&1=1&&!====5=====".toList = "2<=3&&1===1&&!======5=====".toList := by
  have hfree : ∀ c ∈ "2<=3&&1=1&&!====5=====".toList, c ∉ maskChars := by decide +kernel
  have hruns : (lengthenRuns none (runs (· == '=') "2<=3&&1=1&&!====5=====".toList)).flatten =
      "2<=3&&1===1&&!======5=====".toList := by decide +kernel
  exact ⟨hfree, (promote_eq_lengthenRuns _ hfree).1.trans hruns⟩

/-- A mask in the text comes out as its operator, so the condition on the
text is needed. -/
example : promote ['1', '\ue002', '1'] = "1==1".toList := by decide

end DeckDuel.Formula
