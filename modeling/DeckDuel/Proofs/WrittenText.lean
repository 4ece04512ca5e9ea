/-
DeckDuel.Proofs.WrittenText — the text of a value is read as the value.

* `Doc.scanText_escaped` — a quoted text is read as the text.
* `Doc.scanNumber_append` — a number that a text is read as, to its end,
  is also what is read in front of a comma or a closing bracket.
* `Doc.scanValue_write`, `Doc.scanAll_write` — a written value is
  scanned as its document, if its numbers are. Integers of 64 bits are;
  for any other number this is asked (`Doc.ReadsBack`), since it depends
  on the digits that are printed.
-/
import Mathlib.Data.List.DropRight
import Mathlib.Tactic.IntervalCases
import DeckDuel.Json.Scan
import DeckDuel.Proofs.CanonicalForm
import DeckDuel.Proofs.Scanning

namespace DeckDuel

namespace Doc

/-! ## Texts -/

theorem scanUnicode_control {n : Nat} (h : n < 32) (rest : List Char) :
    scanUnicode ('0' :: '0' :: Json.hexDigit (n / 16) :: Json.hexDigit (n % 16) :: rest) =
      .ok (some (Char.ofNat n), rest) := by
  interval_cases n <;> rfl

/-- An escaped character is read as the character, in one step. -/
theorem scanText_escapeChar (steps : Nat) (c : Char) (read rest : List Char) :
    scanText (steps + 1) true read (Json.escapeChar c ++ rest) =
      scanText steps true (c :: read) rest := by
  unfold Json.escapeChar
  split
  · next h => subst h; rfl
  split
  · next h => subst h; rfl
  split
  · next h => subst h; rfl
  split
  · next h => subst h; rfl
  split
  · next h => subst h; rfl
  split
  · next h =>
    rw [← Char.ofNat_toNat c, h]
    rfl
  split
  · next h =>
    rw [← Char.ofNat_toNat c, h]
    rfl
  split
  · next h =>
    have hunicode := scanUnicode_control h rest
    simp only [List.cons_append, List.nil_append, scanText, hunicode, Char.ofNat_toNat]
  · next hquote hslash _ _ _ _ _ hcontrol =>
    simp only [List.singleton_append]
    rw [scanText]
    · exact if_neg hcontrol
    all_goals simp_all

theorem scanText_flatMap {steps : Nat} {cs : List Char} (h : cs.length < steps)
    (read rest : List Char) :
    scanText steps true read (cs.flatMap Json.escapeChar ++ '"' :: rest) =
      .ok (some (String.ofList (read.reverse ++ cs)), rest) := by
  induction cs generalizing steps read with
  | nil =>
    obtain ⟨steps, rfl⟩ : ∃ n, steps = n + 1 := ⟨steps - 1, by simp at h; omega⟩
    rw [List.flatMap_nil, List.nil_append, List.append_nil]
    rfl
  | cons c cs ih =>
    obtain ⟨steps, rfl⟩ : ∃ n, steps = n + 1 := ⟨steps - 1, by simp at h; omega⟩
    rw [List.flatMap_cons, List.append_assoc, scanText_escapeChar,
      ih (by simpa using h), List.reverse_cons, List.append_assoc, List.singleton_append]

/-- The body of a quoted text is at least as long as the text. -/
theorem length_le_flatMap_escapeChar (cs : List Char) :
    cs.length ≤ (cs.flatMap Json.escapeChar).length := by
  induction cs with
  | nil => simp
  | cons c cs ih =>
    have hpos : 1 ≤ (Json.escapeChar c).length := by
      unfold Json.escapeChar
      repeat' split
      all_goals simp
    rw [List.flatMap_cons, List.length_append, List.length_cons]
    omega

/-- A quoted text is read as the text. -/
theorem scanText_quote {steps : Nat} {s : String} (h : (Json.quote s).length ≤ steps)
    (rest : List Char) :
    scanText steps true [] (s.toList.flatMap Json.escapeChar ++ '"' :: rest) =
      .ok (some s, rest) := by
  have hlength := length_le_flatMap_escapeChar s.toList
  simp only [Json.quote, List.cons_append, List.length_cons, List.length_append, List.length_nil]
    at h
  rw [scanText_flatMap (by omega), List.reverse_nil, List.nil_append, String.ofList_toList]

/-! ## What follows a number -/

/-- A text that does not go on with a number: it is empty, or it goes on
with a comma or a closing bracket. -/
def EndsValue (rest : List Char) : Prop := ∀ c ∈ rest.head?, c = ',' ∨ c = ']' ∨ c = '}'

namespace EndsValue

variable {rest : List Char}

theorem not_isDigit (h : EndsValue rest) : ∀ c ∈ rest.head?, c.isDigit = false := by
  intro c hc
  rcases h c hc with rfl | rfl | rfl <;> decide

theorem span_append (h : EndsValue rest) (cs : List Char) :
    (cs ++ rest).takeWhile Char.isDigit = cs.takeWhile Char.isDigit ∧
      (cs ++ rest).dropWhile Char.isDigit = cs.dropWhile Char.isDigit ++ rest := by
  induction cs with
  | nil => exact Text.takeWhile_append_of_head (List.forall_mem_nil _) h.not_isDigit
  | cons c cs ih =>
    cases hc : c.isDigit with
    | true => simp [hc, ih.1, ih.2]
    | false => simp [hc]

end EndsValue

theorem scanFraction_append {cs ds r rest : List Char} (hrest : EndsValue rest)
    (h : scanFraction cs = .ok (ds, r)) : scanFraction (cs ++ rest) = .ok (ds, r ++ rest) := by
  obtain ⟨htake, hdrop⟩ := hrest.span_append cs
  unfold scanFraction at h ⊢
  rw [htake, hdrop]
  dsimp only at h ⊢
  split at h
  · cases h
  · next hne =>
    cases h
    rw [if_neg hne]

/-- An exponent after its sign. -/
def exponentAfterSign (negative : Bool) (body : List Char) : Except Breach (Int × List Char) :=
  if (body.takeWhile Char.isDigit).isEmpty then
    .error (numberBreach (body.dropWhile Char.isDigit))
  else
    let n : Int := Numeral.natOf (body.takeWhile Char.isDigit)
    .ok (if negative then -n else n, body.dropWhile Char.isDigit)

theorem exponentAfterSign_append {negative : Bool} {cs r rest : List Char} {e : Int}
    (hrest : EndsValue rest) (h : exponentAfterSign negative cs = .ok (e, r)) :
    exponentAfterSign negative (cs ++ rest) = .ok (e, r ++ rest) := by
  obtain ⟨htake, hdrop⟩ := hrest.span_append cs
  unfold exponentAfterSign at h ⊢
  rw [htake, hdrop]
  split at h
  · cases h
  · next hne =>
    cases h
    rw [if_neg hne]

theorem scanExponent_cons (c : Char) (cs : List Char) :
    scanExponent (c :: cs) =
      if c = '-' then exponentAfterSign true cs
      else if c = '+' then exponentAfterSign false cs
      else exponentAfterSign false (c :: cs) := by
  by_cases hminus : c = '-'
  · subst hminus
    rfl
  · by_cases hplus : c = '+'
    · subst hplus
      rfl
    · rw [if_neg hminus, if_neg hplus]
      unfold scanExponent exponentAfterSign
      split
      · next heq =>
        split at heq <;> simp_all

theorem scanExponent_append {cs r rest : List Char} {e : Int} (hrest : EndsValue rest)
    (h : scanExponent cs = .ok (e, r)) : scanExponent (cs ++ rest) = .ok (e, r ++ rest) := by
  cases cs with
  | nil => cases h
  | cons c cs =>
    rw [List.cons_append, scanExponent_cons]
    rw [scanExponent_cons] at h
    split
    · next hminus =>
      rw [if_pos hminus] at h
      exact exponentAfterSign_append hrest h
    · next hminus =>
      rw [if_neg hminus] at h
      split
      · next hplus =>
        rw [if_pos hplus] at h
        exact exponentAfterSign_append hrest h
      · next hplus =>
        rw [if_neg hplus] at h
        exact exponentAfterSign_append hrest h

/-- A number after its digits and those after its point. -/
def scanTail (ds fraction : List Char) (fractional : Bool) (cs : List Char) :
    Except Breach (Written × List Char) :=
  match cs with
  | c :: r =>
    if c = 'e' || c = 'E' then
      (scanExponent r).bind fun x => .ok (⟨ds ++ fraction, fraction.length, x.1, false⟩, x.2)
    else .ok (⟨ds ++ fraction, fraction.length, 0, !fractional⟩, cs)
  | [] => .ok (⟨ds ++ fraction, fraction.length, 0, !fractional⟩, cs)

theorem scanTail_append {ds fraction cs r rest : List Char} {fractional : Bool} {w : Written}
    (hrest : EndsValue rest) (h : scanTail ds fraction fractional cs = .ok (w, r)) :
    scanTail ds fraction fractional (cs ++ rest) = .ok (w, r ++ rest) := by
  cases cs with
  | nil =>
    cases h
    cases rest with
    | nil => rfl
    | cons c rest =>
      rcases hrest c rfl with rfl | rfl | rfl <;> rfl
  | cons c cs =>
    simp only [scanTail, List.cons_append] at h ⊢
    split at h
    · next he =>
      rw [if_pos he]
      cases hscan : scanExponent cs with
      | error b =>
        rw [hscan] at h
        cases h
      | ok x =>
        rw [hscan] at h
        cases h
        rw [scanExponent_append hrest hscan]
        rfl
    · next he =>
      cases h
      rw [if_neg he]
      rfl

/-- A number after its digits. -/
def scanAfterDigits (ds cs : List Char) : Except Breach (Written × List Char) :=
  match cs with
  | '.' :: r => (scanFraction r).bind fun x => scanTail ds x.1 true x.2
  | r => scanTail ds [] false r

theorem scanAfterDigits_of_ne {ds cs : List Char} (h : ∀ c ∈ cs.head?, c ≠ '.') :
    scanAfterDigits ds cs = scanTail ds [] false cs := by
  unfold scanAfterDigits
  split
  · exact absurd rfl (h '.' rfl)
  · rfl

theorem scanAfterDigits_append {ds cs r rest : List Char} {w : Written} (hrest : EndsValue rest)
    (h : scanAfterDigits ds cs = .ok (w, r)) :
    scanAfterDigits ds (cs ++ rest) = .ok (w, r ++ rest) := by
  by_cases hpoint : ∃ cs', cs = '.' :: cs'
  · obtain ⟨cs', rfl⟩ := hpoint
    simp only [scanAfterDigits, List.cons_append] at h ⊢
    cases hscan : scanFraction cs' with
    | error b =>
      rw [hscan] at h
      cases h
    | ok x =>
      rw [hscan] at h
      rw [scanFraction_append hrest hscan]
      exact scanTail_append hrest h
  · have hcs : ∀ c ∈ cs.head?, c ≠ '.' := by
      rintro c hc rfl
      exact hpoint ⟨cs.tail, (List.eq_cons_of_mem_head? hc)⟩
    have happend : ∀ c ∈ (cs ++ rest).head?, c ≠ '.' := by
      intro c hc
      rw [List.head?_append] at hc
      cases hhead : cs.head? with
      | some d =>
        rw [hhead] at hc
        cases hc
        exact hcs _ hhead
      | none =>
        rw [hhead] at hc
        rcases hrest c hc with rfl | rfl | rfl <;> decide
    rw [scanAfterDigits_of_ne hcs] at h
    rw [scanAfterDigits_of_ne happend]
    exact scanTail_append hrest h

/-- More than one digit, the first of them zero. -/
def HasLeadingZero (ds : List Char) : Prop := ∃ c cs, ds = '0' :: c :: cs

theorem scanDigits_of_digits {cs : List Char} (hne : cs.takeWhile Char.isDigit ≠ [])
    (hzero : ¬ HasLeadingZero (cs.takeWhile Char.isDigit)) :
    scanDigits cs = scanAfterDigits (cs.takeWhile Char.isDigit) (cs.dropWhile Char.isDigit) := by
  unfold scanDigits
  generalize cs.takeWhile Char.isDigit = ds at hne hzero
  generalize cs.dropWhile Char.isDigit = rest
  dsimp only
  split
  · exact absurd rfl hne
  · exact absurd ⟨_, _, rfl⟩ hzero
  · split
    · next r =>
      show _ = (scanFraction r).bind fun x => scanTail ds x.1 true x.2
      cases scanFraction r with
      | error b => rfl
      | ok x => rcases x with ⟨f, _ | ⟨c, r⟩⟩ <;> rfl
    · next hpoint =>
      rw [scanAfterDigits_of_ne]
      · rcases rest with _ | ⟨c, r⟩ <;> rfl
      · rintro c hc rfl
        exact hpoint _ (List.eq_cons_of_mem_head? hc)

theorem digits_of_scanDigits {cs r : List Char} {w : Written} (h : scanDigits cs = .ok (w, r)) :
    cs.takeWhile Char.isDigit ≠ [] ∧ ¬ HasLeadingZero (cs.takeWhile Char.isDigit) := by
  unfold scanDigits at h
  refine ⟨fun hnil => ?_, fun ⟨c, cs', hzero⟩ => ?_⟩
  · rw [hnil] at h
    cases h
  · rw [hzero] at h
    cases h

theorem scanDigits_append {cs r rest : List Char} {w : Written} (hrest : EndsValue rest)
    (h : scanDigits cs = .ok (w, r)) : scanDigits (cs ++ rest) = .ok (w, r ++ rest) := by
  obtain ⟨htake, hdrop⟩ := hrest.span_append cs
  obtain ⟨hne, hzero⟩ := digits_of_scanDigits h
  rw [scanDigits_of_digits hne hzero] at h
  rw [scanDigits_of_digits (htake ▸ hne) (htake ▸ hzero), htake, hdrop]
  exact scanAfterDigits_append hrest h

/-! ## Printed integers -/

theorem not_hasLeadingZero_toDigits (n : Nat) : ¬ HasLeadingZero (Nat.toDigits 10 n) := by
  suffices hhead : ∀ n, 0 < n → (Nat.toDigits 10 n).head? ≠ some '0' by
    rintro ⟨c, cs, h⟩
    rcases Nat.eq_zero_or_pos n with rfl | hpos
    · cases h
    · exact hhead n hpos (by rw [h]; rfl)
  intro n
  induction n using Nat.strong_induction_on with
  | _ n ih =>
    intro hpos
    rcases Nat.lt_or_ge n 10 with hlt | hge
    · rw [Nat.toDigits_of_lt_base hlt]
      interval_cases n <;> decide
    · rw [Nat.toDigits_of_base_le (by decide) hge,
        List.head?_append_of_ne_nil _ Nat.toDigits_ne_nil]
      exact ih _ (by omega) (by omega)

theorem scanDigits_toDigits (n : Nat) {rest : List Char} (hrest : EndsValue rest) :
    scanDigits (Nat.toDigits 10 n ++ rest) = .ok (⟨Nat.toDigits 10 n, 0, 0, true⟩, rest) := by
  have hdigits : ∀ c ∈ Nat.toDigits 10 n, c.isDigit = true :=
    fun c hc => Nat.isDigit_of_mem_toDigits (by decide) (by decide) hc
  obtain ⟨htake, hdrop⟩ := Text.takeWhile_append_of_head hdigits hrest.not_isDigit
  have htail : scanTail (Nat.toDigits 10 n) [] false rest =
      .ok (⟨Nat.toDigits 10 n, 0, 0, true⟩, rest) := by
    have hend : scanTail (Nat.toDigits 10 n) [] false [] =
      .ok (⟨Nat.toDigits 10 n, 0, 0, true⟩, []) := by rw [scanTail, List.append_nil]; rfl
    exact scanTail_append hrest hend
  rw [scanDigits_of_digits (by rw [htake]; exact Nat.toDigits_ne_nil)
    (by rw [htake]; exact not_hasLeadingZero_toDigits n), htake, hdrop, scanAfterDigits_of_ne, htail]
  intro c hc
  rcases hrest c hc with rfl | rfl | rfl <;> decide

theorem natOf_toDigits (n : Nat) : Numeral.natOf (Nat.toDigits 10 n) = n :=
  Nat.ofDigitChars_toDigits (by decide) (by decide)

variable {α : Type} [Scalar α]

/-! ## Values -/

/-- The text of a number is read as the number, to its end. -/
def ReadsBack (x : α) : Prop := scan (Scalar.documentText x).toList = (.real x, some [])

/-- Blanks before a value make no difference. -/
theorem scanValue_afterSpace (steps : Nat) (cs : List Char) :
    (scanValue steps (afterSpace cs) : Scanned (Doc α)) = scanValue steps cs := by
  have htwice : afterSpace (afterSpace cs) = afterSpace cs := List.dropWhile_idempotent isSpace cs
  cases steps with
  | zero => simp only [scanValue]
  | succ steps => simp only [scanValue, htwice]

theorem scanItem_afterSpace (steps : Nat) (cs : List Char) :
    (scanItem steps (afterSpace cs) : Scanned (Parts (Doc α))) = scanItem steps cs := by
  cases steps with
  | zero => simp only [scanItem]
  | succ steps => simp only [scanItem, scanValue_afterSpace]

theorem scanValue_minus (steps : Nat) (cs : List Char) :
    (scanValue (steps + 1) ('-' :: cs) : Scanned (Doc α)) = scanNumber true cs := by
  rw [scanValue]
  rfl

theorem scanValue_digit (steps : Nat) {c : Char} (hc : c.isDigit = true) (cs : List Char) :
    (scanValue (steps + 1) (c :: cs) : Scanned (Doc α)) = scanNumber false (c :: cs) := by
  obtain ⟨hlow, hhigh⟩ : 48 ≤ c.toNat ∧ c.toNat ≤ 57 := Char.isDigit_iff_toNat.mp hc
  rw [← Char.ofNat_toNat c]
  generalize c.toNat = n at hlow hhigh
  interval_cases n <;> rw [scanValue] <;> rfl

/-- What is read as a number at the front of a text begins with a minus
sign or a digit. -/
theorem head_of_scanValue_real {steps : Nat} {cs r : List Char} {x : α}
    (h : scanValue steps cs = (.real x, some r)) :
    ∃ steps', steps = steps' + 1 ∧
      ((∃ ds, afterSpace cs = '-' :: ds ∧ scanNumber true ds = (.real x, some r)) ∨
      ∃ c ds, afterSpace cs = c :: ds ∧ c.isDigit = true ∧
        scanNumber false (c :: ds) = (.real x, some r)) := by
  cases steps with
  | zero =>
    rw [scanValue] at h
    cases h
  | succ steps =>
    refine ⟨steps, rfl, ?_⟩
    have hconstant {first : Char} {word : String} {value : Doc α} {ds : List Char}
        (hvalue : ∀ y, value ≠ .real y) :
        scanConstant first word value ds ≠ (.real x, some r) := by
      unfold scanConstant
      split
      · intro heq
        exact hvalue x (Prod.ext_iff.mp heq).1
      · intro heq
        cases (Prod.ext_iff.mp heq).1
    rw [scanValue] at h
    split at h
    · cases h
    · exact absurd h (hconstant (by simp))
    · exact absurd h (hconstant (by simp))
    · exact absurd h (hconstant (by simp))
    · split at h <;> cases (Prod.ext_iff.mp h).1
    · cases (Prod.ext_iff.mp h).1
    · cases (Prod.ext_iff.mp h).1
    · next ds hds => exact .inl ⟨ds, hds, h⟩
    · next c ds _ _ _ _ _ _ _ hds =>
      split at h
      · next hdigit => exact .inr ⟨c, ds, hds, hdigit, h⟩
      · cases h

theorem scanNumber_append {negative : Bool} {cs r rest : List Char} {d : Doc α}
    (hrest : EndsValue rest) (h : scanNumber negative cs = (d, some r)) :
    scanNumber negative (cs ++ rest) = (d, some (r ++ rest)) := by
  unfold scanNumber at h ⊢
  split at h
  · next w r' hscan =>
    cases h
    rw [scanDigits_append hrest hscan]
  · cases h

/-- A number that is read back is so in front of a comma or a closing
bracket. -/
theorem ReadsBack.scanValue {x : α} (h : ReadsBack x) {rest : List Char} (hrest : EndsValue rest)
    (steps : Nat) : Doc.scanValue (steps + 1) ((Scalar.documentText x).toList ++ rest) =
      (.real x, some rest) := by
  obtain ⟨-, -, hhead⟩ := head_of_scanValue_real h
  have hspace {c : Char} {ds : List Char}
      (heq : afterSpace (Scalar.documentText x).toList = c :: ds) :
      afterSpace ((Scalar.documentText x).toList ++ rest) = c :: ds ++ rest := by
    unfold afterSpace at heq ⊢
    rw [List.dropWhile_append, heq]
    rfl
  rw [← scanValue_afterSpace]
  rcases hhead with ⟨ds, heq, hscan⟩ | ⟨c, ds, heq, hc, hscan⟩
  · rw [hspace heq, List.cons_append, scanValue_minus]
    exact scanNumber_append hrest hscan
  · rw [hspace heq, List.cons_append, scanValue_digit steps hc]
    exact scanNumber_append hrest hscan

theorem scanValue_count {n : Nat} (hn : n < 1 <<< 64) {rest : List Char} (hrest : EndsValue rest)
    (steps : Nat) : (Doc.scanValue (steps + 1) ((toString (n : Int)).toList ++ rest) :
      Scanned (Doc α)) = (.int n, some rest) := by
  have hprint : (toString (n : Int)).toList = Nat.toDigits 10 n := Nat.toList_repr
  have hne : Nat.toDigits 10 n ≠ [] := Nat.toDigits_ne_nil
  have hdigits : ∀ c ∈ Nat.toDigits 10 n, c.isDigit = true := fun c hc =>
    Nat.isDigit_of_mem_toDigits (by decide) (by decide) hc
  have hscan := scanDigits_toDigits n hrest
  rw [hprint]
  cases hds : Nat.toDigits 10 n with
  | nil => exact absurd hds hne
  | cons c ds =>
    rw [hds] at hdigits hscan
    rw [List.cons_append, scanValue_digit steps (hdigits c List.mem_cons_self), ← List.cons_append,
      scanNumber, hscan]
    simp only [ofWritten, ← hds, natOf_toDigits, Bool.not_false, Bool.and_self, hn, decide_true,
      if_true]

end Doc

namespace Json

variable {α : Type} [Scalar α]

mutual

/-- Every integer of the value is a count of 64 bits, and every other
number is read back. -/
def Readable : Json α → Prop
  | .int n => 0 ≤ n ∧ n < 1 <<< 64
  | .real x => Doc.ReadsBack x
  | .arr items => ReadableItems items
  | .obj members => ReadableMembers members
  | .null => True
  | .bool _ => True
  | .str _ => True

/-- The same of every item of a list. -/
def ReadableItems : List (Json α) → Prop
  | [] => True
  | v :: vs => v.Readable ∧ ReadableItems vs

/-- The same of every member of a record. -/
def ReadableMembers : List (String × Json α) → Prop
  | [] => True
  | (_, v) :: ms => v.Readable ∧ ReadableMembers ms

end

/-- Every integer in a value is a count of 64 bits. -/
def Counted (v : Json α) : Prop := ∀ n : Int, .int n ∈ v.leaves → 0 ≤ n ∧ n < 1 <<< 64

/-- Every other number in a value is read back. -/
def ReadsBack (v : Json α) : Prop := ∀ x : α, .real x ∈ v.leaves → Doc.ReadsBack x

mutual

/-- A value is read back if its numbers are. -/
theorem readable_of_leaves : ∀ v : Json α, v.Counted → v.ReadsBack → v.Readable
  | .arr items, hcount, hreal =>
    readableItems_of_leaves items hcount hreal
  | .obj members, hcount, hreal => readableMembers_of_leaves members hcount hreal
  | .int n, hcount, _ => hcount n List.mem_cons_self
  | .real x, _, hreal => hreal x List.mem_cons_self
  | .null, _, _ => trivial
  | .bool _, _, _ => trivial
  | .str _, _, _ => trivial

theorem readableItems_of_leaves : ∀ vs : List (Json α),
    (∀ n : Int, .int n ∈ leavesItems vs → 0 ≤ n ∧ n < 1 <<< 64) →
    (∀ x : α, .real x ∈ leavesItems vs → Doc.ReadsBack x) → ReadableItems vs
  | [], _, _ => trivial
  | v :: vs, hcount, hreal =>
    ⟨readable_of_leaves v (fun n hn => hcount n (List.mem_append_left _ hn))
        fun x hx => hreal x (List.mem_append_left _ hx),
      readableItems_of_leaves vs (fun n hn => hcount n (List.mem_append_right _ hn))
        fun x hx => hreal x (List.mem_append_right _ hx)⟩

theorem readableMembers_of_leaves : ∀ ms : List (String × Json α),
    (∀ n : Int, .int n ∈ leavesMembers ms → 0 ≤ n ∧ n < 1 <<< 64) →
    (∀ x : α, .real x ∈ leavesMembers ms → Doc.ReadsBack x) → ReadableMembers ms
  | [], _, _ => trivial
  | (_, v) :: ms, hcount, hreal =>
    ⟨readable_of_leaves v (fun n hn => hcount n (List.mem_append_left _ hn))
        fun x hx => hreal x (List.mem_append_left _ hx),
      readableMembers_of_leaves ms (fun n hn => hcount n (List.mem_append_right _ hn))
        fun x hx => hreal x (List.mem_append_right _ hx)⟩

end

end Json

namespace Doc

open Json

variable {α : Type} [Scalar α]

/-- A written value begins with something else than a closing bracket. -/
theorem exists_afterSpace_write {v : Json α} (hv : v.Readable) (rest : List Char) :
    ∃ c ds, afterSpace (v.write ++ rest) = c :: ds ∧ c ≠ ']' := by
  have hdigit {c : Char} (hc : c.isDigit = true) : c ≠ ']' := by
    rintro rfl
    exact absurd hc (by decide)
  cases v with
  | null => exact ⟨_, _, rfl, by decide⟩
  | bool b => cases b <;> exact ⟨_, _, rfl, by decide⟩
  | str s => exact ⟨_, _, rfl, by decide⟩
  | arr items => exact ⟨_, _, rfl, by decide⟩
  | obj members => exact ⟨_, _, rfl, by decide⟩
  | int n =>
    obtain ⟨k, rfl⟩ := Int.eq_ofNat_of_zero_le hv.1
    have hprint : (toString (k : Int)).toList = Nat.toDigits 10 k := Nat.toList_repr
    obtain ⟨c, ds, hds⟩ :=
      List.exists_cons_of_ne_nil (show Nat.toDigits 10 k ≠ [] from Nat.toDigits_ne_nil)
    have hc : c.isDigit = true := Nat.isDigit_of_mem_toDigits (b := 10) (n := k) (by decide)
      (by decide) (by rw [hds]; exact List.mem_cons_self)
    have hspace : isSpace c = false := by
      simp only [isSpace, Bool.or_eq_false_iff, beq_eq_false_iff_ne]
      refine ⟨⟨⟨?_, ?_⟩, ?_⟩, ?_⟩ <;>
      · rintro rfl
        exact absurd hc (by decide)
    refine ⟨c, ds ++ rest, ?_, hdigit hc⟩
    rw [write, hprint, hds]
    exact List.dropWhile_cons_of_neg (by simp [hspace])
  | real x =>
    have hx : ReadsBack x := hv
    obtain ⟨-, -, hhead⟩ := head_of_scanValue_real hx
    have hspace {c : Char} {ds : List Char}
        (heq : afterSpace (Scalar.documentText x).toList = c :: ds) :
        afterSpace ((Scalar.documentText x).toList ++ rest) = c :: (ds ++ rest) := by
      unfold afterSpace at heq ⊢
      rw [List.dropWhile_append, heq]
      rfl
    rcases hhead with ⟨ds, heq, -⟩ | ⟨c, ds, heq, hc, -⟩
    · exact ⟨_, _, hspace heq, by decide⟩
    · exact ⟨_, _, hspace heq, hdigit hc⟩

theorem quote_append (s : String) (rest : List Char) :
    quote s ++ rest = '"' :: (s.toList.flatMap escapeChar ++ '"' :: rest) := by
  simp [quote]

/-! ## Lists and records -/

section Steps

variable {steps : Nat} {cs rest rest' : List Char} {d : Doc α} {name : Option String}

theorem scanValue_text {s : Option String} (h : scanText (steps + 1) true [] cs = .ok (s, rest)) :
    (scanValue (steps + 1) ('"' :: cs) : Scanned (Doc α)) = (.str s, some rest) := by
  have hspace : afterSpace ('"' :: cs) = '"' :: cs := rfl
  simp only [scanValue, hspace, h]

theorem scanValue_list {r : Scanned (Parts (Doc α))}
    (hcs : ∃ c ds, afterSpace cs = c :: ds ∧ c ≠ ']') (h : scanItem steps cs = r) :
    scanValue (steps + 1) ('[' :: cs) = (.arr r.1.1 r.1.2, r.2) := by
  obtain ⟨c, ds, hds, hc⟩ := hcs
  have hspace : afterSpace ('[' :: cs) = '[' :: cs := rfl
  rw [← scanItem_afterSpace, hds] at h
  simp only [scanValue, hspace, hds]
  split
  · next heq => exact absurd (List.cons.inj heq).1 hc
  · next heq => cases heq
  · rw [h]

theorem scanValue_record {r : Scanned (Parts (Option String × Doc α))}
    (h : scanMember steps cs = r) :
    scanValue (steps + 1) ('{' :: '"' :: cs) = (.obj r.1.1 r.1.2, r.2) := by
  have hspace : afterSpace ('{' :: '"' :: cs) = '{' :: '"' :: cs := rfl
  have hname : afterSpace ('"' :: cs) = '"' :: cs := rfl
  simp only [scanValue, hspace, hname, h]

theorem scanItem_last (h : scanValue steps cs = (d, some (']' :: rest))) :
    scanItem (steps + 1) cs = (([d], none), some rest) := by
  rw [scanItem, h]
  rfl

theorem scanItem_more {r : Scanned (Parts (Doc α))}
    (h : scanValue steps cs = (d, some (',' :: rest)))
    (hrest : ∃ c ds, afterSpace rest = c :: ds ∧ c ≠ ']') (hmore : scanItem steps rest = r) :
    scanItem (steps + 1) cs = Parts.cons d r := by
  obtain ⟨c, ds, hds, hc⟩ := hrest
  have hcomma : afterSpace (',' :: rest) = ',' :: rest := rfl
  rw [← scanItem_afterSpace, hds] at hmore
  simp only [scanItem, h, hcomma, hds]
  split
  · next heq => exact absurd (List.cons.inj heq).1 hc
  · rw [hmore]

theorem scanMember_last (hname : scanText (steps + 1) true [] cs = .ok (name, ':' :: rest))
    (hvalue : scanValue steps rest = (d, some ('}' :: rest'))) :
    scanMember (steps + 1) cs = (([(name, d)], none), some rest') := by
  have hcolon : afterSpace (':' :: rest) = ':' :: rest := rfl
  have hend : afterSpace ('}' :: rest') = '}' :: rest' := rfl
  simp only [scanMember, hname, hcolon, hvalue, hend]
  rfl

theorem scanMember_more {r : Scanned (Parts (Option String × Doc α))}
    (hname : scanText (steps + 1) true [] cs = .ok (name, ':' :: rest))
    (hvalue : scanValue steps rest = (d, some (',' :: '"' :: rest')))
    (hmore : scanMember steps rest' = r) :
    scanMember (steps + 1) cs = Parts.cons (name, d) (partsAfterComma r) := by
  have hcolon : afterSpace (':' :: rest) = ':' :: rest := rfl
  have hcomma : afterSpace (',' :: '"' :: rest') = ',' :: '"' :: rest' := rfl
  have hquote : afterSpace ('"' :: rest') = '"' :: rest' := rfl
  simp only [scanMember, hname, hcolon, hvalue, hcomma, hquote, hmore]

end Steps

/-- The text of a record after the quote that opens the name of its
first member. -/
def openMembers (k : String) (v : Json α) (ms : List (String × Json α)) (rest : List Char) :
    List Char :=
  k.toList.flatMap escapeChar ++ '"' :: ':' :: (v.write ++
    match ms with
    | [] => '}' :: rest
    | m :: ms => ',' :: (writeMembers (m :: ms) ++ rest))

theorem writeMembers_append (k : String) (v : Json α) (ms : List (String × Json α))
    (rest : List Char) :
    writeMembers ((k, v) :: ms) ++ rest = '"' :: openMembers k v ms rest := by
  cases ms with
  | nil => simp [writeMembers, quote, openMembers]
  | cons m ms => simp [writeMembers, quote, openMembers]

theorem endsValue_cons {c : Char} (hc : c = ',' ∨ c = ']' ∨ c = '}') (rest : List Char) :
    EndsValue (c :: rest) := by
  intro d hd
  cases hd
  exact hc

mutual

/-- A written value is scanned as its document. -/
theorem scanValue_write : ∀ (v : Json α) (steps : Nat) (rest : List Char), v.Readable →
    EndsValue rest → 2 * v.write.length + 1 ≤ steps →
    scanValue steps (v.write ++ rest) = (ofJson v, some rest)
  | .null, steps + 1, rest, _, _, _ => by
    rw [scanValue]
    rfl
  | .bool true, steps + 1, rest, _, _, _ => by
    rw [scanValue]
    rfl
  | .bool false, steps + 1, rest, _, _, _ => by
    rw [scanValue]
    rfl
  | .int n, steps + 1, rest, hv, hrest, _ => by
    obtain ⟨k, rfl⟩ := Int.eq_ofNat_of_zero_le hv.1
    exact scanValue_count (by exact_mod_cast hv.2) hrest steps
  | .real x, steps + 1, rest, hv, hrest, _ => ReadsBack.scanValue hv hrest steps
  | .str s, steps + 1, rest, _, _, hsteps => by
    rw [write] at hsteps
    have hroom : (quote s).length ≤ steps + 1 := by omega
    have hscan := scanText_quote hroom rest
    rw [write, quote_append, scanValue_text hscan]
    rfl
  | .arr [], steps + 1, rest, _, _, _ => by
    rw [scanValue]
    rfl
  | .arr (v :: vs), steps + 1, rest, hv, _, hsteps => by
    rw [write, List.length_cons] at hsteps
    have hitems := scanItem_write v vs steps rest hv (by omega)
    have hhead : ∃ c ds, afterSpace (writeItems (v :: vs) ++ rest) = c :: ds ∧ c ≠ ']' := by
      have hv' : v.Readable := hv.1
      cases vs with
      | nil =>
        rw [writeItems, List.append_assoc]
        exact exists_afterSpace_write hv' _
      | cons w vs =>
        rw [writeItems, List.append_assoc]
        exact exists_afterSpace_write hv' _
    rw [write, List.cons_append, scanValue_list hhead hitems]
    rfl
  | .obj [], steps + 1, rest, _, _, _ => by
    rw [scanValue]
    rfl
  | .obj ((k, v) :: ms), steps + 1, rest, hv, _, hsteps => by
    rw [write, List.length_cons] at hsteps
    have hmembers := scanMember_write k v ms steps rest hv (by omega)
    rw [write, List.cons_append, writeMembers_append, scanValue_record hmembers]
    rfl
termination_by v => sizeOf v

/-- The written items of a list are scanned as their documents. -/
theorem scanItem_write : ∀ (v : Json α) (vs : List (Json α)) (steps : Nat) (rest : List Char),
    ReadableItems (v :: vs) → 2 * (writeItems (v :: vs)).length ≤ steps →
    scanItem steps (writeItems (v :: vs) ++ rest) = ((ofItems (v :: vs), none), some rest)
  | v, [], steps, rest, hv, hsteps => by
    rw [writeItems, List.length_append, List.length_singleton] at hsteps
    obtain ⟨steps, rfl⟩ : ∃ n, steps = n + 1 := ⟨steps - 1, by omega⟩
    rw [writeItems, List.append_assoc]
    exact scanItem_last (scanValue_write v steps _ hv.1 (endsValue_cons (by simp) _) (by omega))
  | v, w :: vs, steps, rest, hv, hsteps => by
    rw [writeItems, List.length_append, List.length_cons] at hsteps
    obtain ⟨steps, rfl⟩ : ∃ n, steps = n + 1 := ⟨steps - 1, by omega⟩
    have hvalue := scanValue_write v steps (',' :: (writeItems (w :: vs) ++ rest)) hv.1
      (endsValue_cons (by simp) _) (by omega)
    have hhead : ∃ c ds, afterSpace (writeItems (w :: vs) ++ rest) = c :: ds ∧ c ≠ ']' := by
      have hw : w.Readable := hv.2.1
      cases vs with
      | nil =>
        rw [writeItems, List.append_assoc]
        exact exists_afterSpace_write hw _
      | cons x vs =>
        rw [writeItems, List.append_assoc]
        exact exists_afterSpace_write hw _
    have hmore := scanItem_write w vs steps rest hv.2 (by omega)
    rw [writeItems, List.append_assoc, List.cons_append, scanItem_more hvalue hhead hmore]
    rfl
termination_by v vs => sizeOf v + sizeOf vs

/-- The written members of a record are scanned as their documents. -/
theorem scanMember_write : ∀ (k : String) (v : Json α) (ms : List (String × Json α))
    (steps : Nat) (rest : List Char), ReadableMembers ((k, v) :: ms) →
    2 * (writeMembers ((k, v) :: ms)).length ≤ steps →
    scanMember steps (openMembers k v ms rest) =
      ((ofMembers ((k, v) :: ms), none), some rest)
  | k, v, [], steps, rest, hv, hsteps => by
    rw [writeMembers, List.length_append, List.length_append, List.length_cons,
      List.length_singleton] at hsteps
    obtain ⟨steps, rfl⟩ : ∃ n, steps = n + 1 := ⟨steps - 1, by omega⟩
    have hroom : (quote k).length ≤ steps + 1 := by omega
    have hname := scanText_quote hroom (':' :: (v.write ++ '}' :: rest))
    exact scanMember_last hname
      (scanValue_write v steps _ hv.1 (endsValue_cons (by simp) _) (by omega))
  | k, v, (k', w) :: ms, steps, rest, hv, hsteps => by
    rw [writeMembers, List.length_append, List.length_append, List.length_cons, List.length_cons]
      at hsteps
    obtain ⟨steps, rfl⟩ : ∃ n, steps = n + 1 := ⟨steps - 1, by omega⟩
    have hroom : (quote k).length ≤ steps + 1 := by omega
    have hname := scanText_quote hroom
      (':' :: (v.write ++ ',' :: '"' :: openMembers k' w ms rest))
    have hvalue := scanValue_write v steps (',' :: '"' :: openMembers k' w ms rest) hv.1
      (endsValue_cons (by simp) _) (by omega)
    have hmore := scanMember_write k' w ms steps rest hv.2 (by omega)
    rw [openMembers, writeMembers_append, scanMember_more hname hvalue hmore]
    rfl
termination_by _ v ms => sizeOf v + sizeOf ms

end

/-- A written value is scanned as its document, to the end of the
text. -/
theorem scanAll_write {v : Json α} (hv : v.Readable) :
    scanAll v.write = ⟨ofJson v, false⟩ := by
  have hscan := scanValue_write v (3 * v.write.length + 3) [] hv (by simp [EndsValue]) (by omega)
  rw [List.append_nil] at hscan
  rw [scanAll, scan, hscan]
  rfl

end Doc
end DeckDuel
