/-
DeckDuel.Text.Word — identifiers, bracket groups and cuts.

* `isWordChar` — the ASCII letters, digits and the underscore; a word
  starts with one of them that is not a digit.
* `word?` — splits a leading word off a text.
* `closing?` — finds the bracket that closes a group already opened,
  counting the groups opened inside it.
* `cutAt?` — cuts a text at the first character of a class.
* `tokens` — the maximal runs of word characters.
* `replaceAll` — replaces every occurrence of a pattern, left to right
  and without overlap.

All scanners return what they read together with the rest of the text,
so that nothing is lost between two of them.
-/

namespace DeckDuel.Text

/-! ## Characters of a text

What is said of every character of a text is decided along the text, and
never by going through all characters that there are. -/

instance decidableForallMem (cs : List Char) (p : Char → Prop) [DecidablePred p] :
    Decidable (∀ c ∈ cs, p c) :=
  List.decidableBAll p cs

instance decidableForallMemOption (c? : Option Char) (p : Char → Prop) [DecidablePred p] :
    Decidable (∀ c ∈ c?, p c) :=
  Option.decidableForallMem c?

/-! ## Letters, by their code points -/

theorem isUpper_iff {c : Char} : c.isUpper = true ↔ 65 ≤ c.toNat ∧ c.toNat ≤ 90 := by
  show decide (c.val ≥ 65 ∧ c.val ≤ 90) = true ↔ _
  rw [decide_eq_true_eq]
  rfl

theorem isLower_iff {c : Char} : c.isLower = true ↔ 97 ≤ c.toNat ∧ c.toNat ≤ 122 := by
  show (decide (c.val ≥ 97) && decide (c.val ≤ 122)) = true ↔ _
  rw [Bool.and_eq_true, decide_eq_true_eq, decide_eq_true_eq]
  rfl

theorem isAlpha_iff {c : Char} : c.isAlpha = true ↔ c.isUpper = true ∨ c.isLower = true := by
  show (c.isUpper || c.isLower) = true ↔ _
  rw [Bool.or_eq_true]

/-! ## Scanners -/

/-- May the character start a word? -/
def isWordStart (c : Char) : Bool := c.isAlpha || c == '_'

/-- May the character continue a word? -/
def isWordChar (c : Char) : Bool := c.isAlphanum || c == '_'

/-- The leading word of a text and the text after it. -/
def word? : List Char → Option (List Char × List Char)
  | [] => none
  | c :: cs =>
    if isWordStart c then some (c :: cs.takeWhile isWordChar, cs.dropWhile isWordChar)
    else none

/-- The content of a bracket group whose opening bracket has been read,
and the text after its closing bracket. `depth` counts the groups
opened inside it. -/
def closing? (opener closer : Char) : Nat → List Char → Option (List Char × List Char)
  | _, [] => none
  | depth, c :: cs =>
    if c = opener then
      (closing? opener closer (depth + 1) cs).map fun r => (c :: r.1, r.2)
    else if c = closer then
      match depth with
      | 0 => some ([], cs)
      | outer + 1 => (closing? opener closer outer cs).map fun r => (c :: r.1, r.2)
    else (closing? opener closer depth cs).map fun r => (c :: r.1, r.2)

/-- The text before and after the first character of a class. -/
def cutAt? (p : Char → Bool) : List Char → Option (List Char × List Char)
  | [] => none
  | c :: cs => if p c then some ([], cs) else (cutAt? p cs).map fun r => (c :: r.1, r.2)

/-- The text after a leading `pattern`, if it has one. -/
def after? : List Char → List Char → Option (List Char)
  | [], cs => some cs
  | _ :: _, [] => none
  | p :: ps, c :: cs => if p = c then after? ps cs else none

/-- The maximal runs of word characters, after the word characters in
`run`, which are held in reverse. -/
def tokensFrom (run : List Char) : List Char → List (List Char)
  | [] => if run.isEmpty then [] else [run.reverse]
  | c :: cs =>
    if isWordChar c then tokensFrom (c :: run) cs
    else (if run.isEmpty then [] else [run.reverse]) ++ tokensFrom [] cs

/-- The maximal runs of word characters of a text, in order. -/
def tokens (cs : List Char) : List (List Char) := tokensFrom [] cs

/-- Is the word one of the tokens of a text? -/
def mentions (text : String) (word : String) : Bool :=
  (tokens text.toList).contains word.toList

/-- Replaces every occurrence of a non-empty pattern, left to right and
without overlap; the first `skip` characters belong to an occurrence
already replaced. -/
def replaceFrom (pattern replacement : List Char) : Nat → List Char → List Char
  | _, [] => []
  | skip + 1, _ :: cs => replaceFrom pattern replacement skip cs
  | 0, c :: cs =>
    if pattern.isPrefixOf (c :: cs) then
      replacement ++ replaceFrom pattern replacement (pattern.length - 1) cs
    else c :: replaceFrom pattern replacement 0 cs

/-- Replaces every occurrence of a non-empty pattern. -/
def replaceAll (pattern replacement cs : List Char) : List Char :=
  replaceFrom pattern replacement 0 cs

/-- The text without its last character, if that character is `c`. -/
def dropLast? (c : Char) (cs : List Char) : Option (List Char) :=
  match cs.reverse with
  | [] => none
  | d :: ds => if d = c then some ds.reverse else none

end DeckDuel.Text
