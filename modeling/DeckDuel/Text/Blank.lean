/-
DeckDuel.Text.Blank — blank characters, trimming and cutting at blanks.

* `isBlank` — the 25 characters with the Unicode property
  `White_Space`; every rule of the effect language that skips blanks
  uses this class. It contains the class that core knows
  (`isBlank_of_isWhitespace`).
* `trim`, `trimStart`, `trimEnd` — a text without the blanks at its
  ends.
* `words` — the maximal blank-free runs of a text.

Texts are handled as `List Char`: the effect language is read one
character at a time, and a `String` is only taken apart and put
together again at the edges of a reader.
-/

namespace DeckDuel.Text

/-- The characters with the Unicode property `White_Space`: six
controls, the spaces of the Latin, Ogham, general-punctuation and CJK
blocks, and the two line separators. -/
def isBlank (c : Char) : Bool :=
  let n := c.toNat
  (9 ≤ n && n ≤ 13) || n == 0x20 || n == 0x85 || n == 0xA0 || n == 0x1680 ||
    (0x2000 ≤ n && n ≤ 0x200A) || n == 0x2028 || n == 0x2029 || n == 0x202F ||
    n == 0x205F || n == 0x3000

/-- The four ASCII blanks that core knows are blanks. -/
theorem isBlank_of_isWhitespace {c : Char} (h : c.isWhitespace = true) : isBlank c = true := by
  simp only [Char.isWhitespace, Bool.or_eq_true, decide_eq_true_eq] at h
  rcases h with ((h | h) | h) | h <;> subst h <;> rfl

/-- The text from its first non-blank character on. -/
def trimStart (cs : List Char) : List Char := cs.dropWhile isBlank

/-- The text up to its last non-blank character. -/
def trimEnd (cs : List Char) : List Char := (cs.reverse.dropWhile isBlank).reverse

/-- The text without the blanks at either end. -/
def trim (cs : List Char) : List Char := trimEnd (trimStart cs)

/-- Does the text consist of blanks only? -/
def isBlankText (cs : List Char) : Bool := cs.all isBlank

/-- The maximal runs of non-blank characters, in order. -/
def words : List Char → List (List Char)
  | [] => []
  | c :: cs =>
    if isBlank c then words cs
    else
      match cs with
      | [] => [[c]]
      | d :: _ =>
        if isBlank d then [c] :: words cs
        else
          match words cs with
          | [] => [[c]]
          | w :: ws => (c :: w) :: ws

/-! ## Length bounds -/

theorem length_trimStart_le (cs : List Char) : (trimStart cs).length ≤ cs.length :=
  (List.dropWhile_sublist _).length_le

theorem length_trimEnd_le (cs : List Char) : (trimEnd cs).length ≤ cs.length := by
  have h := (List.dropWhile_sublist (l := cs.reverse) isBlank).length_le
  simpa [trimEnd] using h

end DeckDuel.Text
