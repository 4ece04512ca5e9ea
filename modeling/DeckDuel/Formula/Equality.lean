/-
DeckDuel.Formula.Equality — the spellings of comparisons.

* `normalize` — full-width comparison signs and parentheses become
  their ASCII forms.
* `promote` — a lone `=` becomes `===`, while the operators that
  contain an equals sign stay as they are.

`promote` hides each longer operator behind a private-use character,
lengthens the equals signs that are left, and puts the operators back.
A private-use character that was in the text from the start comes out
as the operator it stands for.
-/
import DeckDuel.Text.Word

namespace DeckDuel.Formula

open DeckDuel.Text

/-- The ASCII form of a full-width sign; other characters stay. -/
def normalizeChar (c : Char) : List Char :=
  match c with
  | '≥' => ['>', '=']
  | '≤' => ['<', '=']
  | '≠' => ['!', '=']
  | '＝' => ['=']
  | '＞' => ['>']
  | '＜' => ['<']
  | '！' => ['!']
  | '（' => ['(']
  | '）' => [')']
  | other => [other]

/-- Replaces full-width signs by their ASCII forms. -/
def normalize (cs : List Char) : List Char := cs.flatMap normalizeChar

/-- The operators with an equals sign and the private-use characters
that stand for them; longer operators come first. -/
def masks : List (List Char × Char) :=
  [(['=', '=', '='], '\ue000'), (['!', '=', '='], '\ue001'), (['=', '='], '\ue002'),
   (['!', '='], '\ue003'), (['<', '='], '\ue004'), (['>', '='], '\ue005')]

/-- Hides the operators with an equals sign. -/
def mask (cs : List Char) : List Char :=
  masks.foldl (fun t m => replaceAll m.1 [m.2] t) cs

/-- Puts the hidden operators back. -/
def unmask (cs : List Char) : List Char :=
  masks.foldl (fun t m => replaceAll [m.2] m.1 t) cs

/-- Makes a lone equals sign a strict equality. -/
def promote (cs : List Char) : List Char :=
  unmask (replaceAll ['='] ['=', '=', '='] (mask cs))

end DeckDuel.Formula
