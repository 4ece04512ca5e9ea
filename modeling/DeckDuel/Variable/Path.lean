/-
DeckDuel.Variable.Path — replacing the names in a text.

A path is a maximal run of letters, digits, underscores and points that
starts with a letter or an underscore; a run that starts otherwise is a
number and is left alone.

* `mapPaths` — replaces paths of a text and keeps everything else;
  `paths` — what it may replace.
* `pass` — the same for a rewriter that may do something besides, such
  as to remember what it was asked. It goes over the text by bytes and
  copies nothing before the first replacement.
-/
import DeckDuel.Text.Word

namespace DeckDuel.Variable

open DeckDuel.Text

/-- May the character stand in a path? -/
def isPathChar (c : Char) : Bool := isWordChar c || c == '.'

/-- What a run of path characters becomes: a path is replaced, or kept
if there is nothing to put in its place; a number is kept. -/
def replaceRun (replace? : List Char → Option (List Char)) (run : List Char) : List Char :=
  match run with
  | [] => []
  | c :: _ => if isWordStart c then (replace? run).getD run else run

/-- Replaces the paths of a text, after the path characters in `run`,
which are held in reverse. -/
def mapPathsFrom (replace? : List Char → Option (List Char)) (run : List Char) :
    List Char → List Char
  | [] => replaceRun replace? run.reverse
  | c :: cs =>
    if isPathChar c then mapPathsFrom replace? (c :: run) cs
    else replaceRun replace? run.reverse ++ c :: mapPathsFrom replace? [] cs

/-- Replaces the paths of a text for which there is something to put in
their place. -/
def mapPaths (replace? : List Char → Option (List Char)) (cs : List Char) : List Char :=
  mapPathsFrom replace? [] cs

/-- The paths of a text, in order. -/
def pathsFrom (run : List Char) : List Char → List (List Char)
  | [] => (match run.reverse with
    | c :: cs => if isWordStart c then [c :: cs] else []
    | [] => [])
  | c :: cs =>
    if isPathChar c then pathsFrom (c :: run) cs
    else
      (match run.reverse with
        | d :: ds => if isWordStart d then [d :: ds] else []
        | [] => []) ++ pathsFrom [] cs

/-- The paths of a text, in order: the arguments that `mapPaths` gives
to its function. -/
def paths (cs : List Char) : List (List Char) := pathsFrom [] cs

/-! ## Rewriters -/

/-- The number of bytes of a text. -/
def byteLength : List Char → Nat
  | [] => 0
  | c :: cs => c.utf8Size + byteLength cs

/-- The characters of a text that begin at byte `start` or later and
before byte `stop`; its first character is at byte `offset`. -/
def sliceFrom (offset start stop : Nat) : List Char → List Char
  | [] => []
  | c :: cs =>
    if start ≤ offset && offset < stop then c :: sliceFrom (offset + c.utf8Size) start stop cs
    else sliceFrom (offset + c.utf8Size) start stop cs

/-- The characters of a text from byte `start` to before byte `stop`. -/
def slice (start stop : Nat) (text : List Char) : List Char := sliceFrom 0 start stop text

/-- What a pass has written: nothing before the first replacement, and
then the text up to byte `copied`, with its replacements. -/
structure Draft where
  written : Option (List Char)
  copied : Nat

namespace Draft

/-- Nothing was replaced yet. -/
def empty : Draft := ⟨none, 0⟩

/-- Copies the text up to byte `start`, and puts `new` in the place of
what stands from there to before byte `stop`. -/
def replace (d : Draft) (text : List Char) (start stop : Nat) (new : List Char) : Draft :=
  ⟨some (d.written.getD [] ++ slice d.copied start text ++ new), stop⟩

/-- The whole text with its replacements: the text itself if there are
none. -/
def finish (d : Draft) (text : List Char) : List Char :=
  match d.written with
  | some written => written ++ slice d.copied (byteLength text) text
  | none => text

end Draft

/-- Reads path characters from byte `offset` on; the byte behind them,
and the text from there. -/
def skipRun (offset : Nat) : List Char → Nat × List Char
  | [] => (offset, [])
  | c :: cs => if isPathChar c then skipRun (offset + c.utf8Size) cs else (offset, c :: cs)

theorem length_skipRun_le (offset : Nat) (cs : List Char) :
    (skipRun offset cs).2.length ≤ cs.length := by
  induction cs generalizing offset with
  | nil => exact Nat.le_refl 0
  | cons c cs ih =>
    rw [skipRun]
    split
    · exact Nat.le_succ_of_le (ih _)
    · exact Nat.le_refl _

/-- Goes on with a pass at byte `start` of a text, with the text from
there: every run that starts like a word is given to the rewriter. -/
def passFrom {m : Type → Type} [Monad m] (rewrite : List Char → m (Option (List Char)))
    (text : List Char) (draft : Draft) (start : Nat) : List Char → m Draft
  | [] => pure draft
  | c :: cs =>
    if isPathChar c then
      let stop := (skipRun (start + c.utf8Size) cs).1
      let rest := (skipRun (start + c.utf8Size) cs).2
      if isWordStart c then do
        match ← rewrite (slice start stop text) with
        | some new => passFrom rewrite text (draft.replace text start stop new) stop rest
        | none => passFrom rewrite text draft stop rest
      else passFrom rewrite text draft stop rest
    else passFrom rewrite text draft (start + c.utf8Size) cs
termination_by cs => cs.length
decreasing_by
  all_goals first
    | exact Nat.lt_succ_of_le (length_skipRun_le _ _)
    | exact Nat.lt_succ_self _

/-- Replaces the paths of a text for which the rewriter has something to
put in their place. -/
def pass {m : Type → Type} [Monad m] (rewrite : List Char → m (Option (List Char)))
    (text : List Char) : m (List Char) := do
  let draft ← passFrom rewrite text .empty 0 text
  pure (draft.finish text)

end DeckDuel.Variable
