/-
DeckDuel.Selector — picking cards out of the piles.

* `Pick` — one way to pick: all cards of a pile, the first, the last or
  random ones, all cards that can still be drawn, the card in play, or
  the host's choice.
* `Selector` — picks joined by `+`, each with an optional pile; without
  one the attribute's own pile is meant.
* `Selector.read` — reads a selector from the front of a text.
* `Selector.select` — the uids picked, in order and without
  repetition.

    selector := term ('+' term)*
    term     := [pile '.'] kind
    kind     := 'random[n]' | 'leftmost[n]' | 'rightmost[n]' | 'choose[n]'
              | 'all' | 'all_cards' | 'current[...]'
-/
import DeckDuel.Pile
import DeckDuel.Text.Blank
import DeckDuel.Text.Word

namespace DeckDuel

open DeckDuel.Text

/-- How a term picks cards. -/
inductive Pick where
  | random (n : Nat)
  | leftmost (n : Nat)
  | rightmost (n : Nat)
  /-- Every card of the pile. -/
  | all
  /-- Every card of hand, draw pile and discard pile. -/
  | allCards
  /-- Cards that the host chooses. -/
  | choose (n : Nat)
  /-- The card in play. -/
  | current
deriving DecidableEq, Repr

/-- A term of a selector. -/
structure SelectorTerm where
  pile : Option Pile
  pick : Pick
deriving DecidableEq, Repr

/-- A selector. -/
structure Selector where
  terms : List SelectorTerm
deriving DecidableEq, Repr

/-- Why a text is no selector. -/
inductive SelectorFault where
  | unknown (text : List Char)
  | unclosed (text : List Char)
  | badCount (count : List Char)
  | leftover (rest : List Char)
deriving DecidableEq, Repr

/-- The message of a fault. -/
def SelectorFault.message : SelectorFault → String
  | .unknown t => "unknown card selector '" ++ String.ofList t ++ "'"
  | .unclosed t => "unclosed '[' in selector '" ++ String.ofList t ++ "'"
  | .badCount c => "selector count '" ++ String.ofList c ++ "' is not a number"
  | .leftover r => "unexpected '" ++ String.ofList r ++ "' after selector"

namespace Selector

/-! ## Reading -/

/-- The words that name a way to pick. -/
inductive Keyword where
  | allCards | all | random | leftmost | rightmost | choose | current
deriving DecidableEq, Repr

/-- The spelling of a keyword. -/
def Keyword.spelling : Keyword → List Char
  | .allCards => "all_cards".toList
  | .all => "all".toList
  | .random => "random".toList
  | .leftmost => "leftmost".toList
  | .rightmost => "rightmost".toList
  | .choose => "choose".toList
  | .current => "current".toList

/-- The keywords, in the order in which they are tried. -/
def Keyword.every : List Keyword :=
  [.allCards, .all, .random, .leftmost, .rightmost, .choose, .current]

/-- The text after a keyword that is not continued by a word
character. -/
def Keyword.after? (k : Keyword) (cs : List Char) : Option (List Char) :=
  (Text.after? k.spelling cs).bind fun rest =>
    match rest with
    | c :: _ => if isWordChar c then none else some rest
    | [] => some rest

/-- The first keyword that starts a text, and the text after it. -/
def keyword? (cs : List Char) : Option (Keyword × List Char) :=
  Keyword.every.findSome? fun k => (k.after? cs).map fun rest => (k, rest)

/-- Splits a leading pile name and its point off a text. -/
def pile? (cs : List Char) : Option (Pile × List Char) :=
  (cutAt? (· == '.') cs).bind fun r =>
    (Pile.ofName? (String.ofList r.1)).map fun p => (p, r.2)

/-- The text after a leading pile name and its point, or the whole text
if it has none. -/
def body (cs : List Char) : List Char :=
  match pile? cs with
  | some (_, rest) => rest
  | none => cs

/-- Does the text start like a selector term? -/
def starts (cs : List Char) : Bool := (keyword? (body cs)).isSome

/-- Reads a count that fits 64 bits: digits, after an optional plus
sign. -/
def count? (cs : List Char) : Option Nat :=
  let ds := match cs with
    | '+' :: r => r
    | r => r
  if ds.isEmpty || !ds.all Char.isDigit then none
  else
    let n := Numeral.natOf ds
    if n < 1 <<< 64 then some n else none

/-- Reads the bracketed count after a keyword; without bracket the
count is one. -/
def readCount (whole cs : List Char) : Except SelectorFault (Nat × List Char) :=
  match cs with
  | '[' :: inner =>
    match cutAt? (· == ']') inner with
    | none => .error (.unclosed whole)
    | some (content, rest) =>
      match count? (trim content) with
      | none => .error (.badCount content)
      | some n => .ok (n, rest)
  | _ => .ok (1, cs)

/-- Reads what follows a keyword. The brackets after `current` may hold
anything. -/
def readPick (whole : List Char) (k : Keyword) (cs : List Char) :
    Except SelectorFault (Pick × List Char) :=
  match k with
  | .allCards => .ok (.allCards, cs)
  | .all => .ok (.all, cs)
  | .current =>
    match cs with
    | '[' :: inner =>
      match cutAt? (· == ']') inner with
      | none => .error (.unclosed whole)
      | some (_, rest) => .ok (.current, rest)
    | _ => .ok (.current, cs)
  | .random => (readCount whole cs).map fun r => (.random r.1, r.2)
  | .leftmost => (readCount whole cs).map fun r => (.leftmost r.1, r.2)
  | .rightmost => (readCount whole cs).map fun r => (.rightmost r.1, r.2)
  | .choose => (readCount whole cs).map fun r => (.choose r.1, r.2)

/-- Reads one term from the front of a text. -/
def readTerm (whole cs : List Char) : Except SelectorFault (SelectorTerm × List Char) :=
  let (pile, body) : Option Pile × List Char :=
    match pile? cs with
    | some (p, rest) => (some p, rest)
    | none => (none, cs)
  match keyword? body with
  | none => .error (.unknown whole)
  | some (k, rest) => (readPick whole k rest).map fun r => (⟨pile, r.1⟩, r.2)

/-- Reads terms joined by `+`; a `+` that no term follows is left to
the reader of the rest. Every term but the last takes two characters at
least, so the length of the text bounds the number of terms. -/
def readTerms (whole : List Char) :
    Nat → List Char → Except SelectorFault (List SelectorTerm × List Char)
  | 0, _ => .error (.unknown whole)
  | steps + 1, cs =>
    match readTerm whole cs with
    | .error e => .error e
    | .ok (t, rest) =>
      match rest with
      | '+' :: next =>
        if starts next then (readTerms whole steps next).map fun r => (t :: r.1, r.2)
        else .ok ([t], rest)
      | _ => .ok ([t], rest)

/-- Reads a selector from the front of a text; the selector and the
text after it. -/
def read (cs : List Char) : Except SelectorFault (Selector × List Char) :=
  (readTerms cs (cs.length + 1) cs).map fun r => (⟨r.1⟩, r.2)

/-- Reads a whole text as a selector. -/
def parse (cs : List Char) : Except SelectorFault Selector :=
  match read (trim cs) with
  | .error e => .error e
  | .ok (s, rest) => if isBlankText rest then .ok s else .error (.leftover rest)

/-- The selector of `n` random cards of a pile. -/
def randomFrom (p : Pile) (n : Nat) : Selector := ⟨[⟨some p, .random n⟩]⟩

/-- The selector of all cards of the attribute's own pile. -/
def everything : Selector := ⟨[⟨none, .all⟩]⟩

end Selector

/-! ## Selecting -/

/-- The host's answers to the choices of a battle: the first argument
tells how many questions were asked before. -/
abbrev Chooser (α : Type) := Nat → Pile → List (Card α) → Nat → List Nat

/-- The chooser that takes the first cards. -/
def Chooser.leftmost {α : Type} : Chooser α :=
  fun _ _ cards n => (cards.take n).map Card.uid

/-- What a selection consumes: the random stream and the number of
questions asked. -/
structure Chance where
  stream : Random.Stream
  questions : Nat
deriving DecidableEq, Repr

/-- What a selection reads. -/
structure Table (α : Type) where
  piles : Piles α
  /-- The pile of terms that name none. -/
  home : Pile
  /-- The card in play. -/
  current : Option Nat
  chooser : Chooser α

namespace Table

variable {α : Type}

/-- The uids that one term picks. -/
def pick (t : Table α) (term : SelectorTerm) (ch : Chance) : List Nat × Chance :=
  let pile := term.pile.getD t.home
  let cards := t.piles.get pile
  match term.pick with
  | .random n =>
    let (is, s) := ch.stream.sample cards.length n
    (is.filterMap fun i => cards[i]?.map Card.uid, { ch with stream := s })
  | .leftmost n => ((cards.take n).map Card.uid, ch)
  | .rightmost n => ((cards.drop (cards.length - n)).map Card.uid, ch)
  | .all => (cards.map Card.uid, ch)
  | .allCards => ((t.piles.hand ++ t.piles.draw ++ t.piles.discard).map Card.uid, ch)
  | .choose n =>
    (t.chooser ch.questions pile cards n, { ch with questions := ch.questions + 1 })
  | .current =>
    (t.current.toList.filter fun uid => (t.piles.find? uid).isSome, ch)

/-- Appends the uids that are not there yet. -/
def addNew (picked : List Nat) (uids : List Nat) : List Nat :=
  uids.foldl (fun ps u => if ps.contains u then ps else ps ++ [u]) picked

/-- Picks term after term. -/
def pickAll (t : Table α) : List SelectorTerm → List Nat → Chance → List Nat × Chance
  | [], picked, ch => (picked, ch)
  | term :: terms, picked, ch =>
    let (uids, ch') := t.pick term ch
    t.pickAll terms (addNew picked uids) ch'

/-- The uids that a selector picks, in order of their first pick. -/
def select (t : Table α) (s : Selector) (ch : Chance) : List Nat × Chance :=
  t.pickAll s.terms [] ch

end Table
end DeckDuel
