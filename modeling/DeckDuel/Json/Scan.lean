/-
DeckDuel.Json.Scan — reading the text of a document.

* `Doc.scan` — the document at the front of a text, and the text after
  it. Reading goes on as long as the text is well formed for a reader
  who skips it.
* `Doc.scanAll` — the document that a whole text is, and whether
  something follows it.

    value  := 'null' | 'true' | 'false' | number | '"' char* '"'
            | '[' [value (',' value)*] ']'
            | '{' ['"' char* '"' ':' value (',' …)*] '}'
    number := ['-'] ('0' | digit+) ['.' digit+] [('e'|'E') ['+'|'-'] digit+]
-/
import DeckDuel.Decimal.Numeral
import DeckDuel.Json.Doc

namespace DeckDuel.Doc

/-! ## Blanks and words -/

/-- Is the character a blank between the parts of a document? -/
def isSpace (c : Char) : Bool := c == ' ' || c == '\n' || c == '\t' || c == '\r'

/-- The text after leading blanks. -/
def afterSpace (cs : List Char) : List Char := cs.dropWhile isSpace

/-- The text after the rest of a word. -/
def scanWord : List Char → List Char → Except DocFault (List Char)
  | [], cs => .ok cs
  | _ :: _, [] => .error .truncated
  | w :: ws, c :: cs => if w = c then scanWord ws cs else .error .malformed

/-! ## Texts -/

/-- The value of a hexadecimal digit. -/
def hexValue? (c : Char) : Option Nat :=
  if c.isDigit then some (c.toNat - '0'.toNat)
  else if 'a' ≤ c && c ≤ 'f' then some (c.toNat - 'a'.toNat + 10)
  else if 'A' ≤ c && c ≤ 'F' then some (c.toNat - 'A'.toNat + 10)
  else none

/-- The number of bytes of a text. -/
def byteCount (cs : List Char) : Nat := (cs.map Char.utf8Size).foldl (· + ·) 0

/-- Reads four hexadecimal digits; a text with fewer than four bytes
left is cut short, whatever they are. -/
def scanHex (cs : List Char) : Except DocFault (Nat × List Char) :=
  if byteCount (cs.take 4) < 4 then .error .truncated
  else
    match cs with
    | a :: b :: c :: d :: rest =>
      match hexValue? a, hexValue? b, hexValue? c, hexValue? d with
      | some a, some b, some c, some d => .ok (((a * 16 + b) * 16 + c) * 16 + d, rest)
      | _, _, _, _ => .error .malformed
    | _ => .error .malformed

/-- The character of an escape with one letter. -/
def escaped? (c : Char) : Option Char :=
  match c with
  | '"' => some '"'
  | '\\' => some '\\'
  | '/' => some '/'
  | 'b' => some (Char.ofNat 8)
  | 'f' => some (Char.ofNat 12)
  | 'n' => some '\n'
  | 'r' => some '\r'
  | 't' => some '\t'
  | _ => none

/-- Is the number the first half of a surrogate pair? -/
def isHighHalf (n : Nat) : Bool := decide (0xD800 ≤ n) && decide (n ≤ 0xDBFF)

/-- Is the number the second half of a surrogate pair? -/
def isLowHalf (n : Nat) : Bool := decide (0xDC00 ≤ n) && decide (n ≤ 0xDFFF)

/-- The character of a surrogate pair. -/
def joinHalves (high low : Nat) : Char :=
  Char.ofNat (0x10000 + (high - 0xD800) * 0x400 + (low - 0xDC00))

/-- A broken place inside a text. A text in which a half pair was found
is malformed from there on for a reader who wants it. -/
def textBreach (sound : Bool) (f : DocFault) : Breach :=
  { wanted := if sound then f else .malformed, skipped := f }

/-- What an escaped number adds to a text: a character, or nothing if
it is half of a surrogate pair without the other half. -/
def scanPair (high : Nat) (rest : List Char) :
    Except DocFault (Option Char × List Char) :=
  match rest with
  | [] => .error .truncated
  | ['\\'] => .error .truncated
  | '\\' :: 'u' :: next =>
    match scanHex next with
    | .error f => .error f
    | .ok (low, after) =>
      if isLowHalf low then .ok (some (joinHalves high low), after) else .ok (none, after)
  | _ => .ok (none, rest)

/-- Reads an escape after `\u`. -/
def scanUnicode (cs : List Char) : Except DocFault (Option Char × List Char) :=
  match scanHex cs with
  | .error f => .error f
  | .ok (n, rest) =>
    if isHighHalf n then scanPair n rest
    else if isLowHalf n then .ok (none, rest)
    else .ok (some (Char.ofNat n), rest)

/-- Reads a text after its opening quote. `sound` tells that no half
pair was found; the text so far is held in reverse. Every step takes a
character. -/
def scanText : Nat → Bool → List Char → List Char →
    Except Breach (Option String × List Char)
  | 0, sound, _, _ => .error (textBreach sound .truncated)
  | steps + 1, sound, read, cs =>
    match cs with
    | [] => .error (textBreach sound .truncated)
    | '"' :: rest => .ok (if sound then some (String.ofList read.reverse) else none, rest)
    | ['\\'] => .error (textBreach sound .truncated)
    | '\\' :: 'u' :: rest =>
      match scanUnicode rest with
      | .error f => .error (textBreach sound f)
      | .ok (some c, rest) => scanText steps sound (c :: read) rest
      | .ok (none, rest) => scanText steps false read rest
    | '\\' :: e :: rest =>
      match escaped? e with
      | some c => scanText steps sound (c :: read) rest
      | none => .error (textBreach sound .malformed)
    | c :: rest =>
      if c.toNat < 32 then .error (textBreach sound .malformed)
      else scanText steps sound (c :: read) rest

/-! ## Numbers -/

/-- The broken place where a number ends early: a reader who wants the
number sees the end of the text. -/
def numberBreach (cs : List Char) : Breach :=
  match cs with
  | [] => { wanted := .truncated, skipped := .malformed }
  | _ => .both .malformed

/-- Reads the digits after a point. -/
def scanFraction (cs : List Char) : Except Breach (List Char × List Char) :=
  let ds := cs.takeWhile Char.isDigit
  let rest := cs.dropWhile Char.isDigit
  if ds.isEmpty then .error (numberBreach rest) else .ok (ds, rest)

/-- Reads an exponent after its letter. -/
def scanExponent (cs : List Char) : Except Breach (Int × List Char) :=
  let (negative, body) : Bool × List Char :=
    match cs with
    | '-' :: r => (true, r)
    | '+' :: r => (false, r)
    | r => (false, r)
  let ds := body.takeWhile Char.isDigit
  let rest := body.dropWhile Char.isDigit
  if ds.isEmpty then .error (numberBreach rest)
  else
    let n : Int := Numeral.natOf ds
    .ok (if negative then -n else n, rest)

/-- A number as written: its digits with the number of those after the
point, its exponent, and whether it has either part. -/
structure Written where
  digits : List Char
  places : Nat
  exponent : Int
  whole : Bool

/-- Reads a number after its sign. -/
def scanDigits (cs : List Char) : Except Breach (Written × List Char) := do
  let ds := cs.takeWhile Char.isDigit
  let rest := cs.dropWhile Char.isDigit
  match ds with
  | [] => .error (numberBreach rest)
  | '0' :: _ :: _ => .error (.both .malformed)
  | _ =>
    let (fraction, rest, fractional) : List Char × List Char × Bool ←
      match rest with
      | '.' :: r => do
        let (f, r) ← scanFraction r
        pure (f, r, true)
      | r => pure ([], r, false)
    match rest with
    | c :: r =>
      if c = 'e' || c = 'E' then
        let (e, r) ← scanExponent r
        .ok (⟨ds ++ fraction, fraction.length, e, false⟩, r)
      else .ok (⟨ds ++ fraction, fraction.length, 0, !fractional⟩, rest)
    | [] => .ok (⟨ds ++ fraction, fraction.length, 0, !fractional⟩, rest)

variable {α : Type} [Scalar α]

/-- The number that was written. Integers that fit 64 bits stay
integers, but a negative zero is none. -/
def ofWritten (negative : Bool) (w : Written) : Doc α :=
  let n := Numeral.natOf w.digits
  if w.whole && !negative && decide (n < 1 <<< 64) then .int n
  else if w.whole && negative && decide (0 < n) && decide (n ≤ 1 <<< 63) then .int (-n)
  else
    match (Scalar.ofNumeral (.decimal negative n (w.exponent - w.places)) : Option α) with
    | some x => if Scalar.isFinite x then .real x else .tooLarge
    | none => .tooLarge

/-- What was read at the front of a text, and the text after it; none
if the text failed. -/
abbrev Scanned (β : Type) := β × Option (List Char)

/-- Reads a number after its sign. -/
def scanNumber (negative : Bool) (cs : List Char) : Scanned (Doc α) :=
  match scanDigits cs with
  | .ok (w, rest) => (ofWritten negative w, some rest)
  | .error b => (.broken .number b, none)

/-! ## Values -/

/-- The end of a text where something was expected. -/
def ended : Breach := .both .truncated

/-- Something else than what was expected. -/
def unexpected : Breach := .both .malformed

/-- The broken place before a text where something else was
expected. -/
def breachAt (cs : List Char) : Breach := if cs.isEmpty then ended else unexpected

/-- Reads the rest of a word that stands for a value. -/
def scanConstant (first : Char) (word : String) (value : Doc α) (cs : List Char) :
    Scanned (Doc α) :=
  match scanWord word.toList cs with
  | .ok rest => (value, some rest)
  | .error f => (.broken (.word first) (.both f), none)

/-- The parts of a list or a record, with the broken place after
them. -/
abbrev Parts (β : Type) := List β × Option Breach

/-- The parts with one more in front. -/
def Parts.cons {β : Type} (x : β) (r : Scanned (Parts β)) : Scanned (Parts β) :=
  ((x :: r.1.1, r.1.2), r.2)

/-- No more parts, at the end of a list or a record. -/
def partsEnd {β : Type} (rest : List Char) : Scanned (Parts β) := (([], none), some rest)

/-- No more parts, because of a broken place. -/
def partsCut {β : Type} (b : Breach) : Scanned (Parts β) := (([], some b), none)

/-- The parts after a comma; a choice has none. -/
def partsAfterComma {β : Type} (r : Scanned (Parts β)) : Scanned (Parts β) :=
  ((r.1.1, r.1.2.map fun b => { b with chosen := .malformed }), r.2)

mutual

/-- Reads a value. Every third step takes a character at least. -/
def scanValue (steps : Nat) (cs : List Char) : Scanned (Doc α) :=
  match steps with
  | 0 => (.broken .nothing ended, none)
  | steps + 1 =>
    match afterSpace cs with
    | [] => (.broken .nothing ended, none)
    | 'n' :: rest => scanConstant 'n' "ull" .null rest
    | 't' :: rest => scanConstant 't' "rue" (.bool true) rest
    | 'f' :: rest => scanConstant 'f' "alse" (.bool false) rest
    | '"' :: rest =>
      match scanText (steps + 1) true [] rest with
      | .ok (s, rest) => (.str s, some rest)
      | .error b => (.broken .text b, none)
    | '[' :: rest =>
      let r := match afterSpace rest with
        | ']' :: rest => partsEnd rest
        | [] => partsCut ended
        | rest => scanItem steps rest
      (.arr r.1.1 r.1.2, r.2)
    | '{' :: rest =>
      let r := match afterSpace rest with
        | '}' :: rest => partsEnd rest
        | '"' :: rest => scanMember steps rest
        | rest => partsCut (breachAt rest)
      (.obj r.1.1 r.1.2, r.2)
    | '-' :: rest => scanNumber true rest
    | c :: rest =>
      if c.isDigit then scanNumber false (c :: rest) else (.broken .nothing unexpected, none)

/-- Reads an item of a list and those after it. -/
def scanItem (steps : Nat) (cs : List Char) : Scanned (Parts (Doc α)) :=
  match steps with
  | 0 => partsCut ended
  | steps + 1 =>
    match scanValue steps cs with
    | (d, none) => (([d], none), none)
    | (d, some rest) =>
      Parts.cons d <|
        match afterSpace rest with
        | ']' :: rest => partsEnd rest
        | ',' :: rest =>
          match afterSpace rest with
          | ']' :: _ => partsCut unexpected
          | rest => scanItem steps rest
        | rest => partsCut (breachAt rest)

/-- Reads a member of a record after the opening quote of its name, and
those after it. -/
def scanMember (steps : Nat) (cs : List Char) : Scanned (Parts (Option String × Doc α)) :=
  match steps with
  | 0 => partsCut ended
  | steps + 1 =>
    match scanText (steps + 1) true [] cs with
    | .error b => partsCut b
    | .ok (name, rest) =>
      match afterSpace rest with
      | ':' :: rest =>
        match scanValue steps rest with
        | (d, none) => (([(name, d)], none), none)
        | (d, some rest) =>
          Parts.cons (name, d) <|
            match afterSpace rest with
            | '}' :: rest => partsEnd rest
            | ',' :: rest =>
              partsAfterComma <|
                match afterSpace rest with
                | '"' :: rest => scanMember steps rest
                | rest => partsCut (breachAt rest)
            | rest => partsCut (breachAt rest)
      | rest => (([(name, .broken .nothing (breachAt rest))], none), none)

end

/-- Reads the document at the front of a text. -/
def scan (cs : List Char) : Scanned (Doc α) := scanValue (3 * cs.length + 3) cs

/-- A whole text: its document, and whether something follows it that
is no blank. -/
structure Whole (α : Type) where
  doc : Doc α
  trailing : Bool

/-- Reads a whole text. -/
def scanAll (cs : List Char) : Whole α :=
  match scan cs with
  | (d, none) => ⟨d, false⟩
  | (d, some rest) => ⟨d, !(afterSpace rest).isEmpty⟩

end DeckDuel.Doc
