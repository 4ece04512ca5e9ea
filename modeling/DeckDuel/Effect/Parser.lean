/-
DeckDuel.Effect.Parser — reading effect texts.

* `parseUnit` — reads one unit; a malformed unit becomes a fault.
* `parseEffect` — reads every unit of an effect text.

    effect  := unit ((',' | line end) unit)*
    unit    := branch | wrapper | [target] body
    target  := 'ME.' | 'OP.' | 'ALL.'
    body    := attribute op value
             | 'status' '.' verb '(' payload ')'
             | 'ability' '.' verb '(' payload ')'
             | 'stacks.' id op value
             | card-attribute ['.' selector] [op value]
    wrapper := [target] trigger '(' effect ')'
    branch  := 'if' '[' condition ']' '[' effect ']' ['[' effect ']']

Which body a unit has is decided by the domain of its attribute in the
catalog. A unit is read by its first characters alone: `if` and a
bracket make a branch, a word and a parenthesis a wrapper.
-/
import DeckDuel.Effect.Catalog
import DeckDuel.Effect.Fault
import DeckDuel.Effect.Operand
import DeckDuel.Trigger

namespace DeckDuel

open DeckDuel.Text

/-- A step of reading a unit. -/
abbrev Parse (β : Type) := Except ClauseFault β

namespace Effect

/-- The value of an optional step, or a fault. -/
def need {β : Type} (f : ClauseFault) : Option β → Parse β
  | some x => .ok x
  | none => .error f

/-! ## Targets and brackets -/

/-- The spellings of the targets, in the order in which they are
tried. -/
def targetSpellings : List (List Char × Target) :=
  [("ME.".toList, .me), ("OP.".toList, .op), ("ALL.".toList, .all)]

/-- Splits a leading target and its point off a text. -/
def splitTarget (cs : List Char) : Option Target × List Char :=
  match targetSpellings.findSome? fun t => (after? t.1 cs).map fun rest => (t.2, rest) with
  | some (t, rest) => (some t, rest)
  | none => (none, cs)

/-- The trimmed content of a parenthesised group that spans a text. -/
def parenthesized (cs : List Char) : Parse (List Char) :=
  match trim cs with
  | '(' :: inner =>
    match closing? '(' ')' 0 inner with
    | none => .error .unbalanced
    | some (content, rest) =>
      if (trim rest).isEmpty then .ok (trim content)
      else .error (.afterClosing (String.ofList (trim rest)))
  | _ => .error .noOpening

/-- Reads a run of square-bracket groups with blanks between them. With
`some depth` a group is open and `depth` more inside it. Answers the
rest of the open group, the groups after it, and the text after all;
`none` if a group stays open. -/
def readGroups : Option Nat → List Char → Option (List Char × List (List Char) × List Char)
  | none, [] => some ([], [], [])
  | none, c :: cs =>
    if isBlank c then readGroups none cs
    else if c = '[' then (readGroups (some 0) cs).map fun r => ([], r.1 :: r.2.1, r.2.2)
    else some ([], [], c :: cs)
  | some _, [] => none
  | some depth, c :: cs =>
    if c = '[' then
      (readGroups (some (depth + 1)) cs).map fun r => (c :: r.1, r.2)
    else if c = ']' then
      match depth with
      | 0 => (readGroups none cs).map fun r => ([], r.2)
      | outer + 1 => (readGroups (some outer) cs).map fun r => (c :: r.1, r.2)
    else (readGroups (some depth) cs).map fun r => (c :: r.1, r.2)

/-! ## Parts of units -/

variable {α : Type} [Scalar α]

/-- Classifies a value. -/
def readValue (cs : List Char) : Parse (Operand α) :=
  match classify cs with
  | .ok v => .ok v
  | .error t => .error (.badValue (String.ofList t))

/-- Reads `op value`. -/
def readChange (cs : List Char) : Parse (Arith × Operand α) :=
  match trim cs with
  | [] => .error .noOperator
  | c :: rest => do
    let op ← need (.unknownOperator c) (Arith.ofSymbol? c)
    let value := trim rest
    if value.isEmpty then .error (.noValue c)
    else
      let v ← readValue value
      .ok (op, v)

/-- Reads `.verb(payload)`; the verb, and the trimmed payload. -/
def readVerb (cs : List Char) : Parse (Verb × List Char) :=
  match cs with
  | '.' :: rest => do
    let (name, rest) ← need .noVerbName (word? rest)
    let v ← need (.unknownVerb (String.ofList name)) (Verb.ofName? (String.ofList name))
    let payload ← parenthesized rest
    .ok (v, payload)
  | _ => .error .noVerb

/-- May the character stand in the id of a status? -/
def isIdChar (c : Char) : Bool := isWordChar c || c == '-'

/-- Reads a count that fits 32 bits. -/
def count32? (cs : List Char) : Option Nat :=
  (Selector.count? cs).bind fun n => if n < 1 <<< 32 then some n else none

/-- Splits a status payload into the id and the rest: at a colon, or
else at the first blank. -/
def splitPayload (payload : List Char) : List Char × List Char :=
  match cutAt? (· == ':') payload with
  | some (id, tail) => (trim id, trim tail)
  | none =>
    match cutAt? isBlank payload with
    | some (id, tail) => (trim id, trim tail)
    | none => (trim payload, [])

/-- A status payload: the id, the amount and the duration. -/
abbrev Payload (α : Type) := String × Option (Operand α) × Option Nat

/-- Reads a status payload: `id`, `id amount`, `id:amount`, each with an
optional duration after the amount. -/
def readPayload (payload : List Char) : Parse (Payload α) :=
  let (id, tail) := splitPayload payload
  if id.isEmpty || !id.all isIdChar then .error (.badStatusId (String.ofList id))
  else
    match words tail with
    | [] => .ok (String.ofList id, none, none)
    | [v] => do
      let amount ← readValue v
      .ok (String.ofList id, some amount, none)
    | v :: d :: more => do
      let amount ← readValue v
      let duration ← need (.badDuration (String.ofList d)) (count32? d)
      match more with
      | [] => .ok (String.ofList id, some amount, some duration)
      | extra :: _ => .error (.extraPayload (String.ofList extra))

/-! ## Forms -/

/-- Reads the body of a status attribute: `.apply(...)` or
`.remove(...)`. -/
def readStatusVerb (cs : List Char) : Parse (Form α) := do
  let (v, payload) ← readVerb cs
  match v with
  | .apply =>
    let (id, amount, duration) ← readPayload payload
    .ok (.apply id amount duration)
  | .remove =>
    let (id, amount, duration) ← readPayload payload
    .ok (.remove id amount duration)
  | .add => .error (.statusVerb v)

/-- Reads `.id op value`. -/
def readStacks (cs : List Char) : Parse (Form α) :=
  match cs with
  | '.' :: rest => do
    let (id, rest) ← need .noStatusId (word? rest)
    let (op, value) ← readChange rest
    .ok (.stackChange (String.ofList id) op value)
  | _ => .error .noStacksId

/-- Reads the body of an ability attribute: `.add(...)` or
`.remove(...)`. -/
def readAbilityVerb (cs : List Char) : Parse (Form α) := do
  let (v, payload) ← readVerb cs
  match v with
  | .add =>
    let (name, _) ← need (.notWrapped (String.ofList payload)) (unwrap payload)
    let name := String.ofList name
    if Trigger.isKeyword name then .ok (.grant name (String.ofList payload))
    else .error (.notKeyword name)
  | .remove =>
    if payload.isEmpty then .error .noAbilityKey else .ok (.revoke (String.ofList payload))
  | .apply => .error (.abilityVerb v)

/-- Reads the selector of a card unit, if a point announces one. -/
def readSelector (cs : List Char) : Parse (Option Selector × List Char) :=
  match cs with
  | '.' :: rest =>
    match Selector.read rest with
    | .ok (s, rest) => .ok (some s, rest)
    | .error f => .error (.badSelector f)
  | _ => .ok (none, cs)

/-- Reads the body of a card attribute. -/
def readCards (attr : String) (cs : List Char) : Parse (Form α) := do
  let (selector, rest) ← readSelector cs
  if isBlankText rest then
    if selector.isNone then .error (.noSelectorOrValue attr)
    else if attr = "cost" then .error .costNeedsValue
    else .ok (.cards selector none)
  else
    let change ← readChange rest
    .ok (.cards selector (some change))

/-- Reads `op value`. -/
def readNumeric (cs : List Char) : Parse (Form α) := do
  let (op, value) ← readChange cs
  .ok (.change op value)

/-- Reads the body of an attribute of a domain. -/
def readBody (domain : Domain) (attr : String) (cs : List Char) : Parse (Form α) :=
  match domain with
  | .status => if attr = "status" then readStatusVerb cs else readStacks cs
  | .ability => readAbilityVerb cs
  | .card => readCards attr cs
  | .special => .error (.needsBrackets attr)
  | .stat => readNumeric cs
  | .modifier => readNumeric cs

/-- Reads a branch after its `if`. -/
def readBranch (cs : List Char) : Parse (Form α) := do
  let (_, groups, rest) ← need .unbalancedBranch (readGroups none cs)
  if !isBlankText rest then .error (.afterBranch (String.ofList (trim rest)))
  else
    let (condition, form) : List Char × Form α ←
      match groups.map trim with
      | [c, t] => .ok (c, .branch (String.ofList c) (String.ofList t) none)
      | [c, t, f] =>
        .ok (c, .branch (String.ofList c) (String.ofList t) (some (String.ofList f)))
      | _ => .error .branchParts
    if condition.isEmpty then .error .emptyCondition else .ok form

/-- Reads a wrapper: `body` starts with the word `name`, and a group
follows it. -/
def readWrapper (name body : List Char) : Parse (String × Form α) :=
  let keyword := String.ofList name
  if Trigger.isKeyword keyword then do
    let wrapped := trim body
    let inner ← parenthesized (wrapped.drop name.length)
    if keyword = Trigger.passive.keyword then
      .ok ("passive", .passive (String.ofList inner))
    else .ok ("ability", .grant keyword (String.ofList wrapped))
  else .error (.notKeyword keyword)

/-- Does a branch start here, after an `if`? -/
def startsGroup (cs : List Char) : Bool :=
  match trimStart cs with
  | c :: _ => c == '['
  | [] => false

/-- Reads the target, the attribute and the form of a trimmed unit that
is no branch. -/
def readPlain (catalog : Catalog) (cs : List Char) :
    Parse (Option Target × String × Form α) := do
  let (target, body) := splitTarget cs
  let (name, rest) ← need .noAttribute (word? body)
  let rest := trimStart rest
  match rest with
  | '(' :: _ =>
    let (attr, form) ← readWrapper name body
    .ok (target, attr, form)
  | _ =>
    let attr := canonicalName (String.ofList name)
    let known ← need (.unknownAttribute (String.ofList name)) (catalog.get? attr)
    let form ← readBody known.domain attr rest
    .ok (target, attr, form)

/-- Reads a trimmed unit. -/
def readUnit (catalog : Catalog) (cs : List Char) :
    Parse (Option Target × String × Form α) :=
  match after? ['i', 'f'] cs with
  | some rest =>
    if startsGroup rest then (readBranch rest).map fun form => (none, "if", form)
    else readPlain catalog cs
  | none => readPlain catalog cs

/-- Reads a unit. -/
def parseUnit (catalog : Catalog) (raw : List Char) : Reading α :=
  let cs := trim raw
  match readUnit catalog cs with
  | .ok (target, attr, form) =>
    .clause ⟨String.ofList cs, target, attr, form,
      Clause.describe target (catalog.title attr) form⟩
  | .error f => .fault (String.ofList cs) f

/-- Reads the units of an effect text. -/
def parseEffect (catalog : Catalog) (text : String) : List (Reading α) :=
  (split text.toList).map (parseUnit catalog)

end Effect
end DeckDuel
