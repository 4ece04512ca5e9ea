/-
DeckDuel.Document.Status — status definitions as documents.

    definition := { id, name, emoji?, description?, type?, stacks_change?,
                    maxStacks?, triggers?, source?, createdAt? }
    triggers   := { apply?, tick?, remove?, stack?, hold?, moment: texts … }
    texts      := text | [ text … ]

* `readDefinition`, `writeDefinition` — one definition.
* `loadCodex` — the definitions of a value that may be nested in lists;
  an entry that is none is left out. `loadShelf` — the same for a shelf.
* `writeCodex` — all definitions, in order of arrival.
-/
import DeckDuel.Json.Decode
import DeckDuel.Status.Shelf

namespace DeckDuel.Document

open Decode

variable {α : Type} [Scalar α]

/-! ## Parts of definitions -/

/-- Reads a decay rule: a number, a text, or null. -/
def readDecay : Decoder α (Decay α) :=
  whole fun d =>
    match d with
    | .str (some s) =>
      match Decay.read s.toList with
      | .ok rule => .ok rule
      | .error _ => .error .mismatched
    | .null => .ok .none
    | d => (number .held d).map .amount

/-- Writes a decay rule. -/
def writeDecay : Decay α → Json α
  | .none => .null
  | .amount d => .ofNumber d
  | .factor f => .str ("x" ++ Scalar.text f)

/-- The texts of one or several. A blank text is none. -/
def readTexts : Decoder α (List String) :=
  whole fun d =>
    match d with
    | .str (some s) => .ok (if Text.isBlankText s.toList then [] else [s])
    | d => listOf text .held d

/-- Reads texts for named moments. -/
def readMoments : List (String × Json α) → Decoded (List (String × List String))
  | [] => .ok []
  | (name, v) :: rest => do
    let texts ← ofHeld readTexts v
    let moments ← readMoments rest
    .ok ((name, texts) :: moments)

/-- The fields of triggers. -/
def triggersFields : List (Field α) :=
  Lifecycle.all.map fun p => .of [p.name] readTexts

/-- Reads triggers. Every other name is the name of a moment. -/
def readTriggers : Decoder α StatusTriggers :=
  openRecord triggersFields fun r rest => do
    let point (p : Lifecycle) := r.get p.name readTexts []
    .ok { apply := ← point .apply
          tick := ← point .tick
          remove := ← point .remove
          stack := ← point .stack
          hold := ← point .hold
          events := Json.sortMembers (← readMoments rest) }

/-- Writes triggers. -/
def writeTriggers (t : StatusTriggers) : Json α :=
  .obj ((Lifecycle.all.map fun p => (p.name, Json.strs (t.get p))) ++
    t.events.map fun (name, texts) => (name, Json.strs texts))

/-! ## Definitions -/

/-- The fields of a definition. -/
def definitionFields : List (Field α) :=
  [.of ["id"] text, .of ["name"] text, .of ["emoji"] text, .of ["description"] text,
   .of ["type"] (choice StatusKind.names), .of ["stacks_change", "stacksChange"] readDecay,
   .of ["maxStacks", "max_stacks"] (nullable count32), .of ["triggers"] readTriggers,
   .of ["source"] (choice StatusOrigin.names), .of ["createdAt", "created_at"] count64]

/-- Reads a definition. -/
def readDefinition : Decoder α (StatusDefinition α) :=
  record definitionFields fun r => do
    .ok { id := ← r.need "id" text
          name := ← r.need "name" text
          emoji := ← r.get "emoji" text ""
          description := ← r.get "description" text ""
          kind := ← r.get "type" (choice StatusKind.names) .neutral
          decay := ← r.get "stacks_change" readDecay .none
          maxStacks := ← r.get "maxStacks" (nullable count32) none
          triggers := ← r.get "triggers" readTriggers .empty
          origin := ← r.get "source" (choice StatusOrigin.names) .system
          createdAt := ← r.get "createdAt" count64 0 }

/-- Writes a definition. -/
def writeDefinition (d : StatusDefinition α) : Json α :=
  .obj
    [("id", .str d.id), ("name", .str d.name), ("emoji", .str d.emoji),
     ("description", .str d.description), ("type", .str d.kind.name),
     ("stacks_change", writeDecay d.decay), ("maxStacks", .opt .nat d.maxStacks),
     ("triggers", writeTriggers d.triggers), ("source", .str d.origin.name),
     ("createdAt", .nat d.createdAt)]

/-! ## Codices -/

/-- How many levels of lists are looked into. -/
def maxListLevels : Nat := 4

mutual

/-- The records of a value, looking into lists on some levels. -/
def entries (levels : Nat) : Json α → List (Json α)
  | .obj ms => [.obj ms]
  | .arr items => if levels = 0 then [] else itemEntries (levels - 1) items
  | _ => []

/-- The records of the items of a list. -/
def itemEntries (levels : Nat) : List (Json α) → List (Json α)
  | [] => []
  | v :: vs => entries levels v ++ itemEntries levels vs

end

/-- Defines the entries that are definitions; how many they are. -/
def defineAll (c : Codex α) : List (Json α) → Nat × Codex α
  | [] => (0, c)
  | v :: vs =>
    match ofHeld readDefinition v with
    | .ok d =>
      let r := defineAll (c.define d) vs
      (r.1 + 1, r.2)
    | .error _ => defineAll c vs

/-- Defines what a value holds; how many definitions it held. -/
def loadCodex (c : Codex α) (v : Json α) : Nat × Codex α := defineAll c (entries maxListLevels v)

/-- Puts the entries that are definitions on a shelf; how many they
are. -/
def shelveAll (s : Shelf α) : List (Json α) → Nat × Shelf α
  | [] => (0, s)
  | v :: vs =>
    match ofHeld readDefinition v with
    | .ok d =>
      let r := shelveAll (s.define d).2 vs
      (r.1 + 1, r.2)
    | .error _ => shelveAll s vs

/-- Puts what a value holds on a shelf; how many definitions it held. -/
def loadShelf (s : Shelf α) (v : Json α) : Nat × Shelf α := shelveAll s (entries maxListLevels v)

/-- Writes all definitions. -/
def writeCodex (c : Codex α) : Json α := Json.canonical (.arr (c.definitions.map writeDefinition))

end DeckDuel.Document
