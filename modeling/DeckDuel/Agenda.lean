/-
DeckDuel.Agenda — actions that wait for their turn.

* `Action` — what a host can ask of a session in one step.
* `Agenda` — a session with the actions that wait. Only one action runs
  at a time.
* `Listener` — hears the events of a running action, and may speak: it
  asks for more actions, or for the waiting ones to be run at once.
* `Agenda.drain` — runs the waiting actions, and those that are added
  meanwhile, until none is left or one fails. The failed one is used
  up, and those behind it go on waiting.

What a listener asks for is done in the middle of an action, and a drain
that it asks for is the drain that the host asked for. A listener may
also ask for actions without end, and so a drain is watched for a number
of actions only: it has no answer yet when that many have run and others
wait.
-/
import DeckDuel.Session

namespace DeckDuel

/-- One step of a host. -/
inductive Action where
  | playCard (uid : Nat)
  | endTurn
  | effect (text : String) (me : Side)
deriving DecidableEq, Repr

variable {α σ : Type}

/-- Takes a step. -/
def Action.run [Scalar α] : Action → Request α Unit
  | .playCard uid => Session.playCard uid
  | .endTurn => Session.endPlayerTurn
  | .effect text me => Session.runEffect text me

/-- What a listener asks for. -/
inductive Ask where
  | push (a : Action)
  | drain
deriving DecidableEq, Repr

/-- What a listener makes of an event: what it remembers from then on,
and what it says, if it speaks. The session is not its to look at while
an action runs. The number of actions that wait is, but from one agenda
it is the same at each event of every run, so a listener that goes by it
speaks like one of these. -/
abbrev Listener (α σ : Type) := σ → Event α → σ × Option (List Ask)

/-- The listener that never speaks. -/
def Listener.silent : Listener α σ := fun m _ => (m, none)

/-- What came of a listener's words at one event. -/
structure Reaction (α : Type) where
  asks : List Ask
  /-- The answers to the drains that it asked for. -/
  answers : List (Except (SessionError α) Nat)
  /-- The number of actions that waited then. -/
  waiting : Nat
  /-- Was an action running? -/
  busy : Bool

/-- A session with waiting actions. -/
structure Agenda (α σ : Type) where
  session : Session α
  pending : List Action
  /-- Is an action running? -/
  busy : Bool
  /-- What the listener remembers. -/
  memory : σ

/-- What came of running actions. -/
structure Drained (α σ : Type) where
  /-- The number of actions that ran, or why the last one failed. -/
  result : Except (SessionError α) Nat
  reactions : List (Reaction α)
  agenda : Agenda α σ

/-- What came of what a listener asked for. -/
structure Granted (α σ : Type) where
  answers : List (Except (SessionError α) Nat)
  reactions : List (Reaction α)
  agenda : Agenda α σ

namespace Agenda

/-- An agenda on which nothing waits. -/
def new (s : Session α) (memory : σ) : Agenda α σ := ⟨s, [], false, memory⟩

/-- Adds an action behind those that wait. -/
def push (a : Agenda α σ) (x : Action) : Agenda α σ := { a with pending := a.pending ++ [x] }

/-- The agenda of a listener that remembers something else. -/
def remind (a : Agenda α σ) (memory : σ) : Agenda α σ := { a with memory := memory }

/-- Does one thing that a listener asks for. -/
def grant (drain : Agenda α σ → Option (Drained α σ)) (a : Agenda α σ) :
    Ask → Option (Granted α σ)
  | .push x => some ⟨[], [], a.push x⟩
  | .drain => do
    let d ← drain a
    some ⟨[d.result], d.reactions, d.agenda⟩

/-- Does what a listener asks for, one thing after another. -/
def grantAll (drain : Agenda α σ → Option (Drained α σ)) (a : Agenda α σ) :
    List Ask → Option (Granted α σ)
  | [] => some ⟨[], [], a⟩
  | x :: xs => do
    let g ← grant drain a x
    let h ← grantAll drain g.agenda xs
    some ⟨g.answers ++ h.answers, g.reactions ++ h.reactions, h.agenda⟩

/-- Tells the listener of an event. -/
def hear (drain : Agenda α σ → Option (Drained α σ)) (listener : Listener α σ)
    (a : Agenda α σ) (e : Event α) : Option (List (Reaction α) × Agenda α σ) :=
  match listener a.memory e with
  | (m, none) => some ([], a.remind m)
  | (m, some asks) => do
    let g ← grantAll drain (a.remind m) asks
    some (g.reactions ++ [⟨asks, g.answers, g.agenda.pending.length, g.agenda.busy⟩], g.agenda)

/-- Tells the listener of events, one after another. -/
def hearAll (drain : Agenda α σ → Option (Drained α σ)) (listener : Listener α σ)
    (a : Agenda α σ) : List (Event α) → Option (List (Reaction α) × Agenda α σ)
  | [] => some ([], a)
  | e :: es => do
    let (rs, a) ← hear drain listener a e
    let (rs', a) ← hearAll drain listener a es
    some (rs ++ rs', a)

/-- Runs an action and tells the listener of its events. -/
def perform [Scalar α] (drain : Agenda α σ → Option (Drained α σ)) (listener : Listener α σ)
    (a : Agenda α σ) (x : Action) :
    Option (Except (SessionError α) Unit × List (Reaction α) × Agenda α σ) := do
  let r := x.run.run.run a.session
  let (rs, a) ← hearAll drain listener { a with session := r.2 }
    (r.2.live.eventsSince a.session.live.journal.length)
  some (r.1, rs, a)

/-- Keeps the agenda busy while `run` goes on; turned down while an
action is running. -/
def occupied (a : Agenda α σ) (run : Agenda α σ → Option (Drained α σ)) :
    Option (Drained α σ) :=
  if a.busy then some ⟨.error .busy, [], a⟩
  else do
    let d ← run { a with busy := true }
    some { d with agenda := { d.agenda with busy := false } }

/-- Runs the waiting actions, as many as `limit`. -/
def runPending [Scalar α] (listener : Listener α σ) (limit : Nat) (a : Agenda α σ) :
    Option (Drained α σ) :=
  match a.pending with
  | [] => some ⟨.ok 0, [], a⟩
  | x :: rest =>
    match limit with
    | 0 => none
    | limit + 1 => do
      match ← perform (·.occupied (runPending listener limit)) listener
          { a with pending := rest } x with
      | (.error e, rs, a) => some ⟨.error e, rs, a⟩
      | (.ok (), rs, a) =>
        let d ← runPending listener limit a
        some ⟨d.result.map (· + 1), rs ++ d.reactions, d.agenda⟩

/-- Runs the waiting actions one after another; turned down while an
action is running. No answer means that more than `limit` actions are to
run. -/
def drain [Scalar α] (listener : Listener α σ) (limit : Nat) (a : Agenda α σ) :
    Option (Drained α σ) :=
  a.occupied (runPending listener limit)

end Agenda
end DeckDuel
