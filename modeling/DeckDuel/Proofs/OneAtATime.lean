/-
DeckDuel.Proofs.OneAtATime — actions run once each and in order,
whatever a listener asks for meanwhile.

* `Agenda.occupied_of_busy` — a drain in the middle of an action is
  turned down, and changes nothing.
* `Agenda.Moved` — what a listener did while actions ran: its actions
  wait behind the others, and its drains were turned down.
* `Agenda.moved_perform` — running one action moves an agenda so, and
  always comes to an end.
* `Agenda.stops_or_goesOn` — the waiting actions run one after another
  until none is left or one fails, or as many as were to be watched have
  run.
* `Agenda.drain_in_order` — what a drain does, together.
-/
import DeckDuel.Agenda
import DeckDuel.Proofs.Double
import DeckDuel.Proofs.TurnedDown

namespace DeckDuel

variable {α σ : Type}

/-! ## What is asked for -/

/-- The action that a listener adds. -/
def Ask.action? : Ask → Option Action
  | .push x => some x
  | .drain => none

/-- The actions that a listener adds at one event. -/
def Ask.pushed (asks : List Ask) : List Action := asks.filterMap Ask.action?

@[simp] theorem Ask.pushed_nil : Ask.pushed [] = [] := rfl

@[simp] theorem Ask.pushed_push (x : Action) (asks : List Ask) :
    Ask.pushed (.push x :: asks) = x :: Ask.pushed asks := rfl

@[simp] theorem Ask.pushed_drain (asks : List Ask) :
    Ask.pushed (.drain :: asks) = Ask.pushed asks := rfl

namespace Reaction

/-- The actions that were added by reactions, in order. -/
def pushed (rs : List (Reaction α)) : List Action := Ask.pushed (rs.map Reaction.asks).flatten

/-- An action was running, and every drain that was asked for was turned
down. -/
structure Refused (r : Reaction α) : Prop where
  busy : r.busy = true
  answers : r.answers = List.replicate (r.asks.count .drain) (.error .busy)

@[simp] theorem pushed_nil : pushed ([] : List (Reaction α)) = [] := rfl

@[simp] theorem pushed_singleton (r : Reaction α) : pushed [r] = Ask.pushed r.asks := by
  simp [pushed]

@[simp] theorem pushed_append (rs rs' : List (Reaction α)) :
    pushed (rs ++ rs') = pushed rs ++ pushed rs' := by
  simp [pushed, Ask.pushed]

end Reaction

namespace Listener

variable (listener : Listener α σ)

/-- What a listener says at events, one after another. -/
def words : σ → List (Event α) → List (List Ask)
  | _, [] => []
  | m, e :: es => (listener m e).2.toList ++ words (listener m e).1 es

/-- What a listener remembers after events. -/
def recalls (m : σ) (es : List (Event α)) : σ := es.foldl (fun m e => (listener m e).1) m

theorem words_append (m : σ) (es es' : List (Event α)) :
    listener.words m (es ++ es') = listener.words m es ++ listener.words (listener.recalls m es) es' := by
  induction es generalizing m with
  | nil => rfl
  | cons e es ih => simp only [List.cons_append, words, ih, List.append_assoc, recalls, List.foldl_cons]

theorem words_silent (m : σ) (es : List (Event α)) : words .silent m es = [] := by
  induction es with
  | nil => rfl
  | cons e es ih => simpa [words, silent] using ih

theorem recalls_append (m : σ) (es es' : List (Event α)) :
    listener.recalls m (es ++ es') = listener.recalls (listener.recalls m es) es' :=
  List.foldl_append

end Listener

namespace Agenda

variable {listener : Listener α σ} {a b : Agenda α σ}
  {run : Agenda α σ → Option (Drained α σ)}

/-! ## In the middle of an action -/

/-- A drain in the middle of an action is turned down, and changes
nothing. -/
theorem occupied_of_busy (h : a.busy = true) :
    a.occupied run = some ⟨.error .busy, [], a⟩ := by
  rw [occupied, if_pos h]

theorem grantAll_of_busy (h : a.busy = true) (asks : List Ask) :
    a.grantAll (·.occupied run) asks = some ⟨List.replicate (asks.count .drain) (.error .busy), [],
      { a with pending := a.pending ++ Ask.pushed asks }⟩ := by
  induction asks generalizing a with
  | nil => simp [grantAll]
  | cons x xs ih =>
    cases x with
    | push x =>
      have hrest := ih (a := a.push x) h
      simp only [grantAll, grant, Option.bind_eq_bind, Option.bind_some, hrest]
      simp [push]
    | drain =>
      have hrest := ih h
      simp [grantAll, grant, occupied_of_busy h, hrest, List.replicate_succ]

/-- What a listener made of events while an action ran. -/
structure Hears (listener : Listener α σ) (a : Agenda α σ) (es : List (Event α))
    (rs : List (Reaction α)) (b : Agenda α σ) : Prop where
  session : b.session = a.session
  busy : b.busy = true
  pending : b.pending = a.pending ++ Reaction.pushed rs
  refused : ∀ r ∈ rs, r.Refused
  said : rs.map Reaction.asks = listener.words a.memory es
  memory : b.memory = listener.recalls a.memory es

theorem hear_of_busy (run : Agenda α σ → Option (Drained α σ)) (listener : Listener α σ)
    (h : a.busy = true) (e : Event α) :
    ∃ rs b, a.hear (·.occupied run) listener e = some (rs, b) ∧ Hears listener a [e] rs b := by
  rcases hspoken : listener a.memory e with ⟨m, _ | asks⟩
  · refine ⟨[], a.remind m, by rw [hear, hspoken], ⟨rfl, h, ?_, by simp, ?_, ?_⟩⟩
    · simp [remind]
    · simp [Listener.words, hspoken]
    · simp [Listener.recalls, hspoken, remind]
  · let b : Agenda α σ := { a.remind m with pending := a.pending ++ Ask.pushed asks }
    let answers : List (Except (SessionError α) Nat) :=
      List.replicate (asks.count .drain) (.error .busy)
    have hgranted : (a.remind m).grantAll (·.occupied run) asks = some ⟨answers, [], b⟩ :=
      grantAll_of_busy (a := a.remind m) h asks
    refine ⟨[⟨asks, answers, b.pending.length, b.busy⟩], b, ?_, ⟨rfl, h, ?_, ?_, ?_, ?_⟩⟩
    · rw [hear, hspoken]
      simp only [hgranted, Option.bind_eq_bind, Option.bind_some, List.nil_append]
    · simp [b]
    · simpa using ⟨h, rfl⟩
    · simp [Listener.words, hspoken]
    · simp [Listener.recalls, hspoken, b, remind]

/-- The events of an action are all heard, and in the end the action is
still running. -/
theorem hearAll_of_busy (run : Agenda α σ → Option (Drained α σ)) (listener : Listener α σ)
    (h : a.busy = true) (es : List (Event α)) :
    ∃ rs b, a.hearAll (·.occupied run) listener es = some (rs, b) ∧ Hears listener a es rs b := by
  induction es generalizing a with
  | nil => exact ⟨[], a, by rw [hearAll], ⟨rfl, h, by simp, by simp, rfl, rfl⟩⟩
  | cons e es ih =>
    obtain ⟨rs, b, hhear, hears⟩ := hear_of_busy run listener h e
    obtain ⟨rs', c, hhearAll, hears'⟩ := ih hears.busy
    refine ⟨rs ++ rs', c, ?_, ⟨hears'.session.trans hears.session, hears'.busy, ?_, ?_, ?_, ?_⟩⟩
    · rw [hearAll]
      simp only [hhear, hhearAll, Option.bind_eq_bind, Option.bind_some]
    · simp [hears'.pending, hears.pending]
    · simpa [or_imp, forall_and] using ⟨hears.refused, hears'.refused⟩
    · rw [List.map_append, hears.said, hears'.said, hears.memory, ← Listener.words_append,
        List.singleton_append]
    · rw [hears'.memory, hears.memory, ← Listener.recalls_append, List.singleton_append]

end Agenda

/-! ## One action after another -/

section

variable [Scalar α]

/-- The call that an action makes. -/
def Action.call : Action → Call α
  | .playCard uid => .playCard uid
  | .endTurn => .endPlayerTurn
  | .effect text me => .runEffect text me

theorem Action.run_eq (x : Action) : (x.run : Request α Unit) = x.call.request := by
  cases x <;> rfl

/-- An action leaves what was told before as it was. -/
theorem Action.journal_run (x : Action) (s : Session α) :
    s.live.journal <:+ (x.run.run.run s).2.live.journal := by
  obtain ⟨new, hnew, -⟩ := (Session.holds_afterAll s [x.call] (P := fun _ => True)
    ⟨fun _ _ => trivial, fun _ _ _ => trivial⟩ trivial).noted
  rw [run_eq]
  exact ⟨new, hnew.symm⟩

omit [Scalar α] in
theorem Live.eventsSince_of_append {l m : Live α} {new : List (Entry α)}
    (h : new ++ l.journal = m.journal) :
    m.eventsSince l.journal.length = (new.filterMap Entry.event?).reverse := by
  simp [eventsSince, ← h]

omit [Scalar α] in
/-- What was told between two points is told in two parts. -/
theorem Live.eventsSince_append {l m n : Live α} (h : l.journal <:+ m.journal)
    (h' : m.journal <:+ n.journal) :
    n.eventsSince l.journal.length =
      m.eventsSince l.journal.length ++ n.eventsSince m.journal.length := by
  obtain ⟨new, hnew⟩ := h
  obtain ⟨newer, hnewer⟩ := h'
  have hboth : (newer ++ new) ++ l.journal = n.journal := by
    rw [List.append_assoc, hnew, hnewer]
  rw [eventsSince_of_append hboth, eventsSince_of_append hnew, eventsSince_of_append hnewer,
    List.filterMap_append, List.reverse_append]

/-- Actions that succeed one after another. -/
inductive Session.Runs : Session α → List Action → Session α → Prop where
  | nil (s : Session α) : Runs s [] s
  | cons {s t u : Session α} {x : Action} {xs : List Action}
      (head : x.run.run.run s = (.ok (), t)) (tail : Runs t xs u) : Runs s (x :: xs) u

/-- How a run of actions ends: all of them succeeded and none waits, or
the last one failed, and others may go on waiting. -/
inductive Session.Ran : Session α → List Action → Except (SessionError α) Nat → Session α →
    List Action → Prop where
  | all {s t : Session α} {xs : List Action} (runs : s.Runs xs t) :
      Ran s xs (.ok xs.length) t []
  | failed {s t u : Session α} {xs rest : List Action} {x : Action} {e : SessionError α}
      (runs : s.Runs xs t) (fails : x.run.run.run t = (.error e, u)) :
      Ran s (xs ++ [x]) (.error e) u rest

theorem Session.Ran.cons {s t u : Session α} {x : Action} {xs rest : List Action}
    {r : Except (SessionError α) Nat} (head : x.run.run.run s = (.ok (), t))
    (tail : t.Ran xs r u rest) : s.Ran (x :: xs) (r.map (· + 1)) u rest := by
  cases tail with
  | all runs => exact .all (.cons head runs)
  | failed runs fails => exact .failed (.cons head runs) fails

section

variable {s t u : Session α} {x : Action} {xs ys rest : List Action}
  {r : Except (SessionError α) Nat}

/-- The first action of a run succeeds or fails by itself: what ran is
settled by the actions alone. -/
theorem Session.Ran.of_ok (h : s.Ran xs r u rest) (hall : xs ++ rest = x :: ys)
    (hx : x.run.run.run s = (.ok (), t)) :
    ∃ xs' r', xs = x :: xs' ∧ r = r'.map (· + 1) ∧ t.Ran xs' r' u rest := by
  cases h with
  | all runs =>
    cases runs with
    | nil => cases hall
    | cons head tail =>
      obtain ⟨rfl, -⟩ := List.cons.inj hall
      cases hx.symm.trans head
      exact ⟨_, _, rfl, rfl, .all tail⟩
  | failed runs fails =>
    cases runs with
    | nil =>
      obtain ⟨rfl, -⟩ := List.cons.inj hall
      cases hx.symm.trans fails
    | cons head tail =>
      obtain ⟨rfl, -⟩ := List.cons.inj hall
      cases hx.symm.trans head
      exact ⟨_, _, rfl, rfl, .failed tail fails⟩

theorem Session.Ran.of_error {e : SessionError α} (h : s.Ran xs r u rest)
    (hall : xs ++ rest = x :: ys) (hx : x.run.run.run s = (.error e, t)) :
    xs = [x] ∧ r = .error e ∧ u = t := by
  cases h with
  | all runs =>
    cases runs with
    | nil => cases hall
    | cons head tail =>
      obtain ⟨rfl, -⟩ := List.cons.inj hall
      cases hx.symm.trans head
  | failed runs fails =>
    cases runs with
    | nil =>
      obtain ⟨rfl, -⟩ := List.cons.inj hall
      cases hx.symm.trans fails
      exact ⟨rfl, rfl, rfl⟩
    | cons head tail =>
      obtain ⟨rfl, -⟩ := List.cons.inj hall
      cases hx.symm.trans head

end

end

namespace Agenda

variable {listener : Listener α σ} {a b c : Agenda α σ}

/-- An agenda on which actions ran, with a listener to them. -/
structure Moved (listener : Listener α σ) (a : Agenda α σ) (ran : List Action)
    (rs : List (Reaction α)) (b : Agenda α σ) : Prop where
  busy : b.busy = true
  order : a.pending ++ Reaction.pushed rs = ran ++ b.pending
  refused : ∀ r ∈ rs, r.Refused
  journal : a.session.live.journal <:+ b.session.live.journal
  said : rs.map Reaction.asks =
    listener.words a.memory (b.session.live.eventsSince a.session.live.journal.length)
  memory : b.memory =
    listener.recalls a.memory (b.session.live.eventsSince a.session.live.journal.length)

theorem Moved.refl (h : a.busy = true) : Moved listener a [] [] a where
  busy := h
  order := by simp
  refused := by simp
  journal := List.suffix_refl _
  said := by simp [Live.eventsSince, Listener.words]
  memory := by simp [Live.eventsSince, Listener.recalls]

theorem Moved.trans {xs ys : List Action} {rs rs' : List (Reaction α)}
    (h : Moved listener a xs rs b) (h' : Moved listener b ys rs' c) :
    Moved listener a (xs ++ ys) (rs ++ rs') c where
  busy := h'.busy
  order := by
    rw [Reaction.pushed_append, ← List.append_assoc, h.order, List.append_assoc, h'.order,
      List.append_assoc]
  refused := by simpa [or_imp, forall_and] using ⟨h.refused, h'.refused⟩
  journal := h.journal.trans h'.journal
  said := by
    rw [List.map_append, h.said, h'.said, h.memory, ← Listener.words_append,
      ← Live.eventsSince_append h.journal h'.journal]
  memory := by
    rw [h'.memory, h.memory, ← Listener.recalls_append,
      ← Live.eventsSince_append h.journal h'.journal]

variable [Scalar α]

/-- The action that waits longest runs to its end, and what the listener
adds meanwhile waits behind the others. -/
theorem moved_perform (run : Agenda α σ → Option (Drained α σ)) (listener : Listener α σ)
    (h : a.busy = true) {x : Action} {rest : List Action}
    (hpending : a.pending = x :: rest) :
    ∃ rs b, perform (·.occupied run) listener { a with pending := rest } x =
        some ((x.run.run.run a.session).1, rs, b) ∧
      b.session = (x.run.run.run a.session).2 ∧ Moved listener a [x] rs b := by
  let now : Agenda α σ := ⟨(x.run.run.run a.session).2, rest, a.busy, a.memory⟩
  obtain ⟨rs, b, hhear, hears⟩ := hearAll_of_busy run listener (a := now) h
    (now.session.live.eventsSince a.session.live.journal.length)
  have hjournal : a.session.live.journal <:+ now.session.live.journal := x.journal_run a.session
  refine ⟨rs, b, ?_, hears.session, ⟨hears.busy, ?_, hears.refused, ?_, ?_, ?_⟩⟩
  · rw [perform]
    simp only [now] at hhear
    simp only [hhear, Option.bind_eq_bind, Option.bind_some]
  · rw [hears.pending, hpending]
    rfl
  · rw [hears.session]
    exact hjournal
  · rw [hears.session]
    exact hears.said
  · rw [hears.session]
    exact hears.memory

/-! ## Until none waits -/

theorem runPending_of_nil (listener : Listener α σ) (limit : Nat) (h : a.pending = []) :
    runPending listener limit a = some ⟨.ok 0, [], a⟩ := by
  rw [runPending, h]

/-- One step of running the waiting actions. -/
theorem runPending_of_cons (listener : Listener α σ) (limit : Nat) (hbusy : a.busy = true)
    {x : Action} {rest : List Action} (hpending : a.pending = x :: rest) :
    ∃ rs b, b.session = (x.run.run.run a.session).2 ∧ Moved listener a [x] rs b ∧
      runPending listener (limit + 1) a =
        match (x.run.run.run a.session).1 with
        | .error e => some ⟨.error e, rs, b⟩
        | .ok () => (runPending listener limit b).bind fun d =>
          some ⟨d.result.map (· + 1), rs ++ d.reactions, d.agenda⟩ := by
  obtain ⟨rs, b, hperform, hsession, hmoved⟩ :=
    moved_perform (runPending listener limit) listener hbusy hpending
  refine ⟨rs, b, hsession, hmoved, ?_⟩
  rw [runPending, hpending]
  simp only [hperform, Option.bind_eq_bind, Option.bind_some]
  cases (x.run.run.run a.session).1 <;> rfl

/-- A run of the waiting actions of a busy agenda that came to an end. -/
def Stops (listener : Listener α σ) (a : Agenda α σ) (d : Drained α σ) : Prop :=
  ∃ ran, Moved listener a ran d.reactions d.agenda ∧
    a.session.Ran ran d.result d.agenda.session d.agenda.pending

/-- A run of the waiting actions that was watched for as many as `limit`,
and others wait. -/
def GoesOn (listener : Listener α σ) (a : Agenda α σ) (limit : Nat) : Prop :=
  ∃ ran rs b, ran.length = limit ∧ Moved listener a ran rs b ∧
    a.session.Runs ran b.session ∧ b.pending ≠ []

theorem stops_of_nil (hbusy : a.busy = true) (hpending : a.pending = []) :
    Stops listener a ⟨.ok 0, [], a⟩ := by
  refine ⟨[], .refl hbusy, ?_⟩
  simp only [hpending]
  exact .all (.nil _)

/-- Every action that ran waited at first or was added, and so did those
that wait. -/
theorem GoesOn.waiting {limit : Nat} (h : GoesOn listener a limit) :
    ∃ ran rest s, ran.length = limit ∧ rest ≠ [] ∧ a.session.Runs ran s ∧
      ran ++ rest = a.pending ++ Ask.pushed (listener.words a.memory
        (s.live.eventsSince a.session.live.journal.length)).flatten := by
  obtain ⟨ran, rs, b, hlength, hmoved, hruns, hwait⟩ := h
  refine ⟨ran, b.pending, b.session, hlength, hwait, hruns, ?_⟩
  rw [← hmoved.order, Reaction.pushed, hmoved.said]

/-- The waiting actions run one after another, until none is left or one
fails, or as many as were to be watched have run. -/
theorem stops_or_goesOn (listener : Listener α σ) (limit : Nat) (hbusy : a.busy = true) :
    match runPending listener limit a with
    | some d => Stops listener a d
    | none => GoesOn listener a limit := by
  induction limit generalizing a with
  | zero =>
    rcases hpending : a.pending with _ | ⟨x, rest⟩
    · rw [runPending_of_nil listener _ hpending]
      exact stops_of_nil hbusy hpending
    · rw [runPending, hpending]
      exact ⟨[], [], a, rfl, .refl hbusy, .nil _, by simp [hpending]⟩
  | succ limit ih =>
    rcases hpending : a.pending with _ | ⟨x, rest⟩
    · rw [runPending_of_nil listener _ hpending]
      exact stops_of_nil hbusy hpending
    · obtain ⟨rs, b, hsession, hmoved, hstep⟩ := runPending_of_cons listener limit hbusy hpending
      rw [hstep]
      cases hran : (x.run.run.run a.session).1 with
      | error e => exact ⟨[x], hmoved, .failed (.nil _) (Prod.ext hran hsession.symm)⟩
      | ok _ =>
        have hfirst : x.run.run.run a.session = (.ok (), b.session) :=
          Prod.ext hran hsession.symm
        have hrest := ih hmoved.busy
        cases hb : runPending listener limit b with
        | some d =>
          rw [hb] at hrest
          obtain ⟨ran, hmoved', hran'⟩ := hrest
          exact ⟨x :: ran, hmoved.trans hmoved', .cons hfirst hran'⟩
        | none =>
          rw [hb] at hrest
          obtain ⟨ran, rs', c, rfl, hmoved', hruns, hwait⟩ := hrest
          exact ⟨x :: ran, rs ++ rs', c, rfl, hmoved.trans hmoved', .cons hfirst hruns, hwait⟩

/-! ## A drain -/

/-- Where no action runs, a drain runs the waiting ones. -/
theorem drain_of_idle (listener : Listener α σ) (limit : Nat) (hidle : a.busy = false) :
    a.drain listener limit = (runPending listener limit { a with busy := true }).map fun d =>
      { d with agenda := { d.agenda with busy := false } } := by
  rw [drain, occupied, hidle]
  cases runPending listener limit { a with busy := true } <;> rfl

/-- A drain runs each action once, in order and one at a time. In the
middle of an action another drain is turned down and changes nothing; the
actions that wait, and behind them those that are added, run until none
is left or one fails, which is used up; and in the end the agenda is free
again. It goes on as long as actions are left that do not fail: without
an answer, as many have run as were to be watched, and others wait. -/
theorem drain_in_order (listener : Listener α σ) (limit : Nat) {a : Agenda α σ}
    (hidle : a.busy = false) :
    (∀ b : Agenda α σ, b.busy = true → b.drain listener limit = some ⟨.error .busy, [], b⟩) ∧
    (∀ d, a.drain listener limit = some d →
      d.agenda.busy = false ∧ (∀ r ∈ d.reactions, r.Refused) ∧
      d.reactions.map Reaction.asks = listener.words a.memory
        (d.agenda.session.live.eventsSince a.session.live.journal.length) ∧
      ∃ ran, a.pending ++ Reaction.pushed d.reactions = ran ++ d.agenda.pending ∧
        a.session.Ran ran d.result d.agenda.session d.agenda.pending) ∧
    (a.drain listener limit = none → ∃ ran rest s, ran.length = limit ∧ rest ≠ [] ∧
      a.session.Runs ran s ∧ ran ++ rest = a.pending ++ Ask.pushed (listener.words a.memory
        (s.live.eventsSince a.session.live.journal.length)).flatten) := by
  let now : Agenda α σ := { a with busy := true }
  have hrun := stops_or_goesOn (a := now) listener limit rfl
  have hdrain := drain_of_idle listener limit hidle
  refine ⟨fun b => occupied_of_busy, fun d hd => ?_, fun hnone => ?_⟩
  · obtain ⟨d', hd', rfl⟩ := Option.map_eq_some_iff.mp (hdrain.symm.trans hd)
    rw [hd'] at hrun
    obtain ⟨ran, hmoved, hran⟩ := hrun
    exact ⟨rfl, hmoved.refused, hmoved.said, ran, hmoved.order, hran⟩
  · rw [hdrain, Option.map_eq_none_iff] at hnone
    rw [hnone] at hrun
    exact hrun.waiting

/-- A listener that adds only so many actions in all gets a drain
through. -/
theorem isSome_drain (listener : Listener α σ) (a : Agenda α σ) {n : Nat}
    (h : ∀ es, (Ask.pushed (listener.words a.memory es).flatten).length ≤ n) :
    (a.drain listener (a.pending.length + n)).isSome := by
  cases hbusy : a.busy with
  | true => rw [drain, occupied_of_busy hbusy]; rfl
  | false =>
    have hran := stops_or_goesOn (a := { a with busy := true }) listener (a.pending.length + n) rfl
    rw [drain_of_idle listener _ hbusy, Option.isSome_map]
    cases hrun : runPending listener (a.pending.length + n) { a with busy := true } with
    | some d => rfl
    | none =>
      rw [hrun] at hran
      obtain ⟨ran, rest, s, hlength, hwait, -, hall⟩ := hran.waiting
      have hadded := h (s.live.eventsSince a.session.live.journal.length)
      have hrest := List.length_pos_of_ne_nil hwait
      have hlengths := congrArg List.length hall
      simp only [List.length_append] at hlengths
      omega

/-- So does a host that does not listen. -/
theorem isSome_drain_silent (a : Agenda α σ) :
    (a.drain .silent a.pending.length).isSome := by
  refine isSome_drain .silent a (n := 0) fun es => ?_
  simp [Listener.words_silent]

end Agenda

/-- A listener that wants a drain at the first event, and adds an
action. -/
def Listener.echoing : Listener Double Bool
  | false, _ => (true, some [.drain, .push (.effect "ME.block+1" .player)])
  | true, _ => (true, none)

theorem Listener.words_echoing {es : List (Event Double)} (h : es ≠ []) :
    echoing.words false es = [[.drain, .push (.effect "ME.block+1" .player)]] := by
  have hsilent : ∀ es, echoing.words true es = [] := by
    intro es
    induction es with
    | nil => rfl
    | cons e es ih => exact ih
  obtain ⟨e, es, rfl⟩ := List.exists_cons_of_ne_nil h
  simp [words, echoing, hsilent]

/-- A card that is not there fails; the end of the turn behind it goes on
waiting, and so does what was added meanwhile. -/
theorem Agenda.drain_in_order_echoing :
    let a := { new (.loadWith .duel .standard .leftmost .standard) false with
      pending := [.effect "OP.hp-2" .player, .playCard 99, .endTurn] }
    a.busy = false ∧ ∃ d, a.drain .echoing 4 = some d ∧
      d.result = .error (.cardNotInHand 99) ∧ d.agenda.busy = false ∧
      d.agenda.pending = [.endTurn, .effect "ME.block+1" .player] := by
  intro a
  have hbounded : ∀ es, (Ask.pushed (Listener.echoing.words a.memory es).flatten).length ≤ 1 := by
    intro es
    cases es with
    | nil => simp [Listener.words]
    | cons e es => simp [a, new, Listener.words_echoing]
  obtain ⟨d, hd⟩ := Option.isSome_iff_exists.mp (isSome_drain .echoing a hbounded)
  obtain ⟨hfree, -, hsaid, ran, horder, hran⟩ :=
    (drain_in_order .echoing 4 (a := a) rfl).2.1 d hd
  let hit : Request Double Unit := Session.runEffect "OP.hp-2" .player
  let s := (hit.run.run a.session).2
  have hhit : (hit.run.run a.session).1 = .ok () := by
    have hok : (hit.run.run a.session).1.isOk = true := by decide +kernel
    cases h : (hit.run.run a.session).1 with
    | ok _ => rfl
    | error e => rw [h] at hok; cases hok
  have htold : (s.live.eventsSince a.session.live.journal.length).isEmpty = false := by
    decide +kernel
  have hmissing : s.TurnsDown (.playCard 99) (.cardNotInHand 99) :=
    .cardNotInHand 99 (by decide +kernel) (by decide +kernel) (by decide +kernel)
  obtain ⟨ran, r, rfl, hr, hran⟩ := hran.of_ok horder.symm (Prod.ext hhit rfl)
  obtain ⟨rfl, rfl, hsession⟩ := hran.of_error (List.cons.inj horder).2.symm hmissing.run
  refine ⟨rfl, d, hd, hr, hfree, ?_⟩
  have hspoken := Listener.words_echoing (List.isEmpty_eq_false_iff.mp htold)
  rw [hsession] at hsaid
  replace hsaid := hsaid.trans hspoken
  simpa [a, Reaction.pushed, hsaid] using horder.symm

end DeckDuel
