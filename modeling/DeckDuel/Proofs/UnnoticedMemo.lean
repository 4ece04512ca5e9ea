/-
DeckDuel.Proofs.UnnoticedMemo — nobody notices what a memo knows.

* `Tolerance.caching` — runs may differ in faithful memos that were
  asked equally often.
* `Setting.runForgetting` — runs texts like the engine, but forgets what
  was read before at any moments. When that is always due, nothing is
  ever known.
* `Live.Asked` — a memo was asked for one text for each that started to
  run; `Setting.asked_runWithin` — so it is along texts.
* `Act` — what a host can do with a session: it can call for something,
  and exchange the battle, the definitions, the chooser or the
  attributes. Other attributes make the memo forget.
* `Session.memo_unnoticed` — forgetting changes no answer, no event and
  nothing of the session but the memo itself.
-/
import DeckDuel.Proofs.SessionLockstep

namespace DeckDuel

open Tolerance

variable {α : Type} [Scalar α] {catalog : Catalog}

/-! ## Lookups -/

namespace Memo

/-- How often a memo was asked. -/
def lookups (m : Memo α) : Nat := m.hits + m.misses

theorem lookups_parse (m : Memo α) (catalog : Catalog) (text : String) :
    (m.parse catalog text).2.lookups = m.lookups + 1 := by
  unfold parse lookups
  split
  · exact Nat.add_right_comm m.hits 1 m.misses
  · rfl

/-- A memo that forgot everything is faithful to any attributes. -/
theorem faithful_clear (m : Memo α) (catalog : Catalog) : m.clear.Faithful catalog :=
  faithful_empty catalog

end Memo

namespace Tolerance

/-- Runs may differ in faithful memos that were asked equally often. -/
def caching (catalog : Catalog) : Tolerance α catalog :=
  .inMemos (fun a b => (faithful catalog).memo a b ∧ b.lookups = a.lookups) fun a b h text => by
    obtain ⟨hunits, hfaithful⟩ := (faithful catalog).parse h.1 text
    refine ⟨hunits, hfaithful, ?_⟩
    rw [Memo.lookups_parse, Memo.lookups_parse, h.2]

namespace Alike

variable {d : Nat} {l m : Live α}

theorem caching_refl (h : l.memo.Faithful catalog) : (caching catalog).Alike l.depth l l :=
  ⟨rfl, rfl, rfl, rfl, rfl, rfl, ⟨⟨h, h⟩, rfl⟩, rfl⟩

end Alike
end Tolerance

/-! ## Forgetting -/

/-- Everything that was read before is forgotten. -/
def Live.forget (l : Live α) : Live α := { l with memo := l.memo.clear }

namespace Setting

/-- Runs a text with a number of levels left, like the engine, but
forgets what was read before if that is due as a text starts. A memo is
only asked then, and every start is noted in the journal, so these are
any moments. -/
def runForgetting (due : Live α → Bool) (s : Setting α) :
    Nat → String → Side → Context α → Attempt α Unit
  | 0, _, _, _ => throw (.nestingLimit s.rules.maxNesting)
  | levels + 1, text, me, ctx => do
    modify fun l => if due l then l.forget else l
    s.within (s.runForgetting due levels) text me ctx

variable {s : Setting α} {d : Nat} {l m : Live α}

theorem alike_forget (h : (caching s.catalog).Alike d l m) (b : Bool) :
    (caching s.catalog).Alike d l (if b then m.forget else m) := by
  cases b with
  | false => exact h
  | true =>
    obtain ⟨⟨hl, -⟩, hlookups⟩ := h.memo
    exact { h with memo := ⟨⟨hl, m.memo.faithful_clear s.catalog⟩, hlookups⟩ }

/-- Forgetting is not noticed, by induction on the levels: the texts set
off by a text have one less. -/
theorem sameRuns_forgetting (due : Live α → Bool) (levels : Nat) :
    (caching s.catalog).SameRuns d (s.runWithin levels) (s.runForgetting due levels) := by
  induction levels generalizing d with
  | zero =>
    intro text me c c' l m hc h
    exact TriesAgree.throw _ h
  | succ levels ih =>
    intro text me c c' l m hc h
    have hwithin := sameRuns_within ih text me hc (alike_forget h (due m))
    exact ⟨hwithin.result, hwithin.ends⟩

end Setting

/-- The runner that forgets. -/
def Runner.forgetting (due : Live α → Bool) : Runner α := fun s => s.runForgetting due

theorem sameRunners_forgetting {s : Setting α} (due : Live α → Bool) :
    (caching s.catalog).SameRunners Setting.runWithin (Runner.forgetting due) := by
  intro d levels
  exact Setting.sameRuns_forgetting due levels

/-! ## One lookup for each text -/

namespace Live

/-- The memo was asked for as many texts as started to run. -/
def Asked (l m : Live α) : Prop :=
  m.memo.lookups + l.entered.length = l.memo.lookups + m.entered.length

instance : IsPreorder (Live α) Asked where
  refl _ := rfl
  trans l m k h h' := by
    simp only [Asked] at h h' ⊢
    omega

omit [Scalar α] in
theorem Mute.asked {l m : Live α} (h : Mute l m) : Asked l m := by
  rw [Asked, h.memo, h.entered]

theorem asked_endOverflow (l : Live α) (side : Side) : Asked l (l.endOverflow side) := by
  obtain ⟨hmemo, -, hentered⟩ := endOverflow_told l side
  rw [Asked, hmemo, hentered]

/-- A text is looked up as it starts. -/
theorem asked_enter (l : Live α) (catalog : Catalog) (text : String) (me : Side) :
    Asked l { l.enter text me with
      memo := ((l.enter text me).memo.parse catalog text).2 } := by
  obtain ⟨hmemo, -, hentered⟩ := enter_told l text me
  show ((l.enter text me).memo.parse catalog text).2.lookups + l.entered.length =
    l.memo.lookups + (l.enter text me).entered.length
  rw [Memo.lookups_parse, hmemo, hentered, List.length_cons]
  omega

end Live

open Live

namespace Setting

/-- Units ask the memo for the texts that they set off, and for nothing
else. -/
theorem asked_runWithin (s : Setting α) (levels : Nat) (text : String) (me : Side)
    (ctx : Context α) (l : Live α) : Tries Asked (s.runWithin levels text me ctx) l := by
  refine carried_runWithin (fun run hrun => ?_) (fun l text me => l.asked_enter s.catalog text me)
    (fun l => (mute_leave l).asked) levels text me ctx l
  exact { course := fun h => h.carries (fun _ _ _ h => h.mute.asked) (fun _ _ => rfl)
            asked_endOverflow fun text me c l _ => hrun text me c l
          refused := fun _ _ _ => rfl }

theorem hosts_asked (s : Setting α) (turns : Bool) : s.Hosts turns Asked where
  deed h := h.mute.asked
  text _ text me ctx l := asked_runWithin s _ text me ctx l

end Setting

/-! ## Acts of a host -/

/-- What a host can do with a session. -/
inductive Act (α : Type) where
  | call (c : Call α)
  | setBattle (b : Battle α)
  | setCodex (codex : Codex α)
  | setChooser (chooser : Chooser α)
  | setCatalog (catalog : Catalog)

namespace Session

/-- The session with other attributes. What was read with the old ones
is forgotten. -/
def setCatalog (s : Session α) (catalog : Catalog) : Session α :=
  { s with catalog := catalog, live := s.live.forget }

end Session

namespace Runner

/-- What a host does, with the texts left to a runner. -/
def perform (run : Runner α) : Act α → Request α Unit
  | .call c => run.request c
  | .setBattle b => modify fun s => s.setBattle b
  | .setCodex codex => modify fun s => { s with codex := codex }
  | .setChooser chooser => modify fun s => { s with chooser := chooser }
  | .setCatalog catalog => modify fun s => s.setCatalog catalog

/-- All answers to what a host does, one after another. -/
def performAll (run : Runner α) :
    List (Act α) → StateM (Session α) (List (Except (SessionError α) Unit))
  | [] => pure []
  | a :: rest => do
    let answer ← (run.perform a).run
    let answers ← run.performAll rest
    pure (answer :: answers)

end Runner

namespace Session

/-- Two sessions that differ in their memos only. -/
def Copies (u v : Session α) : Prop :=
  ∃ (s : Setting α) (d : Nat), (caching s.catalog).Twins d u v

theorem Copies.refl {s : Session α} (h : s.live.memo.Faithful s.catalog) : Copies s s :=
  ⟨s.toSetting, s.live.depth, rfl, rfl, rfl, .caching_refl h⟩

theorem Copies.eq {u v : Session α} (h : Copies u v) :
    v = { u with live := { u.live with memo := v.live.memo } } := by
  obtain ⟨s, d, hleft, hright, hstarted, hlive⟩ := h
  have heq := Alike.eq_of_inMemos hlive
  obtain ⟨setting, started, live⟩ := v
  obtain rfl : setting = u.toSetting := hright.trans hleft.symm
  obtain rfl : started = u.started := hstarted
  exact congrArg (Session.mk _ _) heq

theorem Copies.memo {u v : Session α} (h : Copies u v) :
    u.live.memo.Faithful u.catalog ∧ v.live.memo.Faithful u.catalog ∧
      v.live.memo.lookups = u.live.memo.lookups := by
  obtain ⟨s, d, rfl, -, -, hlive⟩ := h
  obtain ⟨⟨hu, hv⟩, hlookups⟩ := hlive.memo
  exact ⟨hu, hv, hlookups⟩

/-- Copies stay copies whatever is done to both, and answer alike. -/
theorem copies_perform {run run' : Runner α}
    (hr : ∀ s : Setting α, (caching s.catalog).SameRunners run run') (a : Act α)
    {u v : Session α} (h : Copies u v) :
    Agrees Copies (run.perform a).run (run'.perform a).run u v := by
  obtain ⟨s, d, h⟩ := h
  cases a with
  | call c =>
    have hcall := Runner.agree_request (hr s) c h
    exact ⟨hcall.result, s, d, hcall.ends⟩
  | setBattle b =>
    have hlive := h.live.mapBattle fun _ => b
    exact ⟨rfl, s, d, { h with live := hlive }⟩
  | setCodex codex =>
    refine ⟨rfl, { s with codex := codex }, d, ?_, ?_, h.started, h.live⟩
    · exact congrArg (fun s : Setting α => { s with codex := codex }) h.left
    · exact congrArg (fun s : Setting α => { s with codex := codex }) h.right
  | setChooser chooser =>
    refine ⟨rfl, { s with chooser := chooser }, d, ?_, ?_, h.started, h.live⟩
    · exact congrArg (fun s : Setting α => { s with chooser := chooser }) h.left
    · exact congrArg (fun s : Setting α => { s with chooser := chooser }) h.right
  | setCatalog catalog =>
    refine ⟨rfl, { s with catalog := catalog }, d, ?_, ?_, h.started, ?_⟩
    · exact congrArg (fun s : Setting α => { s with catalog := catalog }) h.left
    · exact congrArg (fun s : Setting α => { s with catalog := catalog }) h.right
    · have hforgotten : (caching catalog).memo u.live.memo.clear v.live.memo.clear :=
        ⟨⟨Memo.faithful_clear _ catalog, Memo.faithful_clear _ catalog⟩, h.live.memo.2⟩
      exact ⟨h.live.battle, h.live.left, h.live.right, h.live.overflowing, h.live.abilitiesMade,
        h.live.questions, hforgotten, h.live.journal⟩

theorem copies_performAll {run run' : Runner α}
    (hr : ∀ s : Setting α, (caching s.catalog).SameRunners run run') (acts : List (Act α))
    {u v : Session α} (h : Copies u v) :
    Agrees Copies (run.performAll acts) (run'.performAll acts) u v := by
  induction acts generalizing u v with
  | nil => exact Agrees.pure _ h
  | cons a rest ih =>
    refine Agrees.bind (copies_perform hr a h) fun answer u v h => ?_
    exact Agrees.bind (ih h) fun _ u v h => Agrees.pure _ h

/-- What a host does keeps the balance of lookups and texts. -/
theorem asked_perform (a : Act α) (s : Session α) :
    Asked s.live ((Runner.perform Setting.runWithin a).run.run s).2.live := by
  cases a with
  | call c =>
    have hgoes := tries_request (s.toSetting.hosts_asked true) c s
    rw [Runner.perform, Runner.request_runWithin]
    exact hgoes.live rfl
  | setBattle b => rfl
  | setCodex codex => rfl
  | setChooser chooser => rfl
  | setCatalog catalog => rfl

theorem asked_performAll (acts : List (Act α)) (s : Session α) :
    Asked s.live ((Runner.performAll Setting.runWithin acts).run s).2.live := by
  induction acts generalizing s with
  | nil => rfl
  | cons a rest ih => exact trans_of Asked (asked_perform a s) (ih _)

/-- **What a memo knows is never noticed.** Whatever a host does with a
new session, also with other attributes in between, the memo keeps every
text as it reads with the attributes that hold now. Clearing it at any
moments, or always, changes no answer, no event and nothing else of the
session; and the hits and misses add up to the number of texts that
were looked up. -/
theorem memo_unnoticed (b : Battle α) (codex : Codex α) (rules : Rules) (chooser : Chooser α)
    (due : Live α → Bool) (acts : List (Act α)) :
    let new := Session.new b codex rules chooser
    let kept := (Runner.performAll Setting.runWithin acts).run new
    let forgot := ((Runner.forgetting due).performAll acts).run new
    kept.2.live.memo.Faithful kept.2.catalog ∧
      forgot.2.live.memo.Faithful kept.2.catalog ∧
      forgot.1 = kept.1 ∧
      forgot.2 = { kept.2 with live := { kept.2.live with memo := forgot.2.live.memo } } ∧
      kept.2.live.memo.hits + kept.2.live.memo.misses = kept.2.live.entered.length ∧
      forgot.2.live.memo.hits + forgot.2.live.memo.misses = kept.2.live.entered.length := by
  intro new kept forgot
  have hnew : Copies new new := .refl (Memo.faithful_empty _)
  have hagrees : Agrees Copies _ _ new new :=
    copies_performAll (fun s => sameRunners_forgetting due) acts hnew
  have hcopies : Copies kept.2 forgot.2 := hagrees.ends
  obtain ⟨hkept, hforgot, hlookups⟩ := hcopies.memo
  have hasked : kept.2.live.memo.lookups = kept.2.live.entered.length := by
    have hbalance : kept.2.live.memo.lookups + 0 = 0 + kept.2.live.entered.length :=
      asked_performAll acts new
    omega
  refine ⟨hkept, hforgot, hagrees.result, hcopies.eq, hasked, ?_⟩
  exact hlookups.trans hasked

end Session
end DeckDuel
