/-
DeckDuel.Proofs.Reentrance — texts that run inside texts.

* `Setting.bounded` — one call of a text: refused at the nesting limit,
  and entered, run and left otherwise, whatever way the texts set off by
  it are run.
* `Setting.sameRuns_execute` — texts run the same in alike battles.
* `Setting.bounded_eq_self_iff` — `execute` calls itself for the texts
  that are set off, and nothing else does so: calls that set off calls
  come to an end, and this is what they come to.
* `Live.Trace.overflowing_eq`, `Live.Trace.writes_depth` — a stretch of
  a run settles the overflows that began in it, and writes nothing
  deeper than its levels reach.
* `Setting.execute_reentrance` — all of this of a call, from whatever
  battle it comes.
-/
import DeckDuel.Proofs.Change
import DeckDuel.Proofs.Engine
import DeckDuel.Proofs.Lockstep

namespace DeckDuel

variable {α : Type} [Scalar α]

/-! ## One call -/

namespace Tolerance

/-- No difference at all. -/
def none (catalog : Catalog) : Tolerance α catalog :=
  .inMemos Eq fun _ _ h _ => h ▸ ⟨rfl, rfl⟩

variable {catalog : Catalog} {d : Nat} {l m : Live α}

theorem Alike.none_refl (l : Live α) : (none catalog).Alike l.depth l l :=
  ⟨rfl, rfl, rfl, rfl, rfl, rfl, rfl, rfl⟩

theorem Alike.eq_of_none (h : (none catalog).Alike d l m) : m = l := by
  have hmemo : l.memo = m.memo := h.memo
  have heq : m = { l with memo := m.memo } := Alike.eq_of_inMemos h
  rw [heq, ← hmemo]

/-- Ways to run texts that cannot be told apart from any battle are
the same. -/
theorem SameRuns.eq {run run' : String → Side → Context α → Attempt α Unit}
    (h : ∀ d, (none catalog).SameRuns d run run') : run' = run := by
  funext text me c
  funext l
  have hl := h l.depth text me (.refl c) (.none_refl l)
  exact Prod.ext hl.result hl.ends.eq_of_none

end Tolerance

namespace Setting

open Tolerance

/-- One call of a text: refused at the nesting limit, and entered, run
and left otherwise, with `run` for the texts that it sets off. -/
def bounded (s : Setting α) (run : String → Side → Context α → Attempt α Unit) (text : String)
    (me : Side) (ctx : Context α) : Attempt α Unit := do
  let l ← get
  if s.rules.maxNesting ≤ l.depth then throw (.nestingLimit s.rules.maxNesting)
  else s.within run text me ctx

variable {s : Setting α} {t : Tolerance α s.catalog} {d : Nat}

/-- A text has the levels that are left at its depth. -/
theorem run_execute (text : String) (me : Side) (ctx : Context α) (l : Live α) :
    (s.execute text me ctx).run.run l =
      (s.runWithin (s.rules.maxNesting - l.depth) text me ctx).run.run l := rfl

theorem run_bounded {run : String → Side → Context α → Attempt α Unit} (text : String) (me : Side)
    (ctx : Context α) (l : Live α) : (s.bounded run text me ctx).run.run l =
      (if s.rules.maxNesting ≤ l.depth then throw (.nestingLimit s.rules.maxNesting)
        else s.within run text me ctx).run.run l := rfl

theorem sameRuns_runWithin_execute :
    t.SameRuns d (s.runWithin (s.rules.maxNesting - d)) s.execute := by
  intro text me c c' l m hc h
  have hwithin := sameRuns_runWithin (s.rules.maxNesting - d) text me hc h
  have hrun := run_execute (s := s) text me c' m
  rw [h.right] at hrun
  exact ⟨hrun ▸ hwithin.result, hrun ▸ hwithin.ends⟩

theorem sameRuns_execute : t.SameRuns d s.execute s.execute := by
  intro text me c c' l m hc h
  have hexecute := sameRuns_runWithin_execute text me hc h
  have hrun := run_execute (s := s) text me c l
  rw [h.left] at hrun
  exact ⟨hrun ▸ hexecute.result, hrun ▸ hexecute.ends⟩

/-- A refused call sets off nothing, so only what runs below the limit
matters. -/
theorem sameRuns_bounded {run run' : String → Side → Context α → Attempt α Unit}
    (hr : d < s.rules.maxNesting → t.SameRuns (d + 1) run run') :
    t.SameRuns d (s.bounded run) (s.bounded run') := by
  intro text me c c' l m hc h
  refine TriesAgree.get_bind ?_
  rw [h.left, h.right]
  split
  · exact TriesAgree.throw _ h
  · next hbelow => exact sameRuns_within (hr (by omega)) text me hc h

theorem bounded_execute (s : Setting α) : s.bounded s.execute = s.execute := by
  funext text me c
  funext l
  refine (run_bounded text me c l).trans (Eq.trans ?_ (run_execute text me c l).symm)
  by_cases hlimit : s.rules.maxNesting ≤ l.depth
  · have hnone : s.rules.maxNesting - l.depth = 0 := by omega
    rw [if_pos hlimit, hnone]
    rfl
  · have hsucc : s.rules.maxNesting - l.depth = s.rules.maxNesting - (l.depth + 1) + 1 := by omega
    rw [if_neg hlimit, hsucc, runWithin_succ]
    have hsame : (none s.catalog).SameRuns (l.depth + 1)
        (s.runWithin (s.rules.maxNesting - (l.depth + 1))) s.execute :=
      sameRuns_runWithin_execute
    have hl := sameRuns_within hsame text me (.refl c) (.none_refl l)
    exact Prod.ext hl.result hl.ends.eq_of_none

/-- Whatever calls itself runs texts as `execute` does, by induction on
the levels that are left. -/
theorem sameRuns_of_bounded_eq {run : String → Side → Context α → Attempt α Unit}
    (h : s.bounded run = run) (levels d : Nat) (hlevels : s.rules.maxNesting ≤ d + levels) :
    t.SameRuns d s.execute run := by
  induction levels generalizing d with
  | zero =>
    rw [← h, ← s.bounded_execute]
    exact sameRuns_bounded fun hd => absurd hlevels (by omega)
  | succ levels ih =>
    rw [← h, ← s.bounded_execute]
    exact sameRuns_bounded fun _ => ih (d + 1) (by omega)

/-- `execute` calls itself for the texts that are set off, and nothing
else does so. -/
theorem bounded_eq_self_iff {run : String → Side → Context α → Attempt α Unit} :
    s.bounded run = run ↔ run = s.execute := by
  constructor
  · intro h
    have hsame (d : Nat) : (none s.catalog).SameRuns d s.execute run :=
      sameRuns_of_bounded_eq h s.rules.maxNesting d (by omega)
    exact SameRuns.eq hsame
  · rintro rfl
    exact s.bounded_execute

end Setting

/-! ## Along a run -/

namespace Live

variable {s : Setting α} {i : Bool} {l m k : Live α}

/-- The journal grew by entries of a kind. -/
def Writes (P : Entry α → Prop) (l m : Live α) : Prop :=
  ∃ new, m.journal = new ++ l.journal ∧ ∀ e ∈ new, P e

section

omit [Scalar α]

variable {P Q : Entry α → Prop}

theorem Writes.of_eq (h : m.journal = l.journal) : Writes P l m := ⟨[], h, by simp⟩

theorem Writes.trans (h : Writes P l m) (h' : Writes P m k) : Writes P l k := by
  obtain ⟨new, heq, hnew⟩ := h
  obtain ⟨newer, heq', hnewer⟩ := h'
  refine ⟨newer ++ new, by rw [heq', heq, List.append_assoc], fun e he => ?_⟩
  rcases List.mem_append.mp he with he | he
  · exact hnewer e he
  · exact hnew e he

theorem Writes.mono (h : Writes P l m) (hPQ : ∀ e, P e → Q e) : Writes Q l m := by
  obtain ⟨new, heq, hnew⟩ := h
  exact ⟨new, heq, fun e he => hPQ e (hnew e he)⟩

theorem writes_write (l : Live α) (n : Note α) : Writes (fun e => e.depth = l.depth) l (l.write n) :=
  ⟨[_], rfl, by simp⟩

theorem writes_enter (l : Live α) (text : String) (me : Side) :
    Writes (fun e => e.depth = l.depth + 1) l (l.enter text me) := by
  unfold enter
  split <;> exact ⟨[_], rfl, by simp [mapBattle]⟩

@[simp] theorem enter_overflowing (l : Live α) (text : String) (me : Side) :
    (l.enter text me).overflowing = l.overflowing := by
  unfold enter
  split <;> rfl

end

theorem writes_decideFallen (l : Live α) :
    Writes (fun e => e.depth = l.depth) l l.decideFallen := by
  unfold decideFallen
  split
  · exact .of_eq rfl
  · split
    · exact .of_eq rfl
    · exact ⟨[_], rfl, by simp [mapBattle]⟩

@[simp] theorem decideFallen_overflowing (l : Live α) :
    l.decideFallen.overflowing = l.overflowing := by
  unfold decideFallen
  split
  · rfl
  · split <;> rfl

theorem writes_leave (l : Live α) : Writes (fun e => e.depth = l.depth - 1) l l.leave := by
  unfold leave
  dsimp only
  split
  · exact writes_decideFallen { l with depth := l.depth - 1 }
  · exact .of_eq rfl

@[simp] theorem leave_overflowing (l : Live α) : l.leave.overflowing = l.overflowing := by
  unfold leave
  dsimp only
  split
  · exact decideFallen_overflowing _
  · rfl

theorem Touches.overflowing_eq (h : Touches s i l m) : m.overflowing = l.overflowing := by
  induction h with
  | refl => rfl
  | tail _ h ih => cases h <;> exact ih

theorem Touches.writes_depth (h : Touches s i l m) : Writes (fun e => e.depth = l.depth) l m := by
  induction h with
  | refl => exact .of_eq rfl
  | @tail m k first h ih =>
    have hdepth : m.depth = l.depth := Touches.depth_eq first
    refine ih.trans ?_
    cases h with
    | note n => exact hdepth ▸ writes_write m n
    | battle | counters => exact .of_eq rfl

/-- An overflow that begins in a stretch of a run also ends in it. -/
theorem Trace.overflowing_eq {n : Nat} (h : Trace s n i l m) : m.overflowing = l.overflowing := by
  induction h with
  | refl l => rfl
  | trans _ _ ih₁ ih₂ => exact ih₂.trans ih₁
  | outer h => exact (h.touches (i := true)).overflowing_eq
  | inner h => exact (h.touches (s := s)).overflowing_eq
  | @overflow n l m side idle _ ih =>
    have hmarked : m.overflowing = l.overflowing.set side true := ih
    unfold markOverflow
    rw [hmarked]
    cases side <;> exact idle ▸ rfl
  | @text n i l m effect me _ ih => rw [leave_overflowing, ih, enter_overflowing]

/-- Nothing is written deeper than the levels of a stretch reach, and
nothing above its depth. -/
theorem Trace.writes_depth {n : Nat} (h : Trace s n i l m) :
    Writes (fun e => l.depth ≤ e.depth ∧ e.depth ≤ l.depth + n) l m := by
  induction h with
  | refl l => exact .of_eq rfl
  | trans first _ ih₁ ih₂ => exact ih₁.trans (first.depth_eq ▸ ih₂)
  | outer h => exact (h.touches (i := true)).writes_depth.mono fun e he => by omega
  | inner h => exact (h.touches (s := s)).writes_depth.mono fun e he => by omega
  | overflow side _ _ ih => exact ih
  | @text n i l m effect me body ih =>
    have hend : m.depth = l.depth + 1 := body.depth_eq.trans (enter_depth l effect me)
    rw [enter_depth] at ih
    have hreach {j k : Live α} {P : Entry α → Prop} (h : Writes P j k)
        (hP : ∀ e, P e → l.depth ≤ e.depth ∧ e.depth ≤ l.depth + (n + 1)) := h.mono hP
    have henter := hreach (writes_enter l effect me) fun e he => by omega
    have hbody := hreach ih fun e he => by omega
    have hleave := hreach (writes_leave m) fun e he => by omega
    exact (henter.trans hbody).trans hleave

end Live

namespace Setting

/-- **Texts run inside texts up to a bound, and leave no trace of it.**
Calls of texts come to an end, whatever they set off: `execute` is the
one way to run texts that is refused at the nesting limit and runs what
it sets off like itself. A call runs no deeper than the limit, counted
in texts inside texts and in what is written meanwhile. It ends, refused
or not, at the depth and with the overflows that it began with. -/
theorem execute_reentrance (s : Setting α) :
    (∀ run, s.bounded run = run ↔ run = s.execute) ∧
      ∀ (text : String) (me : Side) (ctx : Context α) (l : Live α),
        let m := ((s.execute text me ctx).run.run l).2
        Live.Trace s (s.rules.maxNesting - l.depth) true l m ∧
          Live.Writes (fun e => e.depth ≤ s.rules.maxNesting) l m ∧
          m.depth = l.depth ∧ m.overflowing = l.overflowing := by
  refine ⟨fun run => bounded_eq_self_iff, ?_⟩
  intro text me ctx l m
  have htrace : Live.Trace s (s.rules.maxNesting - l.depth) true l m :=
    tries_runWithin (s.rules.maxNesting - l.depth) text me ctx l
  refine ⟨htrace, ?_, htrace.depth_eq, htrace.overflowing_eq⟩
  by_cases hlimit : s.rules.maxNesting ≤ l.depth
  · have hnone : s.rules.maxNesting - l.depth = 0 := by omega
    have hrefused : m = l := by
      show ((s.execute text me ctx).run.run l).2 = l
      rw [run_execute, hnone]
      rfl
    exact .of_eq (congrArg Live.journal hrefused)
  · exact htrace.writes_depth.mono fun e he => by omega

end Setting
end DeckDuel
