/-
DeckDuel.Proofs.Step — everything that can happen to a running battle.

* `Piles.Step` — one move of cards, or one new cost.
* `Live.OuterStep` — the changes that come between texts as well as
  inside them. None of them touches hit points, lust or a maximum.
* `Live.InnerStep` — the changes that only units make, and units run
  only inside a text.
* `Live.Step`, `Live.Steps` — both, and entering and leaving a text.
* `Live.Trace` — the same as a tree: a text is one node, with what
  happened inside it below. It tells how many levels of texts there
  were, and a lust overflow is one node too.

A run of the engine is a `Trace`, which is proved function by function
in `DeckDuel.Proofs.Engine`; whatever holds along `Steps` therefore
holds along every run.
-/
import DeckDuel.Session
import Mathlib.Logic.Relation

namespace DeckDuel

variable {α : Type}

/-! ## Cards -/

/-- One change of the piles, with a limit for the hand. -/
inductive Piles.Step (limit : Nat) : Piles α → Piles α → Prop where
  | move (ps : Piles α) (uid : Nat) (goal : Pile)
      (room : goal = .hand → ps.hand.length < limit) : Step limit ps (ps.move uid goal)
  | draw (ps : Piles α) (s : Random.Stream) : Step limit ps (ps.drawOne limit s).2.1
  | reprice (ps : Piles α) (uid : Nat) (c : Card α) (cost : α) (found : ps.card? uid = some c) :
      Step limit ps (ps.replace uid { c with cost := cost })
  | discardHand (ps : Piles α) : Step limit ps ps.discardHand

/-- Any number of changes of the piles. -/
abbrev Piles.Steps (limit : Nat) : Piles α → Piles α → Prop :=
  Relation.ReflTransGen (Piles.Step limit)

variable [Scalar α]

namespace Live

/-! ## Single steps -/

/-- A change that may come between texts. -/
inductive OuterStep (s : Setting α) : Live α → Live α → Prop where
  /-- Anything may be noted but the end of the battle. -/
  | note (l : Live α) (n : Note α) (ongoing : ∀ w, n ≠ .event (.gameOver w)) :
      OuterStep s l (l.write n)
  | memo (l : Live α) (m : Memo α) : OuterStep s l { l with memo := m }
  | chance (l : Live α) (stream : Random.Stream) (questions : Nat) :
      OuterStep s l { l.mapBattle (fun b => { b with stream := stream }) with
        questions := questions }
  | cards (l : Live α) (ps : Piles α) (stream : Random.Stream)
      (moved : Piles.Steps s.rules.handLimit l.battle.piles ps) :
      OuterStep s l (l.mapBattle fun b => { b.setPiles ps with stream := stream })
  | addAbility (l : Live α) (side : Side) (effect : String) :
      OuterStep s l (l.addAbility? side effect).2
  | removeAbilities (l : Live α) (side : Side) (key : String) :
      OuterStep s l (l.removeAbilities side key).2
  | gainStatus (l : Live α) (holder : Side) (d : StatusDefinition α) (stackCount : Nat)
      (defined : s.codex.get? d.id = some d) (positive : 0 < stackCount)
      (capped : stackCount ≤ d.stackCap s.rules.defaultMaxStacks)
      (free : (l.fighter holder).stacksOf d.id = 0) :
      OuterStep s l (l.gainStatus holder d stackCount)
  | loseStatus (l : Live α) (holder : Side) (id : String) :
      OuterStep s l (l.loseStatus holder id (s.codex.get? id))
  | commitStacks (l : Live α) (holder : Side) (id : String) (stackCount : Nat)
      (held : ((l.fighter holder).statusIndex? id).isSome) (positive : 0 < stackCount) :
      OuterStep s l (l.commitStacks holder id (min stackCount (s.stackCap id)))
  | nextTurn (l : Live α) :
      OuterStep s l (l.mapBattle fun b => b.nextTurn s.rules.resetsBlock)
  | nextAction (l : Live α) :
      OuterStep s l (l.mapBattle fun b => (b.nextAction s.rules.actionOrder).2)
  | dropBlock (l : Live α) (side : Side) :
      OuterStep s l (l.mapFighter side fun f => { f with block := 0 })
  | pay (l : Live α) (cost : α) (afforded : ¬ l.battle.player.energy < cost) :
      OuterStep s l (l.mapBattle fun b => b.setEnergy (b.player.energy - cost))

/-- A change that only units make. -/
inductive InnerStep : Live α → Live α → Prop where
  | hp (l : Live α) (side : Side) (next : α) : InnerStep l (l.commitHp side next)
  | lust (l : Live α) (side : Side) (next : α) : InnerStep l (l.commitLust side next)
  | block (l : Live α) (side : Side) (next : α) : InnerStep l (l.commitBlock side next)
  | energy (l : Live α) (next : α) : InnerStep l (l.commitEnergy next)
  | maxHp (l : Live α) (side : Side) (next : α) : InnerStep l (l.commitMaxHp side next)
  | maxLust (l : Live α) (side : Side) (next : α) : InnerStep l (l.commitMaxLust side next)
  | maxEnergy (l : Live α) (next : α) : InnerStep l (l.commitMaxEnergy next)
  | clearLust (l : Live α) (side : Side) : InnerStep l (l.clearLust side)
  | storeModifier (l : Live α) (side : Side) (name : String) (x : α) :
      InnerStep l (l.mapFighter side fun f => f.storeModifier name x)

/-- One step of a running battle. -/
inductive Step (s : Setting α) : Live α → Live α → Prop where
  | outer {l m : Live α} (h : OuterStep s l m) : Step s l m
  | inner {l m : Live α} (running : 0 < l.depth) (h : InnerStep l m) : Step s l m
  | overflow (l : Live α) (side : Side) (begun : Bool) (running : 0 < l.depth) :
      Step s l (l.markOverflow side begun)
  | enter (l : Live α) (text : String) (me : Side) : Step s l (l.enter text me)
  | leave (l : Live α) (running : 0 < l.depth) : Step s l l.leave

/-- Any number of steps. -/
abbrev Steps (s : Setting α) : Live α → Live α → Prop := Relation.ReflTransGen (Step s)

/-! ## Traces -/

/-- A stretch of a run: `levels` bounds how deep texts run inside each
other in it, and `inside` tells that it is part of a text. -/
inductive Trace (s : Setting α) : (levels : Nat) → (inside : Bool) → Live α → Live α → Prop where
  | refl {n : Nat} {i : Bool} (l : Live α) : Trace s n i l l
  | trans {n : Nat} {i : Bool} {l m k : Live α} (first : Trace s n i l m)
      (rest : Trace s n i m k) : Trace s n i l k
  | outer {n : Nat} {i : Bool} {l m : Live α} (h : OuterStep s l m) : Trace s n i l m
  | inner {n : Nat} {l m : Live α} (h : InnerStep l m) : Trace s n true l m
  | overflow {n : Nat} {l m : Live α} (side : Side) (idle : l.overflowing.get side = false)
      (body : Trace s n true (l.markOverflow side true) m) :
      Trace s n true l (m.markOverflow side false)
  | text {n : Nat} {i : Bool} {l m : Live α} (effect : String) (me : Side)
      (body : Trace s n true (l.enter effect me) m) : Trace s (n + 1) i l m.leave

instance (s : Setting α) (n : Nat) (i : Bool) : IsPreorder (Live α) (Trace s n i) where
  refl := .refl
  trans _ _ _ := .trans

/-- A stretch with few levels is one with more. -/
theorem Trace.mono {s : Setting α} {n k : Nat} {i : Bool} {l m : Live α} (h : Trace s n i l m)
    (hle : n ≤ k) : Trace s k i l m := by
  induction h generalizing k with
  | refl l => exact .refl l
  | trans _ _ ih₁ ih₂ => exact .trans (ih₁ hle) (ih₂ hle)
  | outer h => exact .outer h
  | inner h => exact .inner h
  | overflow side idle _ ih => exact .overflow side idle (ih hle)
  | text effect me _ ih =>
    obtain ⟨k, rfl⟩ : ∃ j, k = j + 1 := ⟨k - 1, by omega⟩
    exact .text effect me (ih (by omega))

end Live
end DeckDuel
