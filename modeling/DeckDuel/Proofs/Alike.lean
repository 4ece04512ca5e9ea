/-
DeckDuel.Proofs.Alike — running battles that no unit can tell apart.

* `Tolerance` — in what two runs may differ: which memos go together,
  what of a note is looked at, and which journals go together.
* `Tolerance.Alike` — two running battles, both with `d` texts running,
  that differ in nothing else. Every stored change keeps them alike.
* `Tolerance.Meets` — two contexts that units read the same from. The
  contexts of everything set off in them are equal.
-/
import DeckDuel.Session

namespace DeckDuel

/-- An entry with what is looked at in its note. -/
def Entry.lookedAt {α : Type} (look : Note α → Note α) (e : Entry α) : Entry α :=
  { e with note := look e.note }

/-- Notes that look the same may differ. -/
theorem Entry.lookedAt_write {α : Type} {look : Note α → Note α} {j k : List (Entry α)}
    {n n' : Note α} (depth : Nat) (battle : Battle α) (hn : look n' = look n)
    (h : k.map (Entry.lookedAt look) = j.map (Entry.lookedAt look)) :
    (⟨n', depth, battle⟩ :: k : List (Entry α)).map (Entry.lookedAt look) =
      (⟨n, depth, battle⟩ :: j : List (Entry α)).map (Entry.lookedAt look) := by
  simp only [List.map_cons, Entry.lookedAt, hn, h]

variable {α : Type} [Scalar α] {catalog : Catalog}

/-- In what two runs may differ. Memos that go together answer alike, so
what a text reads as does not depend on the memo that was asked. -/
structure Tolerance (α : Type) [Scalar α] (catalog : Catalog) where
  memo : Memo α → Memo α → Prop
  /-- What is looked at in a note. -/
  look : Note α → Note α
  /-- Journals that go together: all of their notes are looked at, where
  nothing else is said. -/
  tells : List (Entry α) → List (Entry α) → Prop :=
    fun j k => k.map (Entry.lookedAt look) = j.map (Entry.lookedAt look)
  parse {a b : Memo α} (h : memo a b) (text : String) :
    (b.parse catalog text).1 = (a.parse catalog text).1 ∧
      memo (a.parse catalog text).2 (b.parse catalog text).2
  write {j k : List (Entry α)} {n n' : Note α} (depth : Nat) (battle : Battle α)
    (hn : look n' = look n) (h : tells j k) :
    tells (⟨n, depth, battle⟩ :: j) (⟨n', depth, battle⟩ :: k) := by
      exact fun depth battle hn h => Entry.lookedAt_write depth battle hn h

namespace Tolerance

/-- An entry with what is looked at in its note. -/
def seen (t : Tolerance α catalog) (e : Entry α) : Entry α := e.lookedAt t.look

/-- Two running battles, both with `d` texts running, that differ in
memo and journal only, and there as far as they may. -/
structure Alike (t : Tolerance α catalog) (d : Nat) (l m : Live α) : Prop where
  battle : m.battle = l.battle
  left : l.depth = d
  right : m.depth = d
  overflowing : m.overflowing = l.overflowing
  abilitiesMade : m.abilitiesMade = l.abilitiesMade
  questions : m.questions = l.questions
  memo : t.memo l.memo m.memo
  journal : t.tells l.journal m.journal

/-- Two contexts that units read the same from, and whose origin is told
alike when a unit is left out. -/
structure Meets (t : Tolerance α catalog) (c c' : Context α) : Prop where
  target : c'.target = c.target
  card : c'.card = c.card
  energyBefore : c'.energyBefore = c.energyBefore
  skipped (raw reason : String) :
    t.look (.event (.skipped raw reason c'.origin)) = t.look (.event (.skipped raw reason c.origin))

/-- Memos that go together answer alike, and stay together. -/
def AnswerAlike (catalog : Catalog) (memo : Memo α → Memo α → Prop) : Prop :=
  ∀ a b, memo a b → ∀ text, (b.parse catalog text).1 = (a.parse catalog text).1 ∧
    memo (a.parse catalog text).2 (b.parse catalog text).2

/-- Runs may differ in their memos alone. -/
def inMemos (memo : Memo α → Memo α → Prop) (parse : AnswerAlike catalog memo) :
    Tolerance α catalog where
  memo := memo
  look := id
  parse h := parse _ _ h

theorem Alike.eq_of_inMemos {memo : Memo α → Memo α → Prop} {parse : AnswerAlike catalog memo}
    {d : Nat} {l m : Live α} (h : (inMemos memo parse).Alike d l m) :
    m = { l with memo := m.memo } := by
  have hlook : Entry.lookedAt (id : Note α → Note α) = id := rfl
  have hjournal : m.journal = l.journal := by
    have hseen : m.journal.map (Entry.lookedAt id) = l.journal.map (Entry.lookedAt id) := h.journal
    simpa only [hlook, List.map_id] using hseen
  obtain ⟨battle, depth, overflowing, made, questions, memo, journal⟩ := m
  obtain ⟨rfl, hleft, rfl, rfl, rfl, rfl, -⟩ := h
  rw [hleft, ← hjournal]

variable {t : Tolerance α catalog}

namespace Meets

theorem refl (c : Context α) : t.Meets c c := ⟨rfl, rfl, rfl, fun _ _ => rfl⟩

/-- A moment forgets where it comes from, but for the card in play. -/
theorem onTrigger {c c' : Context α} (h : t.Meets c c') (trigger : String) :
    c'.onTrigger trigger = c.onTrigger trigger := by
  unfold Context.onTrigger Context.child
  rw [h.card, h.energyBefore]

end Meets

namespace Alike

variable {d : Nat} {l m : Live α}

/-! ## What both show -/

theorem fighter (h : t.Alike d l m) (side : Side) : m.fighter side = l.fighter side := by
  unfold Live.fighter
  rw [h.battle]

theorem scope (h : t.Alike d l m) (s : Setting α) (me target : Side) {c c' : Context α}
    (hc : t.Meets c c') : m.scope s me target c' = l.scope s me target c := by
  unfold Live.scope
  rw [h.battle, hc.energyBefore]

/-! ## Notes -/

/-- Notes that look the same may differ. -/
theorem write (h : t.Alike d l m) {n n' : Note α} (hn : t.look n' = t.look n) :
    t.Alike d (l.write n) (m.write n') where
  battle := h.battle
  left := h.left
  right := h.right
  overflowing := h.overflowing
  abilitiesMade := h.abilitiesMade
  questions := h.questions
  memo := h.memo
  journal := by
    simp only [Live.write]
    rw [h.battle, h.left, h.right]
    exact t.write d l.battle hn h.journal

theorem emit (h : t.Alike d l m) (e : Event α) : t.Alike d (l.emit e) (m.emit e) := h.write rfl

theorem reportChange (h : t.Alike d l m) (side : Side) (attr : String) (before after : α) :
    t.Alike d (l.reportChange side attr before after) (m.reportChange side attr before after) := by
  unfold Live.reportChange
  split
  · exact h
  · exact h.emit _

theorem reportMoved (h : t.Alike d l m) (uids : List Nat) (goal : Pile) :
    t.Alike d (l.reportMoved uids goal) (m.reportMoved uids goal) := by
  unfold Live.reportMoved
  split
  · exact h
  · exact h.emit _

theorem reportDrawn (h : t.Alike d l m) (drawn : Drawn) :
    t.Alike d (l.reportDrawn drawn) (m.reportDrawn drawn) :=
  (h.reportMoved _ _).reportMoved _ _

/-! ## Stats -/

theorem mapBattle (h : t.Alike d l m) (f : Battle α → Battle α) :
    t.Alike d (l.mapBattle f) (m.mapBattle f) :=
  { h with battle := congrArg f h.battle }

theorem mapFighter (h : t.Alike d l m) (side : Side) (f : Fighter α → Fighter α) :
    t.Alike d (l.mapFighter side f) (m.mapFighter side f) :=
  h.mapBattle _

theorem markFallen (h : t.Alike d l m) (side : Side) :
    t.Alike d (l.markFallen side) (m.markFallen side) := by
  unfold Live.markFallen
  rw [h.fighter]
  split
  · exact h.mapBattle _
  · exact h

theorem commitHp (h : t.Alike d l m) (side : Side) (next : α) :
    t.Alike d (l.commitHp side next) (m.commitHp side next) := by
  unfold Live.commitHp
  dsimp only
  rw [h.fighter, (h.mapFighter side _).fighter]
  split
  · exact ((h.mapFighter _ _).reportChange _ _ _ _).markFallen _
  · exact h

theorem commitLust (h : t.Alike d l m) (side : Side) (next : α) :
    t.Alike d (l.commitLust side next) (m.commitLust side next) := by
  unfold Live.commitLust
  dsimp only
  rw [h.fighter, (h.mapFighter side _).fighter]
  exact (h.mapFighter _ _).reportChange _ _ _ _

theorem commitBlock (h : t.Alike d l m) (side : Side) (next : α) :
    t.Alike d (l.commitBlock side next) (m.commitBlock side next) := by
  unfold Live.commitBlock
  dsimp only
  rw [h.fighter, (h.mapFighter side _).fighter]
  exact (h.mapFighter _ _).reportChange _ _ _ _

theorem commitEnergy (h : t.Alike d l m) (next : α) :
    t.Alike d (l.commitEnergy next) (m.commitEnergy next) := by
  unfold Live.commitEnergy
  dsimp only
  rw [h.battle, (h.mapBattle _).battle]
  exact (h.mapBattle _).reportChange _ _ _ _

theorem settle (h : t.Alike d l m) (side : Side) : t.Alike d (l.settle side) (m.settle side) := by
  have hs := h.mapFighter side Fighter.settle
  have hhp := hs.reportChange side "hp" (l.fighter side).hp
    ((l.mapFighter side Fighter.settle).fighter side).hp
  unfold Live.settle
  dsimp only
  rw [h.fighter, hs.fighter, hhp.fighter]
  exact hhp.reportChange _ _ _ _

theorem commitMaxHp (h : t.Alike d l m) (side : Side) (next : α) :
    t.Alike d (l.commitMaxHp side next) (m.commitMaxHp side next) := by
  unfold Live.commitMaxHp
  dsimp only
  rw [h.fighter, (h.mapFighter side _).fighter]
  exact ((h.mapFighter _ _).reportChange _ _ _ _).settle _

theorem commitMaxLust (h : t.Alike d l m) (side : Side) (next : α) :
    t.Alike d (l.commitMaxLust side next) (m.commitMaxLust side next) := by
  unfold Live.commitMaxLust
  dsimp only
  rw [h.fighter, (h.mapFighter side _).fighter]
  exact ((h.mapFighter _ _).reportChange _ _ _ _).settle _

theorem commitMaxEnergy (h : t.Alike d l m) (next : α) :
    t.Alike d (l.commitMaxEnergy next) (m.commitMaxEnergy next) := by
  unfold Live.commitMaxEnergy
  dsimp only
  rw [h.battle, (h.mapBattle _).battle]
  exact (h.mapBattle _).reportChange _ _ _ _

theorem clearLust (h : t.Alike d l m) (side : Side) :
    t.Alike d (l.clearLust side) (m.clearLust side) := by
  unfold Live.clearLust
  rw [h.fighter]
  exact (h.mapFighter _ _).reportChange _ _ _ _

theorem markOverflow (h : t.Alike d l m) (side : Side) (begun : Bool) :
    t.Alike d (l.markOverflow side begun) (m.markOverflow side begun) :=
  { h with overflowing := congrArg (fun o => o.set side begun) h.overflowing }

/-- A hit comes to the same in both. -/
theorem strike (h : t.Alike d l m) (target : Side) (amount : α) :
    (m.strike target amount).1 = (l.strike target amount).1 ∧
      t.Alike d (l.strike target amount).2 (m.strike target amount).2 := by
  have hblock := h.commitBlock target
    ((l.fighter target).block - Scalar.least (l.fighter target).block amount)
  have hhp := hblock.commitHp target ((l.fighter target).hp -
    (amount - Scalar.least (l.fighter target).block amount))
  unfold Live.strike
  dsimp only
  rw [h.fighter, hhp.fighter]
  exact ⟨rfl, hhp.emit _⟩

/-! ## Statuses and abilities -/

theorem gainStatus (h : t.Alike d l m) (holder : Side) (sd : StatusDefinition α)
    (stackCount : Nat) :
    t.Alike d (l.gainStatus holder sd stackCount) (m.gainStatus holder sd stackCount) :=
  (h.mapFighter _ _).emit _

theorem loseStatus (h : t.Alike d l m) (holder : Side) (id : String)
    (sd : Option (StatusDefinition α)) :
    t.Alike d (l.loseStatus holder id sd) (m.loseStatus holder id sd) := by
  unfold Live.loseStatus
  rw [h.fighter]
  split
  · exact (h.mapFighter _ _).emit _
  · exact h

theorem commitStacks (h : t.Alike d l m) (holder : Side) (id : String) (stackCount : Nat) :
    t.Alike d (l.commitStacks holder id stackCount) (m.commitStacks holder id stackCount) := by
  unfold Live.commitStacks
  dsimp only
  rw [h.fighter]
  split
  · exact h
  · exact (h.mapFighter _ _).emit _

theorem addAbility? (h : t.Alike d l m) (side : Side) (effect : String) :
    (m.addAbility? side effect).1 = (l.addAbility? side effect).1 ∧
      t.Alike d (l.addAbility? side effect).2 (m.addAbility? side effect).2 := by
  have hmade : t.Alike d { l with abilitiesMade := l.abilitiesMade + 1 }
      { m with abilitiesMade := m.abilitiesMade + 1 } :=
    { h with abilitiesMade := congrArg (· + 1) h.abilitiesMade }
  unfold Live.addAbility?
  dsimp only
  rw [h.abilitiesMade] at hmade ⊢
  split
  · exact ⟨rfl, hmade⟩
  · exact ⟨rfl, (hmade.mapFighter _ _).emit _⟩

theorem removeAbilities (h : t.Alike d l m) (side : Side) (key : String) :
    t.Alike d (l.removeAbilities side key).2 (m.removeAbilities side key).2 := by
  unfold Live.removeAbilities
  rw [h.fighter]
  exact h.mapFighter _ _

/-! ## Texts -/

/-- The marks of fallen sides start anew in both, or in neither. -/
theorem enter (h : t.Alike d l m) (text : String) (me : Side) :
    t.Alike (d + 1) (l.enter text me) (m.enter text me) := by
  have hdeeper {l m : Live α} (h : t.Alike d l m) :
      t.Alike (d + 1) { l with depth := l.depth + 1 } { m with depth := m.depth + 1 } :=
    { h with left := congrArg (· + 1) h.left, right := congrArg (· + 1) h.right }
  unfold Live.enter
  rw [h.left, h.right]
  split
  · exact (hdeeper (h.mapBattle _)).write rfl
  · exact (hdeeper h).write rfl

theorem decideFallen (h : t.Alike d l m) : t.Alike d l.decideFallen m.decideFallen := by
  unfold Live.decideFallen
  rw [h.battle]
  split
  · exact h.mapBattle _
  · split
    · exact h
    · exact (h.mapBattle _).emit _

theorem leave (h : t.Alike (d + 1) l m) : t.Alike d l.leave m.leave := by
  have hup : t.Alike d { l with depth := d } { m with depth := d } :=
    { h with left := rfl, right := rfl }
  unfold Live.leave
  simp only [h.left, h.right, Nat.add_sub_cancel]
  split
  · exact hup.decideFallen
  · exact hup

end Alike
end Tolerance
end DeckDuel
