/-
DeckDuel.Proofs.SkippedUnit — what a unit that is left out has done.

* `LeftOut b` — a cause that ends no text, in a battle that is still
  `b`; `Spared b` — the same with a cause that lies in the battle or in
  a value.
* One lemma for each step of a handler: all its checks are made before
  its first change, so the battle is spared (`spares_…`). So a handler
  leaves the unit out (`refuses_…`), which may have no target or an
  operation that is not supported.
* `Battle.Repriced` — a battle in which some cards cost something else
  and chance went on, and nothing more.
* `Scene.refuses_runClause` — a refused unit was left out; only a `cost`
  unit may have repriced cards, and a branch hands on the cause that its
  text was refused for.
-/
import DeckDuel.Proofs.CardConservation
import DeckDuel.Proofs.Causes
import DeckDuel.Proofs.Double

namespace DeckDuel

variable {α : Type}

/-- A cause that ends no text, in a battle that is still the same. -/
structure LeftOut (b : Battle α) (r : Refusal) (l : Live α) : Prop where
  mild : r.isFatal = false
  unchanged : l.battle = b

/-- A cause that lies in the battle or in a value, in a battle that is
still the same. -/
structure Spared (b : Battle α) (r : Refusal) (l : Live α) : Prop where
  plain : r.isPlain = true
  unchanged : l.battle = b

theorem Spared.leftOut {b : Battle α} {r : Refusal} {l : Live α} (h : Spared b r l) :
    LeftOut b r l :=
  ⟨Refusal.isFatal_of_isPlain h.plain, h.unchanged⟩

/-! ## Checks -/

section

variable {l : Live α} {β γ : Type}

/-- A check whose causes are mild leaves the unit out. -/
theorem refuses_check_bind {x : Except Refusal β} {f : β → Attempt α γ}
    (h : ∀ r, x = .error r → r.isFatal = false)
    (hf : ∀ a, Refuses (LeftOut l.battle) (f a) l) :
    Refuses (LeftOut l.battle) ((liftM x : Attempt α β) >>= f) l :=
  Refuses.ofExcept_bind (fun r hr => ⟨h r hr, rfl⟩) fun a _ => hf a

theorem refuses_throw {r : Refusal} (h : r.isFatal = false) :
    Refuses (LeftOut l.battle) (throw r : Attempt α β) l :=
  Refuses.throw ⟨h, rfl⟩

/-- A check whose causes are plain spares the battle. -/
theorem spares_check {x : Except Refusal β} (h : ∀ r, x = .error r → r.isPlain = true) :
    Refuses (Spared l.battle) (liftM x : Attempt α β) l :=
  Refuses.ofExcept fun r hr => ⟨h r hr, rfl⟩

theorem spares_check_bind {x : Except Refusal β} {f : β → Attempt α γ}
    (h : ∀ r, x = .error r → r.isPlain = true) (hf : ∀ a, Refuses (Spared l.battle) (f a) l) :
    Refuses (Spared l.battle) ((liftM x : Attempt α β) >>= f) l :=
  Refuses.ofExcept_bind (fun r hr => ⟨h r hr, rfl⟩) fun a _ => hf a

theorem Refuses.leftOut {x : Attempt α β} (h : Refuses (Spared l.battle) x l) :
    Refuses (LeftOut l.battle) x l :=
  h.mono fun _ _ => Spared.leftOut

theorem spares_throw {r : Refusal} (h : r.isPlain = true) :
    Refuses (Spared l.battle) (throw r : Attempt α β) l :=
  Refuses.throw ⟨h, rfl⟩

/-- What is read off the battle may be checked too. -/
theorem refuses_read_bind {Q : Refusal → Live α → Prop} {x : Live α → Except Refusal β}
    {f : β → Attempt α γ} (h : ∀ r, x l = .error r → r.isPlain = true)
    (hQ : ∀ r, Spared l.battle r l → Q r l) (hf : ∀ a, Refuses Q (f a) l) :
    Refuses Q ((get >>= fun l => (liftM (x l) : Attempt α β)) >>= f) l :=
  Refuses.get_bind (Refuses.ofExcept_bind (fun r hr => hQ r ⟨h r hr, rfl⟩) fun a _ => hf a)

end

theorem Clause.side_mild {c : Clause α} {me : Side} {ctx : Context α} {r : Refusal}
    (h : c.side me ctx = .error r) : r.isFatal = false := by
  unfold Clause.side at h
  split at h
  · cases h
    rfl
  · split at h
    · cases h
    · split at h <;> cases h
      rfl

theorem abilitySide_mild {c : Clause α} {me : Side} {ctx : Context α} {r : Refusal}
    (h : abilitySide c me ctx = .error r) : r.isFatal = false := by
  unfold abilitySide at h
  split at h <;> cases h
  rfl

theorem Scene.explicitSide?_mild {c : Clause α} {me : Side} {r : Refusal}
    (h : explicitSide? c me = .error r) : r.isFatal = false := by
  unfold explicitSide? at h
  split at h <;> cases h
  rfl

variable [Scalar α]

variable {l : Live α}

namespace Scene

variable {sc : Scene α}

/-! ## Stats -/

theorem refuses_value_bind {β : Type} {Q : Refusal → Live α → Prop} {c : Clause α}
    {me target : Side} {ctx : Context α} {f : α → Attempt α β}
    (hQ : ∀ r, Spared l.battle r l → Q r l) (hf : ∀ x, Refuses Q (f x) l) :
    Refuses Q (sc.value c me target ctx >>= f) l :=
  refuses_read_bind (fun _ => Clause.value_plain) hQ hf

theorem spares_computeHp (target : Side) (op : Arith) (x : α) (ctx : Context α) :
    Refuses (Spared l.battle) (sc.computeHp target op x ctx) l := by
  refine Refuses.get_bind (spares_check_bind (fun _ => Arith.result_plain) fun next => ?_)
  refine Refuses.modify_bind (Refuses.get_bind ?_)
  dsimp only
  split
  · exact Refuses.lift_bind (Refuses.lift _)
  · split
    · exact Refuses.lift_bind (Refuses.lift _)
    · exact Refuses.pure _

theorem spares_changeHp (me target : Side) (op : Arith) (x : α) (ctx : Context α) :
    Refuses (Spared l.battle) (sc.changeHp me target op x ctx) l := by
  unfold changeHp
  split
  · refine Refuses.lift_bind (Refuses.lift_bind ?_)
    exact spares_check_bind (fun _ => ordinary_plain) fun amount => Refuses.lift _
  · split
    · exact Refuses.lift _
    · exact spares_computeHp _ _ _ _

theorem spares_nextLust (me target : Side) (op : Arith) (x : α) :
    Refuses (Spared l.battle) (sc.nextLust me target op x) l := by
  refine Refuses.get_bind ?_
  dsimp only
  split
  · exact Refuses.lift_bind (Refuses.lift_bind (spares_check fun _ => ordinary_plain))
  · refine spares_check_bind (fun _ => Arith.result_plain) fun y => ?_
    exact spares_check fun _ => ordinary_plain

theorem spares_changeLust (me target : Side) (op : Arith) (x : α) (ctx : Context α) :
    Refuses (Spared l.battle) (sc.changeLust me target op x ctx) l := by
  refine Refuses.get_bind (Refuses.bind (spares_nextLust me target op x) fun next m _ => ?_)
  refine Refuses.modify_bind (Refuses.get_bind ?_)
  dsimp only
  have hrest (f : Fighter α) (m : Live α) : Refuses (Spared l.battle) (do
      if isFull f && isFull ((← get).fighter target) then sc.overflowLust target ctx :
      Attempt α Unit) m := by
    refine Refuses.get_bind ?_
    split
    · exact Refuses.lift _
    · exact Refuses.pure _
  split
  · exact Refuses.lift_bind (hrest _ _)
  · exact hrest _ _

theorem spares_nextBlock (target : Side) (op : Arith) (x : α) :
    Refuses (Spared l.battle) (sc.nextBlock target op x) l := by
  refine Refuses.get_bind ?_
  dsimp only
  split
  · exact Refuses.lift_bind (spares_check fun _ => ordinary_plain)
  · refine spares_check_bind (fun _ => Arith.result_plain) fun y => ?_
    exact spares_check fun _ => ordinary_plain

theorem spares_changeBlock (target : Side) (op : Arith) (x : α) (ctx : Context α) :
    Refuses (Spared l.battle) (sc.changeBlock target op x ctx) l := by
  refine Refuses.get_bind (Refuses.bind (spares_nextBlock target op x) fun next m _ => ?_)
  refine Refuses.modify_bind (Refuses.get_bind ?_)
  dsimp only
  split
  · exact Refuses.lift _
  · split
    · exact Refuses.lift _
    · exact Refuses.pure _

/-- Energy and maxima are computed first and stored then. -/
theorem spares_store {op : Arith} {x : α} (read : Live α → α)
    (store : α → Live α → Live α) :
    Refuses (Spared l.battle) (do
      let next ← op.result (read (← get)) x
      modify (store next) : Attempt α Unit) l :=
  Refuses.get_bind (spares_check_bind (fun _ => Arith.result_plain) fun _ => Refuses.modify _)

theorem refuses_runStat (c : Clause α) (me : Side) (ctx : Context α) :
    Refuses (LeftOut l.battle) (sc.runStat c me ctx) l := by
  refine refuses_check_bind (fun _ => Clause.side_mild) fun target => ?_
  split
  · exact refuses_throw rfl
  · refine refuses_value_bind (fun _ => Spared.leftOut) fun y => ?_
    refine refuses_check_bind (fun _ hr => Refusal.isFatal_of_isPlain (ordinary_plain hr)) fun x => ?_
    split
    · exact (spares_changeHp _ _ _ _ _).leftOut
    · exact (spares_changeLust _ _ _ _ _).leftOut
    · exact (spares_changeBlock _ _ _ _).leftOut
    · exact (spares_store _ _).leftOut
    · exact (spares_store _ _).leftOut
    · exact (spares_store _ _).leftOut
    · exact (spares_store _ _).leftOut
    · exact refuses_throw rfl

theorem refuses_runModifier (c : Clause α) (me : Side) (ctx : Context α) :
    Refuses (LeftOut l.battle) (sc.runModifier c me ctx) l := by
  refine refuses_check_bind (fun _ => Clause.side_mild) fun target => ?_
  split
  · exact refuses_throw rfl
  · refine refuses_value_bind (fun _ => Spared.leftOut) fun x => Refuses.get_bind ?_
    dsimp only
    split
    · exact refuses_throw rfl
    · refine refuses_check_bind (fun _ hr => ?_) fun _ => Refuses.modify _
      exact Refusal.isFatal_of_isPlain (Arith.result_plain hr)

/-! ## Statuses -/

omit [Scalar α] in
theorem spares_setStacks (holder : Side) (id : String) (stackCount : Nat) (ctx : Context α) :
    Refuses (Spared l.battle) (sc.setStacks holder id stackCount ctx) l := by
  refine Refuses.get_bind ?_
  split
  · exact spares_throw rfl
  · split
    · exact Refuses.lift _
    · exact Refuses.modify _

omit [Scalar α] in
theorem spares_applyStatus (holder : Side) (id : String) (stackCount : Nat) (ctx : Context α) :
    Refuses (Spared l.battle) (sc.applyStatus holder id stackCount ctx) l := by
  unfold applyStatus
  split
  · exact spares_throw rfl
  · dsimp only
    split
    · exact Refuses.pure _
    · refine Refuses.get_bind ?_
      split
      · split
        · exact spares_setStacks _ _ _ _
        · exact Refuses.lift _
      · refine Refuses.modify_bind (Refuses.lift_bind ?_)
        split
        · exact Refuses.lift _
        · exact Refuses.pure _

omit [Scalar α] in
theorem spares_removeStatus (holder : Side) (id : String) (amount : Option Nat)
    (ctx : Context α) :
    Refuses (Spared l.battle) (sc.removeStatus holder id amount ctx) l := by
  refine Refuses.get_bind ?_
  dsimp only
  split
  · exact spares_throw rfl
  · split
    · exact Refuses.lift _
    · exact spares_setStacks _ _ _ _

theorem refuses_amountOf_bind {β : Type} {Q : Refusal → Live α → Prop} {c : Clause α}
    {me holder : Side} {ctx : Context α} {f : Option Nat → Attempt α β}
    (hQ : ∀ r, Spared l.battle r l → Q r l) (hf : ∀ n, Refuses Q (f n) l) :
    Refuses Q (sc.amountOf c me holder ctx >>= f) l := by
  unfold amountOf
  split
  · exact hf _
  · rw [bind_assoc]
    exact refuses_value_bind hQ fun x => hf _

theorem spares_changeStacks (c : Clause α) (id : String) (op : Arith) (me holder : Side)
    (ctx : Context α) :
    Refuses (Spared l.battle) (sc.changeStacks c id op me holder ctx) l := by
  refine Refuses.get_bind (refuses_value_bind (fun _ h => h) fun x => ?_)
  refine spares_check_bind (fun _ => Arith.result_plain) fun next => ?_
  dsimp only
  split
  · split
    · exact spares_throw rfl
    · exact spares_applyStatus _ _ _ _
  · exact spares_setStacks _ _ _ _

theorem refuses_runStatus (c : Clause α) (me : Side) (ctx : Context α) :
    Refuses (LeftOut l.battle) (sc.runStatus c me ctx) l := by
  unfold runStatus
  split
  · exact refuses_throw rfl
  · refine refuses_check_bind (fun _ => explicitSide?_mild) fun explicit => ?_
    split
    · split
      · exact refuses_throw rfl
      · refine refuses_amountOf_bind (fun _ => Spared.leftOut) fun n => ?_
        exact (spares_applyStatus _ _ _ _).leftOut
    · refine refuses_amountOf_bind (fun _ => Spared.leftOut) fun n => ?_
      exact (spares_removeStatus _ _ _ _).leftOut
    · exact (spares_changeStacks _ _ _ _ _ _).leftOut
    · exact refuses_throw rfl

end Scene

/-! ## Abilities -/

omit [Scalar α] in
/-- A text that is not wrapped uses up an id, which is no part of the
battle. -/
theorem spares_addAbility (side : Side) (effect : String) :
    Refuses (Spared l.battle) (addAbility side effect) l := by
  refine Refuses.lift_bind ?_
  split
  · exact Refuses.pure _
  · next hnone =>
    have hbattle : (l.addAbility? side effect).2.battle = l.battle := by
      have hid : (l.addAbility? side effect).1 = none := hnone
      unfold Live.addAbility? at hid ⊢
      dsimp only at hid ⊢
      split at hid
      · rfl
      · cases hid
    exact Refuses.throw ⟨rfl, hbattle⟩

omit [Scalar α] in
theorem refuses_runAbility (c : Clause α) (me : Side) (ctx : Context α) :
    Refuses (LeftOut l.battle) (runAbility c me ctx) l := by
  refine refuses_check_bind (fun _ => abilitySide_mild) fun side => ?_
  split
  · exact Refuses.bind (spares_addAbility _ _).leftOut fun _ _ _ => Refuses.pure _
  · exact Refuses.modify _
  · exact refuses_throw rfl
  · exact refuses_throw rfl

/-! ## Drawing -/

section

omit [Scalar α]

/-- A draw finds no card only if there is none to shuffle either, and
then nothing happens. -/
theorem Piles.drawOne_eq_empty {ps : Piles α} {limit : Nat} {s : Random.Stream}
    (h : (ps.drawOne limit s).1 = .empty) : ps.drawOne limit s = (.empty, ps, s) := by
  obtain ⟨hand, draw, discard, exhaust, lastUid⟩ := ps
  cases draw with
  | cons c rest =>
    simp only [drawOne, List.isEmpty_cons, Bool.false_eq_true, if_false] at h
    split at h <;> cases h
  | nil =>
    have hperm := Random.shuffle_perm discard s
    simp only [drawOne, reshuffle, List.isEmpty_nil, if_true, List.nil_append] at h ⊢
    cases hshuffled : (s.shuffle discard).1 with
    | nil =>
      obtain rfl : discard = [] := List.nil_perm.mp (hshuffled ▸ hperm)
      rfl
    | cons c rest =>
      rw [hshuffled] at h
      dsimp only at h
      split at h <;> cases h

/-- Drawing that gets no card leaves the battle as it is. -/
theorem Battle.drawUpTo_eq_of_isEmpty {b : Battle α} {limit count : Nat}
    (hhand : (b.drawUpTo limit count).1.toHand.isEmpty)
    (hburned : (b.drawUpTo limit count).1.burned.isEmpty) : (b.drawUpTo limit count).2 = b := by
  cases count with
  | zero => rfl
  | succ count =>
    rcases hd : b.piles.drawOne limit b.stream with ⟨r, ps, stream⟩
    simp only [Battle.drawUpTo, hd] at hhand hburned ⊢
    cases r with
    | empty =>
      have hsame := Piles.drawOne_eq_empty (by rw [hd])
      rw [hd] at hsame
      cases hsame
      rfl
    | drawn uid => cases hhand
    | burned uid => cases hburned

end

/-! ## Prices -/

section

omit [Scalar α]

/-- Some cards cost something else, and all else is the same. -/
structure Piles.Repriced (ps qs : Piles α) : Prop where
  faces (p : Pile) : (qs.get p).map Card.face = (ps.get p).map Card.face
  lastUid : qs.lastUid = ps.lastUid

theorem Piles.Repriced.refl (ps : Piles α) : ps.Repriced ps := ⟨fun _ => rfl, rfl⟩

theorem Piles.Repriced.trans {ps qs rs : Piles α} (h : ps.Repriced qs) (h' : qs.Repriced rs) :
    ps.Repriced rs :=
  ⟨fun p => (h'.faces p).trans (h.faces p), h'.lastUid.trans h.lastUid⟩

theorem Piles.repriced_replace {ps : Piles α} {uid : Nat} {c : Card α} (h : ps.card? uid = some c)
    (cost : α) : ps.Repriced (ps.replace uid { c with cost := cost }) := by
  unfold replace
  split
  · exact .refl ps
  · next p i hfind =>
    simp only [card?, hfind, Option.bind_some] at h
    have hset : ((ps.get p).set i { c with cost := cost }).map Card.face =
        (ps.get p).map Card.face := map_set_of_eq h rfl
    refine ⟨fun q => ?_, ?_⟩
    · cases p <;> cases q <;> first | exact hset | rfl
    · cases p <;> rfl

/-- Some cards cost something else and chance went on, and all else is
the same. -/
def Battle.Repriced (b c : Battle α) : Prop :=
  ∃ qs stream, b.piles.Repriced qs ∧ c = { b.setPiles qs with stream := stream }

end

theorem Piles.repriced_changeCosts (op : Arith) (x : α) (uids : List Nat) (ps : Piles α) :
    ps.Repriced (ps.changeCosts op x uids).2 := by
  induction uids generalizing ps with
  | nil => exact .refl ps
  | cons uid rest ih =>
    simp only [Piles.changeCosts]
    split
    · exact ih ps
    · next card hcard =>
      split
      · exact .refl ps
      · exact (repriced_replace hcard _).trans (ih _)

/-! ## Cards -/

namespace Setting

variable {s : Setting α}

omit [Scalar α] in
theorem spares_drawCards (count : Nat) :
    Refuses (Spared l.battle) (s.drawCards count) l := by
  refine Refuses.get_bind (Refuses.modify_bind ?_)
  split
  · next hnone =>
    simp only [Bool.and_eq_true] at hnone
    obtain ⟨⟨-, hhand⟩, hburned⟩ := hnone
    exact Refuses.throw ⟨rfl, Battle.drawUpTo_eq_of_isEmpty hhand hburned⟩
  · exact Refuses.modify_bind (Refuses.pure _)

theorem refuses_cardValue_bind {β : Type} {c : Clause α} {me : Side} {ctx : Context α}
    {f : α → Attempt α β} (hf : ∀ x, Refuses (LeftOut l.battle) (f x) l) :
    Refuses (LeftOut l.battle) (s.cardValue c me ctx >>= f) l :=
  refuses_read_bind (fun _ => Clause.value_plain) (fun _ => Spared.leftOut) hf

theorem refuses_countOf_bind {β : Type} {c : Clause α} {me : Side} {ctx : Context α}
    {f : Nat → Attempt α β} (hf : ∀ n, Refuses (LeftOut l.battle) (f n) l) :
    Refuses (LeftOut l.battle) (s.countOf c me ctx >>= f) l := by
  unfold countOf
  split
  · rw [bind_assoc]
    exact refuses_cardValue_bind fun x => hf _
  · exact refuses_throw rfl

theorem refuses_runDraw (c : Clause α) (me : Side) (ctx : Context α) :
    Refuses (LeftOut l.battle) (s.runDraw c me ctx) l := by
  unfold runDraw
  split
  · exact Refuses.lift_bind (Refuses.modify _)
  · refine refuses_countOf_bind fun n => ?_
    exact Refuses.bind (spares_drawCards n).leftOut fun _ _ _ => Refuses.pure _

theorem refuses_runMove (c : Clause α) (me : Side) (ctx : Context α) (goal : Pile) :
    Refuses (LeftOut l.battle) (s.runMove c me ctx goal) l := by
  have hmove (selector : Selector) : Refuses (LeftOut l.battle) (do
      let uids ← s.select selector .hand ctx
      modify fun l =>
        let moved := l.battle.piles.moveAll goal uids
        (l.mapBattle fun b => b.setPiles moved.2).reportMoved moved.1 goal : Attempt α Unit) l :=
    Refuses.lift_bind (Refuses.modify _)
  unfold runMove
  dsimp only
  split
  · exact hmove _
  · exact refuses_countOf_bind fun n => hmove _

/-- A `cost` unit looks at one card after another, so those before the
one that it has no result for stay repriced. -/
theorem refuses_runCost (c : Clause α) (me : Side) (ctx : Context α) :
    Refuses (fun r m => r.isFatal = false ∧ l.battle.Repriced m.battle) (s.runCost c me ctx) l := by
  have hsame : l.battle.Repriced l.battle := ⟨l.battle.piles, l.battle.stream, .refl _, rfl⟩
  unfold runCost
  split
  · exact Refuses.throw ⟨rfl, hsame⟩
  · next op _ =>
    refine Refuses.get_bind (Refuses.ofExcept_bind ?_ fun x _ => ?_)
    · exact fun r hr => ⟨Refusal.isFatal_of_isPlain (Clause.value_plain hr), hsame⟩
    · refine Refuses.lift_bind (Refuses.get_bind (Refuses.modify_bind ?_))
      split
      · next r hr =>
        have hrepriced := Piles.repriced_changeCosts op x
          ((s.select (c.form.selector?.getD .everything) .hand ctx).run l).1 l.battle.piles
        have hmild : r.isFatal = false := Refusal.isFatal_of_isPlain (Piles.changeCosts_plain hr)
        exact Refuses.throw ⟨hmild, _, _, hrepriced, rfl⟩
      · exact Refuses.pure _

end Setting

/-- What is known of a unit that is refused for a cause that ends no
text: the battle is as it was, but for the prices that a `cost` unit may
have changed. -/
structure Skipped (b : Battle α) (c : Clause α) (r : Refusal) (l : Live α) : Prop where
  mild : r.isFatal = false
  battle : l.battle = b ∨ c.attr = "cost" ∧ b.Repriced l.battle

omit [Scalar α] in
theorem LeftOut.skipped {b : Battle α} {r : Refusal} {l : Live α} (h : LeftOut b r l)
    (c : Clause α) : Skipped b c r l :=
  ⟨h.mild, .inl h.unchanged⟩

theorem Setting.refuses_runCards {s : Setting α} (c : Clause α) (me : Side) (ctx : Context α) :
    Refuses (Skipped l.battle c) (s.runCards c me ctx) l := by
  have hskip {x : Attempt α Unit} (h : Refuses (LeftOut l.battle) x l) :
      Refuses (Skipped l.battle c) x l := h.mono fun _ _ hr => hr.skipped c
  unfold runCards
  split
  · exact hskip (refuses_runDraw _ _ _)
  · exact hskip (refuses_runMove _ _ _ _)
  · exact hskip (refuses_runMove _ _ _ _)
  · next hattr => exact (refuses_runCost _ _ _).mono fun _ _ hr => ⟨hr.1, .inr ⟨hattr, hr.2⟩⟩
  · exact hskip (refuses_throw rfl)

namespace Scene

variable {sc : Scene α}

/-- A unit that is no branch is refused for a mild cause, if at all. -/
theorem refuses_runClause_of_not_isBranch {c : Clause α} (hform : c.form.isBranch = false)
    (me : Side) (ctx : Context α) : Refuses (Skipped l.battle c) (sc.runClause c me ctx) l := by
  have hskip {x : Attempt α Unit} (h : Refuses (LeftOut l.battle) x l) :
      Refuses (Skipped l.battle c) x l := h.mono fun _ _ hr => hr.skipped c
  unfold runClause
  split
  · next hbranch => simp [hbranch, Form.isBranch] at hform
  · split
    · exact hskip (refuses_throw rfl)
    · split
      · exact hskip (refuses_runStat _ _ _)
      · exact hskip (refuses_runModifier _ _ _)
      · exact hskip (refuses_runStatus _ _ _)
      · exact hskip (refuses_runAbility _ _ _)
      · exact Setting.refuses_runCards _ _ _
      · exact Refuses.pure _

section

variable {limit : Refusal}
  (hrun : ∀ text me ctx l, Refuses (fun r _ => r = limit) (sc.run text me ctx) l)
include hrun

theorem refuses_runBranch (condition effect : String) (otherwise : Option String) (me : Side)
    (ctx : Context α) :
    Refuses (fun r _ => r = limit) (sc.runBranch condition effect otherwise me ctx) l := by
  refine Refuses.get_bind ?_
  dsimp only
  split
  · split
    · exact Refuses.pure _
    · exact hrun _ _ _ _
  · exact Refuses.pure _

/-- A branch hands on the cause that its text was refused for. -/
theorem refuses_runClause (c : Clause α) (me : Side) (ctx : Context α) :
    Refuses (fun r m => r = limit ∨ Skipped l.battle c r m) (sc.runClause c me ctx) l := by
  cases hform : c.form.isBranch with
  | false => exact (refuses_runClause_of_not_isBranch hform me ctx).mono fun _ _ => .inr
  | true =>
    unfold runClause
    split
    · exact (refuses_runBranch hrun _ _ _ _ _).mono fun _ _ => .inl
    · next hother =>
      cases hf : c.form <;> simp_all [Form.isBranch]

/-- Units that are left out end nothing. -/
theorem refuses_runClauses (me : Side) (ctx : Context α) (cs : List (Clause α)) :
    Refuses (fun r _ => r = limit) (sc.runClauses me ctx cs) l := by
  induction cs generalizing l with
  | nil => exact Refuses.pure _
  | cons c rest ih =>
    have hclause := refuses_runClause hrun (l := l) c me ctx
    unfold Refuses at hclause
    refine Refuses.caught_bind ?_
    rcases hx : (sc.runClause c me ctx).run.run l with ⟨r, m⟩
    rw [hx] at hclause
    cases r with
    | ok _ => exact ih
    | error r =>
      refine Refuses.modify_bind ?_
      split
      · next hfatal =>
        rcases hclause r rfl with rfl | hskipped
        · exact Refuses.throw rfl
        · rw [hskipped.mild] at hfatal
          cases hfatal
      · exact Refuses.lift_bind ih

theorem refuses_runUnits (text : String) (me : Side) (ctx : Context α) :
    Refuses (fun r _ => r = limit) (sc.runUnits text me ctx) l :=
  Refuses.lift_bind (Refuses.lift_bind (refuses_runClauses hrun _ _ _))

end

end Scene

namespace Setting

/-- A text is refused for the nesting limit only, by induction on the
levels that it has. -/
theorem refuses_runWithin (s : Setting α) (levels : Nat) (text : String) (me : Side)
    (ctx : Context α) (l : Live α) :
    Refuses (fun r _ => r = .nestingLimit s.rules.maxNesting) (s.runWithin levels text me ctx) l := by
  induction levels generalizing text me ctx l with
  | zero => exact Refuses.throw rfl
  | succ levels ih =>
    refine Refuses.modify_bind (Refuses.caught_bind (Refuses.modify_bind ?_))
    have hunits : Refuses (fun r _ => r = .nestingLimit s.rules.maxNesting)
        ((⟨s, s.runWithin levels⟩ : Scene α).runUnits text me ctx) (l.enter text me) :=
      Scene.refuses_runUnits ih text me ctx
    exact Refuses.ofExcept fun r hr => hunits r hr

/-- **A unit that is left out has changed nothing but prices.** Whatever
unit is refused, wherever it stands: unless the cause ends the text, the
battle is as it was, or the unit is a `cost` unit and some cards cost
something else. -/
theorem runClause_refused (s : Setting α) (levels : Nat) (c : Clause α) (me : Side)
    (ctx : Context α) (l : Live α) :
    Refuses (fun r m => r.isFatal = false →
        m.battle = l.battle ∨ c.attr = "cost" ∧ l.battle.Repriced m.battle)
      ((⟨s, s.runWithin levels⟩ : Scene α).runClause c me ctx) l := by
  have hrefused : Refuses
      (fun r m => r = .nestingLimit s.rules.maxNesting ∨ Skipped l.battle c r m)
      ((⟨s, s.runWithin levels⟩ : Scene α).runClause c me ctx) l :=
    Scene.refuses_runClause (s.refuses_runWithin levels) c me ctx
  refine hrefused.mono fun r m hr hmild => ?_
  rcases hr with rfl | hskipped
  · cases hmild
  · exact hskipped.battle

end Setting

/-- A hand with a card that costs 1 before one that costs too much to
be multiplied. -/
def Snapshot.dear : Snapshot Double :=
  { Snapshot.duel with
    hand := [.plain "a" "A" 1 "OP.hp-1", .plain "b" "B" (Scalar.ofNat (10 ^ 300)) "OP.hp-1"] }

/-- The prices may change: of the hand above, the first card is repriced
and the second refuses the unit. -/
theorem Setting.exists_refused_repriced :
    ¬ ∀ (s : Setting Double) (text : String) (c : Clause Double) (me : Side)
        (ctx : Context Double) (l : Live Double) (r : Refusal),
      c ∈ plan s.catalog (Effect.parseEffect s.catalog text) →
      ((s.scene.runClause c me ctx).run.run l).1 = .error r → r.isFatal = false →
        ((s.scene.runClause c me ctx).run.run l).2.battle = l.battle := by
  intro h
  let s := Session.loadWith .dear .standard .leftmost .standard
  let prices (b : Battle Double) := b.piles.hand.map fun c => Scalar.text c.cost
  obtain ⟨c, hc, hrefused, hprices⟩ :
      ∃ c ∈ plan s.catalog (Effect.parseEffect s.catalog "cost*1e10"),
        ((s.scene.runClause c .player .plain).run.run s.live).1 =
            .error (.invalidValue "*10000000000") ∧
          prices ((s.scene.runClause c .player .plain).run.run s.live).2.battle ≠
            prices s.live.battle := by
    decide +kernel
  exact hprices (congrArg prices (h s.toSetting _ c _ _ _ _ hc hrefused rfl))

end DeckDuel
