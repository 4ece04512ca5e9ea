/-
DeckDuel.Proofs.LustOverflow — lust overflows are settled one by one.

* `Entry.begins`, `Entry.ends` — what the journal tells of an overflow.
* `Nested` — entries of overflows in which each that begins also ends,
  with no lust left, and only the other side can overflow in between.
  `Nested.open_le_one` — so at any moment at most one overflow of a side
  is open.
* `Live.Spills` — what came to pass between two states is nested.
  `Setting.spills_runWithin` — so it is along texts.
* `Scene.gained` — what a gain of lust that was stored sets off.
  `Scene.StoresLust` — a unit of lust is refused, or it stores a number,
  sets off what reacts to it, and lets the side overflow if it was full
  before and after that.
* `Session.overflows_settled` — all of it, for any calls of a host.

The induction is carried by the mark of a side that is being settled. It
is set as an overflow begins, every text leaves it as it was, and with
the mark the side cannot begin another one.
-/
import DeckDuel.Proofs.Call
import DeckDuel.Proofs.Reentrance
import DeckDuel.Scalar.Double

namespace DeckDuel

variable {α : Type}

/-! ## What the journal tells -/

namespace Entry

/-- Does an entry tell that an overflow of a side begins? -/
def begins (side : Side) (e : Entry α) : Bool :=
  match e.note with
  | .event (.lustOverflow t) => decide (t = side)
  | _ => false

/-- Does an entry tell that an overflow of a side ended? -/
def ends (side : Side) (e : Entry α) : Bool :=
  match e.note with
  | .overflowEnded t => decide (t = side)
  | _ => false

end Entry

/-- How many overflows of a side begin among entries. -/
def begun (side : Side) (es : List (Entry α)) : Nat := es.countP (Entry.begins side)

/-- How many overflows of a side end among entries. -/
def ended (side : Side) (es : List (Entry α)) : Nat := es.countP (Entry.ends side)

theorem begun_append (side : Side) (es fs : List (Entry α)) :
    begun side (es ++ fs) = begun side es + begun side fs := List.countP_append

theorem ended_append (side : Side) (es fs : List (Entry α)) :
    ended side (es ++ fs) = ended side es + ended side fs := List.countP_append

section

variable {first last : Entry α} {t : Side} (hfirst : first.note = .event (.lustOverflow t))
  (hlast : last.note = .overflowEnded t) (side : Side) (es : List (Entry α))

include hfirst in
theorem begun_cons_first :
    begun side (first :: es) = begun side es + if t = side then 1 else 0 := by
  simp [begun, List.countP_cons, Entry.begins, hfirst]

include hfirst in
theorem ended_cons_first : ended side (first :: es) = ended side es := by
  simp [ended, Entry.ends, hfirst]

include hlast in
theorem begun_cons_last : begun side (last :: es) = begun side es := by
  simp [begun, Entry.begins, hlast]

include hlast in
theorem ended_cons_last : ended side (last :: es) = ended side es + if t = side then 1 else 0 := by
  simp [ended, List.countP_cons, Entry.ends, hlast]

end

/-! ## Overflows inside overflows -/

variable [Scalar α]

/-- Entries of overflows, newest first, while those of some sides are
being settled. An overflow is of another side; while it is settled
itself, others can begin and end; and at its end the side has no
lust. -/
inductive Nested : (busy : Both Bool) → List (Entry α) → Prop where
  | nil {busy : Both Bool} : Nested busy []
  | cons {busy : Both Bool} {side : Side} {first last : Entry α} {within earlier : List (Entry α)}
      (idle : busy.get side = false)
      (begins : first.note = .event (.lustOverflow side))
      (during : Nested (busy.set side true) within)
      (ends : last.note = .overflowEnded side)
      (emptied : (last.battle.fighter side).lust = 0)
      (before : Nested busy earlier) :
      Nested busy (last :: (within ++ first :: earlier))

namespace Nested

variable {busy : Both Bool} {es fs : List (Entry α)} {side : Side}

theorem append (h : Nested busy es) (h' : Nested busy fs) : Nested busy (es ++ fs) := by
  induction h with
  | nil => exact h'
  | cons idle begins during ends emptied _ _ ih =>
    rw [List.cons_append, List.append_assoc, List.cons_append]
    exact .cons idle begins during ends emptied (ih h')

/-- What is being settled does not overflow. -/
theorem begun_of_busy (h : Nested busy es) (hbusy : busy.get side = true) : begun side es = 0 := by
  induction h with
  | nil => rfl
  | @cons busy t first last within earlier idle begins _ ends _ _ ihduring ihbefore =>
    have hne : t ≠ side := by
      rintro rfl
      simp [hbusy] at idle
    have hstill : (busy.set t true).get side = true := by
      cases t <;> cases side <;> first | rfl | exact hbusy
    rw [begun_cons_last ends, begun_append, begun_cons_first begins, if_neg hne, ihduring hstill,
      ihbefore hbusy]

/-- What begins also ends. -/
theorem balanced (h : Nested busy es) (side : Side) : begun side es = ended side es := by
  induction h with
  | nil => rfl
  | cons _ begins _ ends _ _ ihduring ihbefore =>
    rw [begun_cons_last ends, begun_append, begun_cons_first begins, ended_cons_last ends,
      ended_append, ended_cons_first begins, ihduring, ihbefore]
    omega

/-- At any moment at most one overflow of a side has begun and not
ended. -/
theorem open_le_one (h : Nested busy es) (side : Side) {old : List (Entry α)} (hold : old <:+ es) :
    ended side old ≤ begun side old ∧ begun side old ≤ ended side old + 1 := by
  induction h generalizing old with
  | nil => simp [List.suffix_nil.mp hold, begun, ended]
  | @cons _ t first _ within earlier idle begins during ends emptied before ihduring ihbefore =>
    have hbefore := before.balanced side
    -- while the overflow is settled, another one can only be of the other side
    have hopen {w : List (Entry α)} (hw : w <:+ within) :
        ended side (w ++ first :: earlier) ≤ begun side (w ++ first :: earlier) ∧
          begun side (w ++ first :: earlier) ≤ ended side (w ++ first :: earlier) + 1 := by
      obtain ⟨hlow, hhigh⟩ := ihduring hw
      have hfew : begun side w ≤ begun side within := hw.sublist.countP_le
      rw [begun_append, begun_cons_first begins, ended_append, ended_cons_first begins]
      by_cases hside : t = side
      · have hnone : begun side within = 0 :=
          during.begun_of_busy (hside ▸ Both.get_set_self _ t true)
        rw [if_pos hside]
        omega
      · rw [if_neg hside]
        omega
    rcases List.suffix_cons_iff.mp hold with rfl | hold
    · have hall := (Nested.cons idle begins during ends emptied before).balanced side
      omega
    · rcases List.suffix_or_suffix_of_suffix hold (List.suffix_append within (first :: earlier))
        with hold | ⟨w, rfl⟩
      · rcases List.suffix_cons_iff.mp hold with rfl | hold
        · exact hopen List.nil_suffix
        · exact ihbefore hold
      · exact hopen (List.suffix_append_self_iff.mp hold)

/-- At the end of an overflow its side has no lust. -/
theorem lust_of_ends (h : Nested busy es) {e : Entry α} (he : e ∈ es) (hends : e.ends side = true) :
    (e.battle.fighter side).lust = 0 := by
  induction h with
  | nil => cases he
  | @cons _ t first last within earlier _ begins _ ends emptied _ ihduring ihbefore =>
    rcases List.mem_cons.mp he with rfl | he
    · have hside : t = side := by simpa [Entry.ends, ends] using hends
      rwa [hside] at emptied
    · rcases List.mem_append.mp he with he | he
      · exact ihduring he
      · rcases List.mem_cons.mp he with rfl | he
        · simp [Entry.ends, begins] at hends
        · exact ihbefore he

end Nested

/-! ## Along a run -/

namespace Live

variable {s : Setting α} {l m k : Live α}

/-- The overflows that came to pass between two states are nested in
those that are being settled, which are the same before and after. -/
structure Spills (l m : Live α) : Prop where
  same : m.overflowing = l.overflowing
  nested : ∃ new, m.overflows = new ++ l.overflows ∧ Nested l.overflowing new

theorem Spills.of_same (hsame : m.overflowing = l.overflowing) (h : m.overflows = l.overflows) :
    Spills l m := ⟨hsame, [], h, .nil⟩

theorem Spills.trans (h : Spills l m) (h' : Spills m k) : Spills l k := by
  obtain ⟨hsame, new, hnew, hnested⟩ := h
  obtain ⟨hsame', newer, hnewer, hnested'⟩ := h'
  rw [hsame] at hnested'
  exact ⟨hsame'.trans hsame, newer ++ new, by rw [hnewer, hnew, List.append_assoc],
    hnested'.append hnested⟩

instance : IsPreorder (Live α) Spills where
  refl _ := .of_same rfl rfl
  trans _ _ _ := .trans

theorem Deed.spills {turns i : Bool} (h : Deed s turns i l m) : Spills l m :=
  .of_same h.trace.overflowing_eq h.mute.overflows

theorem spills_enter (l : Live α) (text : String) (me : Side) : Spills l (l.enter text me) := by
  refine .of_same (enter_overflowing l text me) ?_
  unfold enter
  split <;> rfl

theorem spills_leave (l : Live α) : Spills l l.leave :=
  .of_same (leave_overflowing l) (mute_leave l).overflows

theorem lust_clearLust (l : Live α) (side : Side) : ((l.clearLust side).fighter side).lust = 0 := by
  rw [clearLust, fighter_reportChange]
  cases side <;> rfl

/-- What is told of an overflow that begins and ends. -/
theorem Spills.told {side : Side} (h : Spills (l.beginOverflow side) m) :
    ∃ last within first, (m.endOverflow side).overflows = last :: (within ++ first :: l.overflows) ∧
      first.note = .event (.lustOverflow side) ∧
      Nested (l.overflowing.set side true) within ∧
      last.note = .overflowEnded side ∧ (last.battle.fighter side).lust = 0 := by
  obtain ⟨-, within, hwithin, hnested⟩ := h
  let first : Entry α := ⟨.event (.lustOverflow side), l.depth, l.battle⟩
  let last : Entry α := ⟨.overflowEnded side, (m.clearLust side).depth, (m.clearLust side).battle⟩
  refine ⟨last, within, first, ?_, rfl, hnested, rfl, m.lust_clearLust side⟩
  have hbegun : (l.beginOverflow side).overflows = first :: l.overflows := rfl
  have hended : (m.endOverflow side).overflows = last :: (m.clearLust side).overflows := rfl
  rw [hended, (InnerStep.mute (.clearLust m side)).overflows, hwithin, hbegun]

/-- The mark of an overflow is gone at its end. -/
theorem Spills.overflowing_endOverflow {side : Side} (idle : l.overflowing.get side = false)
    (h : Spills (l.beginOverflow side) m) : (m.endOverflow side).overflowing = l.overflowing := by
  have hmarked : m.overflowing = l.overflowing.set side true := h.same
  have hcleared : (m.clearLust side).overflowing = m.overflowing := by
    unfold clearLust reportChange
    dsimp only
    split <;> rfl
  show (m.clearLust side).overflowing.set side false = l.overflowing
  rw [hcleared, hmarked]
  cases side <;> exact idle ▸ rfl

/-- An overflow that begins and ends. -/
theorem Spills.overflow {side : Side} (idle : l.overflowing.get side = false)
    (h : Spills (l.beginOverflow side) m) : Spills l (m.endOverflow side) := by
  obtain ⟨last, within, first, htold, begins, during, ends, emptied⟩ := h.told
  refine ⟨h.overflowing_endOverflow idle, last :: (within ++ [first]), ?_, ?_⟩
  · simp [htold]
  · exact .cons idle begins during ends emptied .nil

/-- It is one of its side, and there is no other of the side within
it. -/
theorem Spills.begun_endOverflow {side : Side} (h : Spills (l.beginOverflow side) m) :
    begun side (m.endOverflow side).overflows = begun side l.overflows + 1 := by
  obtain ⟨last, within, first, htold, begins, during, ends, -⟩ := h.told
  have hnone : begun side within = 0 := during.begun_of_busy (Both.get_set_self _ side true)
  rw [htold, begun_cons_last ends, begun_append, begun_cons_first begins, if_pos rfl, hnone,
    Nat.zero_add]

end Live

open Live

/-- An overflow is one node of a course; whatever runs within it runs
with its mark. -/
theorem Scene.Course.spills {sc : Scene α}
    (hrun : ∀ text me ctx l, Tries Spills (sc.run text me ctx) l) {ctx : Context α} {i : Bool}
    {l m : Live α} (h : sc.Course ctx i l m) : Spills l m := by
  induction h with
  | refl l => exact .of_same rfl rfl
  | trans _ _ ih₁ ih₂ => exact ih₁.trans ih₂
  | deed h => exact h.spills
  | overflow side idle _ ih => exact ih.overflow idle
  | text effect me _ l => exact hrun effect me _ l

namespace Setting

variable (s : Setting α)

theorem spills_runWithin (levels : Nat) (text : String) (me : Side) (ctx : Context α)
    (l : Live α) : Tries Spills (s.runWithin levels text me ctx) l := by
  have hstart (l : Live α) (text : String) (me : Side) : Spills l
      { l.enter text me with memo := ((l.enter text me).memo.parse s.catalog text).2 } :=
    (spills_enter l text me).trans (.of_same rfl rfl)
  refine carried_runWithin (fun run hrun => ?_) hstart spills_leave levels text me ctx l
  exact { course := fun h => h.spills hrun
          refused := fun _ _ _ => .of_same rfl rfl }

theorem hosts_spills (turns : Bool) : s.Hosts turns Spills where
  deed h := h.spills
  text _ text me ctx l := spills_runWithin s _ text me ctx l

end Setting

/-! ## Units of lust -/

namespace Scene

variable (sc : Scene α) (me target : Side) (ctx : Context α) (l : Live α)

/-- What a change of lust that was stored sets off: the moment of a gain,
if it is one. -/
def gained (stored : Live α) : Live α :=
  if (l.fighter target).lust < (stored.fighter target).lust then
    ((sc.fire target .lustIncrease ctx).run stored).2
  else stored

/-- An attempt is refused and changes nothing, or it stores lust before
anything reacts to it. The side overflows if it was full before and after
that. -/
def StoresLust (x : Attempt α Unit) : Prop :=
  (∃ r, x.run.run l = (.error r, l)) ∨
    ∃ next, let stored := l.commitLust target next
      let after := sc.gained target ctx l stored
      x.run.run l =
        (.ok (), if isFull (stored.fighter target) && isFull (after.fighter target) then
          ((sc.overflowLust target ctx).run after).2 else after)

namespace StoresLust

variable {sc : Scene α} {target : Side} {ctx : Context α} {l : Live α} {β : Type}

theorem get_bind {f : Live α → Attempt α Unit} (h : sc.StoresLust target ctx l (f l)) :
    sc.StoresLust target ctx l (get >>= f) := h

/-- What is only looked at may come first. -/
theorem bind {x : Attempt α β} {f : β → Attempt α Unit} (hx : Tries Eq x l)
    (hf : ∀ a, sc.StoresLust target ctx l (f a)) : sc.StoresLust target ctx l (x >>= f) := by
  have hrun : (x >>= f).run.run l = (ExceptT.bindCont f (x.run.run l).1).run (x.run.run l).2 := rfl
  have hstay : (x.run.run l).2 = l := Eq.symm hx
  unfold StoresLust
  rw [hrun, hstay]
  cases (x.run.run l).1 with
  | error r => exact .inl ⟨r, rfl⟩
  | ok a => exact hf a

theorem ofExcept_bind {x : Except Refusal β} {f : β → Attempt α Unit}
    (hf : ∀ a, x = .ok a → sc.StoresLust target ctx l (f a)) :
    sc.StoresLust target ctx l ((liftM x : Attempt α β) >>= f) := by
  cases x with
  | error r => exact .inl ⟨r, rfl⟩
  | ok a => exact hf a rfl

theorem throw (r : Refusal) : sc.StoresLust target ctx l (throw r) := .inl ⟨r, rfl⟩

end StoresLust

theorem tries_nextLust (op : Arith) (x : α) : Tries Eq (sc.nextLust me target op x) l := by
  refine Tries.get_bind ?_
  dsimp only
  split
  · refine Tries.bind (Tries.lift (Leads.get_bind (Leads.pure _ l))) fun _ l => ?_
    exact Tries.bind (Tries.lift (Leads.get_bind (Leads.pure _ l))) fun _ l => Tries.ofExcept _ l
  · exact Tries.ofExcept_bind fun _ _ => Tries.ofExcept _ l

theorem storesLust_changeLust (op : Arith) (x : α) :
    sc.StoresLust target ctx l (sc.changeLust me target op x ctx) := by
  refine StoresLust.get_bind (.bind (sc.tries_nextLust me target l op x) fun next => ?_)
  refine .inr ⟨next, ?_⟩
  intro stored after
  have hrest (m : Live α) : (do
      let now ← get
      if isFull (stored.fighter target) && isFull (now.fighter target) then
        sc.overflowLust target ctx : Attempt α Unit).run.run m =
      (.ok (), if isFull (stored.fighter target) && isFull (m.fighter target) then
        ((sc.overflowLust target ctx).run m).2 else m) := by
    show (if _ then _ else _ : Attempt α Unit).run.run m = _
    split <;> rfl
  show (if (l.fighter target).lust < (stored.fighter target).lust then _ else _ :
    Attempt α Unit).run.run stored = _
  by_cases hgain : (l.fighter target).lust < (stored.fighter target).lust
  · have hafter : after = ((sc.fire target .lustIncrease ctx).run stored).2 := if_pos hgain
    rw [if_pos hgain, hafter]
    exact hrest _
  · have hafter : after = stored := if_neg hgain
    rw [if_neg hgain, hafter]
    exact hrest stored

variable {me target ctx} {c : Clause α}

theorem storesLust_runStat (hattr : c.attr = "lust") (hside : c.side me ctx = .ok target) :
    sc.StoresLust target ctx l (sc.runStat c me ctx) := by
  refine StoresLust.ofExcept_bind fun t ht => ?_
  obtain rfl : t = target := Except.ok.inj (ht.symm.trans hside)
  split
  · exact .throw _
  · next op _ =>
    refine .bind (Tries.get_bind (Tries.ofExcept _ l)) fun v => .ofExcept_bind fun x _ => ?_
    rw [hattr]
    exact sc.storesLust_changeLust me t ctx l op x

/-- A unit of a stat, by the domain of its attribute. -/
theorem runClause_eq_runStat {a : Attribute} (hform : c.form.isBranch = false)
    (hget : sc.catalog.get? c.attr = some a) (hstat : a.domain = .stat) :
    sc.runClause c me ctx = sc.runStat c me ctx := by
  unfold runClause
  split
  · next hbranch => simp [hbranch, Form.isBranch] at hform
  · rw [hget]
    dsimp only
    rw [hstat]

/-- A unit of lust is one. -/
theorem storesLust_runClause {a : Attribute} (hform : c.form.isBranch = false)
    (hattr : c.attr = "lust") (hget : sc.catalog.get? "lust" = some a) (hstat : a.domain = .stat)
    (hside : c.side me ctx = .ok target) : sc.StoresLust target ctx l (sc.runClause c me ctx) := by
  rw [sc.runClause_eq_runStat hform (hattr ▸ hget) hstat]
  exact sc.storesLust_runStat l hattr hside

variable {sc l} (ctx) {stored m : Live α}

theorem spills_gained (hruns : ∀ text me ctx l, Tries Spills (sc.run text me ctx) l) :
    Spills stored (sc.gained target ctx l stored) := by
  unfold gained
  split
  · have hcourse : sc.Course ctx true stored _ := course_fire target .lustIncrease ctx stored
    exact hcourse.spills hruns
  · exact .of_same rfl rfl

/-- What a side overflows to. -/
theorem overflowLust_settled (hruns : ∀ text me ctx l, Tries Spills (sc.run text me ctx) l)
    (hidle : l.overflowing.get target = false)
    (hm : m = ((sc.spill target ctx).run (l.beginOverflow target)).2.endOverflow target) :
    ((sc.overflowLust target ctx).run l).2 = m ∧
      begun target m.overflows = begun target l.overflows + 1 ∧ (m.fighter target).lust = 0 := by
  have hcourse : sc.Course ctx true (l.beginOverflow target) _ := course_spill target ctx _
  subst hm
  refine ⟨?_, (hcourse.spills hruns).begun_endOverflow, lust_clearLust _ target⟩
  rw [run_overflowLust, hidle]
  rfl

end Scene

/-- **Lust overflows are settled one by one.** Along any calls of a host

* overflows are nested: each one that begins also ends, and meanwhile
  only the other side can overflow; no side is left being settled;
* so at any moment a side has at most one overflow that began and did
  not end, and there are at most two inside each other;
* when an overflow ends, its side has no lust;
* a unit of lust of a side that is not being settled is refused, or its
  number is stored, what reacts to a gain runs, and the side overflows
  once more if it was full before and after that: the overflow begins,
  what it sets off runs, and it ends without lust. -/
theorem Session.overflows_settled (s : Session α) (calls : List (Call α)) :
    (s.afterAll calls).live.overflowing = s.live.overflowing ∧
      (∃ new, (s.afterAll calls).live.overflows = new ++ s.live.overflows ∧
        Nested s.live.overflowing new ∧
        ∀ side, begun side new = ended side new ∧
          (∀ old, old <:+ new →
            ended side old ≤ begun side old ∧ begun side old ≤ ended side old + 1) ∧
          ∀ e ∈ new, e.ends side = true → (e.battle.fighter side).lust = 0) ∧
      ∀ (n : Nat) (c : Clause α) (me target : Side) (ctx : Context α) (a : Attribute) (l : Live α),
        let sc : Scene α := ⟨s.toSetting, s.toSetting.runWithin n⟩
        let r := (sc.runClause c me ctx).run.run l
        c.form.isBranch = false → c.attr = "lust" → s.catalog.get? "lust" = some a →
          a.domain = .stat → c.side me ctx = .ok target → l.overflowing.get target = false →
          (∃ cause, r = (.error cause, l)) ∨
            ∃ next, let stored := l.commitLust target next
              let after := sc.gained target ctx l stored
              stored.overflows = l.overflows ∧
                if Scene.isFull (stored.fighter target) && Scene.isFull (after.fighter target) then
                  r = (.ok (), ((sc.spill target ctx).run
                      (after.beginOverflow target)).2.endOverflow target) ∧
                    begun target r.2.overflows = begun target after.overflows + 1 ∧
                    (r.2.fighter target).lust = 0
                else r = (.ok (), after) := by
  have hgoes := goes_afterAll (s.toSetting.hosts_spills true) s calls
  obtain ⟨hsame, new, hnew, hnested⟩ : Live.Spills s.live (s.afterAll calls).live := hgoes.live rfl
  refine ⟨hsame, ⟨new, hnew, hnested, fun side => ⟨hnested.balanced side, fun old hold =>
    hnested.open_le_one side hold, fun e he => hnested.lust_of_ends he⟩⟩, ?_⟩
  intro n c me target ctx a l sc r hform hattr hget hstat hside hidle
  have hruns (text : String) (me : Side) (ctx : Context α) (l : Live α) :
      Tries Spills (sc.run text me ctx) l := s.toSetting.spills_runWithin n text me ctx l
  rcases sc.storesLust_runClause l hform hattr hget hstat hside with hrefused | ⟨next, hrun⟩
  · exact .inl hrefused
  · refine .inr ⟨next, ?_⟩
    intro stored after
    have hstored : Deed s.toSetting true true l stored := deed_lust l target next
    have hafter : Spills stored after := Scene.spills_gained ctx hruns
    have hidle' : after.overflowing.get target = false := by
      rw [hafter.same, hstored.spills.same, hidle]
    obtain ⟨hoverflows, hbegun, hlust⟩ := Scene.overflowLust_settled ctx hruns hidle' rfl
    refine ⟨hstored.mute.overflows, ?_⟩
    have hr : r = _ := hrun
    rw [hr]
    split
    · exact ⟨by rw [hoverflows], by rw [hoverflows, hbegun], by rw [hoverflows, hlust]⟩
    · rfl

/-- A gain of lust fills the enemy, which overflows once; alone, the unit
is not refused. -/
theorem Session.overflows_settled_duel :
    let s := loadWith (.duel : Snapshot Double) .standard .leftmost .standard
    let l := (s.afterAll [.execute "OP.lust+100" .player .plain]).live
    let filling : Clause Double :=
      ⟨"OP.lust+100", some .op, "lust", .change .increase (.literal (Scalar.ofNat 100)), "lust"⟩
    let r := (s.scene.runClause filling .player .plain).run.run s.live
    begun .enemy l.overflows = 1 ∧ Nested (.same false) l.overflows ∧
      ∃ next, let stored := s.live.commitLust .enemy next
        let after := s.scene.gained .enemy .plain s.live stored
        stored.overflows = s.live.overflows ∧
          if Scene.isFull (stored.fighter .enemy) && Scene.isFull (after.fighter .enemy) then
            r = (.ok (), ((s.scene.spill .enemy .plain).run
                (after.beginOverflow .enemy)).2.endOverflow .enemy) ∧
              begun .enemy r.2.overflows = begun .enemy after.overflows + 1 ∧
              (r.2.fighter .enemy).lust = 0
          else r = (.ok (), after) := by
  intro s l filling r
  obtain ⟨-, ⟨new, hnew, hnested, -⟩, hunit⟩ :=
    overflows_settled s [.execute "OP.lust+100" .player .plain]
  have hall : l.overflows = new := hnew.trans (List.append_nil new)
  refine ⟨by decide +kernel, hall ▸ hnested, ?_⟩
  have hlust : Catalog.standard.get? "lust" = some ⟨"lust", .stat, "Lust", 30⟩ := by decide
  rcases hunit s.rules.maxNesting filling .player .enemy .plain _ s.live rfl rfl hlust rfl rfl rfl
    with ⟨cause, hrefused⟩ | hstored
  · have hok : r.1.isOk = true := by decide +kernel
    rw [show r = _ from hrefused] at hok
    cases hok
  · exact hstored

end DeckDuel
