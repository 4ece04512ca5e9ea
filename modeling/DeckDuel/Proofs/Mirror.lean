/-
DeckDuel.Proofs.Mirror — battles with the sides exchanged.

* `Battle.mirror` — the other side's fighter on each side, and the marks
  and the outcome exchanged with them. Energy, piles, relics, actions,
  turn and random stream stay where they are.
* `Scope.evaluate_mirror`, `Scope.condition_mirror` — a text that does
  not speak of energy or cards means the same for the other side of the
  mirrored battle.
* `Mirrored` — a running battle and one that runs in the mirror, while
  nothing in them speaks of energy or cards. Every stored change keeps
  them so, made for one side here and for the other one there.
* `Live.winner?_mirror` — the one rule that tells the sides apart: the
  player wins if both fell.
-/
import DeckDuel.Proofs.FaithfulMemo
import DeckDuel.Proofs.Impartial

namespace DeckDuel

open DeckDuel.Variable

variable {α : Type}

/-! ## Exchanging the sides -/

namespace Side

theorem opponent_inj {s t : Side} : s.opponent = t.opponent ↔ s = t := by
  cases s <;> cases t <;> decide

end Side

namespace Both

variable {β : Type}

/-- Each side's value on the other side. -/
def swap (b : Both β) : Both β := ⟨b.enemy, b.player⟩

@[simp] theorem swap_swap (b : Both β) : b.swap.swap = b := rfl

@[simp] theorem get_swap (b : Both β) (s : Side) : b.swap.get s = b.get s.opponent := by
  cases s <;> rfl

theorem swap_set (b : Both β) (s : Side) (x : β) : (b.set s x).swap = b.swap.set s.opponent x := by
  cases s <;> rfl

@[simp] theorem swap_same (x : β) : (same x).swap = same x := rfl

end Both

/-- The outcome for the other side. -/
def Outcome.mirror (o : Outcome) : Outcome := .ofWinner o.winner.opponent

theorem Outcome.mirror_ofWinner (s : Side) : (ofWinner s).mirror = ofWinner s.opponent := by
  cases s <;> rfl

namespace Battle

/-- The battle with the fighters, the marks of fallen sides and the
outcome exchanged. -/
def mirror (b : Battle α) : Battle α :=
  { b with
    player := { b.player with fighter := b.enemy.fighter }
    enemy := { b.enemy with fighter := b.player.fighter }
    outcome := b.outcome.map Outcome.mirror
    fallen := b.fallen.swap }

theorem mirror_mirror (b : Battle α) : b.mirror.mirror = b := by
  have houtcome : (b.outcome.map Outcome.mirror).map Outcome.mirror = b.outcome := by
    cases b.outcome with
    | none => rfl
    | some o => cases o <;> rfl
  simp only [mirror, houtcome, Both.swap_swap]

@[simp] theorem fighter_mirror (b : Battle α) (s : Side) :
    b.mirror.fighter s = b.fighter s.opponent := by
  cases s <;> rfl

theorem mirror_mapFighter (b : Battle α) (s : Side) (f : Fighter α → Fighter α) :
    (b.mapFighter s f).mirror = b.mirror.mapFighter s.opponent f := by
  cases s <;> rfl

@[simp] theorem isOver_mirror (b : Battle α) : b.mirror.isOver = b.isOver := by
  simp [isOver, mirror]

@[simp] theorem fallen_mirror (b : Battle α) : b.mirror.fallen = b.fallen.swap := rfl

end Battle

/-! ## Fair battles -/

/-- The texts that a fighter brings do not speak of energy or cards. -/
structure Fighter.Fair (f : Fighter α) : Prop where
  abilities : ∀ a ∈ f.abilities, Impartial a.effect.toList
  overflow : ∀ t ∈ f.overflow, Impartial t.toList

/-- The player has no relics, and nobody brings texts that speak of
energy or cards. -/
structure Battle.Fair (b : Battle α) : Prop where
  relics : b.player.relics = []
  fighter (s : Side) : (b.fighter s).Fair

/-- The effect texts of a status. -/
def StatusTriggers.texts (t : StatusTriggers) : List String :=
  Lifecycle.all.flatMap t.get ++ t.events.flatMap Prod.snd

/-- No status has a text that speaks of energy or cards. -/
def Codex.Fair (c : Codex α) : Prop :=
  ∀ d ∈ c.definitions, ∀ t ∈ d.triggers.texts, Impartial t.toList

theorem Codex.Fair.lifecycle {c : Codex α} (h : c.Fair) {id : String} {d : StatusDefinition α}
    (hd : c.get? id = some d) (p : Lifecycle) : ∀ t ∈ d.triggers.get p, Impartial t.toList := by
  intro t ht
  refine h d (List.mem_of_find?_eq_some hd) t (List.mem_append_left _ ?_)
  exact List.mem_flatMap.mpr ⟨p, by cases p <;> decide, ht⟩

theorem Codex.Fair.event {c : Codex α} (h : c.Fair) {id : String} {d : StatusDefinition α}
    (hd : c.get? id = some d) {name : String} {texts : List String}
    (hname : d.triggers.forEvent? name = some texts) : ∀ t ∈ texts, Impartial t.toList := by
  intro t ht
  obtain ⟨before, after, heq, -⟩ := List.lookup_eq_some_iff.mp hname
  refine h d (List.mem_of_find?_eq_some hd) t (List.mem_append_right _ ?_)
  exact List.mem_flatMap.mpr ⟨(name, texts), by simp [heq], ht⟩

theorem Battle.Fair.mapFighter {b : Battle α} (h : b.Fair) (s : Side) {f : Fighter α → Fighter α}
    (hf : ∀ x, x.Fair → (f x).Fair) : (b.mapFighter s f).Fair where
  relics := by
    cases s with
    | player => exact h.relics
    | enemy => exact h.relics
  fighter t := by
    have hthis : ((b.mapFighter s f).fighter s).Fair := by
      rw [Battle.mapFighter, fighter_setFighter_self]
      exact hf _ (h.fighter s)
    by_cases ht : t = s
    · exact ht ▸ hthis
    · obtain rfl : t = s.opponent := by
        cases s <;> cases t <;> first | rfl | exact absurd rfl ht
      rw [Battle.mapFighter, fighter_setFighter_opponent]
      exact h.fighter s.opponent

/-- No other change of a fighter than one of its texts matters. -/
theorem Fighter.Fair.of_texts {f g : Fighter α} (h : f.Fair) (habilities : g.abilities = f.abilities)
    (hoverflow : g.overflow = f.overflow) : g.Fair :=
  ⟨habilities ▸ h.abilities, hoverflow ▸ h.overflow⟩

theorem Fighter.Fair.clearModifiers {f : Fighter α} (h : f.Fair) (names : List String) :
    (names.foldl Fighter.clearModifier f).Fair := by
  induction names generalizing f with
  | nil => exact h
  | cons name names ih => exact ih (h.of_texts rfl rfl)

/-! ## What texts mean -/

variable [Scalar α]

/-- Totals of stacks can be added in either order. -/
class CountsCommute (α : Type) [Scalar α] : Prop where
  add_comm (m n : Nat) : (Scalar.ofNat m + Scalar.ofNat n : α) = Scalar.ofNat n + Scalar.ofNat m

omit [Scalar α] in
theorem modifierTexts_mirror {codex : Codex α} {b : Battle α} (h : b.player.relics = [])
    (side : Side) : modifierTexts codex b.mirror side = modifierTexts codex b side.opponent := by
  have hmirror : b.mirror.player.relics = [] := h
  cases side <;> simp [modifierTexts, Side.opponent, h, hmirror]

theorem Battle.adjustment_mirror {codex : Codex α} {b : Battle α} (h : b.player.relics = [])
    (side : Side) (kind : Modifier) :
    b.mirror.adjustment codex side kind = b.adjustment codex side.opponent kind := by
  unfold adjustment
  rw [modifierTexts_mirror h, fighter_mirror]

namespace Scope

/-- The scope of the other side in the mirrored battle. -/
def mirror (sc : Scope α) : Scope α :=
  { sc with battle := sc.battle.mirror, me := sc.me.opponent, bare := sc.bare.opponent }

variable {sc : Scope α} (hrelics : sc.battle.player.relics = [])
include hrelics

theorem lookup_mirror (side : Side) {name : String} (hname : playerOnlyNames.contains name = false) :
    sc.mirror.lookup side.opponent name = sc.lookup side name := by
  unfold lookup
  simp only [hname, Bool.and_false, Bool.false_eq_true, if_false, mirror, Battle.fighter_mirror,
    Side.opponent_opponent, Battle.adjustment_mirror hrelics]
  rfl

omit hrelics in
theorem stackCount_mirror (side : Side) (key : String) :
    sc.mirror.stackCount side.opponent key = sc.stackCount side key := by
  simp [stackCount, mirror]

omit hrelics in
theorem stacksPath_mirror [CountsCommute α] (path : List Char) :
    sc.mirror.stacksPath path = sc.stacksPath path := by
  have hme (key : String) : sc.mirror.stackCount sc.mirror.me key = sc.stackCount sc.me key :=
    stackCount_mirror sc.me key
  have hop (key : String) :
      sc.mirror.stackCount sc.mirror.me.opponent key = sc.stackCount sc.me.opponent key :=
    stackCount_mirror sc.me.opponent key
  have hplayer (key : String) : sc.mirror.stackCount .player key = sc.stackCount .enemy key :=
    stackCount_mirror .enemy key
  have henemy (key : String) : sc.mirror.stackCount .enemy key = sc.stackCount .player key :=
    stackCount_mirror .player key
  have hcomm (key : String) : sc.stackCount .enemy key + sc.stackCount .player key =
      sc.stackCount .player key + sc.stackCount .enemy key := CountsCommute.add_comm _ _
  simp only [stacksPath, hme, hop, hplayer, henemy, hcomm]

theorem qualifiedPath_mirror {path : List Char} (h : Impartial path) :
    sc.mirror.qualifiedPath path = sc.qualifiedPath path := by
  unfold qualifiedPath
  cases hcut : Text.cutAt? (· == '.') path with
  | none => rfl
  | some r =>
    obtain ⟨side, name⟩ := r
    have hname : playerOnlyNames.contains (String.ofList name) = false :=
      (h.part (Text.suffix_of_cutAt? hcut).isInfix).not_playerOnlyName
    have hme := lookup_mirror hrelics sc.me hname
    have hop := lookup_mirror hrelics sc.me.opponent hname
    simp only [Option.bind_some]
    rw [← hme, ← hop]
    rfl

theorem barePath_mirror {path : List Char} (h : Impartial path) :
    sc.mirror.barePath path = sc.barePath path := by
  unfold barePath
  rw [← lookup_mirror hrelics sc.bare h.not_playerOnlyName]
  rfl

theorem resolve_mirror [CountsCommute α] {path : List Char} (h : Impartial path) :
    sc.mirror.resolve path = sc.resolve path := by
  unfold resolve
  rw [stacksPath_mirror, qualifiedPath_mirror hrelics h,
    ← lookup_mirror hrelics sc.bare h.not_playerOnlyName]
  rfl

variable [CountsCommute α] [SpellsNumbers α]

/-- Each pass puts in the same numbers, and what it makes of the text
does not speak of energy or cards either. -/
theorem substitute_mirror {cs : List Char} (h : Impartial cs) :
    sc.mirror.substitute cs = sc.substitute cs := by
  have hsame {value? value'? : List Char → Option α}
      (hvalue : ∀ p, Impartial p → value? p = value'? p) {cs : List Char} (h : Impartial cs) :
      mapPaths (fun p => (value? p).map spell) cs = mapPaths (fun p => (value'? p).map spell) cs :=
    h.mapPaths_congr fun p hp => by rw [hvalue p hp]
  have hspell (value? : List Char → Option α) {cs : List Char} (h : Impartial cs) :
      Impartial (mapPaths (fun p => (value? p).map spell) cs) := by
    refine h.mapPaths fun p out _ hout => ?_
    obtain ⟨x, -, rfl⟩ := Option.map_eq_some_iff.mp hout
    exact .spell x
  have hfirst := hspell sc.stacksPath h
  simp only [substitute]
  rw [hsame (fun p _ => stacksPath_mirror p) h,
    hsame (fun p hp => qualifiedPath_mirror hrelics hp) hfirst,
    hsame (fun p hp => barePath_mirror hrelics hp) (hspell sc.qualifiedPath hfirst)]

theorem evaluate_mirror {cs : List Char} (h : Impartial cs) :
    sc.mirror.evaluate cs = sc.evaluate cs := by
  rw [evaluate, evaluate, substitute_mirror hrelics h]

theorem condition_mirror {cs : List Char} (h : Impartial cs) :
    sc.mirror.condition cs = sc.condition cs := by
  rw [condition, condition, substitute_mirror hrelics h]

/-- The value of a unit that does not speak of energy or cards. -/
theorem value_mirror {c : Clause α} (h : c.Impartial) : c.value sc.mirror = c.value sc := by
  have hpart {o : Operand α} (ho : c.form.operand? = some o) {t : String} (ht : o.text? = some t) :
      Impartial t.toList := by
    refine h.parts t ?_
    cases hform : c.form with
    | branch => simp [hform, Form.operand?] at ho
    | _ =>
      rw [hform] at ho
      simp [Form.parts, ho, ht]
  unfold Clause.value
  cases ho : c.form.operand? with
  | none => rfl
  | some o =>
    cases o with
    | literal x => rfl
    | payload t => rfl
    | path p =>
      dsimp only
      rw [resolve_mirror hrelics (hpart ho rfl)]
    | formula f =>
      dsimp only
      rw [evaluate_mirror hrelics (hpart ho rfl)]

end Scope

/-! ## Running battles -/

omit [Scalar α] in
/-- The side that a unit acts on is the other one for the other side. -/
theorem Clause.side_mirror {c : Clause α} (h : isPlayerOnly c.attr = false) (me : Side)
    {ctx ctx' : Context α} (htarget : ctx'.target = ctx.target) :
    c.side me.opponent ctx' = (c.side me ctx).map Side.opponent := by
  unfold side
  rw [htarget, h]
  split
  · rfl
  · cases c.target.or ctx.target with
    | none => rfl
    | some t => cases t <;> rfl

/-- A running battle and its mirror, both with `d` texts running, while
nothing speaks of energy or cards. -/
structure Mirrored (catalog : Catalog) (d : Nat) (l m : Live α) : Prop where
  battle : m.battle = l.battle.mirror
  left : l.depth = d
  right : m.depth = d
  overflowing : m.overflowing = l.overflowing.swap
  abilitiesMade : m.abilitiesMade = l.abilitiesMade
  questions : m.questions = l.questions
  memo : l.memo.Faithful catalog ∧ m.memo.Faithful catalog
  fair : l.battle.Fair

/-- Two contexts that units read the same from, cards left aside. -/
structure Context.Meets (c c' : Context α) : Prop where
  target : c'.target = c.target
  energyBefore : c'.energyBefore = c.energyBefore

namespace Mirrored

variable {catalog : Catalog} {d : Nat} {l m : Live α}

theorem fighter (h : Mirrored catalog d l m) (side : Side) :
    m.fighter side.opponent = l.fighter side := by
  rw [Live.fighter, h.battle, Battle.fighter_mirror, Side.opponent_opponent]
  rfl

theorem scope (h : Mirrored catalog d l m) (s : Setting α) (me target : Side) {c c' : Context α}
    (hc : c.Meets c') :
    m.scope s me.opponent target.opponent c' = (l.scope s me target c).mirror := by
  rw [Live.scope, h.battle, hc.energyBefore]
  rfl

/-! ### Notes -/

/-- What is noted does not matter here. -/
theorem write (h : Mirrored catalog d l m) (n n' : Note α) :
    Mirrored catalog d (l.write n) (m.write n') :=
  { h with }

theorem emit (h : Mirrored catalog d l m) (e e' : Event α) :
    Mirrored catalog d (l.emit e) (m.emit e') := h.write _ _

theorem reportChange (h : Mirrored catalog d l m) (side side' : Side) (attr : String)
    (before after : α) :
    Mirrored catalog d (l.reportChange side attr before after)
      (m.reportChange side' attr before after) := by
  unfold Live.reportChange
  split
  · exact h
  · exact h.emit _ _

/-! ### Stats -/

theorem mapFighter (h : Mirrored catalog d l m) (side : Side) {f : Fighter α → Fighter α}
    (hf : ∀ x, x.Fair → (f x).Fair) :
    Mirrored catalog d (l.mapFighter side f) (m.mapFighter side.opponent f) where
  battle := by
    show m.battle.mapFighter side.opponent f = (l.battle.mapFighter side f).mirror
    rw [h.battle, Battle.mirror_mapFighter]
  left := h.left
  right := h.right
  overflowing := h.overflowing
  abilitiesMade := h.abilitiesMade
  questions := h.questions
  memo := h.memo
  fair := h.fair.mapFighter side hf

theorem mapFallen (h : Mirrored catalog d l m) (f f' : Both Bool → Both Bool)
    (hf : ∀ b, f' b.swap = (f b).swap) :
    Mirrored catalog d (l.mapBattle fun b => { b with fallen := f b.fallen })
      (m.mapBattle fun b => { b with fallen := f' b.fallen }) where
  battle := by
    simp only [Live.mapBattle, h.battle, Battle.fallen_mirror, hf]
    rfl
  left := h.left
  right := h.right
  overflowing := h.overflowing
  abilitiesMade := h.abilitiesMade
  questions := h.questions
  memo := h.memo
  fair := ⟨h.fair.relics, fun s => by cases s <;> [exact h.fair.fighter .player; exact h.fair.fighter .enemy]⟩

theorem markFallen (h : Mirrored catalog d l m) (side : Side) :
    Mirrored catalog d (l.markFallen side) (m.markFallen side.opponent) := by
  unfold Live.markFallen
  rw [h.fighter]
  split
  · exact h.mapFallen (fun b => b.set side true) (fun b => b.set side.opponent true)
      fun b => (b.swap_set side true).symm
  · exact h

theorem commitHp (h : Mirrored catalog d l m) (side : Side) (next : α) :
    Mirrored catalog d (l.commitHp side next) (m.commitHp side.opponent next) := by
  have hstored := h.mapFighter side
    (f := fun f => { f with hp := Scalar.roundTenth (Scalar.clamp 0 f.maxHp next) })
    fun x hx => hx.of_texts rfl rfl
  unfold Live.commitHp
  dsimp only
  rw [h.fighter, hstored.fighter]
  split
  · exact (hstored.reportChange _ _ _ _ _).markFallen _
  · exact h

theorem commitLust (h : Mirrored catalog d l m) (side : Side) (next : α) :
    Mirrored catalog d (l.commitLust side next) (m.commitLust side.opponent next) := by
  have hstored := h.mapFighter side
    (f := fun f => { f with lust := Scalar.roundTenth (Scalar.clamp 0 f.maxLust next) })
    fun x hx => hx.of_texts rfl rfl
  unfold Live.commitLust
  dsimp only
  rw [h.fighter, hstored.fighter]
  exact hstored.reportChange _ _ _ _ _

theorem commitBlock (h : Mirrored catalog d l m) (side : Side) (next : α) :
    Mirrored catalog d (l.commitBlock side next) (m.commitBlock side.opponent next) := by
  have hstored := h.mapFighter side
    (f := fun f => { f with block := Scalar.roundTenth (Scalar.atLeast 0 next) })
    fun x hx => hx.of_texts rfl rfl
  unfold Live.commitBlock
  dsimp only
  rw [h.fighter, hstored.fighter]
  exact hstored.reportChange _ _ _ _ _

theorem settle (h : Mirrored catalog d l m) (side : Side) :
    Mirrored catalog d (l.settle side) (m.settle side.opponent) := by
  have hs := h.mapFighter side (f := Fighter.settle) fun x hx => hx.of_texts rfl rfl
  have hhp := hs.reportChange side side.opponent "hp" (l.fighter side).hp
    ((l.mapFighter side Fighter.settle).fighter side).hp
  unfold Live.settle
  dsimp only
  rw [h.fighter, hs.fighter, hhp.fighter]
  exact hhp.reportChange _ _ _ _ _

theorem commitMaxHp (h : Mirrored catalog d l m) (side : Side) (next : α) :
    Mirrored catalog d (l.commitMaxHp side next) (m.commitMaxHp side.opponent next) := by
  have hstored := h.mapFighter side (f := fun f => { f with maxHp := maximum next })
    fun x hx => hx.of_texts rfl rfl
  unfold Live.commitMaxHp
  dsimp only
  rw [h.fighter, hstored.fighter]
  exact (hstored.reportChange _ _ _ _ _).settle _

theorem commitMaxLust (h : Mirrored catalog d l m) (side : Side) (next : α) :
    Mirrored catalog d (l.commitMaxLust side next) (m.commitMaxLust side.opponent next) := by
  have hstored := h.mapFighter side (f := fun f => { f with maxLust := maximum next })
    fun x hx => hx.of_texts rfl rfl
  unfold Live.commitMaxLust
  dsimp only
  rw [h.fighter, hstored.fighter]
  exact (hstored.reportChange _ _ _ _ _).settle _

theorem clearLust (h : Mirrored catalog d l m) (side : Side) :
    Mirrored catalog d (l.clearLust side) (m.clearLust side.opponent) := by
  unfold Live.clearLust
  rw [h.fighter]
  refine reportChange (h.mapFighter side fun x hx => ?_) _ _ _ _ _
  exact hx.of_texts rfl rfl

theorem markOverflow (h : Mirrored catalog d l m) (side : Side) (begun : Bool) :
    Mirrored catalog d (l.markOverflow side begun) (m.markOverflow side.opponent begun) :=
  { h with
    overflowing := by
      show m.overflowing.set side.opponent begun = (l.overflowing.set side begun).swap
      rw [h.overflowing, Both.swap_set] }

/-- A hit comes to the same for the other side. -/
theorem strike (h : Mirrored catalog d l m) (target : Side) (amount : α) :
    (m.strike target.opponent amount).1 = (l.strike target amount).1 ∧
      Mirrored catalog d (l.strike target amount).2 (m.strike target.opponent amount).2 := by
  have hblock := h.commitBlock target
    ((l.fighter target).block - Scalar.least (l.fighter target).block amount)
  have hhp := hblock.commitHp target ((l.fighter target).hp -
    (amount - Scalar.least (l.fighter target).block amount))
  unfold Live.strike
  dsimp only
  rw [h.fighter, hhp.fighter]
  exact ⟨rfl, hhp.emit _ _⟩

/-! ### Statuses and abilities -/

theorem gainStatus (h : Mirrored catalog d l m) (holder : Side) (sd : StatusDefinition α)
    (stackCount : Nat) :
    Mirrored catalog d (l.gainStatus holder sd stackCount)
      (m.gainStatus holder.opponent sd stackCount) := by
  refine emit (h.mapFighter holder fun x hx => ?_) _ _
  exact hx.of_texts rfl rfl

theorem loseStatus (h : Mirrored catalog d l m) (holder : Side) (id : String)
    (sd : Option (StatusDefinition α)) :
    Mirrored catalog d (l.loseStatus holder id sd) (m.loseStatus holder.opponent id sd) := by
  unfold Live.loseStatus
  rw [h.fighter]
  split
  · refine emit (h.mapFighter holder fun x hx => ?_) _ _
    exact Fighter.Fair.clearModifiers (f := x.dropStatus id) (hx.of_texts rfl rfl) _
  · exact h

theorem commitStacks (h : Mirrored catalog d l m) (holder : Side) (id : String)
    (stackCount : Nat) :
    Mirrored catalog d (l.commitStacks holder id stackCount)
      (m.commitStacks holder.opponent id stackCount) := by
  unfold Live.commitStacks
  dsimp only
  rw [h.fighter]
  split
  · exact h
  · refine emit (h.mapFighter holder fun x hx => ?_) _ _
    unfold Fighter.setStacks
    split
    · exact hx.of_texts rfl rfl
    · exact hx

theorem addAbility? (h : Mirrored catalog d l m) (side : Side) {effect : String}
    (heffect : Impartial effect.toList) :
    (m.addAbility? side.opponent effect).1 = (l.addAbility? side effect).1 ∧
      Mirrored catalog d (l.addAbility? side effect).2 (m.addAbility? side.opponent effect).2 := by
  have hmade : Mirrored catalog d { l with abilitiesMade := l.abilitiesMade + 1 }
      { m with abilitiesMade := m.abilitiesMade + 1 } :=
    { h with abilitiesMade := congrArg (· + 1) h.abilitiesMade }
  unfold Live.addAbility?
  dsimp only
  rw [h.abilitiesMade] at hmade ⊢
  split
  · exact ⟨rfl, hmade⟩
  · next a hadded =>
    refine ⟨rfl, emit (hmade.mapFighter side fun x hx => ?_) _ _⟩
    refine ⟨fun b hb => ?_, hx.overflow⟩
    rcases List.mem_append.mp hb with hb | hb
    · exact hx.abilities b hb
    · obtain ⟨hmake, -⟩ := Option.filter_eq_some_iff.mp hadded
      obtain ⟨r, -, hr⟩ := Option.map_eq_some_iff.mp hmake
      rw [List.mem_singleton.mp hb, ← hr]
      exact heffect

theorem removeAbilities (h : Mirrored catalog d l m) (side : Side) (key : String) :
    Mirrored catalog d (l.removeAbilities side key).2 (m.removeAbilities side.opponent key).2 := by
  have hkept : ∀ a ∈ (l.fighter side).abilities.filter fun a => !Live.meantBy key a,
      Impartial a.effect.toList := fun a ha =>
    (h.fair.fighter side).abilities a (List.mem_filter.mp ha).1
  unfold Live.removeAbilities
  dsimp only
  rw [h.fighter]
  exact h.mapFighter side fun x hx => ⟨hkept, hx.overflow⟩

/-! ### Texts -/

theorem enter (h : Mirrored catalog d l m) (text : String) (me : Side) :
    Mirrored catalog (d + 1) (l.enter text me) (m.enter text me.opponent) := by
  have hdeeper {l m : Live α} (h : Mirrored catalog d l m) :
      Mirrored catalog (d + 1) { l with depth := l.depth + 1 } { m with depth := m.depth + 1 } :=
    { h with left := congrArg (· + 1) h.left, right := congrArg (· + 1) h.right }
  unfold Live.enter
  rw [h.left, h.right]
  split
  · exact (hdeeper (h.mapFallen (fun _ => .same false) (fun _ => .same false) fun _ => rfl)).write _ _
  · exact (hdeeper h).write _ _

end Mirrored

/-! ## The end of a batch -/

theorem Live.hasFallen_mirror (b : Battle α) (s : Side) :
    hasFallen b.mirror s = hasFallen b s.opponent := by
  simp [hasFallen]

/-- The player wins if both sides fell; otherwise the winner is the other
one in the mirror. -/
theorem Live.winner?_mirror {b : Battle α} (h : ¬ ∀ s, hasFallen b s = true) :
    winner? b.mirror = (winner? b).map Side.opponent := by
  unfold winner?
  rw [hasFallen_mirror, hasFallen_mirror]
  show (if hasFallen b .player = true then some Side.player
      else if hasFallen b .enemy = true then some Side.enemy else none) =
    (if hasFallen b .enemy = true then some Side.player
      else if hasFallen b .player = true then some Side.enemy else none).map Side.opponent
  cases henemy : hasFallen b .enemy with
  | false => cases hasFallen b .player <;> rfl
  | true =>
    cases hplayer : hasFallen b .player with
    | false => rfl
    | true => exact absurd (fun s => by cases s <;> assumption) h

namespace Mirrored

variable {catalog : Catalog} {d : Nat} {l m : Live α}

theorem decideFallen (h : Mirrored catalog d l m)
    (hend : ¬ ∀ s, Live.hasFallen l.battle s = true) :
    Mirrored catalog d l.decideFallen m.decideFallen := by
  unfold Live.decideFallen
  rw [h.battle, Battle.isOver_mirror, Live.winner?_mirror hend]
  split
  · exact h.mapFallen (fun _ => .same false) (fun _ => .same false) fun _ => rfl
  · cases Live.winner? l.battle with
    | none => exact h
    | some winner =>
      have hover : Mirrored catalog d
          (l.mapBattle fun b =>
            { b with fallen := .same false, outcome := some (.ofWinner winner) })
          (m.mapBattle fun b =>
            { b with fallen := .same false, outcome := some (.ofWinner winner.opponent) }) :=
        { h with
          battle := by
            simp only [Live.mapBattle, h.battle, ← Outcome.mirror_ofWinner]
            rfl
          fair := ⟨h.fair.relics, fun s => by
            cases s <;> [exact h.fair.fighter .player; exact h.fair.fighter .enemy]⟩ }
      exact hover.emit _ _

/-- A text that is not the outermost one decides nothing. -/
theorem leave (h : Mirrored catalog (d + 1) l m)
    (hend : d = 0 → ¬ ∀ s, Live.hasFallen l.battle s = true) :
    Mirrored catalog d l.leave m.leave := by
  have hup : Mirrored catalog d { l with depth := d } { m with depth := d } :=
    { h with left := rfl, right := rfl }
  unfold Live.leave
  simp only [h.left, h.right, Nat.add_sub_cancel]
  split
  · next hd => exact hup.decideFallen (hend hd)
  · exact hup

end Mirrored
end DeckDuel
