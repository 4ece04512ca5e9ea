/-
DeckDuel.Proofs.Grammar — what the formula reader accepts, and what it
says the formula is worth.

* `Term.Evaluates` — the meaning of formulas as rules, one for each way
  in which a tree can have a value. `Term.value_eq_some_iff` shows that
  the evaluator follows them.
* `Term.Within` is the grammar: one level for each binding power, every
  binary operator grouping to the left.
* `Formula.readsSoundly` — what is read is a tree of the grammar, it was
  written with the tokens that were read, and no operator that could
  have gone on with it was left.
* `Formula.readTerm_tokens` — the tokens of a tree are read as that
  tree.
* `Formula.run_eq_some_iff` — so a token list has a value exactly if it
  is the yield of a tree that has this value, and there is one such tree
  only.
-/
import DeckDuel.Formula.Parser

namespace DeckDuel.Formula

variable {α : Type}

/-! ## Meaning -/

/-- What formulas are worth, by rules. Numbers and truth values are kept
apart, nothing is divided by zero, and the right operand of `and` and
`or` has to be a truth value only where the left one does not decide. -/
inductive Term.Evaluates [Scalar α] : Term α → Value α → Prop where
  | number (x : α) : Evaluates (.number x) (.number x)
  | group {t : Term α} {v : Value α} : Evaluates t v → Evaluates (.group t) v
  | plus {t : Term α} {x : α} :
      Evaluates t (.number x) → Evaluates (.signed .plus t) (.number x)
  | minus {t : Term α} {x : α} :
      Evaluates t (.number x) → Evaluates (.signed .minus t) (.number (-x))
  | not {t : Term α} {b : Bool} :
      Evaluates t (.truth b) → Evaluates (.signed .not t) (.truth !b)
  | add {l r : Term α} {x y : α} : Evaluates l (.number x) → Evaluates r (.number y) →
      Evaluates (.binary .plus l r) (.number (x + y))
  | subtract {l r : Term α} {x y : α} : Evaluates l (.number x) → Evaluates r (.number y) →
      Evaluates (.binary .minus l r) (.number (x - y))
  | multiply {l r : Term α} {x y : α} : Evaluates l (.number x) → Evaluates r (.number y) →
      Evaluates (.binary .times l r) (.number (x * y))
  | divide {l r : Term α} {x y : α} : Evaluates l (.number x) → Evaluates r (.number y) →
      (y == 0) = false → Evaluates (.binary .dividedBy l r) (.number (x / y))
  | less {l r : Term α} {x y : α} : Evaluates l (.number x) → Evaluates r (.number y) →
      Evaluates (.binary .less l r) (.truth (decide (x < y)))
  | lessEq {l r : Term α} {x y : α} : Evaluates l (.number x) → Evaluates r (.number y) →
      Evaluates (.binary .lessEq l r) (.truth (decide (x ≤ y)))
  | greater {l r : Term α} {x y : α} : Evaluates l (.number x) → Evaluates r (.number y) →
      Evaluates (.binary .greater l r) (.truth (decide (y < x)))
  | greaterEq {l r : Term α} {x y : α} : Evaluates l (.number x) → Evaluates r (.number y) →
      Evaluates (.binary .greaterEq l r) (.truth (decide (y ≤ x)))
  | equal {l r : Term α} {v w : Value α} : Evaluates l v → Evaluates r w →
      Evaluates (.binary .equal l r) (.truth (v.same w))
  | unequal {l r : Term α} {v w : Value α} : Evaluates l v → Evaluates r w →
      Evaluates (.binary .unequal l r) (.truth !(v.same w))
  | andDecided {l r : Term α} {w : Value α} : Evaluates l (.truth false) → Evaluates r w →
      Evaluates (.binary .and l r) (.truth false)
  | andOpen {l r : Term α} {b : Bool} : Evaluates l (.truth true) → Evaluates r (.truth b) →
      Evaluates (.binary .and l r) (.truth b)
  | orDecided {l r : Term α} {w : Value α} : Evaluates l (.truth true) → Evaluates r w →
      Evaluates (.binary .or l r) (.truth true)
  | orOpen {l r : Term α} {b : Bool} : Evaluates l (.truth false) → Evaluates r (.truth b) →
      Evaluates (.binary .or l r) (.truth b)

theorem Value.number?_eq_some {v : Value α} {x : α} : v.number? = some x ↔ v = .number x := by
  cases v <;> simp [Value.number?]

theorem Value.truth?_eq_some {v : Value α} {b : Bool} : v.truth? = some b ↔ v = .truth b := by
  cases v <;> simp [Value.truth?]

section

variable [Scalar α]

omit [Scalar α] in
theorem onNumbers_eq_some {f : α → α → Value α} {v w u : Value α} :
    onNumbers f v w = some u ↔ ∃ x y, v = .number x ∧ w = .number y ∧ u = f x y := by
  simp only [onNumbers, Option.bind_eq_some_iff, Option.map_eq_some_iff, Value.number?_eq_some]
  constructor
  · rintro ⟨x, rfl, y, rfl, rfl⟩
    exact ⟨x, y, rfl, rfl, rfl⟩
  · rintro ⟨x, y, rfl, rfl, rfl⟩
    exact ⟨x, rfl, y, rfl, rfl⟩

/-- An applied sign is worth what the rule of the sign says. -/
theorem Term.Evaluates.of_sign {s : Sign} {t : Term α} {v w : Value α} (ht : t.Evaluates v)
    (h : s.apply v = some w) : (Term.signed s t).Evaluates w := by
  cases s with
  | plus =>
    obtain ⟨x, hx, rfl⟩ := Option.map_eq_some_iff.mp h
    rw [Value.number?_eq_some.mp hx] at ht
    exact .plus ht
  | minus =>
    obtain ⟨x, hx, rfl⟩ := Option.map_eq_some_iff.mp h
    rw [Value.number?_eq_some.mp hx] at ht
    exact .minus ht
  | not =>
    obtain ⟨b, hb, rfl⟩ := Option.map_eq_some_iff.mp h
    rw [Value.truth?_eq_some.mp hb] at ht
    exact .not ht

/-- An applied operator is worth what the rule of the operator says. -/
theorem Term.Evaluates.of_operator {o : Operator} {l r : Term α} {v w u : Value α}
    (hl : l.Evaluates v) (hr : r.Evaluates w) (h : o.apply v w = some u) :
    (Term.binary o l r).Evaluates u := by
  cases o with
  | plus | minus | times | less | lessEq | greater | greaterEq =>
    obtain ⟨x, y, rfl, rfl, rfl⟩ := onNumbers_eq_some.mp h
    constructor <;> assumption
  | dividedBy =>
    obtain ⟨y, hy, h⟩ := Option.bind_eq_some_iff.mp h
    rw [Value.number?_eq_some.mp hy] at hr
    split at h
    · cases h
    · next hzero =>
      obtain ⟨x, hx, rfl⟩ := Option.map_eq_some_iff.mp h
      rw [Value.number?_eq_some.mp hx] at hl
      exact .divide hl hr (by simpa using hzero)
  | equal =>
    cases h
    exact .equal hl hr
  | unequal =>
    cases h
    exact .unequal hl hr
  | and =>
    obtain ⟨b, hb, h⟩ := Option.bind_eq_some_iff.mp h
    rw [Value.truth?_eq_some.mp hb] at hl
    cases b with
    | false =>
      cases h
      exact .andDecided hl hr
    | true =>
      obtain ⟨c, hc, rfl⟩ := Option.map_eq_some_iff.mp h
      rw [Value.truth?_eq_some.mp hc] at hr
      exact .andOpen hl hr
  | or =>
    obtain ⟨b, hb, h⟩ := Option.bind_eq_some_iff.mp h
    rw [Value.truth?_eq_some.mp hb] at hl
    cases b with
    | true =>
      cases h
      exact .orDecided hl hr
    | false =>
      obtain ⟨c, hc, rfl⟩ := Option.map_eq_some_iff.mp h
      rw [Value.truth?_eq_some.mp hc] at hr
      exact .orOpen hl hr

/-- The evaluator follows the rules, and every rule is followed. -/
theorem Term.value_eq_some_iff {t : Term α} {v : Value α} : t.value = some v ↔ t.Evaluates v := by
  constructor
  · intro h
    induction t generalizing v with
    | number x =>
      cases h
      exact .number x
    | signed s t ih =>
      obtain ⟨w, hw, hs⟩ := Option.bind_eq_some_iff.mp h
      exact (ih hw).of_sign hs
    | binary o l r ihl ihr =>
      obtain ⟨a, ha, h⟩ := Option.bind_eq_some_iff.mp h
      obtain ⟨b, hb, ho⟩ := Option.bind_eq_some_iff.mp h
      exact (ihl ha).of_operator (ihr hb) ho
    | group t ih => exact .group (ih h)
  · intro h
    induction h with
    | number | group _ ih => first | rfl | exact ih
    | divide _ _ hzero ihl ihr =>
      simp [Term.value, ihl, ihr, Operator.apply, Value.number?, hzero]
    | _ => simp_all [Term.value, Operator.apply, Sign.apply, onNumbers, Value.number?, Value.truth?]

end

/-! ## Reading -/

/-- No operator that binds tighter than `power` comes next. -/
def Stops (power : Nat) (ts : List (Token α)) : Prop :=
  ∀ o rest, ts = .operator o :: rest → o.power ≤ power

theorem Operator.power_le (o : Operator) : o.power ≤ signPower := by
  cases o <;> decide

theorem Operator.power_pos (o : Operator) : 0 < o.power := by
  cases o <;> decide

theorem stops_signPower (ts : List (Token α)) : Stops signPower ts := fun o _ _ => o.power_le

theorem Stops.mono {p q : Nat} {ts : List (Token α)} (h : Stops p ts) (hle : p ≤ q) : Stops q ts :=
  fun o rest heq => Nat.le_trans (h o rest heq) hle

/-- A tree that stands under some power stands under every lower one. -/
theorem Term.Within.mono {p q : Nat} {t : Term α} (h : t.Within q) (hle : p ≤ q) : t.Within p := by
  cases h with
  | number x => exact .number x
  | signed s ht => exact .signed s ht
  | binary hpower hl hr => exact .binary (Nat.lt_of_le_of_lt hle hpower) hl hr
  | group ht => exact .group ht

/-- What the three readers guarantee with some number of steps. A tail
continues a tree `l` that may be the left operand of the operator that
comes next. -/
structure ReadsSoundly (α : Type) (steps : Nat) : Prop where
  term : ∀ {p : Nat} {ts rest : List (Token α)} {t : Term α},
    readTerm steps p ts = some (t, rest) → t.Within p ∧ ts = t.tokens ++ rest ∧ Stops p rest
  operand : ∀ {ts rest : List (Token α)} {t : Term α},
    readOperand steps ts = some (t, rest) → (∀ q, t.Within q) ∧ ts = t.tokens ++ rest
  tail : ∀ {p : Nat} {l t : Term α} {ts rest : List (Token α)},
    l.Within p → (∀ o ts', ts = .operator o :: ts' → l.Within (o.power - 1)) →
      readTail steps p l ts = some (t, rest) →
        t.Within p ∧ l.tokens ++ ts = t.tokens ++ rest ∧ Stops p rest

theorem ReadsSoundly.signed {steps : Nat} (ih : ReadsSoundly α steps) {s : Sign} {t : Term α}
    {ts rest : List (Token α)}
    (h : ((readTerm steps signPower ts).map fun r => (Term.signed s r.1, r.2)) = some (t, rest)) :
    (∀ q, t.Within q) ∧ s.token :: ts = t.tokens ++ rest := by
  obtain ⟨⟨u, later⟩, hread, heq⟩ := Option.map_eq_some_iff.mp h
  obtain ⟨hwithin, htokens, -⟩ := ih.term hread
  cases heq
  exact ⟨fun _ => .signed s hwithin, by rw [htokens]; rfl⟩

theorem ReadsSoundly.readOperand {steps : Nat} (ih : ReadsSoundly α steps) {t : Term α}
    {ts rest : List (Token α)} (h : readOperand (steps + 1) ts = some (t, rest)) :
    (∀ q, t.Within q) ∧ ts = t.tokens ++ rest := by
  rw [Formula.readOperand.eq_def] at h
  dsimp only at h
  split at h
  · cases h
    exact ⟨fun _ => .number _, rfl⟩
  · exact ih.signed (s := .plus) h
  · exact ih.signed (s := .minus) h
  · exact ih.signed (s := .not) h
  · split at h
    · next u later hread =>
      obtain ⟨hwithin, htokens, -⟩ := ih.term hread
      cases h
      refine ⟨fun _ => .group hwithin, ?_⟩
      rw [htokens]
      simp [Term.tokens]
    · cases h
  · cases h

theorem ReadsSoundly.readTail {steps : Nat} (ih : ReadsSoundly α steps) {p : Nat} {l t : Term α}
    {ts rest : List (Token α)} (hl : l.Within p)
    (hleft : ∀ o ts', ts = .operator o :: ts' → l.Within (o.power - 1))
    (h : readTail (steps + 1) p l ts = some (t, rest)) :
    t.Within p ∧ l.tokens ++ ts = t.tokens ++ rest ∧ Stops p rest := by
  rw [Formula.readTail.eq_def] at h
  dsimp only at h
  split at h
  · next o ts' =>
    split at h
    · next hpower =>
      split at h
      · cases h
      · next r later hread =>
        obtain ⟨hr, hts, hstops⟩ := ih.term hread
        have hbinary {q : Nat} (hq : q < o.power) : (Term.binary o l r).Within q :=
          .binary hq (hleft o ts' rfl) hr
        -- the operator that comes after the right operand binds no tighter than `o`
        obtain ⟨ht, htokens, hend⟩ := ih.tail (hbinary hpower)
          (fun o' ts'' heq => hbinary (by have := hstops o' ts'' heq; have := o'.power_pos; omega)) h
        refine ⟨ht, ?_, hend⟩
        rw [← htokens, hts]
        simp [Term.tokens]
    · next hpower =>
      cases h
      refine ⟨hl, rfl, ?_⟩
      intro o' ts'' heq
      cases heq
      omega
  · next hnone =>
    cases h
    exact ⟨hl, rfl, fun o ts' heq => absurd heq (hnone o ts')⟩

/-- The readers are sound with any number of steps, by induction on
it. -/
theorem readsSoundly (steps : Nat) : ReadsSoundly α steps := by
  induction steps with
  | zero =>
    constructor
    · intro p ts rest t h
      cases h
    · intro ts rest t h
      cases h
    · intro p l t ts rest _ _ h
      cases h
  | succ steps ih =>
    refine ⟨fun {p ts rest t} h => ?_, ih.readOperand, ih.readTail⟩
    rw [readTerm.eq_def] at h
    dsimp only at h
    split at h
    · cases h
    · next u later hread =>
      obtain ⟨hu, hts⟩ := ih.operand hread
      obtain ⟨ht, htokens, hstops⟩ := ih.tail (hu p) (fun o _ _ => hu (o.power - 1)) h
      exact ⟨ht, by rw [hts, htokens], hstops⟩

/-! ## Completeness -/

theorem readTail_of_stops {p left : Nat} (hleft : 0 < left) {rest : List (Token α)}
    (h : Stops p rest) (t : Term α) : readTail left p t rest = some (t, rest) := by
  obtain ⟨k, rfl⟩ : ∃ k, left = k + 1 := ⟨left - 1, by omega⟩
  rw [readTail.eq_def]
  dsimp only
  split
  · next o later =>
    have hle : o.power ≤ p := h o later rfl
    rw [if_neg (by omega)]
  · rfl

theorem readOperand_sign (steps : Nat) (s : Sign) (ts : List (Token α)) :
    readOperand (steps + 1) (s.token :: ts) =
      (readTerm steps signPower ts).map fun r => (.signed s r.1, r.2) := by
  cases s <;> rfl

theorem readTerm_of_readOperand {steps p : Nat} {t : Term α} {ts rest : List (Token α)}
    (h : readOperand steps ts = some (t, rest)) :
    readTerm (steps + 1) p ts = readTail steps p t rest := by
  rw [readTerm.eq_def]
  dsimp only
  rw [h]

/-- An operator that binds tighter takes the term after it. -/
theorem readTail_operator {steps p : Nat} {o : Operator} (hpower : p < o.power) {l r : Term α}
    {ts rest : List (Token α)} (h : readTerm steps o.power ts = some (r, rest)) :
    readTail (steps + 1) p l (.operator o :: ts) = readTail steps p (.binary o l r) rest := by
  rw [readTail.eq_def]
  dsimp only
  rw [if_pos hpower, h]

theorem readOperand_group {steps : Nat} {t : Term α} {ts rest : List (Token α)}
    (h : readTerm steps 0 ts = some (t, .closing :: rest)) :
    readOperand (steps + 1) (.opening :: ts) = some (.group t, rest) := by
  rw [readOperand.eq_def]
  dsimp only
  rw [h]

theorem stops_closing (p : Nat) (rest : List (Token α)) : Stops p (.closing :: rest) := by
  intro o ts heq
  cases heq

theorem stops_nil (p : Nat) : Stops p ([] : List (Token α)) := by
  intro o ts heq
  cases heq

/-- A tree is read up to the operator after it, at the expense of two
steps for each of its tokens; from there on its reader goes on with
what comes next. By induction on the tree: the operator of a binary tree
is what comes after its left operand. -/
theorem readTerm_tokens {q : Nat} {t : Term α} (h : t.Within q) {p n : Nat} (hp : p ≤ q)
    {rest : List (Token α)} (hrest : Stops (q + 1) rest) (hsteps : 2 * t.tokens.length ≤ n) :
    ∃ left, n < left + 2 * t.tokens.length ∧
      readTerm (n + 1) p (t.tokens ++ rest) = readTail left p t rest := by
  induction h generalizing p n rest with
  | number x =>
    simp only [Term.tokens, List.length_singleton] at hsteps ⊢
    obtain ⟨k, rfl⟩ : ∃ k, n = k + 1 := ⟨n - 1, by omega⟩
    exact ⟨k + 1, by omega, rfl⟩
  | @signed _ s t ht ih =>
    simp only [Term.tokens, List.length_cons] at hsteps ⊢
    obtain ⟨k, rfl⟩ : ∃ k, n = k + 2 := ⟨n - 2, by omega⟩
    obtain ⟨left, hleft, hread⟩ := ih (p := signPower) (n := k) (Nat.le_refl _)
      ((stops_signPower rest).mono (by omega)) (by omega)
    rw [readTail_of_stops (by omega) (stops_signPower rest)] at hread
    have hoperand : readOperand (k + 2) (s.token :: (t.tokens ++ rest)) =
        some (.signed s t, rest) := by
      rw [readOperand_sign, hread]
      rfl
    exact ⟨k + 2, by omega, readTerm_of_readOperand hoperand⟩
  | @binary q o l r hpower hl hr ihl ihr =>
    simp only [Term.tokens, List.length_append, List.length_cons] at hsteps ⊢
    have hpos : 0 < o.power := o.power_pos
    -- the left operand is read up to the operator
    have hnext : Stops (o.power - 1 + 1) (.operator o :: (r.tokens ++ rest)) := by
      intro o' ts heq
      cases heq
      omega
    obtain ⟨left, hleft, hreadl⟩ := ihl (p := p) (n := n) (by omega) hnext (by omega)
    obtain ⟨k, rfl⟩ : ∃ k, left = k + 2 := ⟨left - 2, by omega⟩
    -- the right operand is read to its end, for no operator after it binds tighter
    have hend : Stops o.power rest := hrest.mono (by omega)
    obtain ⟨left', hleft', hreadr⟩ := ihr (p := o.power) (n := k)
      (Nat.le_refl _) (hend.mono (by omega)) (by omega)
    rw [readTail_of_stops (by omega) hend] at hreadr
    refine ⟨k + 1, by omega, ?_⟩
    rw [List.append_assoc, List.cons_append, hreadl, readTail_operator (by omega) hreadr]
  | @group _ t ht ih =>
    simp only [Term.tokens, List.length_cons, List.length_append, List.length_nil] at hsteps ⊢
    obtain ⟨k, rfl⟩ : ∃ k, n = k + 2 := ⟨n - 2, by omega⟩
    obtain ⟨left, hleft, hread⟩ := ih (p := 0) (n := k)
      (Nat.le_refl _) (stops_closing _ rest) (by omega)
    rw [readTail_of_stops (by omega) (stops_closing 0 rest)] at hread
    refine ⟨k + 2, by omega, ?_⟩
    rw [List.cons_append, List.append_assoc]
    exact readTerm_of_readOperand (readOperand_group hread)

/-! ## Formulas -/

/-- Reading gives the trees of the grammar, each from its own tokens. -/
theorem parse_eq_some_iff {ts : List (Token α)} {t : Term α} :
    parse ts = some t ↔ t.Within 0 ∧ t.tokens = ts := by
  constructor
  · intro h
    unfold parse at h
    split at h
    · next u hread =>
      cases h
      obtain ⟨hwithin, htokens, -⟩ := (readsSoundly _).term hread
      exact ⟨hwithin, by rw [htokens, List.append_nil]⟩
    · cases h
  · rintro ⟨hwithin, rfl⟩
    obtain ⟨left, hleft, hread⟩ := readTerm_tokens hwithin (p := 0)
      (n := 3 * t.tokens.length + 2) (Nat.le_refl _) (stops_nil _) (by omega)
    rw [readTail_of_stops (by omega) (stops_nil 0), List.append_nil] at hread
    unfold parse
    rw [hread]

end DeckDuel.Formula
