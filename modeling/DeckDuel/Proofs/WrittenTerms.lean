/-
DeckDuel.Proofs.WrittenTerms — lists of modifier terms, as they are
written and as they are scanned.

* `Item` — one term of a list: a target or none, a name, an operation
  and a chain. Any run of word characters may be the name.
* `WritesList` — the texts of a list: terms joined by commas, with any
  gaps around the parts.
* `Adjustment.take` — what a term does to an adjustment of one kind. It
  counts if its name is the whole name of that kind and its target is
  none or `ME`.
* `Adjustment.scan_writes` — scanning a written list takes its terms
  from left to right, each one once.

The scanner looks for a name wherever one may start. What a list puts
between two names holds no letter, so none is found there
(`writtenFrom_numeric`), and in the run of path characters that a name
stands in there is one place to start, at its front
(`writtenFrom_run`).
-/
import DeckDuel.Proofs.UnitText
import DeckDuel.Proofs.WrittenChain

namespace DeckDuel.Modifier

open DeckDuel.Effect DeckDuel.Formula DeckDuel.Text DeckDuel.Variable

variable {α β : Type}

/-! ## Lists of terms -/

/-- A term of a list. -/
structure Item (β : Type) where
  target : Option Target
  name : List Char
  isName : name ≠ [] ∧ ∀ c ∈ name, isWordChar c = true
  op : Arith
  value : Chain β

namespace Item

/-- The term with every factor of its value changed. -/
def map {γ : Type} (f : β → γ) (i : Item β) : Item γ := { i with value := i.value.map f }

/-- The name with its target. -/
def path (i : Item β) : List Char := targetText i.target ++ i.name

theorem path_of_none {i : Item β} (h : i.target = none) : i.path = i.name := by
  rw [path, h, targetText, List.nil_append]

theorem path_of_some {i : Item β} {t : Target} (h : i.target = some t) :
    i.path = targetText (some t) ++ i.name := by
  rw [path, h]

/-- Is the term about the side's own modifier of a kind? -/
def Names (kind : Modifier) (i : Item β) : Prop :=
  i.name = kind.name.toList ∧ (i.target = none ∨ i.target = some .me)

instance (kind : Modifier) (i : Item β) : Decidable (i.Names kind) :=
  inferInstanceAs (Decidable (_ ∧ _))

end Item

/-- A text writes a term. -/
inductive Item.Writes (spell : β → List Char) (i : Item β) : List Char → Prop where
  | intro {before after v : List Char} : IsGap before → IsGap after → i.value.Writes spell v →
      Writes spell i (i.path ++ (before ++ i.op.symbol :: (after ++ v)))

/-- A text writes a list of terms. -/
inductive WritesList (spell : β → List Char) : List (Item β) → List Char → Prop where
  | nil {gap : List Char} : IsGap gap → WritesList spell [] gap
  | single {i : Item β} {before w after : List Char} : IsGap before → i.Writes spell w →
      IsGap after → WritesList spell [i] (before ++ (w ++ after))
  | cons {i : Item β} {items : List (Item β)} {before w after rest : List Char} :
      IsGap before → i.Writes spell w → IsGap after → WritesList spell items rest →
      WritesList spell (i :: items) (before ++ (w ++ (after ++ ',' :: rest)))

end DeckDuel.Modifier

namespace DeckDuel.Adjustment

open DeckDuel.Effect

variable {α : Type} [Scalar α]

/-- The adjustment after an operation: additions and subtractions go
into the sum, multiplications and divisions into the product. Setting a
value and dividing by zero change nothing. -/
def change (a : Adjustment α) : Arith → α → Adjustment α
  | .increase, x => { a with sum := a.sum + x }
  | .decrease, x => { a with sum := a.sum - x }
  | .multiply, x => { a with product := a.product * x }
  | .divide, x => if x == 0 then a else { a with product := a.product / x }
  | .set, _ => a

/-- What a term does to the adjustment of a kind. -/
def take (kind : Modifier) (a : Adjustment α) (i : Modifier.Item Modifier.Unsigned) :
    Adjustment α :=
  if i.Names kind then
    match i.value.number? (α := α) with
    | some x => a.change i.op x
    | none => a
  else a

/-- What a term does as it was found in a text. -/
def takeWritten (kind : Modifier) (a : Adjustment α) (w : Modifier.Written) : Adjustment α :=
  if w.kind = kind then
    match Formula.number? w.value with
    | some x => a.absorb w.op x
    | none => a
  else a

theorem scan_eq_foldl (kind : Modifier) (a : Adjustment α) (cs : List Char) :
    a.scan kind cs = (Modifier.written cs).foldl (takeWritten kind) a := rfl

theorem absorb_symbol (a : Adjustment α) (op : Arith) (x : α) :
    a.absorb op.symbol x = a.change op x := by
  cases op <;> rfl

end DeckDuel.Adjustment

namespace DeckDuel.Modifier

open DeckDuel.Effect DeckDuel.Formula DeckDuel.Text DeckDuel.Variable

/-! ## Names of modifiers -/

theorem isWordChar_name (m : Modifier) : ∀ c ∈ m.name.toList, isWordChar c = true := by
  cases m <;> decide

theorem isWordStart_name (m : Modifier) : ∀ c ∈ m.name.toList.head?, isWordStart c = true := by
  cases m <;> decide

theorem name_injective {m n : Modifier} (h : m.name.toList = n.name.toList) : m = n := by
  cases m <;> cases n <;> first | rfl | exact absurd h (by decide)

theorem name?_named (m : Modifier) (rest : List Char) :
    name? (m.name.toList ++ rest) = some (m, rest) := by
  cases m <;> rfl

theorem eq_append_of_name? {cs rest : List Char} {m : Modifier} (h : name? cs = some (m, rest)) :
    cs = m.name.toList ++ rest := by
  obtain ⟨n, -, hn⟩ := List.exists_of_findSome?_eq_some h
  obtain ⟨r, hr, heq⟩ := Option.map_eq_some_iff.mp hn
  cases heq
  exact eq_append_of_after? hr

theorem op?_symbol (op : Arith) (rest : List Char) :
    op? (op.symbol :: rest) = some (op.symbol, rest) := by
  cases op <;> rfl

theorem isPathChar_arith (op : Arith) : isPathChar op.symbol = false := by cases op <;> decide

theorem op?_of_isWordChar {c : Char} (h : isWordChar c = true) (rest : List Char) :
    op? (c :: rest) = none := by
  have hne {d : Char} (hd : isWordChar d = false) : c ≠ d := by
    rintro rfl
    simp [hd] at h
  have hplus : c ≠ '+' := hne (by decide)
  have hminus : c ≠ '-' := hne (by decide)
  have htimes : c ≠ '*' := hne (by decide)
  have hdividedBy : c ≠ '/' := hne (by decide)
  have hset : c ≠ '=' := hne (by decide)
  simp [op?, hplus, hminus, htimes, hdividedBy, hset]

/-! ## Where no term starts -/

/-- A term starts with its prefix or with its name. -/
theorem term?_of_head {c : Char} (hme : c ≠ 'M') (hname : ∀ m : Modifier, c ∉ m.name.toList.head?)
    (cs : List Char) : term? (c :: cs) = none := by
  have huntargeted : after? ['M', 'E', '.'] (c :: cs) = none :=
    after?_eq_none_of_head fun heq => hme (by simpa using heq)
  have hnone : name? (c :: cs) = none := by
    rw [Option.eq_none_iff_forall_ne_some]
    rintro ⟨m, rest⟩ hm
    have hhead : (m.name.toList ++ rest).head? = some c := by
      rw [← eq_append_of_name? hm]
      rfl
    refine hname m ?_
    cases m <;> exact hhead
  show ((name? ((after? ['M', 'E', '.'] (c :: cs)).getD (c :: cs))).bind _) = none
  rw [huntargeted, Option.getD_none, hnone, Option.bind_none]

theorem term?_of_not_isWordStart {c : Char} (h : isWordStart c = false) (cs : List Char) :
    term? (c :: cs) = none := by
  refine term?_of_head ?_ (fun m hm => ?_) cs
  · rintro rfl
    exact absurd h (by decide)
  · simp [isWordStart_name m c hm] at h

theorem isWordStart_of_isArithmeticChar {c : Char} (h : isArithmeticChar c = true) :
    isWordStart c = false := by
  cases hstart : isWordStart c with
  | false => rfl
  | true =>
    have hblank : isBlank c = false := isBlank_of_isWordChar (isWordChar_of_isWordStart hstart)
    have hnumber : isNumberChar c = false := by
      rw [← Bool.not_eq_true]
      intro hnumber
      simp [isWordStart_of_isNumberChar hnumber] at hstart
    have hdigit : c.isDigit = false := (Bool.or_eq_false_iff.mp hnumber).1
    have hother {d : Char} (hd : isWordStart d = false) : c ≠ d := by
      rintro rfl
      simp [hd] at hstart
    have hnone : isArithmeticChar c = false := by
      simp only [isArithmeticChar, hdigit, hblank, Bool.or_false, Bool.or_eq_false_iff,
        beq_eq_false_iff_ne, true_and]
      and_intros <;> exact hother (by decide)
    simp [hnone] at h

/-- After a character outside paths a term may start. -/
theorem writtenFrom_outside {c : Char} (h : isPathChar c = false) (free : Bool) (rest : List Char) :
    writtenFrom free 0 (c :: rest) = writtenFrom true 0 rest := by
  have hterm := term?_of_not_isWordStart (isWordStart_of_not_isPathChar h) rest
  cases free <;> simp [writtenFrom, hterm, h]

/-- Where a run has ended it does not matter whether a term could have
started. -/
theorem writtenFrom_endsRun {rest : List Char} (h : EndsRun rest) (free free' : Bool) :
    writtenFrom free 0 rest = writtenFrom free' 0 rest := by
  cases rest with
  | nil => rfl
  | cons c rest => rw [writtenFrom_outside (h c rfl), writtenFrom_outside (h c rfl)]

/-- Nothing is found inside a run. -/
theorem writtenFrom_run {run : List Char} (h : ∀ c ∈ run, isPathChar c = true) (rest : List Char) :
    writtenFrom false 0 (run ++ rest) = writtenFrom false 0 rest := by
  induction run with
  | nil => rfl
  | cons c run ih =>
    have hc : isPathChar c = true := h c List.mem_cons_self
    have htail := ih fun d hd => h d (List.mem_cons_of_mem c hd)
    simpa [writtenFrom, hc] using htail

/-- Nothing is found where no letter is. -/
theorem writtenFrom_numeric {w rest : List Char} (h : ∀ c ∈ w, isWordStart c = false)
    (hrest : EndsRun rest) (free : Bool) :
    writtenFrom free 0 (w ++ rest) = writtenFrom true 0 rest := by
  induction w generalizing free with
  | nil => exact writtenFrom_endsRun hrest free true
  | cons c w ih =>
    have hterm := term?_of_not_isWordStart (h c List.mem_cons_self) (w ++ rest)
    have htail := ih (fun d hd => h d (List.mem_cons_of_mem c hd)) (!isPathChar c)
    rw [← htail]
    cases free <;> simp [writtenFrom, hterm]

/-- The characters of a term that was read are passed over. -/
theorem writtenFrom_skip (w rest : List Char) :
    writtenFrom false w.length (w ++ rest) = writtenFrom false 0 rest := by
  induction w with
  | nil => rfl
  | cons c w ih => simpa [writtenFrom] using ih

/-! ## Reading a term -/

section

variable {i : Item Unsigned}

theorem Item.isPathChar_path (i : Item β) : ∀ c ∈ i.path, isPathChar c = true := by
  intro c hc
  rcases List.mem_append.mp hc with hc | hc
  · cases htarget : i.target with
    | none => simp [htarget, targetText] at hc
    | some t =>
      have hall : ∀ c ∈ targetText (some t), isPathChar c = true := by cases t <;> decide
      exact hall c (htarget ▸ hc)
  · exact isPathChar_of_isWordChar (i.isName.2 c hc)

/-- The prefix `ME.` is split off, and only where it is written: a name
has no point. -/
theorem Item.after?_me (i : Item β) (htarget : i.target = none ∨ i.target = some .me)
    {tail : List Char} (h : EndsRun tail) :
    (after? "ME.".toList (i.path ++ tail)).getD (i.path ++ tail) = i.name ++ tail := by
  rcases htarget with htarget | htarget
  · have hnone : after? ['M', 'E', '.'] (i.name ++ tail) = none := by
      rw [Option.eq_none_iff_forall_ne_some]
      intro rest hrest
      have heq : i.name ++ tail = ['M', 'E', '.'] ++ rest := eq_append_of_after? hrest
      have hword : EndsWord tail := fun c hc => by
        have hpathChar := h c hc
        simp only [isPathChar, Bool.or_eq_false_iff] at hpathChar
        exact hpathChar.1
      have htail := (takeWhile_append_of_head i.isName.2 hword).2
      have hpoint : (['M', 'E', '.'] ++ rest).dropWhile isWordChar = '.' :: rest := by rfl
      rw [heq, hpoint] at htail
      have hdot := h '.' (by rw [← htail]; rfl)
      exact absurd hdot (by decide)
    rw [path_of_none htarget]
    show (after? ['M', 'E', '.'] (i.name ++ tail)).getD _ = _
    rw [hnone, Option.getD_none]
  · have hpath : i.path = "ME.".toList ++ i.name := path_of_some htarget
    rw [hpath, List.append_assoc, after?_append, Option.getD_some]

/-- A written value starts with a number. -/
theorem head_not_blank {c : Chain Unsigned} {v : List Char} (hv : c.Writes Unsigned.text v)
    (rest : List Char) : ∀ d ∈ (v ++ rest).head?, isBlank d = false := by
  obtain @⟨w, -⟩ := hv
  obtain ⟨d, ds, htext, hd, -⟩ := c.first.exists_cons
  intro e he
  obtain rfl : d = e := by simpa [htext] using he
  simp only [isNumberChar, Bool.or_eq_true, beq_iff_eq] at hd
  rcases hd with hd | rfl
  · exact isBlank_of_isWordChar (by simp [isWordChar, Char.isAlphanum, hd])
  · decide

/-- A term about a side's own modifier is read as it was written. -/
theorem Item.term?_of_names {m : Modifier} (hnames : i.Names m) {before after v rest : List Char}
    (hbefore : IsGap before) (hafter : IsGap after) (hv : i.value.Writes Unsigned.text v)
    (hrest : EndsItem rest) :
    term? (i.path ++ (before ++ i.op.symbol :: (after ++ (v ++ rest)))) =
      some (⟨m, i.op.symbol, v⟩, rest) := by
  obtain ⟨hname, htarget⟩ := hnames
  have hends : EndsRun (before ++ i.op.symbol :: (after ++ (v ++ rest))) :=
    endsRun_gap hbefore (endsRun_cons (isPathChar_arith i.op))
  have hop : trimStart (before ++ i.op.symbol :: (after ++ (v ++ rest))) =
      i.op.symbol :: (after ++ (v ++ rest)) := by
    refine trimStart_blanks (fun c hc => isBlank_of_isSeparator (hbefore c hc)) ?_
    simp
  have hvalue : trimStart (after ++ (v ++ rest)) = v ++ rest :=
    trimStart_blanks (fun c hc => isBlank_of_isSeparator (hafter c hc)) (head_not_blank hv rest)
  simp only [term?, i.after?_me htarget hends, hname, name?_named, Option.bind_some, hop, op?_symbol,
    hvalue, Chain.value?_writes hv hrest, Option.map_some]

/-- The name of a modifier that only begins another name is followed by
no operation. -/
theorem op?_of_longer {name tail rest : List Char} {m : Modifier}
    (hword : ∀ c ∈ name, isWordChar c = true) (htail : EndsRun tail)
    (hread : name? (name ++ tail) = some (m, rest)) (hne : name ≠ m.name.toList) :
    op? (trimStart rest) = none := by
  rcases List.append_eq_append_iff.mp (eq_append_of_name? hread) with
    ⟨more, hname, htail'⟩ | ⟨more, hname, hrest⟩
  · -- the modifier's name would go on after the name has ended
    cases more with
    | nil => exact absurd (by simpa using hname.symm) hne
    | cons c more =>
      have hc : isWordChar c = true := isWordChar_name m c (by simp [hname])
      have hends := htail c (by simp [htail'])
      simp [isPathChar_of_isWordChar hc] at hends
  · cases more with
    | nil => exact absurd (by simpa using hname) hne
    | cons c more =>
      have hc : isWordChar c = true := hword c (by simp [hname])
      have hblank : trimStart rest = rest := by
        rw [trimStart_eq_self_iff, hrest]
        simpa using isBlank_of_isWordChar hc
      rw [hblank, hrest]
      exact op?_of_isWordChar hc _

/-- No other term is read. -/
theorem Item.term?_of_not_names (hnames : ∀ m, ¬i.Names m) {tail : List Char}
    (htail : EndsRun tail) : term? (i.path ++ tail) = none := by
  by_cases htarget : i.target = none ∨ i.target = some .me
  · rw [term?, i.after?_me htarget htail]
    cases hread : name? (i.name ++ tail) with
    | none => rfl
    | some r =>
      obtain ⟨m, rest⟩ := r
      have hne : i.name ≠ m.name.toList := fun heq => hnames m ⟨heq, htarget⟩
      simp only [Option.bind_some, op?_of_longer i.isName.2 htail hread hne, Option.bind_none]
  · -- the targets of the others start with no letter of a modifier's name
    cases ht : i.target with
    | none => exact absurd (.inl ht) htarget
    | some t =>
      cases t with
      | me => exact absurd (.inr ht) htarget
      | op | all =>
        rw [path_of_some ht, List.append_assoc]
        exact term?_of_head (by decide) (fun m => by cases m <;> decide) _

/-! ## Scanning a list -/

/-- A term about a modifier is found, and taken as it was written. -/
theorem Item.Writes.written_of_names {w rest : List Char} (h : i.Writes Unsigned.text w)
    (hrest : EndsItem rest) {m : Modifier} (hnames : i.Names m) :
    ∃ v, i.value.Writes Unsigned.text v ∧ writtenFrom true 0 (w ++ rest) =
      ⟨m, i.op.symbol, v⟩ :: writtenFrom true 0 rest := by
  obtain @⟨before, after, v, hbefore, hafter, hv⟩ := h
  refine ⟨v, hv, ?_⟩
  have hterm := i.term?_of_names hnames hbefore hafter hv hrest
  have htext : i.path ++ (before ++ i.op.symbol :: (after ++ v)) ++ rest =
      i.path ++ (before ++ i.op.symbol :: (after ++ (v ++ rest))) := by simp
  generalize hw : i.path ++ (before ++ i.op.symbol :: (after ++ v)) = w at htext
  cases w with
  | nil => simp at hw
  | cons c w =>
    rw [← htext, List.cons_append] at hterm
    have hlength : (w ++ rest).length - rest.length = w.length := by simp
    rw [List.cons_append, writtenFrom, if_pos rfl, hterm]
    simp only [hlength, writtenFrom_skip]
    rw [writtenFrom_endsRun hrest.endsRun false true]

/-- Any other term is passed over: no name starts inside its path, and
what follows holds no letter. -/
theorem Item.Writes.written_of_not_names {w rest : List Char} (h : i.Writes Unsigned.text w)
    (hrest : EndsItem rest) (hnames : ∀ m, ¬i.Names m) :
    writtenFrom true 0 (w ++ rest) = writtenFrom true 0 rest := by
  obtain @⟨before, after, v, hbefore, hafter, hv⟩ := h
  have hends : EndsRun (before ++ i.op.symbol :: (after ++ v) ++ rest) := by
    rw [List.append_assoc]
    exact endsRun_gap hbefore (endsRun_cons (isPathChar_arith i.op))
  have hnumeric : ∀ c ∈ before ++ i.op.symbol :: (after ++ v), isWordStart c = false := by
    intro c hc
    simp only [List.mem_append, List.mem_cons] at hc
    rcases hc with hc | rfl | hc | hc
    · exact isWordStart_of_isArithmeticChar (isArithmeticChar_of_isSeparator (hbefore c hc))
    · exact isWordStart_of_not_isPathChar (isPathChar_arith i.op)
    · exact isWordStart_of_isArithmeticChar (isArithmeticChar_of_isSeparator (hafter c hc))
    · exact isWordStart_of_isArithmeticChar (hv.isArithmeticChar c hc)
  have hterm := i.term?_of_not_names hnames hends
  have hpath := i.isPathChar_path
  rw [List.append_assoc]
  generalize hrun : i.path = run at hterm hpath
  cases run with
  | nil =>
    have hname : i.name = [] := (List.append_eq_nil_iff.mp hrun).2
    exact absurd hname i.isName.1
  | cons c run =>
    have hc : isPathChar c = true := hpath c List.mem_cons_self
    have hinside := writtenFrom_run (fun d hd => hpath d (List.mem_cons_of_mem c hd))
      (before ++ i.op.symbol :: (after ++ v) ++ rest)
    rw [List.cons_append] at hterm
    rw [List.cons_append, writtenFrom, if_pos rfl, hterm]
    simp only [hc, Bool.not_true]
    rw [hinside, writtenFrom_numeric hnumeric hrest.endsRun]

end

/-! ## Folding over a list -/

variable [Scalar α]

theorem Item.Names.eq_iff {i : Item β} {m kind : Modifier} (h : i.Names m) :
    i.Names kind ↔ m = kind := by
  constructor
  · intro hkind
    exact name_injective (h.1.symm.trans hkind.1)
  · rintro rfl
    exact h

/-- **One term of a list**: scanning goes on behind it, with what the
term does done. -/
theorem Item.Writes.foldl_written {i : Item Unsigned} {w rest : List Char}
    (h : i.Writes Unsigned.text w) (hrest : EndsItem rest) (kind : Modifier) (a : Adjustment α) :
    (writtenFrom true 0 (w ++ rest)).foldl (Adjustment.takeWritten kind) a =
      (writtenFrom true 0 rest).foldl (Adjustment.takeWritten kind) (a.take kind i) := by
  by_cases hnames : ∃ m, i.Names m
  · obtain ⟨m, hm⟩ := hnames
    obtain ⟨v, hv, hwritten⟩ := h.written_of_names hrest hm
    have htake : a.takeWritten kind ⟨m, i.op.symbol, v⟩ = a.take kind i := by
      simp only [Adjustment.takeWritten, Adjustment.take, hm.eq_iff, Chain.number?_writes hv,
        Adjustment.absorb_symbol]
    rw [hwritten, List.foldl_cons, htake]
  · have hnone : ∀ m, ¬i.Names m := fun m hm => hnames ⟨m, hm⟩
    have htake : a.take kind i = a := if_neg (hnone kind)
    rw [h.written_of_not_names hrest hnone, htake]

theorem writtenFrom_gap {gap : List Char} (h : IsGap gap) (rest : List Char) :
    writtenFrom true 0 (gap ++ rest) = writtenFrom true 0 rest := by
  induction gap with
  | nil => rfl
  | cons c gap ih =>
    rw [List.cons_append, writtenFrom_outside (isPathChar_of_isSeparator (h c List.mem_cons_self)),
      ih fun d hd => h d (List.mem_cons_of_mem c hd)]

/-- **A written list is scanned term by term**, from left to right. By
induction on the list. -/
theorem WritesList.scan {items : List (Item Unsigned)} {cs : List Char}
    (h : WritesList Unsigned.text items cs) (kind : Modifier) (a : Adjustment α) :
    a.scan kind cs = items.foldl (Adjustment.take kind) a := by
  have hgapEnd {gap : List Char} (hgap : IsGap gap) : writtenFrom true 0 gap = [] := by
    simpa [writtenFrom] using writtenFrom_gap hgap []
  rw [Adjustment.scan_eq_foldl, written]
  induction h generalizing a with
  | nil hgap => rw [hgapEnd hgap, List.foldl_nil, List.foldl_nil]
  | @single i before w after hbefore hw hafter =>
    have hends : EndsItem (after ++ []) := .intro hafter (by simp)
    rw [List.append_nil] at hends
    rw [writtenFrom_gap hbefore, hw.foldl_written hends, hgapEnd hafter]
    rfl
  | @cons i items before w after rest hbefore hw hafter _ ih =>
    have hends : EndsItem (after ++ ',' :: rest) := .intro hafter (by simp)
    rw [writtenFrom_gap hbefore, hw.foldl_written hends, writtenFrom_gap hafter,
      writtenFrom_outside (by decide), ih, List.foldl_cons]

end DeckDuel.Modifier
