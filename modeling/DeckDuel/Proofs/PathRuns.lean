/-
DeckDuel.Proofs.PathRuns — a pass over the paths of a text, against the
text cut into runs.

* `Variable.slice_append` — a slice from behind one part of a text to
  behind the next one is that part, however many bytes its characters and
  their neighbours have.
* `Variable.Draft.Covers` — what a draft stands for: the front of the text
  with its replacements, of which some may not be copied yet. It is kept
  over what stays and over what is replaced.
* `Variable.passFrom_flatten` — so a pass asks its rewriter run by run and
  puts the answers together, by induction on the runs.
* `Variable.pass_eq_mapM` — the whole: any rewriter, whatever it does
  besides, is asked once for each run that starts like a word, from left
  to right, and for nothing else.
-/
import DeckDuel.Proofs.OnePass
import DeckDuel.Proofs.RewordedPaths

namespace DeckDuel.Variable

open DeckDuel.Text

/-! ## Bytes -/

@[simp] theorem byteLength_nil : byteLength [] = 0 := rfl

@[simp] theorem byteLength_cons (c : Char) (cs : List Char) :
    byteLength (c :: cs) = c.utf8Size + byteLength cs := rfl

@[simp] theorem byteLength_append (cs ds : List Char) :
    byteLength (cs ++ ds) = byteLength cs + byteLength ds := by
  induction cs with
  | nil => exact (Nat.zero_add _).symm
  | cons c cs ih => rw [List.cons_append, byteLength, byteLength, ih, Nat.add_assoc]

variable {front part rest : List Char} {offset start stop : Nat}

/-- What ends before a slice is left out. -/
theorem sliceFrom_before (h : offset + byteLength front ≤ start) :
    sliceFrom offset start stop (front ++ rest) =
      sliceFrom (offset + byteLength front) start stop rest := by
  induction front generalizing offset with
  | nil => rfl
  | cons c front ih =>
    rw [byteLength_cons, ← Nat.add_assoc] at h
    have hsize := c.utf8Size_pos
    have hbefore : ¬start ≤ offset := by omega
    simp only [List.cons_append, sliceFrom, hbefore, decide_false, Bool.false_and,
      Bool.false_eq_true, if_false, ih h, byteLength_cons, Nat.add_assoc]

/-- What lies inside of a slice is in it. -/
theorem sliceFrom_inside (hstart : start ≤ offset) (hstop : offset + byteLength part ≤ stop) :
    sliceFrom offset start stop (part ++ rest) =
      part ++ sliceFrom (offset + byteLength part) start stop rest := by
  induction part generalizing offset with
  | nil => rfl
  | cons c part ih =>
    rw [byteLength_cons, ← Nat.add_assoc] at hstop
    have hsize := c.utf8Size_pos
    have hbefore : offset < stop := by omega
    have hrest := ih (Nat.le_add_right_of_le hstart) hstop
    simp only [List.cons_append, sliceFrom, hstart, hbefore, decide_true, Bool.true_and, if_true,
      hrest, byteLength_cons, Nat.add_assoc]

/-- What begins behind a slice is left out. -/
theorem sliceFrom_behind (h : stop ≤ offset) : sliceFrom offset start stop rest = [] := by
  induction rest generalizing offset with
  | nil => rfl
  | cons c rest ih =>
    have hbehind : ¬offset < stop := by omega
    simp only [sliceFrom, hbehind, decide_false, Bool.and_false, Bool.false_eq_true, if_false,
      ih (Nat.le_add_right_of_le h)]

theorem slice_append (front part rest : List Char) :
    slice (byteLength front) (byteLength (front ++ part)) (front ++ part ++ rest) = part := by
  rw [slice, List.append_assoc, sliceFrom_before (by omega), Nat.zero_add,
    sliceFrom_inside (Nat.le_refl _) (by simp), sliceFrom_behind (by simp), List.append_nil]

/-! ## Drafts -/

namespace Draft

variable {d : Draft} {done out : List Char}

/-- A draft stands for `out` in the place of the front `done` of a text:
it is written up to some place in it, and what comes after that place is
kept. Before the first replacement nothing is written. -/
structure Covers (d : Draft) (done out : List Char) : Prop where
  split : ∃ front back, done = front ++ back ∧ d.copied = byteLength front ∧
    out = d.written.getD [] ++ back ∧ (d.written = none → front = [])

theorem covers_empty : empty.Covers [] [] := ⟨[], [], rfl, rfl, rfl, fun _ => rfl⟩

/-- What stays is copied later. -/
theorem Covers.keep (h : d.Covers done out) (run : List Char) :
    d.Covers (done ++ run) (out ++ run) := by
  obtain ⟨front, back, rfl, hcopied, rfl, hnone⟩ := h.split
  exact ⟨front, back ++ run, List.append_assoc .., hcopied, List.append_assoc .., hnone⟩

/-- Where something is replaced, what stayed before it is copied. -/
theorem Covers.replace (h : d.Covers done out) (run rest new : List Char) :
    (d.replace (done ++ run ++ rest) (byteLength done) (byteLength (done ++ run)) new).Covers
      (done ++ run) (out ++ new) := by
  have hwritten : (d.replace (done ++ run ++ rest) (byteLength done)
      (byteLength (done ++ run)) new).written = some (out ++ new) := by
    obtain ⟨front, back, rfl, hcopied, rfl, -⟩ := h.split
    have hslice : slice (byteLength front) (byteLength (front ++ back))
        (front ++ back ++ (run ++ rest)) = back := slice_append front back (run ++ rest)
    rw [Draft.replace, hcopied, List.append_assoc (front ++ back), hslice]
  refine ⟨done ++ run, [], (List.append_nil _).symm, rfl, ?_, fun hnone => ?_⟩
  · rw [hwritten, List.append_nil, Option.getD_some]
  · rw [hwritten] at hnone
    cases hnone

theorem Covers.finish {text : List Char} (h : d.Covers text out) : d.finish text = out := by
  obtain ⟨front, back, rfl, hcopied, rfl, hnone⟩ := h.split
  cases hwritten : d.written with
  | none => rw [Draft.finish, hwritten, hnone hwritten]; rfl
  | some written =>
    have hback := slice_append front back []
    rw [List.append_nil] at hback
    rw [Draft.finish, hwritten, hcopied]
    exact congrArg (written ++ ·) hback

end Draft

/-! ## Reading -/

/-- A run is read to its end. -/
theorem skipRun_run {run : List Char} (hrun : ∀ c ∈ run, isPathChar c = true)
    (hrest : EndsRun rest) :
    skipRun offset (run ++ rest) = (offset + byteLength run, rest) := by
  induction run generalizing offset with
  | nil =>
    cases rest with
    | nil => rfl
    | cons c rest =>
      have hc : isPathChar c = false := hrest c rfl
      simp [skipRun, hc]
  | cons c run ih =>
    obtain ⟨hc, hrun⟩ := List.forall_mem_cons.mp hrun
    rw [List.cons_append, skipRun, if_pos hc, ih hrun, byteLength_cons, Nat.add_assoc]

variable {m : Type → Type} [Monad m] {rewrite : List Char → m (Option (List Char))}

/-- Nothing is asked for between the runs. -/
theorem passFrom_outside {text : List Char} {d : Draft} {run : List Char}
    (hrun : ∀ c ∈ run, isPathChar c = false) :
    passFrom rewrite text d start (run ++ rest) =
      passFrom rewrite text d (start + byteLength run) rest := by
  induction run generalizing start with
  | nil => rfl
  | cons c run ih =>
    obtain ⟨hc, hrun⟩ := List.forall_mem_cons.mp hrun
    rw [List.cons_append, passFrom]
    simp only [hc, Bool.false_eq_true, if_false, ih hrun, byteLength_cons, Nat.add_assoc]

/-- Where a run stands, the rewriter is asked if it starts like a word. -/
theorem passFrom_run {text : List Char} {d : Draft} {run : List Char} (hne : run ≠ [])
    (hrun : ∀ c ∈ run, isPathChar c = true) (hrest : EndsRun rest) :
    passFrom rewrite text d start (run ++ rest) =
      if run.head?.any isWordStart then do
        match ← rewrite (slice start (start + byteLength run) text) with
        | some new =>
          passFrom rewrite text (d.replace text start (start + byteLength run) new)
            (start + byteLength run) rest
        | none => passFrom rewrite text d (start + byteLength run) rest
      else passFrom rewrite text d (start + byteLength run) rest := by
  cases run with
  | nil => exact absurd rfl hne
  | cons c run =>
    obtain ⟨hc, hrun⟩ := List.forall_mem_cons.mp hrun
    have hskip : skipRun (start + c.utf8Size) (run ++ rest) =
        (start + byteLength (c :: run), rest) := by
      rw [skipRun_run hrun hrest, byteLength_cons, Nat.add_assoc]
    rw [List.cons_append, passFrom]
    simp only [hc, if_true, hskip, List.head?_cons, Option.any_some]
    rfl

/-! ## Run by run -/

/-- What becomes of a piece of a text: if it starts like a word, the
rewriter is asked for it, and it stays if there is no answer. -/
def rewriteRun (rewrite : List Char → m (Option (List Char))) (run : List Char) :
    m (List Char) :=
  if run.head?.any isWordStart then do
    let new ← rewrite run
    pure (new.getD run)
  else pure run

variable [LawfulMonad m]

/-- A pass that goes on behind `done`, which has become `out`, asks for
the pieces from there on, one after another. -/
theorem passFrom_flatten {pieces : List (List Char)} (h : AreRuns isPathChar pieces)
    {text done out : List Char} (htext : done ++ pieces.flatten = text) {d : Draft}
    (hd : d.Covers done out) :
    (do
      let d ← passFrom rewrite text d (byteLength done) pieces.flatten
      pure (d.finish text)) =
      (do
        let news ← pieces.mapM (rewriteRun rewrite)
        pure (out ++ news.flatten)) := by
  induction h generalizing d done out with
  | nil =>
    obtain rfl : done = text := (List.append_nil done).symm.trans htext
    simp [passFrom, hd.finish]
  | @cons k run more hne hall hnext _ ih =>
    have hmore : done ++ run ++ more.flatten = text := by
      rw [List.append_assoc, ← List.flatten_cons, htext]
    have hstop : byteLength done + byteLength run = byteLength (done ++ run) := by simp
    have hkept := ih hmore (hd.keep run)
    rw [List.flatten_cons, List.mapM_cons]
    cases k with
    | false =>
      have hstays : rewriteRun rewrite run = pure run := by
        obtain ⟨c, cs, rfl⟩ := List.exists_cons_of_ne_nil hne
        have hc := isWordStart_of_not_isPathChar (hall c List.mem_cons_self)
        simp [rewriteRun, hc]
      rw [passFrom_outside hall, hstop, hkept, hstays]
      simp only [pure_bind, bind_assoc, List.flatten_cons, List.append_assoc]
    | true =>
      have hasked : slice (byteLength done) (byteLength (done ++ run)) text = run := by
        rw [← hmore, slice_append]
      rw [passFrom_run hne hall hnext, hstop, hasked, rewriteRun]
      split
      · simp only [bind_assoc, pure_bind]
        refine bind_congr fun answer => ?_
        cases answer with
        | none =>
          simp only [hkept, Option.getD_none, List.flatten_cons, List.append_assoc]
        | some new =>
          have hcovers := hd.replace run more.flatten new
          rw [hmore] at hcovers
          simp only [ih hmore hcovers, Option.getD_some, List.flatten_cons, List.append_assoc]
      · simp only [hkept, pure_bind, bind_assoc, List.flatten_cons, List.append_assoc]

/-! ## The whole text -/

/-- A rewriter that also notes what it is asked. -/
def noting (rewrite : List Char → m (Option (List Char))) (run : List Char) :
    StateT (List (List Char)) m (Option (List Char)) := do
  modify (· ++ [run])
  rewrite run

theorem mapM_rewriteRun_noting (pieces asked : List (List Char)) :
    (pieces.mapM (rewriteRun (noting rewrite))).run asked =
      (do
        let news ← pieces.mapM (rewriteRun rewrite)
        pure (news, asked ++ pieces.filter fun run => run.head?.any isWordStart)) := by
  induction pieces generalizing asked with
  | nil => simp
  | cons run pieces ih =>
    simp only [List.mapM_cons, StateT.run_bind, List.filter_cons]
    cases hword : run.head?.any isWordStart with
    | false => simp [rewriteRun, hword, ih]
    | true => simp [rewriteRun, hword, ih, noting]

theorem pass_flatten {pieces : List (List Char)} (h : AreRuns isPathChar pieces) :
    pass rewrite pieces.flatten =
      (do
        let news ← pieces.mapM (rewriteRun rewrite)
        pure news.flatten) :=
  passFrom_flatten h rfl Draft.covers_empty

omit [Monad m] [LawfulMonad m] in
theorem replaceRun_eq (replace? : List Char → Option (List Char)) (run : List Char) :
    replaceRun replace? run =
      if run.head?.any isWordStart then (replace? run).getD run else run := by
  cases run <;> rfl

/-- A rewriter that does nothing besides. -/
theorem mapPaths_eq_pass (replace? : List Char → Option (List Char)) (text : List Char) :
    mapPaths replace? text = Id.run (pass (fun run => pure (replace? run)) text) := by
  have hruns := areRuns_runs isPathChar text
  have hrun (run : List Char) :
      rewriteRun (m := Id) (fun run => pure (replace? run)) run =
        pure (replaceRun replace? run) := by
    rw [replaceRun_eq, rewriteRun]
    split <;> rfl
  rw [← flatten_runs (p := isPathChar) text, mapPaths_flatten hruns, pass_flatten hruns,
    List.flatMap_def, funext hrun, List.mapM_pure]
  rfl

omit [Monad m] [LawfulMonad m] in
/-- The paths of a text are its runs that start like words. -/
theorem paths_flatten {pieces : List (List Char)} (h : AreRuns isPathChar pieces) :
    paths pieces.flatten = pieces.filter fun run => run.head?.any isWordStart := by
  induction h with
  | nil => rfl
  | @cons k run more hne hall hnext _ ih =>
    rw [List.flatten_cons, List.filter_cons, ← ih]
    cases k with
    | true =>
      have hhere : pathsFrom run.reverse [] = if run.head?.any isWordStart then [run] else [] := by
        obtain ⟨c, cs, rfl⟩ := List.exists_cons_of_ne_nil hne
        rw [pathsFrom, List.reverse_reverse]
        rfl
      rw [paths, pathsFrom_run hall, List.append_nil, pathsFrom_of_endsRun hnext, hhere]
      split <;> rfl
    | false =>
      have hskip : ∀ run : List Char, (∀ c ∈ run, isPathChar c = false) →
          paths (run ++ more.flatten) = paths more.flatten := by
        intro run hrun
        induction run with
        | nil => rfl
        | cons c run ih =>
          obtain ⟨hc, hrun⟩ := List.forall_mem_cons.mp hrun
          rw [List.cons_append, paths_outside hc, ih hrun]
      have hnoword : run.head?.any isWordStart = false := by
        obtain ⟨c, cs, rfl⟩ := List.exists_cons_of_ne_nil hne
        exact isWordStart_of_not_isPathChar (hall c List.mem_cons_self)
      rw [hskip run hall, hnoword, if_neg Bool.false_ne_true]

/-- **A pass goes run by run.** A text is cut into its maximal runs of
letters, digits, underscores and points and the stretches between them. A
pass goes through these pieces from left to right: for a run that starts
with a letter or an underscore it asks its rewriter, once, and puts the
answer in its place if there is one; every other piece stays as it is, and
the rewriter is asked for nothing else. What it is asked, in order, are
the paths of the text. A rewriter that does nothing but answer makes of
the text what `mapPaths` does. -/
theorem pass_eq_mapM (rewrite : List Char → m (Option (List Char))) (text : List Char) :
    (runs isPathChar text).flatten = text ∧ AreRuns isPathChar (runs isPathChar text) ∧
      paths text = ((runs isPathChar text).filter fun run => run.head?.any isWordStart) ∧
      pass rewrite text =
        (do
          let news ← (runs isPathChar text).mapM (rewriteRun rewrite)
          pure news.flatten) ∧
      (∀ asked, (pass (noting rewrite) text).run asked =
        (do
          let out ← pass rewrite text
          pure (out, asked ++ paths text))) ∧
      ∀ replace?, mapPaths replace? text = Id.run (pass (fun run => pure (replace? run)) text) := by
  have hruns : AreRuns isPathChar (runs isPathChar text) := areRuns_runs isPathChar text
  have hflat : (runs isPathChar text).flatten = text := flatten_runs text
  have hpaths : paths text =
      (runs isPathChar text).filter fun run => run.head?.any isWordStart := by
    rw [← paths_flatten hruns, hflat]
  have hpass : pass rewrite text =
      (do
        let news ← (runs isPathChar text).mapM (rewriteRun rewrite)
        pure news.flatten) := by
    rw [← pass_flatten hruns, hflat]
  refine ⟨hflat, hruns, hpaths, hpass, fun asked => ?_,
    fun replace? => mapPaths_eq_pass replace? text⟩
  have hnoted : pass (noting rewrite) (runs isPathChar text).flatten = _ := pass_flatten hruns
  rw [hflat] at hnoted
  rw [hnoted, StateT.run_bind, mapM_rewriteRun_noting, hpass, hpaths]
  simp only [bind_assoc, pure_bind, StateT.run_pure]

/-- Puts a number in the place of a path, the next one each time, and
keeps names that start with an underscore. -/
def numbering (run : List Char) : StateM Nat (Option (List Char)) := do
  let n ← get
  set (n + 1)
  pure (if run.head? = some '_' then none else some (Nat.toDigits 10 n))

/-- Letters of several bytes stand next to the runs, a name is kept between
two that are replaced, and runs stand at the end and behind digits. -/
theorem pass_eq_mapM_numbering :
    let text := "ä_a.b€hp0.5x é1c+d2.<_k>ME.block".toList
    Id.run ((pass numbering text).run 7) = ("ä_a.b€8 é1c+9<_k>11".toList, 12) ∧
      paths text = ["_a.b".toList, "hp0.5x".toList, "d2.".toList, "_k".toList,
        "ME.block".toList] := by
  intro text
  obtain ⟨-, -, hpaths, hpass, -, -⟩ := pass_eq_mapM numbering text
  have hrun : Id.run ((do
      let news ← (runs isPathChar text).mapM (rewriteRun numbering)
      pure news.flatten : StateM Nat (List Char)).run 7) =
        ("ä_a.b€8 é1c+9<_k>11".toList, 12) := by
    decide +kernel
  exact ⟨hpass ▸ hrun, hpaths.trans (by decide +kernel)⟩

end DeckDuel.Variable
