/-
DeckDuel.Proofs.Samples — a sample is what it says, whatever the words.

* `Stream.accept_lt`, `Stream.below_lt` — a number drawn below a bound
  is below it, also when the attempts are used up.
* `Drew` — indices drawn so far: different ones below a bound. Each of
  the three methods adds one index at a time (`Drew.of_perm_cons`) or
  exchanges entries of the list of all indices.
* `Stream.drew_sample` — `Stream.sample` draws as many different indices
  as it is asked for, or all of them.
-/
import DeckDuel.Proofs.CardConservation
import Mathlib.Data.List.Nodup

namespace DeckDuel.Random

/-! ## Numbers below a bound -/

namespace Stream

theorem wordOf_lt {width : Nat} (hwidth : width = 32 ∨ width = 64) (s : Stream) :
    (s.wordOf width).1 < 2 ^ width := by
  rcases hwidth with rfl | rfl
  · exact s.word.1.toNat_lt
  · exact s.longWord.1.toNat_lt

/-- The high half of the product of a word and a bound. -/
theorem mul_shiftRight_lt {w bound width : Nat} (hw : w < 2 ^ width) (hbound : 0 < bound) :
    (w * bound) >>> width < bound := by
  rw [Nat.shiftRight_eq_div_pow]
  apply Nat.div_lt_of_lt_mul
  exact Nat.mul_lt_mul_of_pos_right hw hbound

theorem accept_lt {width : Nat} (hwidth : width = 32 ∨ width = 64) (limit : Nat) {bound : Nat}
    (hbound : 0 < bound) (attempts : Nat) (s : Stream) :
    (s.accept width limit bound attempts).1 < bound := by
  induction attempts generalizing s with
  | zero => exact mul_shiftRight_lt (s.wordOf_lt hwidth) hbound
  | succ more ih =>
    simp only [accept]
    split
    · exact mul_shiftRight_lt (s.wordOf_lt hwidth) hbound
    · exact ih _

theorem below_lt {bound : Nat} (hbound : 0 < bound) (s : Stream) : (s.below bound).1 < bound :=
  s.accept_lt (.inl rfl) _ hbound _

end Stream

/-! ## Indices that were drawn -/

/-- Some different indices below a bound. -/
structure Drew (bound amount : Nat) (is : List Nat) : Prop where
  nodup : is.Nodup
  length_eq : is.length = amount
  lt : ∀ i ∈ is, i < bound

namespace Drew

variable {bound amount : Nat} {is js : List Nat}

theorem nil (bound : Nat) : Drew bound 0 [] := ⟨List.nodup_nil, rfl, by simp⟩

theorem perm (h : Drew bound amount is) (hperm : js.Perm is) : Drew bound amount js where
  nodup := hperm.nodup_iff.mpr h.nodup
  length_eq := hperm.length_eq.trans h.length_eq
  lt j hj := h.lt j (hperm.mem_iff.mp hj)

/-- One more index, which may stand anywhere. -/
theorem of_perm_cons (h : Drew bound amount is) {i wider : Nat} (hnew : i ∉ is) (hi : i < wider)
    (hwider : bound ≤ wider) (hperm : js.Perm (i :: is)) : Drew wider (amount + 1) js := by
  have hcons : Drew wider (amount + 1) (i :: is) := by
    refine ⟨List.nodup_cons.mpr ⟨hnew, h.nodup⟩, by simp [h.length_eq], ?_⟩
    intro j hj
    rcases List.mem_cons.mp hj with rfl | hj
    · exact hi
    · exact Nat.lt_of_lt_of_le (h.lt j hj) hwider
  exact hcons.perm hperm

theorem range (bound : Nat) : Drew bound bound (List.range bound) :=
  ⟨List.nodup_range, List.length_range, fun _ hi => List.mem_range.mp hi⟩

theorem take (h : Drew bound bound is) (hamount : amount ≤ bound) :
    Drew bound amount (is.take amount) where
  nodup := h.nodup.sublist (List.take_sublist amount is)
  length_eq := by simp [h.length_eq, hamount]
  lt i hi := h.lt i (List.mem_of_mem_take hi)

/-- Until all indices are drawn there is one left. -/
theorem exists_new (h : Drew bound amount is) (hless : amount < bound) :
    ∃ i < bound, i ∉ is := by
  by_contra hall
  push Not at hall
  have hsub : List.range bound ⊆ is := fun i hi => hall i (List.mem_range.mp hi)
  have hlength := (List.nodup_range.subperm hsub).length_le
  rw [List.length_range, h.length_eq] at hlength
  omega

end Drew

/-! ## The three methods -/

namespace Stream

theorem toList_sampleSwap_perm (len more i : Nat) (xs : Array Nat) (s : Stream) :
    (s.sampleSwap len more i xs).1.toList.Perm xs.toList := by
  induction more generalizing i xs s with
  | zero => exact .refl _
  | succ more ih => exact (ih _ _ _).trans (toList_swapIfInBounds_perm xs _ _)

theorem insertBefore_perm (x y : Nat) (zs : List Nat) : (insertBefore x y zs).Perm (x :: zs) := by
  induction zs with
  | nil => exact .refl _
  | cons z zs ih =>
    simp only [insertBefore]
    split
    · exact .refl _
    · exact (ih.cons z).trans (.swap x z zs)

/-- A number that was drawn before makes way for the bound, which is
above all that were drawn. -/
theorem drew_sampleFloyd (inOrder : Bool) (more j : Nat) {amount : Nat} {drawn : List Nat}
    (h : Drew j amount drawn) (s : Stream) :
    Drew (j + more) (amount + more) (s.sampleFloyd inOrder more j drawn).1 := by
  induction more generalizing j amount drawn s with
  | zero => exact h
  | succ more ih =>
    have ht := s.below_lt (Nat.succ_pos j)
    have hj : j ∉ drawn := fun hmem => Nat.lt_irrefl j (h.lt j hmem)
    rw [← Nat.add_assoc j, ← Nat.add_assoc amount, Nat.add_right_comm j, Nat.add_right_comm amount]
    simp only [sampleFloyd]
    apply ih
    split
    · split
      · exact h.of_perm_cons hj j.lt_succ_self j.le_succ (insertBefore_perm j _ drawn)
      · exact h.of_perm_cons hj j.lt_succ_self j.le_succ (List.perm_append_singleton _ _)
    · next hnew =>
      exact h.of_perm_cons (by simpa using hnew) ht j.le_succ (List.perm_append_singleton _ _)

/-- After too many refusals the first index that is left is taken. -/
theorem freshIndex_spec {width len amount : Nat} {drawn : List Nat}
    (hwidth : width = 32 ∨ width = 64) (h : Drew len amount drawn) (hless : amount < len)
    (attempts : Nat) (s : Stream) :
    (s.freshIndex width len drawn attempts).1 < len ∧
      (s.freshIndex width len drawn attempts).1 ∉ drawn := by
  induction attempts generalizing s with
  | zero =>
    obtain ⟨i, hi, hnew⟩ := h.exists_new hless
    cases hfind : (List.range len).find? fun i => !drawn.contains i with
    | none =>
      have hnone := List.find?_eq_none.mp hfind i (List.mem_range.mpr hi)
      simp [hnew] at hnone
    | some k =>
      have hk := List.mem_range.mp (List.mem_of_find?_eq_some hfind)
      have hfresh := List.find?_some hfind
      simp only [freshIndex, hfind, Option.getD_some]
      exact ⟨hk, by simpa using hfresh⟩
  | succ more ih =>
    have hlt := s.accept_lt hwidth (fullZone width len) (Nat.zero_lt_of_lt hless) maxAttempts
    simp only [freshIndex]
    split
    · exact ih _
    · next hnew => exact ⟨hlt, by simpa using hnew⟩

theorem drew_sampleReject {width len : Nat} (hwidth : width = 32 ∨ width = 64) (more : Nat)
    {amount : Nat} {drawn : List Nat} (h : Drew len amount drawn) (hroom : amount + more ≤ len)
    (s : Stream) : Drew len (amount + more) (s.sampleReject width len more drawn).1 := by
  induction more generalizing amount drawn s with
  | zero => exact h
  | succ more ih =>
    obtain ⟨hlt, hnew⟩ := freshIndex_spec hwidth h (by omega) (64 * maxAttempts) s
    rw [← Nat.add_assoc, Nat.add_right_comm] at hroom ⊢
    simp only [sampleReject]
    exact ih (h.of_perm_cons hnew hlt (Nat.le_refl len) (List.perm_append_singleton _ _)) hroom _

theorem choose_width {len amount width : Nat} (h : Method.choose len amount = .reject width) :
    width = 32 ∨ width = 64 := by
  have hlarge (bound : Nat) (h : (if len * 9 < bound then Method.swap else .reject 32) =
      .reject width) : width = 32 := by
    split at h
    · cases h
    · exact (Method.reject.inj h).symm
  unfold Method.choose at h
  split at h
  · exact .inr (Method.reject.inj h).symm
  · split at h
    · split at h <;> cases h
    · exact .inl (hlarge _ h)

/-- A sample is as large as it was asked for, or of all indices. -/
theorem drew_sample (len amount : Nat) (s : Stream) :
    Drew len (min amount len) (s.sample len amount).1 := by
  have hle : min amount len ≤ len := Nat.min_le_right amount len
  simp only [sample]
  split
  · have hperm := s.toList_sampleSwap_perm len (min amount len) 0 (Array.range len)
    rw [Array.toList_range] at hperm
    exact ((Drew.range len).perm hperm).take hle
  · have hdrew := drew_sampleFloyd (min amount len < 50) (min amount len)
      (len - min amount len) (.nil _) s
    rw [Nat.sub_add_cancel hle, Nat.zero_add] at hdrew
    split
    · exact hdrew
    · exact hdrew.perm (shuffle_perm _ _)
  · next width hchoose =>
    have hdrew := drew_sampleReject (choose_width hchoose) (min amount len) (.nil len)
      (by rwa [Nat.zero_add]) s
    rwa [Nat.zero_add] at hdrew

end Stream
end DeckDuel.Random
