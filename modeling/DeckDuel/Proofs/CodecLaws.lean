/-
DeckDuel.Proofs.CodecLaws — what is written is read back.

* `Codec.Lawful` — a codec reads back the values of a class, whatever
  follows their bytes; and no bytes that follow change what it reads.
* `Codec.Lawful.read_cut` — so it reads nothing from bytes of such a
  value that were cut short.
* `Codec.lawful_natural`, `Codec.lawful_text`, `Codec.Lawful.pair`,
  `Codec.Lawful.listOf`, … — one law for each format.

The classes are what a fixed width leaves room for: numbers below a
power of 256, and lists whose length is below `2 ^ 64`.
-/
import DeckDuel.Codec
import Mathlib.Algebra.Group.Nat.Defs
import Mathlib.Data.List.Infix

namespace DeckDuel.Codec

variable {β γ : Type}

/-- A codec that reads back what it wrote, for the values of a class. -/
structure Lawful (c : Codec β) (P : β → Prop) : Prop where
  /-- A value is read back, and the bytes after it are left. -/
  read_write {x : β} (hx : P x) (rest : List UInt8) : c.read (c.write x ++ rest) = some (x, rest)
  /-- What was read is read as well when more bytes follow. -/
  read_append {bytes rest : List UInt8} {x : β} (h : c.read bytes = some (x, rest))
    (more : List UInt8) : c.read (bytes ++ more) = some (x, rest ++ more)

namespace Lawful

variable {c : Codec β} {P Q : β → Prop}

theorem mono (hc : c.Lawful P) (h : ∀ x, Q x → P x) : c.Lawful Q where
  read_write hx := hc.read_write (h _ hx)
  read_append := hc.read_append

/-- Nothing is read from the bytes of a value when some are cut off the
end: with the rest behind them they would have to read as the value and
leave that rest over. -/
theorem read_cut (hc : c.Lawful P) {x : β} (hx : P x) {front : List UInt8}
    (hfront : front <+: c.write x) (hcut : front ≠ c.write x) : c.read front = none := by
  obtain ⟨more, hmore⟩ := hfront
  have hwhole : c.read (front ++ more) = some (x, []) := by
    have hback := hc.read_write hx []
    rwa [List.append_nil, ← hmore] at hback
  cases hread : c.read front with
  | none => rfl
  | some r =>
    obtain ⟨y, rest⟩ := r
    have hlonger := hc.read_append hread more
    rw [hwhole, Option.some.injEq, Prod.mk.injEq, eq_comm (a := []), List.append_eq_nil_iff]
      at hlonger
    obtain ⟨-, -, rfl⟩ := hlonger
    exact absurd (by simpa using hmore) hcut

end Lawful

/-! ## Numbers -/

theorem readNatural_naturalBytes (width : Nat) {n : Nat} (hn : n < 256 ^ width)
    (rest : List UInt8) : readNatural width (naturalBytes width n ++ rest) = some (n, rest) := by
  induction width generalizing n with
  | zero => simp [naturalBytes, readNatural, Nat.lt_one_iff.mp hn]
  | succ width ih =>
    have hhigh : n / 256 < 256 ^ width := by
      rw [Nat.div_lt_iff_lt_mul (by decide), ← Nat.pow_succ]
      exact hn
    have hlow : (UInt8.ofNat (n % 256)).toNat = n % 256 := by simp
    simp only [naturalBytes, List.cons_append, readNatural, ih hhigh, Option.map_some, hlow,
      Nat.mod_add_div]

theorem readNatural_append {width n : Nat} {bytes rest : List UInt8}
    (h : readNatural width bytes = some (n, rest)) (more : List UInt8) :
    readNatural width (bytes ++ more) = some (n, rest ++ more) := by
  induction width generalizing n bytes with
  | zero =>
    simp only [readNatural, Option.some.injEq, Prod.mk.injEq] at h ⊢
    exact ⟨h.1, by rw [h.2]⟩
  | succ width ih =>
    cases bytes with
    | nil => simp [readNatural] at h
    | cons b bytes =>
      simp only [readNatural, Option.map_eq_some_iff, Prod.mk.injEq, Prod.exists] at h
      obtain ⟨high, after, hread, hn, rfl⟩ := h
      simp [readNatural, ih hread, hn]

/-- Numbers that fit the width are read back. -/
theorem lawful_natural (width : Nat) : (natural width).Lawful (· < 256 ^ width) where
  read_write hn := readNatural_naturalBytes width hn
  read_append := readNatural_append

/-! ## Formats made from others -/

namespace Lawful

variable {c : Codec β} {d : Codec γ} {P : β → Prop} {Q : γ → Prop}

/-- A value is read back if what it is written as is, and stands for
the value. -/
theorem refine (hc : c.Lawful P) {forth : γ → β} {back? : β → Option γ}
    (h : ∀ y, Q y → P (forth y) ∧ back? (forth y) = some y) :
    (c.refine forth back?).Lawful Q where
  read_write hy rest := by simp [Codec.refine, hc.read_write (h _ hy).1, (h _ hy).2]
  read_append h more := by
    simp only [Codec.refine, Option.bind_eq_some_iff, Option.map_eq_some_iff, Prod.mk.injEq,
      Prod.exists] at h ⊢
    obtain ⟨x, rest, hread, y, hy, rfl, rfl⟩ := h
    exact ⟨x, rest ++ more, hc.read_append hread more, y, hy, rfl, rfl⟩

theorem convert (hc : c.Lawful P) {forth : γ → β} {back : β → γ}
    (hback : ∀ y, Q y → back (forth y) = y) (h : ∀ y, Q y → P (forth y)) :
    (c.convert forth back).Lawful Q :=
  hc.refine fun y hy => ⟨h y hy, by rw [hback y hy]⟩

/-- Both parts are read back if each is. -/
theorem pair (hc : c.Lawful P) (hd : d.Lawful Q) :
    (c.pair d).Lawful fun x => P x.1 ∧ Q x.2 where
  read_write hx rest := by
    simp [Codec.pair, List.append_assoc, hc.read_write hx.1, hd.read_write hx.2]
  read_append h more := by
    simp only [Codec.pair, Option.bind_eq_some_iff, Option.map_eq_some_iff, Prod.mk.injEq,
      Prod.exists] at h ⊢
    obtain ⟨x, between, hx, y, rest, hy, rfl, rfl⟩ := h
    exact ⟨x, between ++ more, hc.read_append hx more, y, rest ++ more,
      hd.read_append hy more, rfl, rfl⟩

theorem readMany_flatMap (hc : c.Lawful P) {xs : List β} (hxs : ∀ x ∈ xs, P x)
    (rest : List UInt8) : readMany c xs.length (xs.flatMap c.write ++ rest) = some (xs, rest) := by
  induction xs with
  | nil => rfl
  | cons x xs ih =>
    have hx : c.read (c.write x ++ (xs.flatMap c.write ++ rest)) =
        some (x, xs.flatMap c.write ++ rest) := hc.read_write (hxs x (by simp)) _
    have hrest := ih fun y hy => hxs y (by simp [hy])
    simp [readMany, List.append_assoc, hx, hrest]

theorem readMany_append (hc : c.Lawful P) {n : Nat} {bytes rest : List UInt8} {xs : List β}
    (h : readMany c n bytes = some (xs, rest)) (more : List UInt8) :
    readMany c n (bytes ++ more) = some (xs, rest ++ more) := by
  induction n generalizing bytes xs with
  | zero =>
    simp only [readMany, Option.some.injEq, Prod.mk.injEq] at h ⊢
    exact ⟨h.1, by rw [h.2]⟩
  | succ n ih =>
    simp only [readMany, Option.bind_eq_some_iff, Option.map_eq_some_iff, Prod.mk.injEq,
      Prod.exists] at h ⊢
    obtain ⟨x, between, hx, ys, after, hys, rfl, rfl⟩ := h
    exact ⟨x, between ++ more, hc.read_append hx more, ys, after ++ more, ih hys, rfl, rfl⟩

/-- A list is read back if each entry is, and its length fits. -/
theorem listOf (hc : c.Lawful P) :
    c.listOf.Lawful fun xs => xs.length < 2 ^ 64 ∧ ∀ x ∈ xs, P x where
  read_write {xs} hxs rest := by
    have hlength : readNatural 8 (naturalBytes 8 xs.length ++ (xs.flatMap c.write ++ rest)) =
        some (xs.length, xs.flatMap c.write ++ rest) :=
      readNatural_naturalBytes 8 (by simpa using hxs.1) _
    simp [Codec.listOf, List.append_assoc, hlength, hc.readMany_flatMap hxs.2]
  read_append h more := by
    simp only [Codec.listOf, Option.bind_eq_some_iff, Prod.exists] at h ⊢
    obtain ⟨n, after, hn, hxs⟩ := h
    exact ⟨n, after ++ more, readNatural_append hn more, hc.readMany_append hxs more⟩

end Lawful

/-! ## Bytes, texts and marks -/

theorem lawful_byte : byte.Lawful fun _ => True where
  read_write _ _ := rfl
  read_append {bytes rest x} h more := by
    cases bytes with
    | nil => simp [byte] at h
    | cons b bytes =>
      simp only [byte, Option.some.injEq, Prod.mk.injEq] at h
      obtain ⟨rfl, rfl⟩ := h
      rfl

/-- Listing bytes from a place on adds them to those already listed. -/
theorem toList_loop (bs : ByteArray) (i : Nat) (listed : List UInt8) :
    ByteArray.toList.loop bs i listed = listed.reverse ++ bs.data.toList.drop i := by
  induction i, listed using ByteArray.toList.loop.induct bs with
  | case1 i listed hi ih =>
    have hi' : i < bs.data.toList.length := by simpa using hi
    have hget : bs.get! i = bs.data.toList[i] := by
      simp [ByteArray.get!, getElem!_pos bs.data i hi]
    rw [ByteArray.toList.loop, if_pos hi, ih, hget, List.drop_eq_getElem_cons hi']
    simp
  | case2 i listed hi =>
    have hi' : bs.data.toList.length ≤ i := by simpa using hi
    rw [ByteArray.toList.loop, if_neg hi, List.drop_eq_nil_of_le hi', List.append_nil]

theorem toList_bytes (bs : ByteArray) : bs.toList = bs.data.toList := by
  simp [ByteArray.toList, toList_loop]

/-- A text is read back from its bytes. -/
theorem fromUTF8?_bytes (s : String) :
    String.fromUTF8? ⟨s.toUTF8.toList.toArray⟩ = some s := by
  have hbytes : (⟨s.toUTF8.toList.toArray⟩ : ByteArray) = s.toUTF8 := by simp [toList_bytes]
  rw [hbytes, String.toUTF8_eq_toByteArray, String.fromUTF8?, dif_pos s.isValidUTF8]
  rfl

/-- Texts of fewer than `2 ^ 64` bytes are read back. -/
theorem lawful_text : text.Lawful fun s => s.utf8ByteSize < 2 ^ 64 :=
  lawful_byte.listOf.refine fun s hs =>
    ⟨⟨by simpa [toList_bytes] using hs, fun _ _ => trivial⟩, fromUTF8?_bytes s⟩

theorem lawful_flag : flag.Lawful fun _ => True :=
  (lawful_natural 1).refine fun b _ => by cases b <;> decide

namespace Lawful

variable {c : Codec β} {P : β → Prop}

theorem optional (hc : c.Lawful P) : c.optional.Lawful fun o => ∀ x ∈ o, P x where
  read_write {o} ho rest := by
    cases o with
    | none =>
      have hflag : flag.read (0 :: rest) = some (false, rest) := rfl
      simp [Codec.optional, hflag]
    | some x =>
      have hflag : flag.read (1 :: (c.write x ++ rest)) = some (true, c.write x ++ rest) := rfl
      simp [Codec.optional, hflag, hc.read_write (ho x rfl)]
  read_append {bytes rest o} h more := by
    simp only [Codec.optional, Option.bind_eq_some_iff, Prod.exists] at h ⊢
    obtain ⟨present, after, hflag, hvalue⟩ := h
    refine ⟨present, after ++ more, lawful_flag.read_append hflag more, ?_⟩
    cases present with
    | false =>
      simp only [Bool.false_eq_true, if_false, Option.some.injEq, Prod.mk.injEq] at hvalue ⊢
      exact ⟨hvalue.1, by rw [hvalue.2]⟩
    | true =>
      simp only [if_true, Option.map_eq_some_iff, Prod.mk.injEq, Prod.exists] at hvalue ⊢
      obtain ⟨x, left, hx, rfl, rfl⟩ := hvalue
      exact ⟨x, left ++ more, hc.read_append hx more, rfl, rfl⟩

end Lawful

/-- A value of a list is read back by its place. -/
theorem lawful_oneOf [BEq β] [LawfulBEq β] {xs : List β} (hxs : xs.length < 256 ^ 4) :
    (oneOf xs).Lawful (· ∈ xs) :=
  (lawful_natural 4).refine fun x hx => by
    have hplace : xs.idxOf x < xs.length := List.idxOf_lt_length_iff.mpr hx
    exact ⟨Nat.lt_trans hplace hxs, by rw [List.getElem?_eq_getElem hplace, List.getElem_idxOf]⟩

/-! ## Words -/

theorem lawful_word : word.Lawful fun _ => True :=
  (lawful_natural 8).convert (fun w _ => by simp) fun w _ => by simpa using w.toNat_lt

/-- Numbers that are stored as a word lose nothing by it. -/
class LawfulPattern (α : Type) [WordPattern α] : Prop where
  ofWord_toWord (x : α) : WordPattern.ofWord (WordPattern.toWord x) = x

theorem lawful_number [WordPattern β] [LawfulPattern β] : (number (β := β)).Lawful fun _ => True :=
  lawful_word.convert (fun x _ => LawfulPattern.ofWord_toWord x) fun _ _ => trivial

end DeckDuel.Codec
