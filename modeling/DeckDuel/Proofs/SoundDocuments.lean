/-
DeckDuel.Proofs.SoundDocuments — what is read from a text is bounded.

* `Doc.Sound`, `Doc.sound_scanAll` — integers of a scanned text fit 64
  bits, and its other numbers are finite. What is found of them in a text
  with a fault is so, too.
* `Decode.Admits` — a decoder makes of such documents only values with a
  property. It is shown for single values, lists and records, and so for
  every decoder that is built of them.
-/
import DeckDuel.Proofs.StoredNumbers
import DeckDuel.Proofs.WrittenRecords

namespace DeckDuel

open Scalar

namespace Doc

variable {α : Type} [Scalar α]

/-! ## Sound documents -/

mutual

/-- The numbers of a document are within bounds: integers fit 64 bits,
and other numbers are finite. -/
def Sound : Doc α → Prop
  | .int n => n.natAbs ≤ 2 ^ 64
  | .real x => isFinite x = true
  | .arr items _ => SoundItems items
  | .obj members _ => SoundMembers members
  | .null => True
  | .bool _ => True
  | .tooLarge => True
  | .str _ => True
  | .broken _ _ => True

/-- The numbers of the items of a list are within bounds. -/
def SoundItems : List (Doc α) → Prop
  | [] => True
  | d :: ds => d.Sound ∧ SoundItems ds

/-- The numbers of the members of a record are within bounds. -/
def SoundMembers : List (Option String × Doc α) → Prop
  | [] => True
  | (_, d) :: ds => d.Sound ∧ SoundMembers ds

end

theorem soundItems_iff {ds : List (Doc α)} : SoundItems ds ↔ ∀ d ∈ ds, d.Sound := by
  induction ds with
  | nil => simp [SoundItems]
  | cons d ds ih => simp [SoundItems, ih]

theorem soundMembers_iff {ds : List (Option String × Doc α)} :
    SoundMembers ds ↔ ∀ m ∈ ds, m.2.Sound := by
  induction ds with
  | nil => simp [SoundMembers]
  | cons m ds ih => simp [SoundMembers, ih]

/-! ## Texts -/

theorem sound_ofWritten (negative : Bool) (w : Written) :
    (ofWritten negative w : Doc α).Sound := by
  have hbound : (1 <<< 64 : Nat) = 2 ^ 64 := by decide
  have hhalf : (1 <<< 63 : Nat) ≤ 2 ^ 64 := by decide
  unfold ofWritten
  dsimp only
  split
  · next h =>
    simp only [Bool.and_eq_true, decide_eq_true_eq] at h
    show (Int.natAbs _) ≤ 2 ^ 64
    omega
  · split
    · next h =>
      simp only [Bool.and_eq_true, decide_eq_true_eq] at h
      show (Int.natAbs _) ≤ 2 ^ 64
      omega
    · split
      · split
        · next hfinite => exact hfinite
        · trivial
      · trivial

theorem sound_scanNumber (negative : Bool) (cs : List Char) :
    (scanNumber negative cs : Scanned (Doc α)).1.Sound := by
  unfold scanNumber
  split
  · exact sound_ofWritten negative _
  · trivial

theorem sound_scanConstant (first : Char) (word : String) (value : Doc α) (h : value.Sound)
    (cs : List Char) : (scanConstant first word value cs).1.Sound := by
  unfold scanConstant
  split
  · exact h
  · trivial

theorem soundMembers_partsAfterComma {r : Scanned (Parts (Option String × Doc α))}
    (h : SoundMembers r.1.1) : SoundMembers (partsAfterComma r).1.1 := h

section Steps

variable {steps : Nat}

/-- A value is sound if the parts that can be read in one step less are. -/
theorem sound_scanValue_succ
    (hitem : ∀ cs, SoundItems (scanItem steps cs : Scanned (Parts (Doc α))).1.1)
    (hmember : ∀ cs, SoundMembers (scanMember steps cs : Scanned (Parts (Option String × Doc α))).1.1)
    (cs : List Char) : (scanValue (steps + 1) cs : Scanned (Doc α)).1.Sound := by
  unfold scanValue
  split
  · trivial
  · exact sound_scanConstant _ _ .null trivial _
  · exact sound_scanConstant _ _ (.bool true) trivial _
  · exact sound_scanConstant _ _ (.bool false) trivial _
  · split <;> trivial
  · show SoundItems _
    split
    · trivial
    · trivial
    · exact hitem _
  · show SoundMembers _
    split
    · trivial
    · exact hmember _
    · trivial
  · exact sound_scanNumber _ _
  · split
    · exact sound_scanNumber _ _
    · trivial

/-- An item is a value, and so are those after it. -/
theorem soundItems_scanItem_succ
    (hvalue : ∀ cs, (scanValue steps cs : Scanned (Doc α)).1.Sound)
    (hitem : ∀ cs, SoundItems (scanItem steps cs : Scanned (Parts (Doc α))).1.1) (cs : List Char) :
    SoundItems (scanItem (steps + 1) cs : Scanned (Parts (Doc α))).1.1 := by
  have hd := hvalue cs
  unfold scanItem
  split
  · next d heq =>
    rw [heq] at hd
    exact ⟨hd, trivial⟩
  · next d rest heq =>
    rw [heq] at hd
    refine ⟨hd, ?_⟩
    split
    · trivial
    · split
      · trivial
      · exact hitem _
    · trivial

/-- A member has a value, and so have those after it. -/
theorem soundMembers_scanMember_succ
    (hvalue : ∀ cs, (scanValue steps cs : Scanned (Doc α)).1.Sound)
    (hmember : ∀ cs, SoundMembers (scanMember steps cs : Scanned (Parts (Option String × Doc α))).1.1)
    (cs : List Char) :
    SoundMembers (scanMember (steps + 1) cs : Scanned (Parts (Option String × Doc α))).1.1 := by
  unfold scanMember
  split
  · trivial
  · split
    · next name rest _ after _ =>
      have hd := hvalue after
      split
      · next d heq =>
        rw [heq] at hd
        exact ⟨hd, trivial⟩
      · next d rest heq =>
        rw [heq] at hd
        refine ⟨hd, ?_⟩
        split
        · trivial
        · refine soundMembers_partsAfterComma ?_
          split
          · exact hmember _
          · trivial
        · trivial
    · exact ⟨trivial, trivial⟩

end Steps

/-- Whatever is read in a number of steps is sound. The three readers call
each other with one step less, so one induction is on all of them. -/
theorem sound_scan_steps (steps : Nat) :
    (∀ cs, (scanValue steps cs : Scanned (Doc α)).1.Sound) ∧
    (∀ cs, SoundItems (scanItem steps cs : Scanned (Parts (Doc α))).1.1) ∧
    ∀ cs, SoundMembers (scanMember steps cs : Scanned (Parts (Option String × Doc α))).1.1 := by
  induction steps with
  | zero => exact ⟨fun _ => trivial, fun _ => trivial, fun _ => trivial⟩
  | succ steps ih =>
    obtain ⟨hvalue, hitem, hmember⟩ := ih
    exact ⟨sound_scanValue_succ hitem hmember, soundItems_scanItem_succ hvalue hitem,
      soundMembers_scanMember_succ hvalue hmember⟩

/-- The document of a text is sound. -/
theorem sound_scanAll (cs : List Char) : (scanAll cs : Whole α).doc.Sound := by
  have hscan : (scan cs : Scanned (Doc α)).1.Sound := (sound_scan_steps _).1 cs
  unfold scanAll
  split
  · next heq =>
    rw [heq] at hscan
    exact hscan
  · next heq =>
    rw [heq] at hscan
    exact hscan

/-! ## Values that are held -/

omit [Scalar α] in
theorem ofMembers_eq (ms : List (String × Json α)) :
    ofMembers ms = ms.map fun m => (some m.1, ofJson m.2) := by
  induction ms with
  | nil => rfl
  | cons m ms ih => rw [ofMembers, ih, List.map_cons]

end Doc

namespace Decode

variable {β γ : Type} {x : Decoded β} {y : γ}

/-- Where the second step succeeds, so does the first. -/
theorem bind_eq_ok {f : β → Decoded γ} :
    (x >>= f) = .ok y ↔ ∃ a, x = .ok a ∧ f a = .ok y := by
  cases x with
  | error e => exact ⟨nofun, nofun⟩
  | ok a => exact ⟨fun h => ⟨a, rfl, h⟩, fun ⟨b, hb, h⟩ => by cases hb; exact h⟩

theorem map_eq_ok {f : β → γ} : x.map f = .ok y ↔ ∃ a, x = .ok a ∧ f a = y := by
  cases x with
  | error e => exact ⟨nofun, nofun⟩
  | ok a => simp [Except.map]

end Decode

namespace Doc

open Decode

variable {α : Type} [Scalar α]

mutual

/-- A sound document is held as a sound value. -/
theorem sound_of_hold : ∀ (d : Doc α) {room : Nat} {v : Json α}, d.Sound → d.hold room = .ok v →
    (ofJson v).Sound
  | .null, _, _, _, h => by
    cases h
    trivial
  | .bool _, _, _, _, h => by
    cases h
    trivial
  | .int _, _, _, hd, h => by
    cases h
    exact hd
  | .real _, _, _, hd, h => by
    cases h
    exact hd
  | .str (some _), _, _, _, h => by
    cases h
    trivial
  | .str none, _, _, _, h => nomatch h
  | .tooLarge, _, _, _, h => nomatch h
  | .broken _ _, _, _, _, h => nomatch h
  | .arr items breach, room, v, hd, h => by
    rw [hold] at h
    split at h
    · cases h
    · obtain ⟨vs, hvs, h⟩ := bind_eq_ok.mp h
      obtain ⟨_, _, h⟩ := bind_eq_ok.mp h
      cases h
      exact soundItems_of_hold items hd hvs
  | .obj members breach, room, v, hd, h => by
    rw [hold] at h
    split at h
    · cases h
    · obtain ⟨ms, hms, h⟩ := bind_eq_ok.mp h
      obtain ⟨_, _, h⟩ := bind_eq_ok.mp h
      cases h
      exact soundMembers_of_hold members hd hms

theorem soundItems_of_hold : ∀ (ds : List (Doc α)) {room : Nat} {vs : List (Json α)},
    SoundItems ds → holdItems room ds = .ok vs → SoundItems (ofItems vs)
  | [], _, _, _, h => by
    cases h
    trivial
  | d :: ds, _, _, hds, h => by
    rw [holdItems] at h
    obtain ⟨v, hv, h⟩ := bind_eq_ok.mp h
    obtain ⟨vs, hvs, h⟩ := bind_eq_ok.mp h
    cases h
    exact ⟨sound_of_hold d hds.1 hv, soundItems_of_hold ds hds.2 hvs⟩

theorem soundMembers_of_hold : ∀ (ds : List (Option String × Doc α)) {room : Nat}
    {ms : List (String × Json α)}, SoundMembers ds → holdMembers room ds = .ok ms →
    SoundMembers (ofMembers ms)
  | [], _, _, _, h => by
    cases h
    trivial
  | (none, _) :: _, _, _, _, h => nomatch h
  | (some k, d) :: ds, _, _, hds, h => by
    rw [holdMembers] at h
    obtain ⟨v, hv, h⟩ := bind_eq_ok.mp h
    obtain ⟨ms, hms, h⟩ := bind_eq_ok.mp h
    cases h
    exact ⟨sound_of_hold d hds.1 hv, soundMembers_of_hold ds hds.2 hms⟩

end

/-- A property that a document hands down to its parts and to the value
that it is held as. -/
structure Hereditary (S : Doc α → Prop) : Prop where
  items : ∀ {ds : List (Doc α)} {breach : Option Breach}, S (.arr ds breach) → ∀ d ∈ ds, S d
  members : ∀ {ms : List (Option String × Doc α)} {breach : Option Breach},
    S (.obj ms breach) → ∀ m ∈ ms, S m.2
  held : ∀ {d : Doc α} {room : Nat} {v : Json α}, S d → d.hold room = .ok v → S (ofJson v)

theorem hereditary_sound : Hereditary (Sound (α := α)) where
  items h := soundItems_iff.mp h
  members h := soundMembers_iff.mp h
  held {d _ _} hd h := sound_of_hold d hd h

omit [Scalar α] in
theorem hereditary_true : Hereditary (fun _ : Doc α => True) where
  items _ _ _ := trivial
  members _ _ _ := trivial
  held _ _ := trivial

end Doc

/-! ## Values of a type -/

/-- The documents of the members of a record have a property. -/
def Record.Has {α : Type} (S : Doc α → Prop) (r : Record α) : Prop := ∀ m ∈ r.members, S m.2

namespace Decode

open Doc

variable {α β γ : Type} {S : Doc α → Prop} {d : Decoder α β} {P : β → Prop}

/-- Of documents with a property, only values with a property are
read. -/
def Admits (S : Doc α → Prop) (d : Decoder α β) (P : β → Prop) : Prop :=
  ∀ (src : Source) (doc : Doc α) (x : β), S doc → d src doc = .ok x → P x

theorem admits_natural (bound : Nat) : Admits S (natural bound) (· < bound) := by
  intro src doc x _ h
  cases doc with
  | int n =>
    simp only [natural] at h
    split at h
    · next hn =>
      cases h
      simp only [Bool.and_eq_true, decide_eq_true_eq] at hn
      omega
    · cases h
  | _ => cases h

theorem isFinite_ofInt [Scalar α] [Settling α] {n : Int} (h : n.natAbs ≤ 2 ^ 64) :
    isFinite (ofInt n : α) = true := by
  unfold ofInt
  split
  · exact Settling.isFinite_ofNat (by omega)
  · exact Settling.isFinite_neg (Settling.isFinite_ofNat h)

theorem admits_number [Scalar α] [Settling α] :
    Admits Sound (number : Decoder α α) (isFinite · = true) := by
  intro src doc x hdoc h
  cases doc with
  | int n =>
    cases h
    exact isFinite_ofInt hdoc
  | real y =>
    cases h
    exact hdoc
  | _ => cases h

theorem Admits.nullable (h : Admits S d P) : Admits S (nullable d) fun o => ∀ x ∈ o, P x := by
  intro src doc o hdoc heq
  unfold Decode.nullable at heq
  split at heq
  · cases heq
    nofun
  · cases heq
  · intro x hx
    obtain ⟨y, hy, rfl⟩ := map_eq_ok.mp heq
    cases hx
    exact h _ _ _ hdoc hy

theorem forall_of_items {src : Source} {ds : List (Doc α)} {xs : List β} (h : Admits S d P)
    (hds : ∀ doc ∈ ds, S doc) (heq : items d src ds = .ok xs) : ∀ x ∈ xs, P x := by
  induction ds generalizing xs with
  | nil =>
    cases heq
    simp
  | cons doc ds ih =>
    obtain ⟨hdoc, hds⟩ := List.forall_mem_cons.mp hds
    rw [items] at heq
    obtain ⟨x, hx, heq⟩ := bind_eq_ok.mp heq
    obtain ⟨xs, hxs, heq⟩ := bind_eq_ok.mp heq
    cases heq
    exact List.forall_mem_cons.mpr ⟨h _ _ _ hdoc hx, ih hds hxs⟩

theorem Admits.listOf (hS : Hereditary S) (h : Admits S d P) :
    Admits S (listOf d) fun xs => ∀ x ∈ xs, P x := by
  intro src doc xs hdoc heq
  cases doc with
  | arr ds breach =>
    rw [Decode.listOf] at heq
    obtain ⟨inside, _, heq⟩ := bind_eq_ok.mp heq
    obtain ⟨xs, hxs, heq⟩ := bind_eq_ok.mp heq
    obtain ⟨_, _, heq⟩ := bind_eq_ok.mp heq
    cases heq
    exact forall_of_items h (hS.items hdoc) hxs
  | _ => cases heq

/-! ## Records -/

/-- Members hand their property down, those that are kept as well; these
are no fields. -/
theorem has_of_members {fields : List (Field α)}
    {other : Source → Doc α → Decoded (Option (Json α))} {src : Source} {seen : List String}
    {ms : List (Option String × Doc α)} {r : Sorted α}
    (hother : ∀ {doc v}, S doc → other src doc = .ok (some v) → S (ofJson v))
    (hms : ∀ m ∈ ms, S m.2) (h : members fields other src seen ms = .ok r) :
    (∀ m ∈ r.1, S m.2) ∧ ∀ m ∈ r.2, isField fields m.1 = false ∧ S (ofJson m.2) := by
  induction ms generalizing seen r with
  | nil =>
    cases h
    simp
  | cons m ms ih =>
    obtain ⟨name, doc⟩ := m
    obtain ⟨hdoc, hrest⟩ := List.forall_mem_cons.mp hms
    cases name with
    | none => cases h
    | some name =>
      rw [members] at h
      split at h
      · split at h
        · cases h
        · obtain ⟨_, _, h⟩ := bind_eq_ok.mp h
          obtain ⟨r', hr', h⟩ := bind_eq_ok.mp h
          cases h
          exact ⟨List.forall_mem_cons.mpr ⟨hdoc, (ih hrest hr').1⟩, (ih hrest hr').2⟩
      · next hnone =>
        obtain ⟨v, hv, h⟩ := bind_eq_ok.mp h
        obtain ⟨r', hr', h⟩ := bind_eq_ok.mp h
        have hfield : isField fields name = false := by
          rw [isField, hnone]
          rfl
        cases v with
        | none =>
          cases h
          exact ih hrest hr'
        | some v =>
          cases h
          exact ⟨(ih hrest hr').1,
            List.forall_mem_cons.mpr ⟨⟨hfield, hother hdoc hv⟩, (ih hrest hr').2⟩⟩

theorem has_of_positions {src : Source} {breach : Option Breach} {fields : List (Field α)}
    {ds : List (Doc α)} {ms : List (String × Doc α)} (hds : ∀ doc ∈ ds, S doc)
    (h : positions src breach fields ds = .ok ms) : ∀ m ∈ ms, S m.2 := by
  induction ds generalizing fields ms with
  | nil =>
    unfold positions at h
    obtain ⟨_, _, h⟩ := bind_eq_ok.mp h
    cases h
    simp
  | cons doc ds ih =>
    obtain ⟨hdoc, hds⟩ := List.forall_mem_cons.mp hds
    cases fields with
    | nil => cases h
    | cons f fields =>
      rw [positions] at h
      obtain ⟨_, _, h⟩ := bind_eq_ok.mp h
      obtain ⟨ms, hms, h⟩ := bind_eq_ok.mp h
      cases h
      exact List.forall_mem_cons.mpr ⟨hdoc, ih hds hms⟩

theorem not_ignored {src : Source} {doc : Doc α} {v : Json α} :
    ignored src doc ≠ .ok (some v) := by
  intro h
  obtain ⟨_, _, h⟩ := map_eq_ok.mp h
  cases h

/-- A record admits what is built from its members. -/
theorem admits_record (hS : Hereditary S) {fields : List (Field α)} {build : Record α → Decoded β}
    (h : ∀ r x, r.Has S → build r = .ok x → P x) : Admits S (record fields build) P := by
  intro src doc x hdoc heq
  cases doc with
  | obj ms breach =>
    rw [record] at heq
    obtain ⟨inside, _, heq⟩ := bind_eq_ok.mp heq
    obtain ⟨r, hr, heq⟩ := bind_eq_ok.mp heq
    obtain ⟨_, _, heq⟩ := bind_eq_ok.mp heq
    have hhas := has_of_members (fun _ h => absurd h not_ignored) (hS.members hdoc) hr
    exact h ⟨inside, r.1, false⟩ x hhas.1 heq
  | arr ds breach =>
    rw [record] at heq
    obtain ⟨inside, _, heq⟩ := bind_eq_ok.mp heq
    obtain ⟨r, hr, heq⟩ := bind_eq_ok.mp heq
    exact h ⟨inside, r, true⟩ x (has_of_positions (hS.items hdoc) hr) heq
  | _ => cases heq

/-- An open record admits what is built from its members and from the
values of the others, which are no fields. -/
theorem admits_openRecord (hS : Hereditary S) {fields : List (Field α)}
    {build : Record α → List (String × Json α) → Decoded β}
    (h : ∀ r rest x, r.Has S → (∀ m ∈ rest, isField fields m.1 = false ∧ S (ofJson m.2)) →
      build r rest = .ok x → P x) :
    Admits S (openRecord fields build) P := by
  intro src doc x hdoc heq
  cases doc with
  | obj ms breach =>
    rw [openRecord] at heq
    obtain ⟨inside, _, heq⟩ := bind_eq_ok.mp heq
    obtain ⟨r, hr, heq⟩ := bind_eq_ok.mp heq
    obtain ⟨_, _, heq⟩ := bind_eq_ok.mp heq
    have hkept {doc v} (hdoc : S doc) (hv : kept inside doc = .ok (some v)) : S (ofJson v) := by
      obtain ⟨w, hw, hv⟩ := map_eq_ok.mp hv
      cases hv
      exact hS.held hdoc hw
    obtain ⟨hmembers, hrest⟩ := has_of_members hkept (hS.members hdoc) hr
    exact h ⟨inside, r.1, false⟩ r.2 x hmembers hrest heq
  | _ => cases heq

theorem of_within {fields : List (Field α)} {rest : List (String × Json α)}
    {build : Record α → Decoded β} {x : β} (hrest : ∀ m ∈ rest, S (ofJson m.2))
    (h : ∀ r x, r.Has S → build r = .ok x → P x) (heq : within fields rest build = .ok x) :
    P x := by
  rw [within] at heq
  obtain ⟨r, hr, heq⟩ := bind_eq_ok.mp heq
  have hms : ∀ m ∈ ofMembers rest, S m.2 := by
    rw [ofMembers_eq]
    exact List.forall_mem_map.mpr hrest
  have hhas := has_of_members (fun _ h => absurd h not_ignored) hms hr
  exact h ⟨.kept, r.1, false⟩ x hhas.1 heq

end Decode

namespace Record

open Decode

variable {α β : Type} {S : Doc α → Prop} {d : Decoder α β} {P : β → Prop} {r : Record α}
  {name : String} {x : β}

theorem Has.of_lookup {doc : Doc α} (hr : r.Has S) (h : r.members.lookup name = some doc) :
    S doc := by
  obtain ⟨l₁, l₂, hsplit, -⟩ := List.lookup_eq_some_iff.mp h
  exact hr (name, doc) (by rw [hsplit]; simp)

theorem Has.need (hr : r.Has S) (hd : Admits S d P) (h : r.need name d = .ok x) : P x := by
  unfold Record.need at h
  split at h
  · next hdoc => exact hd _ _ _ (hr.of_lookup hdoc) h
  · cases h

theorem Has.get {standard : β} (hr : r.Has S) (hd : Admits S d P) (hstandard : P standard)
    (h : r.get name d standard = .ok x) : P x := by
  unfold Record.get at h
  split at h
  · next hdoc => exact hd _ _ _ (hr.of_lookup hdoc) h
  · cases h
    exact hstandard

end Record
end DeckDuel
