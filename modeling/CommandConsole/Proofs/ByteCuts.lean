import Mathlib.Data.List.Basic
import Mathlib.Logic.Relation

/-!
# Texts cut at bytes, and loops that may fail

A text can be cut where its bytes are counted, and then a cut may fall into the middle of a
character.  Here such a cut is nothing (`Text.dropBytes?`, `Text.takeBytes?`), so that whoever
cuts a text by bytes and comes to something has cut it between characters.

In the same way a loop comes to nothing if one of its rounds does, or if it never ends
(`Loop.run`).  That it comes to something is shown by an invariant and a measure
(`Loop.Keeps.run`), and then the invariant holds at every round (`Loop.Keeps.passes`).
-/

namespace CommandConsole

namespace Text
variable {cs front back : List Char} {n : Nat}

/-- The number of bytes of a text. -/
def byteSize (cs : List Char) : Nat := (String.ofList cs).utf8ByteSize

/-- **A number of bytes is a boundary** of a text if so many of them make up whole characters. -/
def IsBoundary (cs : List Char) (n : Nat) : Prop :=
  (⟨n⟩ : String.Pos.Raw).IsValid (String.ofList cs)

instance : Decidable (IsBoundary cs n) :=
  inferInstanceAs (Decidable ((⟨n⟩ : String.Pos.Raw).IsValid (String.ofList cs)))

/-- **A text without its first bytes**; nothing if these are no whole characters. -/
def dropBytes? (cs : List Char) (n : Nat) : Option (List Char) :=
  if h : IsBoundary cs n then
    some ((String.ofList cs).sliceFrom ((String.ofList cs).pos ⟨n⟩ h)).copy.toList
  else none

/-- **The first bytes of a text**; nothing if these are no whole characters. -/
def takeBytes? (cs : List Char) (n : Nat) : Option (List Char) :=
  if h : IsBoundary cs n then
    some ((String.ofList cs).sliceTo ((String.ofList cs).pos ⟨n⟩ h)).copy.toList
  else none

/-- The bytes of a text from one to another; nothing if they are in the wrong order. -/
def bytesBetween? (cs : List Char) (first last : Nat) : Option (List Char) := do
  dropBytes? (← takeBytes? cs last) first

@[simp] theorem byteSize_nil : byteSize [] = 0 := rfl

@[simp] theorem byteSize_append (front back : List Char) :
    byteSize (front ++ back) = byteSize front + byteSize back := by
  rw [byteSize, String.ofList_append, String.utf8ByteSize_append]
  rfl

@[simp] theorem byteSize_cons (c : Char) (cs : List Char) :
    byteSize (c :: cs) = c.utf8Size + byteSize cs := by
  have one : byteSize [c] = c.utf8Size := String.utf8ByteSize_singleton
  rw [← List.singleton_append, byteSize_append, one]

theorem length_le_byteSize (cs : List Char) : cs.length ≤ byteSize cs := by
  induction cs with
  | nil => exact Nat.le_refl _
  | cons c cs ih =>
      have some_byte : 0 < c.utf8Size := c.utf8Size_pos
      rw [List.length_cons, byteSize_cons]
      omega

theorem eq_nil_of_byteSize (h : byteSize cs = 0) : cs = [] := by
  have short := length_le_byteSize cs
  exact List.length_eq_zero_iff.1 (by omega)

theorem byteSize_lt_of_suffix (part : back <:+ cs) (shorter : back.length < cs.length) :
    byteSize back < byteSize cs := by
  obtain ⟨front, rfl⟩ := part
  have some_byte := length_le_byteSize front
  rw [byteSize_append]
  rw [List.length_append] at shorter
  omega

/-- A boundary stands behind a front of the text. -/
theorem isBoundary_iff : IsBoundary cs n ↔ ∃ front back, cs = front ++ back ∧ n = byteSize front := by
  rw [IsBoundary, String.Pos.Raw.isValid_iff_exists_append]
  constructor
  · rintro ⟨front, back, text, place⟩
    refine ⟨front.toList, back.toList, ?_, ?_⟩
    · rw [← String.toList_append, ← text, String.toList_ofList]
    · rw [byteSize, String.ofList_toList]
      exact congrArg String.Pos.Raw.byteIdx place
  · rintro ⟨front, back, rfl, rfl⟩
    exact ⟨String.ofList front, String.ofList back, String.ofList_append, rfl⟩

theorem isBoundary_append (front back : List Char) :
    IsBoundary (front ++ back) (byteSize front) := isBoundary_iff.2 ⟨front, back, rfl, rfl⟩

/-- The place behind a front cuts the text in two. -/
theorem splits_append (h : IsBoundary (front ++ back) (byteSize front)) :
    ((String.ofList (front ++ back)).pos ⟨byteSize front⟩ h).Splits
      (String.ofList front) (String.ofList back) where
  eq_append := String.ofList_append
  offset_eq_rawEndPos := rfl

theorem dropBytes?_append (front back : List Char) :
    dropBytes? (front ++ back) (byteSize front) = some back := by
  have h := isBoundary_append front back
  rw [dropBytes?, dif_pos h, ((String.Pos.splits _).eq (splits_append h)).2, String.toList_ofList]

/-- The place behind a front and one more character. -/
theorem dropBytes?_behind (front : List Char) (c : Char) (r : List Char) :
    dropBytes? (front ++ c :: r) (byteSize front + c.utf8Size) = some r := by
  have size : byteSize (front ++ [c]) = byteSize front + c.utf8Size := by simp
  rw [← size, List.append_cons]
  exact dropBytes?_append (front ++ [c]) r

theorem dropBytes?_cons (c : Char) (r : List Char) : dropBytes? (c :: r) c.utf8Size = some r := by
  simpa using dropBytes?_behind [] c r

/-- Only whole characters are dropped. -/
theorem exists_of_dropBytes? (h : dropBytes? cs n = some back) :
    ∃ front, cs = front ++ back ∧ n = byteSize front := by
  have boundary : IsBoundary cs n := by
    by_contra no
    rw [dropBytes?, dif_neg no] at h
    cases h
  obtain ⟨front, rest, rfl, rfl⟩ := isBoundary_iff.1 boundary
  rw [dropBytes?_append] at h
  exact ⟨front, Option.some.inj h ▸ rfl, rfl⟩

theorem takeBytes?_append (front back : List Char) :
    takeBytes? (front ++ back) (byteSize front) = some front := by
  have h := isBoundary_append front back
  rw [takeBytes?, dif_pos h, ((String.Pos.splits _).eq (splits_append h)).1, String.toList_ofList]

theorem bytesBetween?_append (front between back : List Char) :
    bytesBetween? (front ++ between ++ back) (byteSize front) (byteSize (front ++ between)) =
      some between := by
  rw [bytesBetween?, takeBytes?_append, Option.bind_eq_bind, Option.bind_some, dropBytes?_append]

end Text

/-- A loop over states of some kind: whether it goes on, and what a round makes of a state. -/
structure Loop (σ : Type) where
  going : σ → Bool
  round : σ → Option σ

namespace Loop
variable {σ : Type} {l : Loop σ} {s t : σ} {I : σ → Prop} {left : σ → Nat}

/-- A round that is made, and what it makes of a state. -/
def Makes (l : Loop σ) (s s' : σ) : Prop := l.going s = true ∧ l.round s = some s'

/-- **The states that a loop passes**, the first one and what each round makes. -/
def Passes (l : Loop σ) : σ → σ → Prop := Relation.ReflTransGen l.Makes

open Classical in
/-- **Where a loop comes to**, the state passed at which it stops; nothing if one of its rounds
fails before, or if it never stops. -/
noncomputable def run (l : Loop σ) (s : σ) : Option σ :=
  if h : ∃ t, l.Passes s t ∧ l.going t = false then some h.choose else none

theorem rightUnique_makes : Relator.RightUnique l.Makes := fun _ _ _ a b =>
  Option.some.inj (a.2.symm.trans b.2)

/-- Nothing is passed behind a state at which a loop stops. -/
theorem eq_of_passes (passed : l.Passes s t) (stops : l.going s = false) : s = t := by
  rcases Relation.ReflTransGen.cases_head passed with same | ⟨_, ⟨more, -⟩, -⟩
  · exact same
  · rw [stops] at more
    cases more

/-- A loop comes to the one state passed at which it stops. -/
theorem run_eq_some_iff : l.run s = some t ↔ l.Passes s t ∧ l.going t = false := by
  constructor
  · intro comes
    rw [run] at comes
    split at comes
    · next h => exact Option.some.inj comes ▸ h.choose_spec
    · cases comes
  · rintro ⟨passed, stops⟩
    have h : ∃ t, l.Passes s t ∧ l.going t = false := ⟨t, passed, stops⟩
    have same : h.choose = t := by
      rcases Relation.ReflTransGen.total_of_right_unique rightUnique_makes h.choose_spec.1 passed
        with behind | behind
      · exact eq_of_passes behind h.choose_spec.2
      · exact (eq_of_passes behind stops).symm
    rw [run, dif_pos h, same]

/-- **A loop keeps an invariant** while less and less is left to do, and none of its rounds fails. -/
def Keeps (l : Loop σ) (I : σ → Prop) (left : σ → Nat) : Prop :=
  ∀ s, I s → l.going s = true → ∃ s', l.round s = some s' ∧ I s' ∧ left s' < left s

/-- The invariant holds of all states that are passed. -/
theorem Keeps.passes (k : l.Keeps I left) (h : I s) (passed : l.Passes s t) : I t := by
  induction passed with
  | refl => exact h
  | tail _ made ih =>
      obtain ⟨s', same, h', -⟩ := k _ ih made.1
      rw [made.2] at same
      exact Option.some.inj same ▸ h'

/-- Such a loop comes to an end, and the invariant holds there. -/
theorem Keeps.run (k : l.Keeps I left) (h : I s) :
    ∃ t, l.run s = some t ∧ I t ∧ l.going t = false := by
  -- from each state that is passed a stop is reached, by induction on what is left there
  have reaches (u : σ) (passed : l.Passes s u) : ∃ t, l.Passes s t ∧ l.going t = false := by
    induction hn : left u using Nat.strongRecOn generalizing u with
    | ind n ih =>
        by_cases more : l.going u = true
        · obtain ⟨u', round, -, less⟩ := k u (k.passes h passed) more
          exact ih (left u') (hn ▸ less) u' (passed.tail ⟨more, round⟩) rfl
        · exact ⟨u, passed, Bool.eq_false_iff.2 more⟩
  obtain ⟨t, passed, stops⟩ := reaches s .refl
  exact ⟨t, run_eq_some_iff.2 ⟨passed, stops⟩, k.passes h passed, stops⟩

end Loop
end CommandConsole
