import CommandConsole.Line.Segments
import Mathlib.Data.List.DropRight

/-!
# What is stripped off a line

Before a line is cut, the blanks at its end are taken off, and with them a background mark.  This
module says once what stripping makes of a line (`Line.Stripped`), and that it makes nothing
else of it (`Line.stripped_iff`), so that nothing beyond it has to look at how the end of the
line is searched.
-/

namespace CommandConsole.Line

/-! ## Backslashes at the end -/

/-- The number of backslashes at the end of a text. -/
def backslashes (front : List Char) : Nat := (front.rtakeWhile (· == '\\')).length

@[simp] theorem backslashes_nil : backslashes [] = 0 := rfl

@[simp] theorem backslashes_concat_backslash (front : List Char) :
    backslashes (front ++ ['\\']) = backslashes front + 1 := by
  simp [backslashes]

theorem backslashes_concat_of_ne {c : Char} (h : c ≠ '\\') (front : List Char) :
    backslashes (front ++ [c]) = 0 := by
  simp [backslashes, h]

theorem backslashes_eq_zero_iff {front : List Char} :
    backslashes front = 0 ↔ front.getLast? ≠ some '\\' := by
  rcases List.eq_nil_or_concat front with rfl | ⟨before, c, rfl⟩
  · simp
  · by_cases h : c = '\\' <;> simp [backslashes, h]

/-! ## Blanks at the end -/

/-- A text that does not end with a blank. -/
def EndsSolid (cs : List Char) : Prop := ∀ c, cs.getLast? = some c → Text.isBlank c = false

theorem endsSolid_nil : EndsSolid [] := fun _ hc => by cases hc

theorem endsSolid_concat {c : Char} (h : Text.isBlank c = false) (front : List Char) :
    EndsSolid (front ++ [c]) := by
  intro d hd
  rw [List.getLast?_concat] at hd
  exact Option.some.inj hd ▸ h

theorem endsSolid_dropBlanksEnd (cs : List Char) : EndsSolid (Text.dropBlanksEnd cs) := by
  intro c hc
  have some_left : Text.dropBlanksEnd cs ≠ [] := by
    intro nothing
    rw [nothing] at hc
    cases hc
  rw [List.getLast?_eq_some_getLast some_left] at hc
  cases hc
  exact Bool.eq_false_iff.2 (List.rdropWhile_last_not Text.isBlank cs some_left)

theorem exists_blanksEnd (cs : List Char) :
    ∃ blanks, cs = Text.dropBlanksEnd cs ++ blanks ∧ ∀ b ∈ blanks, Text.isBlank b = true :=
  ⟨cs.rtakeWhile Text.isBlank, List.rdropWhile_append_rtakeWhile.symm,
    fun _ hb => List.mem_rtakeWhile_imp hb⟩

/-- Blanks behind a text that does not end with one are the blanks that are dropped. -/
theorem dropBlanksEnd_of_endsSolid {front blanks : List Char} (solid : EndsSolid front)
    (hb : ∀ b ∈ blanks, Text.isBlank b = true) : Text.dropBlanksEnd (front ++ blanks) = front := by
  show (front ++ blanks).rdropWhile Text.isBlank = front
  induction blanks using List.reverseRecOn with
  | nil =>
      rw [List.append_nil, List.rdropWhile_eq_self_iff]
      intro some_text
      have last := solid _ (List.getLast?_eq_some_getLast some_text)
      simp [last]
  | append_singleton blanks b ih =>
      rw [← List.append_assoc, List.rdropWhile_concat_pos _ _ _ (hb b (by simp)),
        ih fun c hc => hb c (List.mem_append_left _ hc)]

/-! ## What is stripped -/

/-- **What stripping makes of a line**: the body that it leaves, whether it finds a mark, and the
text that it takes off. -/
inductive Stripped (cs : List Char) : List Char → Bool → List Char → Prop where
  /-- Without a mark, the blanks at the end are taken off, and a `&` before them has a backslash
  before it. -/
  | unmarked {body blanks : List Char} (text : cs = body ++ blanks) (solid : EndsSolid body)
      (hb : ∀ b ∈ blanks, Text.isBlank b = true)
      (held : ∀ front, body = front ++ ['&'] → backslashes front ≠ 0) :
      Stripped cs body false blanks
  /-- With a mark, the blanks before it are taken off as well, and no backslash stands before
  it. -/
  | marked {body gap blanks : List Char} (text : cs = body ++ (gap ++ '&' :: blanks))
      (solid : EndsSolid body) (hg : ∀ b ∈ gap, Text.isBlank b = true)
      (hb : ∀ b ∈ blanks, Text.isBlank b = true) (free : backslashes (body ++ gap) = 0) :
      Stripped cs body true (gap ++ '&' :: blanks)

theorem stripBackground_of_mark {cs before : List Char}
    (trimmed : Text.dropBlanksEnd cs = before ++ ['&']) :
    stripBackground cs = if backslashes before = 0 then (Text.dropBlanksEnd before, true)
      else (before ++ ['&'], false) := by
  rw [stripBackground, trimmed, List.reverse_append, List.reverse_singleton,
    List.singleton_append]
  simp only [List.head?_reverse, List.reverse_reverse]
  by_cases last : before.getLast? = some '\\'
  · rw [if_pos last, if_neg fun none_in => backslashes_eq_zero_iff.1 none_in last]
  · rw [if_neg last, if_pos (backslashes_eq_zero_iff.2 last)]

theorem stripBackground_of_no_mark {cs : List Char}
    (none_in : ∀ before, Text.dropBlanksEnd cs ≠ before ++ ['&']) :
    stripBackground cs = (Text.dropBlanksEnd cs, false) := by
  rw [stripBackground]
  split
  · rename_i before ends
    refine absurd ?_ (none_in before.reverse)
    rw [← List.reverse_reverse (Text.dropBlanksEnd cs), ends, List.reverse_cons]
  · rfl

/-- The body of a line is the front of it. -/
theorem stripBackground_initial (cs : List Char) : (stripBackground cs).1 <+: cs := by
  have front : Text.dropBlanksEnd cs <+: cs := List.rdropWhile_prefix _ _
  by_cases marked : ∃ before, Text.dropBlanksEnd cs = before ++ ['&']
  · obtain ⟨before, trimmed⟩ := marked
    rw [trimmed] at front
    rw [stripBackground_of_mark trimmed]
    split
    · have shorter : Text.dropBlanksEnd before <+: before := List.rdropWhile_prefix _ _
      exact shorter.trans ((List.prefix_append before ['&']).trans front)
    · exact front
  · rw [stripBackground_of_no_mark fun before he => marked ⟨before, he⟩]
    exact front

theorem blank_mark : Text.isBlank '&' = false := by decide

/-- **A line is stripped** as it says, and in no other way. -/
theorem stripped_iff {cs body removed : List Char} {background : Bool} :
    Stripped cs body background removed ↔
      stripBackground cs = (body, background) ∧ cs = body ++ removed := by
  constructor
  · intro h
    cases h with
    | unmarked text solid hb held =>
      have trimmed : Text.dropBlanksEnd cs = body := by
        rw [text, dropBlanksEnd_of_endsSolid solid hb]
      refine ⟨?_, text⟩
      by_cases marked : ∃ before, body = before ++ ['&']
      · obtain ⟨before, rfl⟩ := marked
        rw [stripBackground_of_mark trimmed, if_neg (held before rfl)]
      · rw [stripBackground_of_no_mark fun before he => marked ⟨before, trimmed ▸ he⟩, trimmed]
    | @marked gap blanks text solid hg hb free =>
      have trimmed : Text.dropBlanksEnd cs = (body ++ gap) ++ ['&'] := by
        have parts : cs = ((body ++ gap) ++ ['&']) ++ blanks := by simp [text]
        rw [parts, dropBlanksEnd_of_endsSolid (endsSolid_concat blank_mark _) hb]
      refine ⟨?_, text⟩
      rw [stripBackground_of_mark trimmed, if_pos free, dropBlanksEnd_of_endsSolid solid hg]
  · rintro ⟨strips, text⟩
    obtain ⟨blanks, whole, hb⟩ := exists_blanksEnd cs
    by_cases marked : ∃ before, Text.dropBlanksEnd cs = before ++ ['&']
    · obtain ⟨before, trimmed⟩ := marked
      rw [stripBackground_of_mark trimmed] at strips
      rw [trimmed] at whole
      split at strips
      · rename_i free
        cases strips
        obtain ⟨gap, front, hg⟩ := exists_blanksEnd before
        have removed_eq : removed = gap ++ '&' :: blanks := by
          refine List.append_cancel_left (text.symm.trans ?_)
          rw [whole, ← List.append_assoc, ← front]
          simp
        subst removed_eq
        exact .marked text (endsSolid_dropBlanksEnd before) hg hb (front ▸ free)
      · rename_i held
        cases strips
        obtain rfl := List.append_cancel_left (text.symm.trans whole)
        refine .unmarked text (endsSolid_concat blank_mark before) hb fun front he => ?_
        obtain ⟨rfl, -⟩ := List.append_inj' he rfl
        exact held
    · rw [stripBackground_of_no_mark fun before he => marked ⟨before, he⟩] at strips
      cases strips
      obtain rfl := List.append_cancel_left (text.symm.trans whole)
      exact .unmarked text (endsSolid_dropBlanksEnd cs) hb fun front he => absurd ⟨front, he⟩ marked

/-- Every line is stripped in some way. -/
theorem exists_stripped (cs : List Char) :
    ∃ removed, Stripped cs (stripBackground cs).1 (stripBackground cs).2 removed := by
  obtain ⟨removed, whole⟩ := stripBackground_initial cs
  exact ⟨removed, stripped_iff.2 ⟨rfl, whole.symm⟩⟩

section Stripped
variable {cs body removed : List Char} {background : Bool}

theorem Stripped.eq (h : Stripped cs body background removed) :
    stripBackground cs = (body, background) := (stripped_iff.1 h).1

theorem Stripped.text_eq (h : Stripped cs body background removed) : cs = body ++ removed :=
  (stripped_iff.1 h).2

/-- A line is stripped in one way only. -/
theorem Stripped.unique {body' removed' : List Char} {background' : Bool}
    (h : Stripped cs body background removed) (h' : Stripped cs body' background' removed') :
    body = body' ∧ background = background' ∧ removed = removed' := by
  obtain ⟨rfl, rfl⟩ := Prod.mk.inj (h.eq.symm.trans h'.eq)
  exact ⟨rfl, rfl, List.append_cancel_left (h.text_eq.symm.trans h'.text_eq)⟩

theorem Stripped.solid (h : Stripped cs body background removed) : EndsSolid body := by
  cases h with
  | unmarked _ solid => exact solid
  | marked _ solid => exact solid

/-- A mark that is set off by a blank is found, and it is taken off with the blanks before it. -/
theorem Stripped.with_mark (h : Stripped cs body false removed) :
    Stripped (cs ++ [' ', '&']) body true (removed ++ [' ', '&']) := by
  cases h with
  | unmarked text solid hb =>
      have gap : removed ++ [' ', '&'] = (removed ++ [' ']) ++ '&' :: [] := by simp
      rw [gap]
      refine .marked (by simp [text]) solid ?_ (List.forall_mem_nil _) ?_
      · exact List.forall_mem_append.2 ⟨hb, List.forall_mem_singleton.2 (by decide)⟩
      · rw [← List.append_assoc]
        exact backslashes_concat_of_ne (by decide) _

/-- Only blanks and a mark are taken off. -/
theorem Stripped.blank_or_mark (h : Stripped cs body background removed) :
    ∀ c ∈ removed, Text.isBlank c = true ∨ c = '&' := by
  intro c hc
  cases h with
  | unmarked _ _ hb => exact .inl (hb c hc)
  | marked _ _ hg hb =>
      rcases List.mem_append.1 hc with hc | hc
      · exact .inl (hg c hc)
      · rcases List.mem_cons.1 hc with rfl | hc
        · exact .inr rfl
        · exact .inl (hb c hc)

end Stripped

end CommandConsole.Line
