import CommandConsole.Proofs.TypedRedirects

/-!
# What a stage shows of its text

In a segment without quotes and backslashes every character that is no blank comes out again,
once and in its place: in a word, in the operator of a redirect or in its target.  An operator
without a target is a word, so however operators are heaped up, none is dropped
(`Line.flatMap_shown`).  The stage has the words and the redirects apart, and some row in which
the two interleave shows what was typed.

There is no stage just if the segment holds nothing but blanks and redirects with a target
(`Line.Wordless`).  That can be told without knowing where a scanner ends a target: a `2` may
be the end of one target or the beginning of the next operator, and either way a redirect is
read behind it.
-/

namespace CommandConsole.Line

/-! ## What is shown -/

/-- An item without the blanks in it: a word, or an operator with its target behind it. -/
def Item.shown : Item → List Char
  | .word text => text.toList
  | .redirect r => r.kind.operator.toList ++ r.target.toList

/-- The characters of a text that are no blanks. -/
def visible (cs : List Char) : List Char := cs.filter fun c => !Text.isBlank c

theorem visible_append (a b : List Char) : visible (a ++ b) = visible a ++ visible b :=
  List.filter_append ..

theorem visible_of_blanks {cs : List Char} (h : ∀ c ∈ cs, Text.isBlank c = true) :
    visible cs = [] := List.filter_eq_nil_iff.2 fun c hc => by simp [h c hc]

theorem visible_of_solid {cs : List Char} (h : ∀ c ∈ cs, Text.isBlank c = false) :
    visible cs = cs := List.filter_eq_self.2 fun c hc => by simp [h c hc]

theorem Solid.visible_eq {w : List Char} (h : Solid w) : visible w = w := by
  refine visible_of_solid fun c hc => ?_
  have goes_on := h.goes_on c hc
  simp only [endsWord, Bool.or_eq_false_iff] at goes_on
  exact goes_on.1.1

theorem blank_of_operatorChar {c : Char} (h : isOperatorChar c = true) :
    Text.isBlank c = false := by
  simp only [isOperatorChar, Bool.or_eq_true, beq_iff_eq] at h
  rcases h with (rfl | rfl) | rfl <;> decide

/-- **Items show the characters that were typed**, but for the blanks. -/
theorem Typed.flatMap_shown {cs : List Char} {is : List Item} (h : Typed cs is) :
    is.flatMap Item.shown = visible cs := by
  induction h with
  | nothing => rfl
  | @blank b rest is hb _ ih =>
      rw [ih, ← List.singleton_append, visible_append,
        visible_of_blanks (List.forall_mem_singleton.2 hb), List.nil_append]
  | @word w rest is solid _ _ _ ih =>
      rw [List.flatMap_cons, ih, visible_append, solid.visible_eq, Item.shown, String.toList_ofList]
  | @redirect kind between target rest is hb solid _ _ ih =>
      have operator : visible kind.operator.toList = kind.operator.toList :=
        visible_of_solid fun c hc => blank_of_operatorChar (operatorChar_of_mem_operator c hc)
      rw [List.flatMap_cons, ih, visible_append, visible_append, visible_append, operator,
        visible_of_blanks hb, solid.visible_eq, Item.shown, String.toList_ofList, List.nil_append,
        List.append_assoc]
  | @unaimed kind behind run rest is _ _ _ all _ _ ih =>
      have shown : visible run = run := visible_of_solid fun c hc => blank_of_operatorChar (all c hc)
      rw [List.flatMap_cons, ih, visible_append, shown, Item.shown, String.toList_ofList]

/-! ## Words and redirects apart -/

/-- **A row in which words and redirects interleave**, each of them in order. -/
inductive Interleaves : List String → List Redirect → List Item → Prop where
  | nothing : Interleaves [] [] []
  | word {text : String} {words : List String} {redirects : List Redirect} {row : List Item}
      (later : Interleaves words redirects row) :
      Interleaves (text :: words) redirects (.word text :: row)
  | redirect {r : Redirect} {words : List String} {redirects : List Redirect} {row : List Item}
      (later : Interleaves words redirects row) :
      Interleaves words (r :: redirects) (.redirect r :: row)

theorem interleaves_apart (row : List Item) : Interleaves (plainWords row) (redirectsOf row) row := by
  induction row with
  | nil => exact .nothing
  | cons item row ih =>
      cases item with
      | word text => exact .word ih
      | redirect r => exact .redirect ih

/-! ## Segments without a word -/

/-- **A segment of blanks and redirects only**, each redirect with a target. -/
inductive Wordless : List Char → Prop where
  | nothing : Wordless []
  | blank {b : Char} {rest : List Char} (h : Text.isBlank b = true) (later : Wordless rest) :
      Wordless (b :: rest)
  | redirect {between target rest : List Char} (kind : RedirectKind)
      (blank : ∀ b ∈ between, Text.isBlank b = true) (solid : Solid target)
      (later : Wordless rest) :
      Wordless (kind.operator.toList ++ (between ++ (target ++ rest)))

theorem Typed.wordless {cs : List Char} {is : List Item} (h : Typed cs is)
    (none_in : plainWords is = []) : Wordless cs := by
  induction h with
  | nothing => exact .nothing
  | blank hb _ ih => exact .blank hb (ih none_in)
  | word => cases none_in
  | redirect hb solid _ _ ih => exact .redirect _ hb solid (ih none_in)
  | unaimed => cases none_in

theorem ended_cons {c : Char} (h : endsWord c = true) (cs : List Char) : Ended (c :: cs) := by
  intro d hd
  cases hd
  exact h

theorem Solid.concat {w : List Char} (h : Solid w) {c : Char} (hc : endsWord c = false) :
    Solid (w ++ [c]) :=
  ⟨by simp, fun d hd => (List.mem_append.1 hd).elim (h.goes_on d) fun hm =>
    List.mem_singleton.1 hm ▸ hc⟩

/-- What is typed without a word ends the target before it, or begins with a `2` that belongs to
that target, and is typed without a word behind the `2` as well. -/
theorem Typed.ended_or_two {cs : List Char} {is : List Item} (h : Typed cs is)
    (none_in : plainWords is = []) :
    Ended cs ∨ ∃ rest is', cs = '2' :: rest ∧ Ended rest ∧ Typed rest is' ∧
      plainWords is' = [] := by
  cases h with
  | nothing => exact .inl fun c hc => by cases hc
  | blank hb => exact .inl (ended_cons (by simp [endsWord, hb]) _)
  | word => cases none_in
  | unaimed => cases none_in
  | @redirect kind between target rest is hb solid ends later =>
      have behind (kind : RedirectKind) : Typed
          (kind.operator.toList ++ (between ++ (target ++ rest)))
          (.redirect ⟨kind, String.ofList target⟩ :: is) := .redirect hb solid ends later
      cases kind with
      | errTruncate =>
          exact .inr ⟨_, _, rfl, ended_cons (by decide) _, behind .outTruncate, none_in⟩
      | errAppend => exact .inr ⟨_, _, rfl, ended_cons (by decide) _, behind .outAppend, none_in⟩
      | _ => exact .inl (ended_cons (by decide) _)

/-- A segment of blanks and redirects is typed as a row of redirects. -/
theorem Wordless.typed {cs : List Char} (h : Wordless cs) :
    ∃ is, Typed cs is ∧ plainWords is = [] := by
  induction h with
  | nothing => exact ⟨[], .nothing, rfl⟩
  | blank hb _ ih =>
      obtain ⟨is, typed, none_in⟩ := ih
      exact ⟨is, .blank hb typed, none_in⟩
  | @redirect between target rest kind hb solid _ ih =>
      obtain ⟨is, typed, none_in⟩ := ih
      rcases typed.ended_or_two none_in with ends | ⟨rest, is', rfl, ends, later, none_in'⟩
      · exact ⟨_, .redirect hb solid ends typed, none_in⟩
      · have two : Solid (target ++ ['2']) := solid.concat (by decide)
        have longer : Typed (kind.operator.toList ++ (between ++ ((target ++ ['2']) ++ rest)))
            (.redirect ⟨kind, String.ofList (target ++ ['2'])⟩ :: is') :=
          .redirect hb two ends later
        rw [List.append_assoc] at longer
        exact ⟨_, longer, none_in'⟩

theorem stage?_eq_none_iff {cs : List Char} (plain : Unquoted cs) :
    stage? cs = none ↔ Wordless cs := by
  have typed : Typed cs (items cs) := (typed_iff plain).2 rfl
  have wordless : stage? cs = none ↔ plainWords (items cs) = [] := by
    rw [stage?, stageOfItems?]
    cases plainWords (items cs) <;> simp
  rw [wordless]
  refine ⟨typed.wordless, fun h => ?_⟩
  obtain ⟨is, other, none_in⟩ := h.typed
  rwa [other.items_eq plain]

/-- **No character of a stage is lost.**  In a segment without quotes and backslashes, there is
no stage just if the segment consists of blanks and of redirects that have a target.  Otherwise
the words of the stage, which are its command and its arguments, and its redirects interleave in
a row that shows exactly the characters of the segment that are no blanks. -/
theorem stage_shows_its_text (cs : List Char) (plain : Unquoted cs) :
    (stage? cs = none ↔ Wordless cs) ∧
    ∀ s, stage? cs = some s → ∃ row, Interleaves s.tokens s.redirects row ∧
      row.flatMap Item.shown = visible cs := by
  refine ⟨stage?_eq_none_iff plain, fun s hs => ⟨items cs, ?_, ?_⟩⟩
  · rw [stage?, stageOfItems?] at hs
    cases words : plainWords (items cs) with
    | nil =>
        rw [words] at hs
        cases hs
    | cons command args =>
        rw [words] at hs
        cases hs
        have row := interleaves_apart (items cs)
        rwa [words] at row
  · exact ((typed_iff plain).2 rfl : Typed cs (items cs)).flatMap_shown

/-- Operators without a target, heaped up, and redirects between them. -/
theorem heaped_operators_are_shown :
    let cs := ">>> 2> <2x 2>a2>b<".toList
    Unquoted cs ∧ stage? cs = some ⟨">>>", ["2>", "<"],
        [⟨.input, "2x"⟩, ⟨.errTruncate, "a2"⟩, ⟨.outTruncate, "b"⟩]⟩ ∧
      ∃ row, Interleaves [">>>", "2>", "<"]
          [⟨.input, "2x"⟩, ⟨.errTruncate, "a2"⟩, ⟨.outTruncate, "b"⟩] row ∧
        row.flatMap Item.shown = ">>>2><2x2>a2>b<".toList := by
  intro cs
  have plain : Unquoted cs := by decide
  have read : stage? cs = some ⟨">>>", ["2>", "<"],
      [⟨.input, "2x"⟩, ⟨.errTruncate, "a2"⟩, ⟨.outTruncate, "b"⟩]⟩ := by decide +kernel
  obtain ⟨row, interleaved, shown⟩ := (stage_shows_its_text cs plain).2 _ read
  exact ⟨plain, read, row, interleaved, shown.trans (by decide)⟩

end CommandConsole.Line
