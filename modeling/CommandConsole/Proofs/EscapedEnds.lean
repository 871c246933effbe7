import CommandConsole.Proofs.Stripping
import CommandConsole.Proofs.TypedRedirects

/-!
# Escapes at the end of a line

A backslash protects the character behind it, so a character is hidden if an odd number of
backslashes stands right before it (`Line.Hides`).  The scanner pairs backslashes from the left
and finds the same: a blank or a mark at the end of a line is an escaped piece just if it is
hidden (`Line.pieces_append_of_hides`).

The background mark is looked for from the right and without pairing.  All blanks at the end are
dropped, hidden ones too, and a `&` is no mark as soon as one backslash stands before it
(`Line.Stripped`).  So escapes are respected unless a hidden blank is dropped, and then a bare
backslash takes the place of the escaped blank, or a `&` is kept behind paired backslashes
(`Line.respectsEscapes_iff`).
-/

namespace CommandConsole.Line

/-! ## Hidden characters -/

/-- **A text hides the character behind it**: it ends with an odd number of backslashes. -/
def Hides (front : List Char) : Prop := backslashes front % 2 = 1

instance (front : List Char) : Decidable (Hides front) := inferInstanceAs (Decidable (_ = _))

/-- What stands before another character has no say. -/
theorem backslashes_append_cons {c : Char} (h : c ≠ '\\') (before after : List Char) :
    backslashes (before ++ c :: after) = backslashes after := by
  induction after using List.reverseRecOn with
  | nil => exact backslashes_concat_of_ne h before
  | append_singleton after d ih =>
      rw [← List.cons_append, ← List.append_assoc]
      by_cases hd : d = '\\'
      · rw [hd, backslashes_concat_backslash, backslashes_concat_backslash, ih]
      · rw [backslashes_concat_of_ne hd, backslashes_concat_of_ne hd]

/-- Nor does a backslash with the character that it is paired with. -/
theorem backslashes_pair (c : Char) (after : List Char) :
    backslashes ('\\' :: c :: after) % 2 = backslashes after % 2 := by
  induction after using List.reverseRecOn with
  | nil => by_cases h : c = '\\' <;> simp [backslashes, List.rtakeWhile, h]
  | append_singleton after d ih =>
      rw [← List.cons_append, ← List.cons_append]
      by_cases hd : d = '\\'
      · rw [hd, backslashes_concat_backslash, backslashes_concat_backslash, Nat.add_mod, ih,
          ← Nat.add_mod]
      · rw [backslashes_concat_of_ne hd, backslashes_concat_of_ne hd]

/-! ## The scanner finds what is hidden -/

theorem splitAtClosing_of_not_mem {q : Char} {cs : List Char} (h : q ∉ cs) :
    splitAtClosing q cs = none := by
  cases found : splitAtClosing q cs with
  | none => rfl
  | some parts =>
      obtain ⟨body, rest⟩ := parts
      rw [← splitAtClosing_source found] at h
      simp at h

/-- A quote without a partner finds none in a text without quotes behind. -/
theorem splitAtClosing_append_of_not_mem {q : Char} {cs rest : List Char}
    (h : splitAtClosing q cs = none) (hr : q ∉ rest) : splitAtClosing q (cs ++ rest) = none := by
  fun_induction splitAtClosing q cs with
  | case1 => exact splitAtClosing_of_not_mem hr
  | case2 => cases h
  | case3 c hc =>
      cases rest with
      | nil => simp [splitAtClosing, hc]
      | cons d rest =>
          have other := splitAtClosing_of_not_mem hr
          have later := splitAtClosing_of_not_mem fun hm => hr (List.mem_cons_of_mem d hm)
          by_cases backslash : c = '\\'
          · simp [splitAtClosing, backslash, later]
          · have hq : c ≠ q := fun he => hc ⟨he, backslash⟩
            simp [splitAtClosing, backslash, hq, other]
  | case4 d r ih =>
      rw [Option.map_eq_none_iff] at h
      simp [splitAtClosing, ih h]
  | case5 => cases h
  | case6 c d r hc hq ih =>
      rw [Option.map_eq_none_iff] at h
      have later := ih h
      rw [List.cons_append] at later
      simp [splitAtClosing, hc, hq, later]

/-- A piece does not reach into unquoted text behind, unless it is the last backslash. -/
theorem nextPiece_append {c : Char} {r rest : List Char} (h : c = '\\' → r ≠ [])
    (plain : Unquoted rest) :
    nextPiece c (r ++ rest) = ((nextPiece c r).1, (nextPiece c r).2 ++ rest) := by
  unfold nextPiece
  split
  · rename_i backslash
    obtain ⟨e, r, rfl⟩ := List.exists_cons_of_ne_nil (h backslash)
    rfl
  · split
    · rename_i quote
      have apart : c ∉ rest := fun hm => by simp [(plain c hm).2] at quote
      cases found : splitAtClosing c r with
      | none => rw [splitAtClosing_append_of_not_mem found apart]
      | some parts =>
          obtain ⟨body, behind⟩ := parts
          have longer := splitAtClosing_behind found (behind ++ rest)
          rw [← List.cons_append, ← List.append_assoc, splitAtClosing_source found] at longer
          rw [longer]
    · rfl

/-- A piece leaves a text that hides what it hid before. -/
theorem backslashes_nextPiece {c : Char} {r : List Char} (h : c = '\\' → r ≠ []) :
    backslashes (c :: r) % 2 = backslashes (nextPiece c r).2 % 2 := by
  unfold nextPiece
  split
  · rename_i backslash
    obtain ⟨e, r, rfl⟩ := List.exists_cons_of_ne_nil (h backslash)
    subst backslash
    exact backslashes_pair e r
  · rename_i other
    have bare : backslashes (c :: r) % 2 = backslashes r % 2 :=
      congrArg (· % 2) (backslashes_append_cons other [] r)
    split
    · cases found : splitAtClosing c r with
      | none => exact bare
      | some parts =>
          obtain ⟨body, behind⟩ := parts
          rw [← splitAtClosing_source found, ← List.cons_append, backslashes_append_cons other]
    · exact bare

theorem pieces_of_unquoted {cs : List Char} (plain : Unquoted cs) : pieces cs = cs.map .bare := by
  have all := pieces_append_of_ordinary plain []
  rwa [List.append_nil, pieces_nil, List.append_nil] at all

/-- **What nothing hides is scanned as it stands**, behind the pieces before it. -/
theorem pieces_append_of_not_hides {front rest : List Char} (h : ¬ Hides front)
    (plain : Unquoted rest) : pieces (front ++ rest) = pieces front ++ rest.map .bare := by
  induction front using pieces.induct with
  | case1 =>
      rw [List.nil_append, pieces_nil, pieces_of_unquoted plain]
      rfl
  | case2 c r ih =>
      have more : c = '\\' → r ≠ [] := by
        rintro rfl rfl
        exact h (by decide)
      rw [Hides, backslashes_nextPiece more] at h
      rw [List.cons_append, pieces_cons, pieces_cons, nextPiece_append more plain, ih h,
        List.cons_append]

/-- **What is hidden is scanned as an escaped piece**; without it, the backslash before it would
stand for itself. -/
theorem pieces_append_of_hides {front : List Char} (h : Hides front) :
    ∃ ps, pieces front = ps ++ [.bare '\\'] ∧ ∀ c rest, Unquoted (c :: rest) →
      pieces (front ++ c :: rest) = ps ++ .escaped c :: rest.map .bare := by
  induction front using pieces.induct with
  | case1 => exact absurd h (by decide)
  | case2 c r ih =>
      by_cases last : c = '\\' ∧ r = []
      · obtain ⟨rfl, rfl⟩ := last
        refine ⟨[], by rw [pieces_cons, nextPiece, if_pos rfl, pieces_nil]; rfl, ?_⟩
        intro c rest plain
        have later : Unquoted rest := fun d hd => plain d (List.mem_cons_of_mem c hd)
        rw [List.singleton_append, pieces_cons, nextPiece, if_pos rfl, pieces_of_unquoted later,
          List.nil_append]
      · have more : c = '\\' → r ≠ [] := fun backslash nothing => last ⟨backslash, nothing⟩
        rw [Hides, backslashes_nextPiece more] at h
        obtain ⟨ps, alone, followed⟩ := ih h
        refine ⟨(nextPiece c r).1 :: ps, by rw [pieces_cons, alone, List.cons_append], ?_⟩
        intro d rest plain
        rw [List.cons_append, pieces_cons, nextPiece_append more plain, followed d rest plain,
          List.cons_append]

/-! ## Escapes at the end -/

/-- **The line ends with a mark**: when the blanks at its end that nothing hides are taken off, a
`&` is the last character, and nothing hides it. -/
def EndsMarked (cs : List Char) : Prop :=
  ∃ front blanks, cs = front ++ '&' :: blanks ∧ ¬ Hides front ∧
    ∀ before b after, blanks = before ++ b :: after →
      Text.isBlank b = true ∧ ¬ Hides (front ++ '&' :: before)

/-- **Stripping a line respects its escapes**: it takes off blanks and at most one `&`, none of
them hidden, and it finds a mark just if the line ends with one. -/
structure RespectsEscapes (cs : List Char) : Prop where
  bare : ∃ removed, cs = (stripBackground cs).1 ++ removed ∧ removed.count '&' ≤ 1 ∧
    ∀ before c after, removed = before ++ c :: after →
      (Text.isBlank c = true ∨ c = '&') ∧ ¬ Hides ((stripBackground cs).1 ++ before)
  mark : (stripBackground cs).2 = true ↔ EndsMarked cs

theorem not_hides_of_backslashes {front : List Char} (h : backslashes front = 0) :
    ¬ Hides front := by
  rw [Hides, h]
  decide

/-- Behind text without backslashes nothing is hidden. -/
theorem not_hides_append {before : List Char} (ne : before ≠ []) (h : ∀ c ∈ before, c ≠ '\\')
    (front : List Char) : ¬ Hides (front ++ before) := by
  obtain ⟨start, c, rfl⟩ := (List.eq_nil_or_concat before).resolve_left ne
  rw [List.concat_eq_append] at h ⊢
  refine not_hides_of_backslashes ?_
  rw [← List.append_assoc, backslashes_concat_of_ne (h c (by simp))]

section Stripped
variable {cs body removed : List Char} {background : Bool}

theorem Stripped.unquoted (h : Stripped cs body background removed) : Unquoted removed := by
  intro c hc
  rcases h.blank_or_mark c hc with blank | rfl
  · exact ordinary_of_blank blank
  · decide

theorem count_mark_of_blanks {blanks : List Char} (hb : ∀ b ∈ blanks, Text.isBlank b = true) :
    blanks.count '&' = 0 :=
  List.count_eq_zero.2 fun hm => absurd (hb '&' hm) (by decide)

theorem Stripped.count_le (h : Stripped cs body background removed) : removed.count '&' ≤ 1 := by
  cases h with
  | unmarked _ _ hb =>
      rw [count_mark_of_blanks hb]
      exact Nat.zero_le 1
  | marked _ _ hg hb =>
      rw [List.count_append, List.count_cons_self, count_mark_of_blanks hg,
        count_mark_of_blanks hb]

/-- What is hidden among the text taken off is a blank, and the first of it. -/
theorem Stripped.blank_of_hides (h : Stripped cs body background removed) (hides : Hides body)
    {c : Char} {rest : List Char} (first : removed = c :: rest) : Text.isBlank c = true := by
  cases h with
  | unmarked _ _ hb => exact hb c (first ▸ List.mem_cons_self)
  | @marked gap blanks _ _ hg hb free =>
      cases gap with
      | nil =>
          rw [List.append_nil] at free
          exact absurd hides (not_hides_of_backslashes free)
      | cons b gap =>
          cases first
          exact hg c List.mem_cons_self

/-- A mark that is found ends the line, and so does a `&` that is kept but not hidden. -/
theorem Stripped.endsMarked_iff (h : Stripped cs body background removed) :
    EndsMarked cs ↔ background = true ∨ ∃ front, body = front ++ ['&'] ∧ ¬ Hides front := by
  have marked {front blanks : List Char} (hf : ¬ Hides front)
      (hb : ∀ b ∈ blanks, Text.isBlank b = true) : EndsMarked (front ++ '&' :: blanks) := by
    refine ⟨front, blanks, rfl, hf, fun before b after he => ?_⟩
    subst he
    refine ⟨hb b (by simp), not_hides_append (List.cons_ne_nil _ _) (fun c hc => ?_) front⟩
    rcases List.mem_cons.1 hc with rfl | hc
    · decide
    · exact (ordinary_of_blank (hb c (List.mem_append_left _ hc))).1
  constructor
  · rintro ⟨front, blanks, rfl, hf, bare⟩
    have hb : ∀ b ∈ blanks, Text.isBlank b = true := by
      intro b hm
      obtain ⟨before, after, rfl⟩ := List.append_of_mem hm
      exact (bare before b after rfl).1
    cases h with
    | marked => exact .inl rfl
    | unmarked text solid hb' =>
        refine .inr ⟨front, ?_, hf⟩
        have parts : front ++ '&' :: blanks = (front ++ ['&']) ++ blanks := by simp
        rw [← dropBlanksEnd_of_endsSolid solid hb', ← text, parts,
          dropBlanksEnd_of_endsSolid (endsSolid_concat blank_mark _) hb]
  · rintro (rfl | ⟨front, rfl, hf⟩)
    · cases h with
      | marked text _ _ hb free =>
          rw [text, ← List.append_assoc]
          exact marked (not_hides_of_backslashes free) hb
    · cases h with
      | unmarked text _ hb =>
          rw [text, List.append_assoc]
          exact marked hf hb
      | marked text _ hg hb free =>
          rw [text, ← List.append_assoc]
          exact marked (not_hides_of_backslashes free) hb

/-- **Escapes are respected** unless a hidden blank is taken off or a `&` that is not hidden is
kept. -/
theorem respectsEscapes_iff (h : Stripped cs body background removed) :
    RespectsEscapes cs ↔ (Hides body → removed = []) ∧
      (background = false → ∀ front, body = front ++ ['&'] → Hides front) := by
  obtain ⟨strips, text⟩ := stripped_iff.1 h
  constructor
  · rintro ⟨⟨removed', text', -, bare⟩, mark⟩
    rw [strips] at text' bare mark
    obtain rfl := List.append_cancel_left (text.symm.trans text')
    refine ⟨fun hides => ?_, fun unmarked front he => ?_⟩
    · by_contra some_removed
      obtain ⟨c, rest, first⟩ := List.exists_cons_of_ne_nil some_removed
      have shown := (bare [] c rest first).2
      rw [List.append_nil] at shown
      exact shown hides
    · by_contra shown
      have found := mark.2 (h.endsMarked_iff.2 (.inr ⟨front, he, shown⟩))
      rw [unmarked] at found
      cases found
  · rintro ⟨nothing_hidden, held⟩
    refine ⟨⟨removed, by rw [strips]; exact text, h.count_le, fun before c after he => ?_⟩, ?_⟩
    · rw [strips]
      refine ⟨h.blank_or_mark c (he ▸ by simp), ?_⟩
      by_cases first : before = []
      · rw [first, List.append_nil]
        intro hides
        rw [nothing_hidden hides, first] at he
        cases he
      · exact not_hides_append first (fun d hd =>
          (h.unquoted d (he ▸ List.mem_append_left _ hd)).1) body
    · rw [strips, h.endsMarked_iff]
      refine ⟨.inl, fun found => found.elim id ?_⟩
      rintro ⟨front, he, shown⟩
      cases background with
      | true => rfl
      | false => exact absurd (held rfl front he) shown

end Stripped

/-- **Escapes at the end of a line.**  Every line is stripped in one way: the blanks at its end
are taken off, and a `&` before them, with the blanks before that, if no backslash stands before
it.  If the body does not hide what stood behind it, the line has the pieces of the body and
behind them what was taken off, as it stands.  If it does, what was taken off begins with a
blank that the line has as an escaped piece, and the body has a bare backslash in its place.  So
stripping respects escapes just if nothing was taken off behind a body that hides it, and every
`&` that is kept at the end is hidden. -/
theorem line_is_stripped_one_way (cs : List Char) :
    let body := (stripBackground cs).1
    let background := (stripBackground cs).2
    ∃ removed, Stripped cs body background removed ∧
      (∀ body' background' removed', Stripped cs body' background' removed' →
        body' = body ∧ background' = background ∧ removed' = removed) ∧
      (¬ Hides body → pieces cs = pieces body ++ removed.map .bare) ∧
      (Hides body → ∃ ps, pieces body = ps ++ [.bare '\\'] ∧
        ∀ c rest, removed = c :: rest → Text.isBlank c = true ∧
          pieces cs = ps ++ .escaped c :: rest.map .bare) ∧
      (RespectsEscapes cs ↔ (Hides body → removed = []) ∧
        (background = false → ∀ front, body = front ++ ['&'] → Hides front)) := by
  intro body background
  obtain ⟨removed, h⟩ := exists_stripped cs
  have text : cs = body ++ removed := h.text_eq
  refine ⟨removed, h, fun _ _ _ other => other.unique h, fun shows => ?_, fun hides => ?_,
    respectsEscapes_iff h⟩
  · rw [text]
    exact pieces_append_of_not_hides shows h.unquoted
  · obtain ⟨ps, alone, followed⟩ := pieces_append_of_hides hides
    refine ⟨ps, alone, fun c rest first => ⟨h.blank_of_hides hides first, ?_⟩⟩
    rw [text, first]
    exact followed c rest (first ▸ h.unquoted)

/-- An escaped blank at the end is dropped, and a mark behind an escaped backslash is not
found. -/
theorem escaped_end_is_mistaken :
    (stripBackground "echo a\\ ".toList = ("echo a\\".toList, false) ∧
      ¬ RespectsEscapes "echo a\\ ".toList) ∧
    stripBackground "echo a\\\\&".toList = ("echo a\\\\&".toList, false) ∧
      ¬ RespectsEscapes "echo a\\\\&".toList := by
  have blank : stripBackground "echo a\\ ".toList = ("echo a\\".toList, false) := by decide
  have mark : stripBackground "echo a\\\\&".toList = ("echo a\\\\&".toList, false) := by decide
  have dropped := stripped_iff.2 ⟨blank, show _ = _ ++ [' '] by decide⟩
  have kept := stripped_iff.2 ⟨mark, show _ = _ ++ [] by decide⟩
  refine ⟨⟨blank, fun respects => ?_⟩, mark, fun respects => ?_⟩
  · exact absurd (((respectsEscapes_iff dropped).1 respects).1 (by decide)) (by decide)
  · exact absurd (((respectsEscapes_iff kept).1 respects).2 rfl "echo a\\\\".toList (by decide))
      (by decide)

end CommandConsole.Line
