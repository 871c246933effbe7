import CommandConsole.Proofs.EscapedValues
import CommandConsole.Proofs.Parts
import Mathlib.Data.List.TakeWhile

/-!
# Cutting at pipes

A quote looks for its partner in all the text behind it.  That is the rest of the line when
the line is cut at its pipes, and only the rest of the segment when a stage is read.  This
module proves that the two scans agree (`splitPipes_keeps_pieces`): the pieces of a line, cut
at the bare pipes among them, are the pieces of its segments, and a stage is read from them.

What a scan of a whole text finds is the row of its `pieces`.  Each of them fits before the
rest of the text (`Piece.FitsBefore`).
-/

namespace CommandConsole.Line

/-! ## The pieces of a text -/

/-- **The pieces of a text**, taken off one behind the other. -/
def pieces : List Char → List Piece
  | [] => []
  | c :: r => (nextPiece c r).1 :: pieces (nextPiece c r).2
termination_by cs => cs.length
decreasing_by
  have := length_nextPiece_le c r
  simp only [List.length_cons]
  omega

/-- A row of pieces as it was typed. -/
def sourceOf (ps : List Piece) : List Char := ps.flatMap Piece.source

theorem pieces_nil : pieces [] = [] := by
  rw [pieces.eq_def]

theorem pieces_cons (c : Char) (r : List Char) :
    pieces (c :: r) = (nextPiece c r).1 :: pieces (nextPiece c r).2 := by
  rw [pieces.eq_def]

/-- A row of bare characters spells them. -/
theorem wordOf_bare (cs : List Char) : wordOf (cs.map .bare) = String.ofList cs := by
  simp [wordOf, List.flatMap_map, Piece.value]

theorem sourceOf_cons (p : Piece) (ps : List Piece) :
    sourceOf (p :: ps) = p.source ++ sourceOf ps := List.flatMap_cons ..

theorem sourceOf_append (ps qs : List Piece) :
    sourceOf (ps ++ qs) = sourceOf ps ++ sourceOf qs := List.flatMap_append

/-- No text is lost. -/
theorem sourceOf_pieces (cs : List Char) : sourceOf (pieces cs) = cs := by
  induction cs using pieces.induct with
  | case1 => rw [pieces_nil]; rfl
  | case2 c r ih => rw [pieces_cons, sourceOf_cons, ih, nextPiece_source]

/-- **A piece fits before a text**: a quote that stands for itself has no partner there, a
backslash that stands for itself has nothing behind it, and a region goes as far as the
first quote that closes it. -/
def Piece.FitsBefore : Piece → List Char → Prop
  | bare c, rest => (isQuote c = true → splitAtClosing c rest = none) ∧ (c = '\\' → rest = [])
  | escaped _, _ => True
  | quoted q body, rest =>
    isQuote q = true ∧ splitAtClosing q (body ++ q :: rest) = some (body, rest)

theorem nextPiece_fits (c : Char) (r : List Char) :
    (nextPiece c r).1.FitsBefore (nextPiece c r).2 := by
  unfold nextPiece
  split
  · rename_i backslash
    cases r with
    | nil => exact ⟨fun _ => rfl, fun _ => rfl⟩
    | cons e rest => trivial
  · rename_i other
    split
    · rename_i quote
      cases hs : splitAtClosing c r with
      | none => exact ⟨fun _ => hs, fun he => absurd he other⟩
      | some found =>
          obtain ⟨body, rest⟩ := found
          exact ⟨quote, splitAtClosing_behind hs rest⟩
    · rename_i quote
      exact ⟨fun he => absurd he quote, fun he => absurd he other⟩

/-- Each piece of a text fits before the rest of it. -/
theorem fitsBefore_of_pieces {cs : List Char} {before after : List Piece} {p : Piece}
    (h : pieces cs = before ++ p :: after) : p.FitsBefore (sourceOf after) := by
  induction before generalizing cs with
  | nil =>
      cases cs with
      | nil => rw [pieces_nil] at h; cases h
      | cons c r =>
          rw [pieces_cons] at h
          obtain ⟨rfl, rfl⟩ := List.cons.inj h
          rw [sourceOf_pieces]
          exact nextPiece_fits c r
  | cons first before ih =>
      cases cs with
      | nil => rw [pieces_nil] at h; cases h
      | cons c r =>
          rw [pieces_cons] at h
          exact ih (List.cons.inj h).2

/-! ## The pieces of a segment -/

/-- Only a pipe that stands bare is a bare pipe. -/
theorem nextPiece_ne_pipe {c : Char} (pipe : c ≠ '|') (r : List Char) :
    (nextPiece c r).1 ≠ .bare '|' := by
  intro he
  have source := nextPiece_source c r
  rw [he] at source
  exact pipe (List.cons.inj source).1.symm

theorem splitPipes_eq_segment_cons (cs : List Char) :
    splitPipes cs = segment cs :: (splitPipes cs).tail := by
  rw [segment]
  cases h : splitPipes cs with
  | nil => exact absurd h (splitPipes_ne_nil cs)
  | cons first later => rfl

theorem pieces_segment {c : Char} (pipe : c ≠ '|') (r : List Char) :
    pieces (segment (c :: r)) = (nextPiece c r).1 :: pieces (segment (nextPiece c r).2) := by
  obtain ⟨r', he, hp⟩ := nextPiece_segment pipe r
  rw [he, pieces_cons, hp]

/-- **A line is cut between its pieces**, at the bare pipes, and each segment has the pieces
that the line has there. -/
theorem pieces_splitPipes (cs : List Char) :
    (splitPipes cs).map pieces = (pieces cs).splitOn (.bare '|') := by
  induction cs using splitPipes.induct with
  | case1 => rw [splitPipes_nil, List.map_singleton, pieces_nil, List.splitOn_nil]
  | case2 r ih =>
      have bar : pieces ('|' :: r) = .bare '|' :: pieces r := pieces_cons '|' r
      rw [splitPipes_cons, if_pos rfl, List.map_cons, pieces_nil, ih, bar,
        List.splitOn_cons_eq_if_modifyHead, if_pos (beq_self_eq_true _)]
  | case3 c r pipe piece ih =>
      have other : ((nextPiece c r).1 == .bare '|') = false :=
        beq_eq_false_iff_ne.2 (nextPiece_ne_pipe pipe r)
      rw [splitPipes_eq_segment_cons (nextPiece c r).2, List.map_cons] at ih
      have tail : (splitPipes (c :: r)).tail = (splitPipes (nextPiece c r).2).tail := by
        rw [splitPipes_cons, if_neg pipe, splitPipes_eq_segment_cons (nextPiece c r).2]
        rfl
      rw [splitPipes_eq_segment_cons, tail, List.map_cons, pieces_segment pipe, pieces_cons,
        List.splitOn_cons_eq_if_modifyHead, if_neg (by simp [other]), ← ih]
      rfl

theorem splitPipes_eq_map (cs : List Char) :
    splitPipes cs = ((pieces cs).splitOn (.bare '|')).map sourceOf := by
  rw [← pieces_splitPipes, List.map_map]
  exact (List.map_id' _).symm.trans (List.map_congr_left fun segment _ =>
    (sourceOf_pieces segment).symm)

theorem intercalate_consHead (front : List Char) {segments : List (List Char)}
    (ne : segments ≠ []) :
    ['|'].intercalate (consHead front segments) = front ++ ['|'].intercalate segments := by
  obtain ⟨first, later, rfl⟩ := List.exists_cons_of_ne_nil ne
  cases later with
  | nil => simp [consHead]
  | cons second later => simp [consHead, List.intercalate_cons_cons]

/-- With pipes between them again, the segments are the line. -/
theorem intercalate_splitPipes (cs : List Char) : ['|'].intercalate (splitPipes cs) = cs := by
  induction cs using splitPipes.induct with
  | case1 => rw [splitPipes_nil, List.intercalate_singleton]
  | case2 r ih =>
      rw [splitPipes_cons, if_pos rfl]
      rw [splitPipes_eq_segment_cons r] at ih ⊢
      rw [List.intercalate_cons_cons, ih]
      rfl
  | case3 c r pipe piece ih =>
      rw [splitPipes_cons, if_neg pipe, intercalate_consHead _ (splitPipes_ne_nil _), ih,
        nextPiece_source]

/-- A segment holds no bare pipe. -/
theorem pipe_not_mem_pieces {cs segment : List Char} (h : segment ∈ splitPipes cs) :
    Piece.bare '|' ∉ pieces segment := by
  have part : pieces segment ∈ (pieces cs).splitOn (.bare '|') := by
    rw [← pieces_splitPipes]
    exact List.mem_map_of_mem h
  exact not_mem_of_mem_splitOn part

/-- A segment is not cut again. -/
theorem splitPipes_segment {cs segment : List Char} (h : segment ∈ splitPipes cs) :
    splitPipes segment = [segment] := by
  rw [splitPipes_eq_map, List.splitOn_eq_singleton (pipe_not_mem_pieces h), List.map_singleton,
    sourceOf_pieces]

/-! ## Reading a stage from the pieces -/

/-- **Items read from a row of pieces.**  A word is read from one piece or more.  A redirect is
read from its operator, blanks, and the pieces of its target. -/
inductive ReadFrom : List Piece → List Item → Prop where
  | nothing : ReadFrom [] []
  | blank {b : Char} {ps : List Piece} {is : List Item} (h : Text.isBlank b = true)
      (later : ReadFrom ps is) : ReadFrom (.bare b :: ps) is
  | word {w ps : List Piece} {is : List Item} (ne : w ≠ []) (later : ReadFrom ps is) :
      ReadFrom (w ++ ps) (.word (wordOf w) :: is)
  | redirect {kind : RedirectKind} {between : List Char} {target ps : List Piece}
      {is : List Item} (hb : ∀ b ∈ between, Text.isBlank b = true) (ne : target ≠ [])
      (later : ReadFrom ps is) :
      ReadFrom ((kind.operator.toList ++ between).map .bare ++ (target ++ ps))
        (.redirect ⟨kind, wordOf target⟩ :: is)

theorem pieces_append_of_ordinary {cs : List Char} (h : ∀ c ∈ cs, c ≠ '\\' ∧ isQuote c = false)
    (rest : List Char) : pieces (cs ++ rest) = cs.map .bare ++ pieces rest := by
  induction cs with
  | nil => rfl
  | cons c cs ih =>
      obtain ⟨hc, hq⟩ := h c List.mem_cons_self
      rw [List.cons_append, pieces_cons, nextPiece_bare hc hq, ih fun d hd => h d (.tail _ hd)]
      rfl

/-- A word is scanned from the pieces in front. -/
theorem pieces_scanWord (cs : List Char) :
    pieces cs = (scanWord cs).1 ++ pieces (scanWord cs).2 := by
  induction cs using scanWord.induct with
  | case1 => rw [scanWord.eq_def]; rfl
  | case2 c r ends => rw [scanWord.eq_def]; simp [ends]
  | case3 c r ends piece ih =>
      rw [scanWord_cons (Bool.eq_false_iff.2 ends), pieces_cons, ih]
      rfl

theorem ordinary_of_blank {c : Char} (h : Text.isBlank c = true) : c ≠ '\\' ∧ isQuote c = false := by
  have other {d : Char} (hd : Text.isBlank d = false) : c ≠ d := fun he => by
    rw [he, hd] at h
    cases h
  exact ⟨other (by decide), by simp [isQuote, other (d := '\'') (by decide),
    other (d := '"') (by decide)]⟩

theorem exists_blanks (cs : List Char) :
    ∃ blanks, (∀ b ∈ blanks, Text.isBlank b = true) ∧ cs = blanks ++ Text.skipBlanks cs :=
  ⟨cs.takeWhile Text.isBlank, fun _ hb => List.mem_takeWhile_imp hb,
    List.takeWhile_append_dropWhile.symm⟩

theorem ReadFrom.blanks {blanks : List Char} (h : ∀ b ∈ blanks, Text.isBlank b = true)
    {ps : List Piece} {is : List Item} (later : ReadFrom ps is) :
    ReadFrom (blanks.map .bare ++ ps) is := by
  induction blanks with
  | nil => exact later
  | cons b blanks ih =>
      exact .blank (h b List.mem_cons_self) (ih fun c hc => h c (.tail _ hc))

theorem redirectOperator?_source {cs behind : List Char} {kind : RedirectKind}
    (h : redirectOperator? cs = some (kind, behind)) : cs = kind.operator.toList ++ behind := by
  unfold redirectOperator? at h
  split at h <;> cases h <;> rfl

theorem ordinary_of_operatorChar {c : Char} (h : isOperatorChar c = true) :
    c ≠ '\\' ∧ isQuote c = false := by
  simp only [isOperatorChar, Bool.or_eq_true, beq_iff_eq] at h
  rcases h with (rfl | rfl) | rfl <;> decide

theorem operatorChar_of_mem_operator {kind : RedirectKind} :
    ∀ c ∈ kind.operator.toList, isOperatorChar c = true := by
  cases kind <;> exact List.all_eq_true.1 (by decide)

theorem scanWord_ne_nil {c : Char} (ends : endsWord c = false) (r : List Char) :
    (scanWord (c :: r)).1 ≠ [] := by
  rw [scanWord_cons ends]
  exact List.cons_ne_nil _ _

/-- An item is read from the pieces in front. -/
theorem ReadFrom.next {c : Char} {r : List Char} (blank : Text.isBlank c = false)
    {is : List Item} (later : ReadFrom (pieces (nextItem c r).2) is) :
    ReadFrom (pieces (c :: r)) ((nextItem c r).1 :: is) := by
  cases operator : redirectOperator? (c :: r) with
  | none =>
      obtain ⟨more, less⟩ := redirectOperator?_eq_none operator
      simp only [nextItem, operator] at later ⊢
      rw [pieces_scanWord]
      exact .word (scanWord_ne_nil (by simp [endsWord, blank, more, less]) r) later
  | some found =>
      obtain ⟨kind, behind⟩ := found
      have source := redirectOperator?_source operator
      have dangling (later : ReadFrom (pieces (nextItem.dangling c r).2) is) :
          ReadFrom (pieces (c :: r)) ((nextItem.dangling c r).1 :: is) := by
        have run : ∀ d ∈ c :: r.takeWhile isOperatorChar, isOperatorChar d = true := by
          refine List.forall_mem_cons.2 ⟨?_, fun d hd => List.mem_takeWhile_imp hd⟩
          obtain ⟨o, os, he⟩ : ∃ o os, kind.operator.toList = o :: os := by
            cases kind <;> exact ⟨_, _, rfl⟩
          rw [he] at source
          rw [(List.cons.inj source).1]
          exact operatorChar_of_mem_operator _ (he ▸ List.mem_cons_self)
        have text : c :: r = (c :: r.takeWhile isOperatorChar) ++ r.dropWhile isOperatorChar := by
          rw [List.cons_append, List.takeWhile_append_dropWhile]
        rw [text, pieces_append_of_ordinary fun d hd => ordinary_of_operatorChar (run d hd)]
        rw [nextItem.dangling, ← wordOf_bare]
        exact .word (by simp) later
      simp only [nextItem, operator] at later ⊢
      split at later
      · exact dangling later
      · rename_i d rest target
        by_cases angle : d = '>' ∨ d = '<'
        · rw [if_pos angle] at later ⊢
          exact dangling later
        · obtain ⟨blanks, hb, he⟩ := exists_blanks behind
          have ends : endsWord d = false := by
            simpa [endsWord, Text.isBlank_head_skipBlanks target, not_or] using angle
          rw [target] at he
          rw [if_neg angle] at later ⊢
          rw [source, he, ← List.append_assoc, pieces_append_of_ordinary, pieces_scanWord]
          · exact .redirect hb (scanWord_ne_nil ends rest) later
          · intro e hm
            rcases List.mem_append.1 hm with hm | hm
            · exact ordinary_of_operatorChar (operatorChar_of_mem_operator e hm)
            · exact ordinary_of_blank (hb e hm)

/-- **A stage is read from the pieces of its text.** -/
theorem items_readFrom (cs : List Char) : ReadFrom (pieces cs) (items cs) := by
  obtain ⟨blanks, hb, he⟩ := exists_blanks cs
  rw [items_of_skipBlanks]
  cases hs : Text.skipBlanks cs with
  | nil =>
      rw [hs, List.append_nil] at he
      rw [he, ← List.append_nil blanks, pieces_append_of_ordinary fun b hm => ordinary_of_blank (hb b hm)]
      exact .blanks hb (pieces_nil ▸ .nothing)
  | cons c r =>
      have blank := Text.isBlank_head_skipBlanks hs
      have shorter := length_nextItem_lt (r := r) blank
      rw [hs] at he
      have later := items_readFrom (nextItem c r).2
      rw [he, pieces_append_of_ordinary fun b hm => ordinary_of_blank (hb b hm)]
      exact .blanks hb (.next blank later)
termination_by cs.length
decreasing_by
  have bound := Text.length_skipBlanks_le cs
  rw [hs] at bound
  omega

/-! ## Nothing is lost -/

/-- **A line is cut at its pipes without loss.**  With pipes between them the segments are the
line again, and no segment is cut a second time.  The scan of the line and the scans of its
segments find the same pieces, so each escape, each region between quotes and each quote that
stands for itself lies in one segment, behind the segments before it and their pipes; there a
region closes where it closed in the line, and a quote without a partner in the rest of the
line has none in the rest of the segment.  What is read of a segment is read from its pieces. -/
theorem splitPipes_keeps_pieces (cs : List Char) :
    ['|'].intercalate (splitPipes cs) = cs ∧
    (∀ segment ∈ splitPipes cs, splitPipes segment = [segment]) ∧
    (splitPipes cs).map pieces = (pieces cs).splitOn (.bare '|') ∧
    (∀ before p after, pieces cs = before ++ p :: after → p ≠ .bare '|' →
      ∃ front segment back left right, splitPipes cs = front ++ segment :: back ∧
        pieces segment = left ++ p :: right ∧
        sourceOf before = front.flatMap (· ++ ['|']) ++ sourceOf left ∧
        p.FitsBefore (sourceOf after) ∧ p.FitsBefore (sourceOf right)) ∧
    ∀ segment ∈ splitPipes cs, ReadFrom (pieces segment) (items segment) := by
  refine ⟨intercalate_splitPipes cs, fun segment => splitPipes_segment, pieces_splitPipes cs,
    fun before p after scan other => ?_, fun segment _ => items_readFrom segment⟩
  obtain ⟨rows, left, right, later, parts, rfl⟩ := exists_part_of_splitOn other before after
  rw [← scan, ← pieces_splitPipes] at parts
  obtain ⟨front, behind, cut, fronts, rest⟩ := List.map_eq_append_iff.1 parts
  obtain ⟨segment, back, rfl, here, -⟩ := List.map_eq_cons_iff.1 rest
  refine ⟨front, segment, back, left, right, cut, here, ?_, fitsBefore_of_pieces scan,
    fitsBefore_of_pieces here⟩
  have text_of (text : List Char) : sourceOf (pieces text ++ [.bare '|']) = text ++ ['|'] := by
    rw [sourceOf_append, sourceOf_pieces]
    rfl
  rw [sourceOf_append, ← fronts, sourceOf, List.flatMap_assoc, List.flatMap_map]
  exact congrArg (fun f => front.flatMap f ++ sourceOf left) (funext text_of)

/-- Behind an escaped pipe and a pipe between quotes, a quote without a partner. -/
theorem lone_quote_stays_alone :
    let cs := "a\\|'b|c' \"d|e".toList
    let before : List Piece :=
      [.bare 'a', .escaped '|', .quoted '\'' ['b', '|', 'c'], .bare ' ']
    pieces cs = before ++ .bare '"' :: [.bare 'd', .bare '|', .bare 'e'] ∧
    splitPipes cs = ["a\\|'b|c' \"d".toList, ['e']] ∧
    ∃ front segment back left right, splitPipes cs = front ++ segment :: back ∧
      pieces segment = left ++ .bare '"' :: right ∧
      sourceOf before = front.flatMap (· ++ ['|']) ++ sourceOf left ∧
      (Piece.bare '"').FitsBefore ['d', '|', 'e'] ∧ (Piece.bare '"').FitsBefore (sourceOf right) := by
  intro cs before
  have scan : pieces cs = before ++ .bare '"' :: [.bare 'd', .bare '|', .bare 'e'] := by
    decide +kernel
  have cut : splitPipes cs = ["a\\|'b|c' \"d".toList, ['e']] := by
    rw [splitPipes_eq_map, scan]
    decide
  exact ⟨scan, cut, (splitPipes_keeps_pieces cs).2.2.2.1 _ _ _ scan (by decide)⟩

end CommandConsole.Line
