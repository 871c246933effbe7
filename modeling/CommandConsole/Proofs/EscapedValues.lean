import CommandConsole.Arguments
import CommandConsole.Proofs.LineRoundTrip

/-!
# Reading back an escaped value

Listings show a value between single quotes, with `'\''` for a quote inside it
(`escapeValue`).  A shell that takes everything between single quotes as it stands would read
that back as the value.  The scanner of this console does not: a backslash hides the
character behind it there as well.  So a value comes back if none of its backslashes hides
anything, that is, if each stands before a character other than itself and the single quote
(`Line.ProtectsNothing`), and in no other case.

That it comes back is proved by putting pieces together: a text **spells** a word if, before
any other text, it is scanned as pieces with the characters of that word (`Spells`).  That
nothing else comes back is proved by following the scanner through the regions between
quotes (`insideQuotes`): where it loses step with the value, the word has a quote or a single
backslash in a place where the value has a backslash or two.
-/

namespace CommandConsole.Line

/-! ## Texts that spell a word -/

/-- **A text that spells a word**, whatever stands behind it. -/
structure Spells (text word : List Char) : Prop where
  uncut : Uncut text
  scanned : ∃ pieces : List Piece, pieces.flatMap Piece.value = word ∧
    ∀ tail, scanWord (text ++ tail) = (pieces ++ (scanWord tail).1, (scanWord tail).2)

theorem spells_nil : Spells [] [] := ⟨uncut_nil, [], rfl, fun _ => rfl⟩

theorem Spells.append {a b v w : List Char} (ha : Spells a v) (hb : Spells b w) :
    Spells (a ++ b) (v ++ w) := by
  obtain ⟨ps, rfl, hps⟩ := ha.scanned
  obtain ⟨qs, rfl, hqs⟩ := hb.scanned
  refine ⟨ha.uncut.append hb.uncut, ps ++ qs, List.flatMap_append, fun tail => ?_⟩
  rw [List.append_assoc, hps, hqs, List.append_assoc]

/-- A text that is taken off as one piece, whatever stands behind it. -/
theorem spells_piece {c : Char} {r : List Char} {p : Piece} (ends : endsWord c = false)
    (pipe : c ≠ '|') (source : p.source = c :: r)
    (taken : ∀ tail, nextPiece c (r ++ tail) = (p, tail)) : Spells (c :: r) p.value := by
  refine ⟨fun rest => ?_, [p], List.append_nil _, fun tail => ?_⟩
  · rw [List.cons_append, splitPipes_cons, if_neg pipe, taken, source]
  · rw [List.cons_append, scanWord_cons ends, taken]
    rfl

theorem spells_bare {c : Char} (hn : needsQuotes c = false) (hc : c ≠ '\\') :
    Spells [c] [c] := by
  obtain ⟨blank, pipe, more, less, -, quote⟩ := needsQuotes_eq_false hn
  exact spells_piece (by simp [endsWord, blank, more, less]) pipe (p := .bare c) rfl
    fun tail => nextPiece_bare hc quote tail

theorem spells_bare_text {cs : List Char} (h : ∀ c ∈ cs, needsQuotes c = false ∧ c ≠ '\\') :
    Spells cs cs := by
  induction cs with
  | nil => exact spells_nil
  | cons c cs ih =>
      obtain ⟨hn, hc⟩ := h c List.mem_cons_self
      exact (spells_bare hn hc).append (ih fun d hd => h d (.tail _ hd))

/-- A protected quote is a quote. -/
theorem spells_escaped_quote : Spells ['\\', '\''] ['\''] :=
  spells_piece (by decide) (by decide) (p := .escaped '\'') rfl fun _ => rfl

theorem escapeQuotes_of_not_mem {cs : List Char} (h : '\'' ∉ cs) : escapeQuotes cs = cs := by
  induction cs with
  | nil => rfl
  | cons c cs ih =>
      have hc : c ≠ '\'' := fun he => h (he ▸ List.mem_cons_self)
      rw [escapeQuotes_cons_of_ne hc, ih fun hm => h (.tail _ hm)]

/-- Between quotes stands what is meant, if it holds no quote and its backslashes protect
nothing. -/
theorem spells_quoted {cs : List Char} (h : Quotable cs) (hq : '\'' ∉ cs) :
    Spells ('\'' :: (cs ++ ['\''])) cs := by
  have same := escapeQuotes_of_not_mem hq
  have value : (Piece.quoted '\'' cs).value = cs := by
    have back := unescapeQuoted_escapeQuotes h
    rwa [same] at back
  have spells := spells_piece (c := '\'') (r := cs ++ ['\'']) (p := .quoted '\'' cs) (by decide)
    (by decide) rfl fun tail => by
      have taken := nextPiece_quoted h tail
      rw [same] at taken
      rwa [List.append_assoc]
  rwa [value] at spells

/-! ## Values between quotes -/

/-- What a listing makes of a value between its quotes. -/
def splice (cs : List Char) : List Char :=
  cs.flatMap fun c => if c = '\'' then ['\'', '\\', '\'', '\''] else [c]

theorem splice_quote (cs : List Char) :
    splice ('\'' :: cs) = '\'' :: '\\' :: '\'' :: '\'' :: splice cs := by
  simp [splice]

theorem splice_cons {c : Char} (h : c ≠ '\'') (cs : List Char) :
    splice (c :: cs) = c :: splice cs := by
  simp [splice, h]

theorem Quotable.concat {cs : List Char} (h : Quotable cs) {c : Char} (hc : c ≠ '\\') :
    Quotable (cs ++ [c]) := by
  induction h with
  | nil => exact .plain hc .nil
  | plain hd _ ih => exact .plain hd ih
  | backslash hd hq _ ih => exact .backslash hd hq ih

theorem Quotable.concat_backslash {cs : List Char} (h : Quotable cs) {c : Char} (hc : c ≠ '\\')
    (hq : c ≠ '\'') : Quotable (cs ++ ['\\', c]) := by
  induction h with
  | nil => exact .backslash hc hq .nil
  | plain hd _ ih => exact .plain hd ih
  | backslash hd hq' _ ih => exact .backslash hd hq' ih

/-- A value whose backslashes protect nothing is spelled between quotes, behind any `front`
of the region that it begins in. -/
theorem spells_splice {front cs : List Char} (hf : Quotable front) (hq : '\'' ∉ front)
    (h : Quotable cs) : Spells ('\'' :: (front ++ splice cs ++ ['\''])) (front ++ cs) := by
  -- the induction goes through the value; `front` is what the open region holds so far
  induction h generalizing front with
  | nil => simpa [splice] using spells_quoted hf hq
  | @plain c cs hc _ ih =>
      by_cases quote : c = '\''
      · subst quote
        have region := (spells_quoted hf hq).append
          (spells_escaped_quote.append (ih .nil List.not_mem_nil))
        simpa [splice_quote] using region
      · have longer := ih (hf.concat hc) (by simpa [hq] using Ne.symm quote)
        simpa [splice_cons quote] using longer
  | @backslash c cs hc quote _ ih =>
      have longer := ih (hf.concat_backslash hc quote) (by simpa [hq] using Ne.symm quote)
      simpa [splice_cons quote, splice_cons (show '\\' ≠ '\'' by decide)] using longer

theorem needsQuotes_of_needsEscape {c : Char} (h : needsEscape c = false) :
    needsQuotes c = false ∧ c ≠ '\\' := by
  simp only [needsEscape, Bool.or_eq_false_iff, beq_eq_false_iff_ne] at h
  obtain ⟨⟨⟨⟨⟨⟨⟨⟨blank, single⟩, double⟩, -⟩, pipe⟩, both⟩, less⟩, more⟩, backslash⟩ := h
  exact ⟨by simp [needsQuotes, blank, single, double, pipe, both, less, more], backslash⟩

/-- **How a listing shows a value**: as it stands, or between quotes. -/
theorem escapeValue_cases (value : String) :
    (value.toList ≠ [] ∧ (∀ c ∈ value.toList, needsEscape c = false) ∧ escapeValue value = value) ∨
    (escapeValue value).toList = '\'' :: (splice value.toList ++ ['\'']) := by
  by_cases h : (value.toList.isEmpty || value.toList.any needsEscape) = true
  · refine .inr ?_
    simp only [escapeValue]
    rw [if_pos h, String.toList_ofList]
    rfl
  · have plain : escapeValue value = value := by
      simp only [escapeValue]
      rw [if_neg h]
    rw [Bool.not_eq_true, Bool.or_eq_false_iff] at h
    refine .inl ⟨by simpa using h.1, fun c hc => ?_, plain⟩
    exact Bool.eq_false_iff.2 fun hn => by
      have some_need := List.any_eq_true.2 ⟨c, hc, hn⟩
      rw [h.2] at some_need
      cases some_need

theorem spells_escapeValue {value : String} (h : ProtectsNothing value.toList) :
    Spells (escapeValue value).toList value.toList := by
  rcases escapeValue_cases value with ⟨-, plain, he⟩ | he
  · rw [he]
    exact spells_bare_text fun c hc => needsQuotes_of_needsEscape (plain c hc)
  · rw [he]
    exact spells_splice .nil List.not_mem_nil (quotable_of_protectsNothing _ h)

theorem closed_escapeValue (value : String) : Closed (escapeValue value).toList := by
  rcases escapeValue_cases value with ⟨ne, plain, he⟩ | he
  · obtain ⟨blank, -, -, -, mark, -⟩ :=
      needsQuotes_eq_false (needsQuotes_of_needsEscape (plain _ (List.getLast_mem ne))).1
    rw [he]
    exact ⟨_, _, (List.dropLast_concat_getLast ne).symm, blank, mark⟩
  · rw [he]
    exact ⟨'\'' :: splice value.toList, '\'', rfl, by decide, by decide⟩

/-! ## What the scanner finds in the first segment -/

/-- The text up to the first pipe that cuts. -/
def segment (cs : List Char) : List Char := (splitPipes cs).headD []

/-- The characters of the word in front, up to the first pipe that cuts. -/
def firstWord (cs : List Char) : List Char := (scanWord (segment cs)).1.flatMap Piece.value

theorem segment_append {text : List Char} (h : Uncut text) (rest : List Char) :
    segment (text ++ rest) = text ++ segment rest := by
  rw [segment, segment, h]
  cases splitPipes rest with
  | nil => simp [consHead]
  | cons first later => rfl

theorem segment_cons {c : Char} (pipe : c ≠ '|') (r : List Char) :
    segment (c :: r) = (nextPiece c r).1.source ++ segment (nextPiece c r).2 := by
  rw [segment, segment, splitPipes_cons, if_neg pipe]
  cases splitPipes (nextPiece c r).2 with
  | nil => simp [consHead]
  | cons first later => rfl

/-- A segment is the front of its text. -/
theorem segment_initial (cs : List Char) : segment cs <+: cs := by
  induction cs using splitPipes.induct with
  | case1 =>
      rw [segment, splitPipes_nil]
      exact List.nil_prefix
  | case2 r ih =>
      rw [segment, splitPipes_cons, if_pos rfl]
      exact List.nil_prefix
  | case3 c r pipe piece ih =>
      rw [segment_cons pipe]
      have whole := nextPiece_source c r
      rw [← whole]
      exact (List.prefix_append_right_inj _).2 (by simpa [whole] using ih)

/-- What stands behind the closing quote has no say in where it is. -/
theorem splitAtClosing_behind {q : Char} {cs body rest : List Char}
    (h : splitAtClosing q cs = some (body, rest)) (other : List Char) :
    splitAtClosing q (body ++ q :: other) = some (body, other) := by
  have closes (hq : q ≠ '\\') : splitAtClosing q (q :: other) = some ([], other) := by
    cases other <;> simp [splitAtClosing, hq]
  fun_induction splitAtClosing q cs generalizing body rest with
  | case1 => cases h
  | case2 c hc => cases h; exact closes (hc.1 ▸ hc.2)
  | case3 c => cases h
  | case4 d r ih =>
      obtain ⟨⟨b, t⟩, hb, he⟩ := Option.map_eq_some_iff.1 h
      cases he
      simp [splitAtClosing, ih hb]
  | case5 d r hc => cases h; exact closes hc
  | case6 c d r hc hq ih =>
      obtain ⟨⟨b, t⟩, hb, he⟩ := Option.map_eq_some_iff.1 h
      cases he
      exact splitAtClosing_cons hc hq (ih hb)

/-- A quote without a partner has none in the front of the text either. -/
theorem splitAtClosing_of_initial {q : Char} {front cs : List Char} (hp : front <+: cs)
    (h : splitAtClosing q cs = none) : splitAtClosing q front = none := by
  obtain ⟨more, rfl⟩ := hp
  cases hf : splitAtClosing q front with
  | none => rfl
  | some found =>
      obtain ⟨body, rest⟩ := found
      have further := splitAtClosing_behind hf (rest ++ more)
      rw [← splitAtClosing_source hf, List.append_assoc, List.cons_append, further] at h
      cases h

/-- A segment begins with the piece that its text begins with. -/
theorem nextPiece_segment {c : Char} (pipe : c ≠ '|') (r : List Char) :
    ∃ r', segment (c :: r) = c :: r' ∧
      nextPiece c r' = ((nextPiece c r).1, segment (nextPiece c r).2) := by
  rw [segment_cons pipe]
  unfold nextPiece
  split
  · subst_vars
    cases r with
    | nil => exact ⟨segment [], rfl, by rw [segment, splitPipes_nil]; rfl⟩
    | cons e rest => exact ⟨e :: segment rest, rfl, rfl⟩
  · split
    · cases hs : splitAtClosing c r with
      | none =>
          refine ⟨segment r, rfl, ?_⟩
          rw [splitAtClosing_of_initial (segment_initial r) hs]
      | some found =>
          obtain ⟨body, rest⟩ := found
          refine ⟨body ++ c :: segment rest, by simp [Piece.source], ?_⟩
          rw [splitAtClosing_behind hs]
    · exact ⟨segment r, rfl, rfl⟩

/-- A segment is taken apart into the pieces of its text. -/
theorem scanWord_segment {c : Char} (ends : endsWord c = false) (pipe : c ≠ '|') (r : List Char) :
    (scanWord (segment (c :: r))).1 =
      (nextPiece c r).1 :: (scanWord (segment (nextPiece c r).2)).1 := by
  obtain ⟨r', he, hp⟩ := nextPiece_segment pipe r
  rw [he, scanWord_cons ends, hp]

theorem firstWord_cons {c : Char} (ends : endsWord c = false) (pipe : c ≠ '|') (r : List Char) :
    firstWord (c :: r) = (nextPiece c r).1.value ++ firstWord (nextPiece c r).2 := by
  rw [firstWord, scanWord_segment ends pipe, List.flatMap_cons]
  rfl

/-! ## Regions between quotes -/

/-- The characters of the word in front of a text that begins behind a single quote, if that
has a partner. -/
def insideQuotes (cs : List Char) : Option (List Char) :=
  (splitAtClosing '\'' cs).map fun (body, rest) => unescapeQuoted '\'' body ++ firstWord rest

theorem insideQuotes_quote (cs : List Char) : insideQuotes ('\'' :: cs) = some (firstWord cs) := by
  cases cs <;> rfl

theorem insideQuotes_cons {c : Char} (hc : c ≠ '\\') (hq : c ≠ '\'') (cs : List Char) :
    insideQuotes (c :: cs) = (insideQuotes cs).map (c :: ·) := by
  cases cs with
  | nil => simp [insideQuotes, splitAtClosing, hc, hq]
  | cons d r =>
      unfold insideQuotes
      cases hs : splitAtClosing '\'' (d :: r) with
      | none => simp [splitAtClosing, hc, hq, hs]
      | some found =>
          obtain ⟨body, rest⟩ := found
          rw [splitAtClosing_cons hc hq hs]
          simp [unescapeQuoted_cons hc]

/-- Behind a backslash stands what it is meant to protect. -/
theorem insideQuotes_escaped {d : Char} (h : d = '\'' ∨ d = '\\') (cs : List Char) :
    insideQuotes ('\\' :: d :: cs) = (insideQuotes cs).map (d :: ·) := by
  unfold insideQuotes
  cases hs : splitAtClosing '\'' cs with
  | none => simp [splitAtClosing, hs]
  | some found => simp [splitAtClosing, hs, unescapeQuoted, h]

/-- Or something else, and then the backslash stands for itself. -/
theorem insideQuotes_backslash {d : Char} (hd : d ≠ '\\') (hq : d ≠ '\'') (cs : List Char) :
    insideQuotes ('\\' :: d :: cs) = (insideQuotes cs).map ('\\' :: d :: ·) := by
  unfold insideQuotes
  cases hs : splitAtClosing '\'' cs with
  | none => simp [splitAtClosing, hs]
  | some found => simp [splitAtClosing, hs, unescapeQuoted, hd, hq, unescapeQuoted_cons hd]

/-- A quote outside opens a region, or stands for itself. -/
theorem firstWord_quote (cs : List Char) :
    firstWord ('\'' :: cs) = (insideQuotes cs).getD ('\'' :: firstWord cs) := by
  rw [firstWord_cons (by decide) (by decide)]
  unfold insideQuotes nextPiece
  cases splitAtClosing '\'' cs with
  | none => rfl
  | some found => rfl

theorem firstWord_escaped (c : Char) (cs : List Char) :
    firstWord ('\\' :: c :: cs) = c :: firstWord cs := firstWord_cons (by decide) (by decide) _

/-! ## What comes back of a value between quotes -/

/-- The characters of the word that a listing shows between quotes, if they are a region. -/
def readBack (cs : List Char) : Option (List Char) := insideQuotes (splice cs ++ ['\''])

theorem firstWord_nil : firstWord [] = [] := by
  rw [firstWord, segment, splitPipes_nil, List.headD_cons, scanWord.eq_def]
  rfl

theorem readBack_nil : readBack [] = some [] := by
  rw [readBack, show splice [] ++ ['\''] = ['\''] from rfl, insideQuotes_quote, firstWord_nil]

theorem readBack_cons {c : Char} (hc : c ≠ '\\') (hq : c ≠ '\'') (cs : List Char) :
    readBack (c :: cs) = (readBack cs).map (c :: ·) := by
  rw [readBack, splice_cons hq, List.cons_append, insideQuotes_cons hc hq, readBack]

/-- A quote ends a region, comes itself, and opens the next. -/
theorem readBack_quote (cs : List Char) :
    readBack ('\'' :: cs) =
      some ('\'' :: (readBack cs).getD ('\'' :: firstWord (splice cs ++ ['\'']))) := by
  rw [readBack, splice_quote]
  simp only [List.cons_append]
  rw [insideQuotes_quote, firstWord_escaped, firstWord_quote, readBack]

theorem readBack_backslash {d : Char} (hd : d ≠ '\\') (hq : d ≠ '\'') (cs : List Char) :
    readBack ('\\' :: d :: cs) = (readBack cs).map ('\\' :: d :: ·) := by
  rw [readBack, splice_cons (by decide), splice_cons hq]
  exact insideQuotes_backslash hd hq _

/-- Of two backslashes one comes back. -/
theorem readBack_double (cs : List Char) :
    readBack ('\\' :: '\\' :: cs) = (readBack cs).map ('\\' :: ·) := by
  rw [readBack, splice_cons (by decide), splice_cons (by decide)]
  exact insideQuotes_escaped (.inr rfl) _

/-- Behind a backslash, the quotes that should end a region are hidden. -/
theorem readBack_hidden (cs : List Char) :
    ∃ later, readBack ('\\' :: '\'' :: cs) = some ('\'' :: later) := by
  refine ⟨'\'' :: firstWord (splice cs ++ ['\'']), ?_⟩
  rw [readBack, splice_cons (by decide), splice_quote]
  simp only [List.cons_append]
  rw [insideQuotes_escaped (.inl rfl), insideQuotes_escaped (.inl rfl), insideQuotes_quote]
  rfl

/-- A backslash at the end hides the last quote. -/
theorem readBack_last : readBack ['\\'] = none := rfl

/-- What comes back begins with a backslash only if the value does. -/
theorem readBack_head {cs w : List Char} (h : readBack cs = some w)
    (hc : cs.head? ≠ some '\\') : w.head? ≠ some '\\' := by
  cases cs with
  | nil =>
      rw [readBack_nil] at h
      cases h
      exact hc
  | cons c r =>
      have ne : c ≠ '\\' := fun he => hc (congrArg some he)
      by_cases hq : c = '\''
      · rw [hq, readBack_quote] at h
        cases h
        simp
      · rw [readBack_cons ne hq] at h
        obtain ⟨w', -, rfl⟩ := Option.map_eq_some_iff.1 h
        exact hc

theorem replicate_append_cons {α : Type} (k : Nat) (a : α) (l : List α) :
    List.replicate k a ++ a :: l = a :: (List.replicate k a ++ l) := by
  rw [← List.cons_append, ← List.replicate_succ, List.replicate_succ', List.append_assoc]
  rfl

/-- Once a backslash is missing it stays missing. -/
theorem readBack_ne_behind (cs : List Char) (k : Nat) :
    readBack cs ≠ some (List.replicate (k + 1) '\\' ++ cs) := by
  intro he
  match cs with
  | [] => exact readBack_head he (by simp) rfl
  | [c] =>
      by_cases hc : c = '\\'
      · rw [hc, readBack_last] at he
        cases he
      · exact readBack_head he (by simpa using hc) rfl
  | c :: d :: r =>
      by_cases hc : c = '\\'
      · subst hc
        rw [List.replicate_succ, List.cons_append, replicate_append_cons] at he
        by_cases hd : d = '\\'
        · rw [hd, readBack_double] at he
          obtain ⟨w, hw, he⟩ := Option.map_eq_some_iff.1 he
          -- now one backslash more is missing
          refine readBack_ne_behind r (k + 1) (hw.trans (congrArg some ?_))
          rw [(List.cons.inj he).2, replicate_append_cons]
          simp [List.replicate_succ]
        by_cases hq : d = '\''
        · obtain ⟨later, hl⟩ := readBack_hidden r
          rw [hq, hl] at he
          cases he
        rw [readBack_backslash hd hq] at he
        obtain ⟨w, -, he⟩ := Option.map_eq_some_iff.1 he
        exact hd (List.cons.inj (List.cons.inj he).2).1
      · exact readBack_head he (by simpa using hc) rfl
termination_by cs.length

/-- **A value that comes back has backslashes that protect nothing.** -/
theorem quotable_of_readBack (cs : List Char) (h : readBack cs = some cs) : Quotable cs := by
  match cs with
  | [] => exact .nil
  | [c] =>
      by_cases hc : c = '\\'
      · subst hc
        cases readBack_last.symm.trans h
      · exact .plain hc .nil
  | c :: d :: r =>
      by_cases hc : c = '\\'
      · subst hc
        by_cases hd : d = '\\'
        · rw [hd, readBack_double] at h
          obtain ⟨w, hw, he⟩ := Option.map_eq_some_iff.1 h
          exact absurd (hw.trans (congrArg some (List.cons.inj he).2)) (readBack_ne_behind r 0)
        by_cases hq : d = '\''
        · obtain ⟨later, hl⟩ := readBack_hidden r
          rw [hq, hl] at h
          cases h
        rw [readBack_backslash hd hq] at h
        obtain ⟨w, hw, he⟩ := Option.map_eq_some_iff.1 h
        cases he
        exact .backslash hd hq (quotable_of_readBack _ hw)
      by_cases hq : c = '\''
      · subst hq
        refine .plain hc (quotable_of_readBack _ ?_)
        rw [readBack_quote] at h
        have later := (List.cons.inj (Option.some.inj h)).2
        cases hr : readBack (d :: r) with
        | some w => rw [hr] at later; exact congrArg some later
        | none =>
            -- a region that does not close leaves its quote, and the value has one there
            rw [hr] at later
            rw [← (List.cons.inj later).1, readBack_quote] at hr
            cases hr
      · rw [readBack_cons hc hq] at h
        obtain ⟨w, hw, he⟩ := Option.map_eq_some_iff.1 h
        exact .plain hc (quotable_of_readBack _ (hw.trans (congrArg some (List.cons.inj he).2)))
termination_by cs.length

theorem Quotable.protectsNothing {cs : List Char} (h : Quotable cs) : ProtectsNothing cs := by
  induction h with
  | nil => exact fun i hi => absurd hi (Nat.not_lt_zero i)
  | plain hc _ ih =>
      intro i hi he
      cases i with
      | zero => exact absurd (Option.some.inj he) hc
      | succ i => exact ih i (Nat.lt_of_succ_lt_succ hi) he
  | backslash hc hq _ ih =>
      intro i hi he
      match i with
      | 0 => simp [hc, hq]
      | 1 => exact absurd (Option.some.inj he) hc
      | i + 2 => exact ih i (Nat.lt_of_succ_lt_succ (Nat.lt_of_succ_lt_succ hi)) he

/-- What comes back of a listed value is the value just if its backslashes protect nothing. -/
theorem firstWord_escapeValue {value : String}
    (h : firstWord (escapeValue value).toList = value.toList) : ProtectsNothing value.toList := by
  rcases escapeValue_cases value with ⟨-, plain, -⟩ | he
  · intro i hi hb
    have hm := List.mem_of_getElem? hb
    exact absurd rfl (needsQuotes_of_needsEscape (plain _ hm)).2
  rw [he, firstWord_quote] at h
  refine (quotable_of_readBack _ ?_).protectsNothing
  change (readBack value.toList).getD _ = _ at h
  cases hr : readBack value.toList with
  | some w => rw [hr] at h; exact congrArg some h
  | none =>
      -- the opening quote stands for itself, and then the value begins with a quote
      rw [hr] at h
      rw [← h, Option.getD_none, readBack_quote] at hr
      cases hr

end CommandConsole.Line
