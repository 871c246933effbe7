import CommandConsole.Proofs.ByteCuts
import CommandConsole.Proofs.PipeCutting

/-!
# Reading a line at its bytes

`Line.parse` takes characters off a list.  Whoever reads a line as it lies in memory keeps a
place in it, counted in bytes, and cuts the text there; and he has branches for what may go
wrong.  `Line.Bytewise` reads a line in this way: the quotes, pipes and words are found by byte
offsets, each cut may fail, and each loop may go on for ever.

Nothing of this happens (`reading_cannot_fail`).  Every line is read to the end, and it is read as
`Line.parse` reads it.  The reason is that a round of each loop takes just what `nextPiece` or
`nextItem` takes, which is one whole character or more; so each loop keeps what has been read of
the text, together with what is still to be read of it.
-/

namespace CommandConsole.Line.Bytewise

/-! ## The reader -/

/-- Why something is not read. -/
inductive Refusal where
  /-- It does not begin here. -/
  | absent
  /-- It begins here, and does not go on as it should. -/
  | broken (message : String)
  deriving DecidableEq, Repr

/-- The place of the quote that closes a region, if `n` bytes stand before the text. -/
def closingFrom (quote : Char) : Nat → List Char → Option Nat
  | _, [] => none
  | n, [c] => if c = '\\' then none else if c = quote then some n else none
  | n, c :: d :: r =>
    if c = '\\' then closingFrom quote (n + c.utf8Size + d.utf8Size) r
    else if c = quote then some n
    else closingFrom quote (n + c.utf8Size) (d :: r)

/-- **The number of bytes before the quote that closes a region.** -/
def closing? (quote : Char) (cs : List Char) : Option Nat := closingFrom quote 0 cs

/-- What is known while a word is read: its text so far, whether it has begun, and the rest. -/
structure WordState where
  word : List Char
  begun : Bool
  rest : List Char
  deriving DecidableEq, Repr

/-- A word goes on up to a blank or an angle bracket. -/
def wordLoop : Loop WordState where
  going s :=
    match s.rest with
    | [] => false
    | c :: _ => !endsWord c
  round s :=
    match s.rest with
    | [] => none
    | c :: _ =>
      if c = '\\' then do
        let behind ← Text.dropBytes? s.rest 1
        match behind with
        | [] => some ⟨s.word ++ [c], true, behind⟩
        | e :: _ => some ⟨s.word ++ [e], true, ← Text.dropBytes? behind e.utf8Size⟩
      else if isQuote c then do
        let behind ← Text.dropBytes? s.rest 1
        match closing? c behind with
        | none => some ⟨s.word ++ [c], true, behind⟩
        | some n =>
          let body ← Text.takeBytes? behind n
          some ⟨s.word ++ unescapeQuoted c body, true, ← Text.dropBytes? behind (n + 1)⟩
      else do
        some ⟨s.word ++ [c], true, ← Text.dropBytes? s.rest c.utf8Size⟩

/-- Reads a word, if one begins here. -/
noncomputable def word? (cs : List Char) : Option (Except Refusal (String × List Char)) := do
  let s ← wordLoop.run ⟨[], false, cs⟩
  some (if s.begun then .ok (String.ofList s.word, s.rest) else .error .absent)

/-- Reads a redirect operator and its target. -/
noncomputable def redirect? (cs : List Char) : Option (Except Refusal (Redirect × List Char)) :=
  match redirectOperator? cs with
  | none => some (.error .absent)
  | some (kind, behind) =>
    match Text.skipBlanks behind with
    | [] => some (.error (.broken ("Missing target for '" ++ kind.operator ++ "'")))
    | d :: r =>
      if d = '>' ∨ d = '<' then
        some (.error (.broken ("Missing target for '" ++ kind.operator ++ "'")))
      else do
        match ← word? (d :: r) with
        | .ok (target, rest) => some (.ok (⟨kind, target⟩, rest))
        | .error _ => some (.error (.broken ("Invalid target for '" ++ kind.operator ++ "'")))

/-- Whether a redirect operator stands in front. -/
def beginsRedirect : List Char → Bool
  | '>' :: _ => true
  | '<' :: _ => true
  | '2' :: '>' :: _ => true
  | _ => false

/-- The number of bytes of the operator characters in front, and not less than one. -/
def operatorBytes (cs : List Char) : Nat := max (Text.byteSize (cs.takeWhile isOperatorChar)) 1

/-- Takes the run of operator characters in front as a word, or else the first byte. -/
def operatorRun? (cs : List Char) : Option (String × List Char) := do
  let rest ← Text.dropBytes? cs (operatorBytes cs)
  some (String.ofList (← Text.takeBytes? cs (operatorBytes cs)), rest)

/-- **The way that the reader takes** before a text. -/
inductive Way where
  | redirect (redirect : Redirect) (rest : List Char)
  /-- An operator stands here, and no target for it. -/
  | dangling (message : String)
  | word (text : String) (rest : List Char)
  /-- Not even a word stands here. -/
  | lone
  deriving DecidableEq, Repr

/-- The way of a word. -/
noncomputable def wordWay? (cs : List Char) : Option Way := do
  match ← word? cs with
  | .ok (text, rest) => some (.word text rest)
  | .error _ => some .lone

/-- The way that the reader takes: first it looks for a redirect, then for a word. -/
noncomputable def way? (cs : List Char) : Option Way :=
  if beginsRedirect cs then do
    match ← redirect? cs with
    | .ok (redirect, rest) => some (.redirect redirect rest)
    | .error (.broken message) => some (.dangling message)
    | .error .absent => wordWay? cs
  else wordWay? cs

/-- What is known while a stage is read: its words and redirects so far, and the rest. -/
structure StageState where
  words : List String
  redirects : List Redirect
  rest : List Char
  deriving DecidableEq, Repr

/-- Before a stage is read, the blanks in front of it are skipped. -/
def stageStart (segment : List Char) : StageState := ⟨[], [], Text.skipBlanks segment⟩

/-- A stage goes on to the end of its segment, one item in a round. -/
noncomputable def stageLoop : Loop StageState where
  going s := !s.rest.isEmpty
  round s := do
    match ← way? s.rest with
    | .redirect redirect rest =>
      some ⟨s.words, s.redirects ++ [redirect], Text.skipBlanks rest⟩
    | .word text rest => some ⟨s.words ++ [text], s.redirects, Text.skipBlanks rest⟩
    | .dangling _ | .lone =>
      let (text, rest) ← operatorRun? s.rest
      some ⟨s.words ++ [text], s.redirects, Text.skipBlanks rest⟩

/-- Reads the stage in a segment, if there is one. -/
noncomputable def stage? (segment : List Char) : Option (Option Stage) := do
  let s ← stageLoop.run (stageStart segment)
  match s.words with
  | [] => some none
  | command :: args => some (some ⟨command, args, s.redirects⟩)

/-- What is known while a line is cut: the segments so far, where the next one starts, and how far
the line was looked at. -/
structure CutState where
  segments : List (List Char)
  start : Nat
  pos : Nat
  deriving DecidableEq, Repr

/-- A line is looked at to its end, one piece in a round, and cut at the pipes between them. -/
def cutLoop (line : List Char) : Loop CutState where
  going s := s.pos < Text.byteSize line
  round s := do
    let rest ← Text.dropBytes? line s.pos
    match rest with
    -- nothing is left only at the end of the line, where the loop has stopped
    | [] => none
    | c :: _ =>
      if c = '\\' then do
        let pos := s.pos + c.utf8Size
        match ← Text.dropBytes? line pos with
        | [] => some { s with pos := pos }
        | e :: _ => some { s with pos := pos + e.utf8Size }
      else if isQuote c then do
        match closing? c (← Text.dropBytes? rest 1) with
        | none => some { s with pos := s.pos + 1 }
        | some n => some { s with pos := s.pos + 1 + n + 1 }
      else if c = '|' then do
        let segment ← Text.bytesBetween? line s.start s.pos
        some ⟨s.segments ++ [segment], s.pos + 1, s.pos + 1⟩
      else some { s with pos := s.pos + c.utf8Size }

/-- Cuts a line at its pipes. -/
noncomputable def splitPipes? (line : List Char) : Option (List (List Char)) := do
  let s ← (cutLoop line).run ⟨[], 0, 0⟩
  some (s.segments ++ [← Text.dropBytes? line s.start])

/-- **Reads a line at its bytes**; nothing if a character is cut in two, or if a loop never
ends. -/
noncomputable def parse? (raw : String) : Option Line := do
  let stripped := stripBackground raw.toList
  let segments ← splitPipes? stripped.1
  let stages ← segments.mapM stage?
  some ⟨stages.filterMap id, stripped.2⟩

variable {c q : Char} {cs r front back : List Char}

/-! ## Closing quotes -/

theorem utf8Size_quote (h : isQuote q = true) : q.utf8Size = 1 := by
  have one_of : q = '\'' ∨ q = '"' := by simpa [isQuote] using h
  rcases one_of with rfl | rfl <;> rfl

/-- The quote that closes a region stands behind the body of the region. -/
theorem closingFrom_eq (q : Char) (n : Nat) (cs : List Char) :
    closingFrom q n cs = (splitAtClosing q cs).map fun found => n + Text.byteSize found.1 := by
  fun_induction closingFrom q n cs with
  | case1 => rfl
  | case2 => simp [splitAtClosing]
  | case3 n hq => simp [splitAtClosing, hq]
  | case4 n c hc hq => simp [splitAtClosing, hc, hq]
  | case5 n d r ih =>
      rw [ih, splitAtClosing, if_pos rfl, Option.map_map]
      refine congrArg (Option.map · _) (funext fun found => ?_)
      simp [Nat.add_assoc]
  | case6 n d r hq => simp [splitAtClosing, hq]
  | case7 n c d r hc hq ih =>
      rw [ih, splitAtClosing, if_neg hc, if_neg hq, Option.map_map]
      refine congrArg (Option.map · _) (funext fun found => ?_)
      simp [Nat.add_assoc]

theorem closing?_eq (q : Char) (cs : List Char) :
    closing? q cs = (splitAtClosing q cs).map fun found => Text.byteSize found.1 := by
  rw [closing?, closingFrom_eq]
  simp

theorem splitAtClosing_eq_none (h : closing? q cs = none) : splitAtClosing q cs = none := by
  rw [closing?_eq] at h
  exact Option.map_eq_none_iff.1 h

/-- A text is cut before and behind the quote that closes a region. -/
theorem exists_of_closing? {n : Nat} (h : closing? q cs = some n) :
    ∃ body rest, cs = body ++ q :: rest ∧ n = Text.byteSize body ∧
      splitAtClosing q cs = some (body, rest) := by
  rw [closing?_eq] at h
  obtain ⟨⟨body, rest⟩, found, rfl⟩ := Option.map_eq_some_iff.1 h
  exact ⟨body, rest, (splitAtClosing_source found).symm, rfl, found⟩

theorem dropBytes?_region (quote : isQuote q = true) (body rest : List Char) :
    Text.dropBytes? (body ++ q :: rest) (Text.byteSize body + 1) = some rest :=
  utf8Size_quote quote ▸ Text.dropBytes?_behind body q rest

/-! ## Words -/

/-- **A round takes a piece off the word.** -/
theorem word_round {s : WordState} (h : s.rest = c :: r) :
    wordLoop.round s =
      some ⟨s.word ++ (nextPiece c r).1.value, true, (nextPiece c r).2⟩ := by
  obtain ⟨word, begun, rest⟩ := s
  subst h
  have drop_one (quote : c.utf8Size = 1) : Text.dropBytes? (c :: r) 1 = some r :=
    quote ▸ Text.dropBytes?_cons c r
  simp only [wordLoop]
  by_cases backslash : c = '\\'
  · subst backslash
    rw [if_pos rfl, drop_one rfl]
    rcases r with _ | ⟨e, rest⟩
    · rfl
    · simp [Text.dropBytes?_cons, nextPiece, Piece.value]
  · rw [if_neg backslash]
    by_cases quote : isQuote c = true
    · rw [if_pos quote, drop_one (utf8Size_quote quote)]
      rcases found : closing? c r with _ | n
      · have alone := splitAtClosing_eq_none found
        simp [found, nextPiece, backslash, quote, alone, Piece.value]
      · obtain ⟨body, rest, rfl, rfl, region⟩ := exists_of_closing? found
        simp [found, Text.takeBytes?_append, dropBytes?_region quote, nextPiece, backslash, quote,
          region, Piece.value]
    · rw [if_neg quote, Text.dropBytes?_cons]
      simp [nextPiece, backslash, quote, Piece.value]

/-- What has been read of a word and what is still read of it make up the whole word. -/
def WordGoesOn (cs : List Char) (s : WordState) : Prop :=
  s.word ++ (scanWord s.rest).1.flatMap Piece.value = (scanWord cs).1.flatMap Piece.value ∧
    (scanWord s.rest).2 = (scanWord cs).2 ∧ (s.begun = false → s.rest = cs)

theorem wordLoop_going {s : WordState} :
    wordLoop.going s = true ↔ ∃ c r, s.rest = c :: r ∧ endsWord c = false := by
  rcases h : s.rest with _ | ⟨c, r⟩
  · simp [wordLoop, h]
  · simp [wordLoop, h]

theorem wordLoop_keeps (cs : List Char) :
    wordLoop.Keeps (WordGoesOn cs) fun s => s.rest.length := by
  rintro s ⟨text, rest, -⟩ more
  obtain ⟨c, r, here, ends⟩ := wordLoop_going.1 more
  rw [here, scanWord_cons ends] at text rest
  refine ⟨_, word_round here, ⟨?_, rest, nofun⟩, ?_⟩
  · simpa [List.append_assoc] using text
  · have shorter := length_nextPiece_le c r
    show (nextPiece c r).2.length < s.rest.length
    rw [here, List.length_cons]
    omega

/-- Nothing more is scanned where the loop stops. -/
theorem scanWord_of_stops {s : WordState} (stops : wordLoop.going s = false) :
    scanWord s.rest = ([], s.rest) := by
  rcases left : s.rest with _ | ⟨c, r⟩
  · rw [scanWord.eq_def]
  · have ends : endsWord c = true := by
      by_contra h
      have more := wordLoop_going.2 ⟨c, r, left, Bool.eq_false_iff.2 h⟩
      rw [stops] at more
      cases more
    rw [scanWord.eq_def]
    exact if_pos ends

/-- A word that begins is read. -/
theorem word?_eq (ends : endsWord c = false) (r : List Char) :
    word? (c :: r) = some (.ok (wordOf (scanWord (c :: r)).1, (scanWord (c :: r)).2)) := by
  obtain ⟨s, reaches, ⟨text, rest, unbegun⟩, stops⟩ :=
    (wordLoop_keeps (c :: r)).run (s := ⟨[], false, c :: r⟩) ⟨rfl, rfl, fun _ => rfl⟩
  have begun : s.begun = true := by
    by_contra h
    have more := wordLoop_going.2 ⟨c, r, unbegun (Bool.eq_false_iff.2 h), ends⟩
    rw [stops] at more
    cases more
  rw [scanWord_of_stops stops] at text rest
  rw [List.flatMap_nil, List.append_nil] at text
  rw [word?, reaches]
  simp [begun, wordOf, text, ← rest]

/-! ## Redirects and operators -/

theorem beginsRedirect_eq (cs : List Char) :
    beginsRedirect cs = (redirectOperator? cs).isSome := by
  unfold redirectOperator?
  split <;> first | rfl | simp_all [beginsRedirect.eq_def]

/-- A redirect is read where one begins, or an operator has no target. -/
theorem redirect?_eq {kind : RedirectKind} {behind : List Char}
    (operator : redirectOperator? (c :: r) = some (kind, behind)) :
    (∃ redirect rest, redirect? (c :: r) = some (.ok (redirect, rest)) ∧
        nextItem c r = (.redirect redirect, rest)) ∨
      redirect? (c :: r) =
          some (.error (.broken ("Missing target for '" ++ kind.operator ++ "'"))) ∧
        nextItem c r = nextItem.dangling c r := by
  rcases target : Text.skipBlanks behind with _ | ⟨d, later⟩
  · exact .inr ⟨by simp [redirect?, operator, target], by simp [nextItem, operator, target]⟩
  · by_cases angle : d = '>' ∨ d = '<'
    · exact .inr ⟨by simp [redirect?, operator, target, angle],
        by simp [nextItem, operator, target, angle]⟩
    · have ends : endsWord d = false := by
        simpa [endsWord, Text.isBlank_head_skipBlanks target, not_or] using angle
      refine .inl ⟨⟨kind, wordOf (scanWord (d :: later)).1⟩, (scanWord (d :: later)).2, ?_, ?_⟩
      · simp only [redirect?, operator, target, if_neg angle, word?_eq ends]
        rfl
      · simp only [nextItem, operator, target, if_neg angle]

theorem isOperatorChar_of_operator {kind : RedirectKind} {behind : List Char}
    (operator : redirectOperator? (c :: r) = some (kind, behind)) : isOperatorChar c = true := by
  have source := redirectOperator?_source operator
  rcases kind <;> exact (List.cons.inj source).1 ▸ rfl

theorem utf8Size_operatorChar (h : isOperatorChar c = true) : c.utf8Size = 1 := by
  have one_of : (c = '>' ∨ c = '<') ∨ c = '2' := by simpa [isOperatorChar] using h
  rcases one_of with (rfl | rfl) | rfl <;> rfl

/-- An operator is cut off whole. -/
theorem operatorBytes_eq (h : isOperatorChar c = true) (r : List Char) :
    operatorBytes (c :: r) = Text.byteSize (c :: r.takeWhile isOperatorChar) := by
  have one := utf8Size_operatorChar h
  rw [operatorBytes, List.takeWhile_cons_of_pos h, Text.byteSize_cons]
  omega

theorem operatorRun?_eq (h : isOperatorChar c = true) (r : List Char) :
    operatorRun? (c :: r) =
      some (String.ofList (c :: r.takeWhile isOperatorChar), r.dropWhile isOperatorChar) := by
  have text : c :: r = (c :: r.takeWhile isOperatorChar) ++ r.dropWhile isOperatorChar := by
    rw [List.cons_append, List.takeWhile_append_dropWhile]
  rw [operatorRun?, operatorBytes_eq h, text, Text.dropBytes?_append, Text.takeBytes?_append]
  rfl

/-! ## Stages -/

/-- **The ways that are taken before an item.**  A redirect is read where one begins, an operator
without a target is left over there, and a word is read before anything else. -/
inductive Takes (c : Char) (r : List Char) : Way → Prop where
  | redirect (redirect : Redirect) (rest : List Char)
      (item : nextItem c r = (.redirect redirect, rest)) : Takes c r (.redirect redirect rest)
  | dangling (message : String) (operator : isOperatorChar c = true)
      (begins : beginsRedirect (c :: r) = true)
      (item : nextItem c r = nextItem.dangling c r) : Takes c r (.dangling message)
  | word (text : String) (rest : List Char) (item : nextItem c r = (.word text, rest)) :
      Takes c r (.word text rest)

theorem endsWord_of_no_operator (blank : Text.isBlank c = false)
    (operator : redirectOperator? (c :: r) = none) : endsWord c = false := by
  obtain ⟨more, less⟩ := redirectOperator?_eq_none operator
  simp [endsWord, blank, more, less]

theorem way?_eq (blank : Text.isBlank c = false) (r : List Char) :
    ∃ way, way? (c :: r) = some way ∧ Takes c r way := by
  rcases operator : redirectOperator? (c :: r) with _ | ⟨kind, behind⟩
  · have ends := endsWord_of_no_operator blank operator
    refine ⟨.word (wordOf (scanWord (c :: r)).1) (scanWord (c :: r)).2, ?_, .word _ _ ?_⟩
    · simp only [way?, beginsRedirect_eq, operator, Option.isSome_none, Bool.false_eq_true,
        if_false, wordWay?, word?_eq ends]
      rfl
    · simp only [nextItem, operator]
  · have begins : beginsRedirect (c :: r) = true := by rw [beginsRedirect_eq, operator]; rfl
    rcases redirect?_eq operator with ⟨redirect, rest, answer, item⟩ | ⟨answer, item⟩
    · exact ⟨_, by rw [way?, if_pos begins, answer]; rfl, .redirect redirect rest item⟩
    · exact ⟨_, by rw [way?, if_pos begins, answer]; rfl,
        .dangling _ (isOperatorChar_of_operator operator) begins item⟩

/-- **A round takes an item off the stage.** -/
theorem stage_round {s : StageState} (h : s.rest = c :: r) (blank : Text.isBlank c = false) :
    stageLoop.round s =
      some ⟨s.words ++ plainWords [(nextItem c r).1],
        s.redirects ++ redirectsOf [(nextItem c r).1], Text.skipBlanks (nextItem c r).2⟩ := by
  obtain ⟨way, answer, takes⟩ := way?_eq blank r
  obtain ⟨words, redirects, rest⟩ := s
  subst h
  simp only [stageLoop, answer]
  rcases takes with ⟨redirect, rest, item⟩ | ⟨message, operator, begins, item⟩ | ⟨text, rest, item⟩
  · simp [item, plainWords, redirectsOf]
  · simp [item, operatorRun?_eq operator, nextItem.dangling, plainWords, redirectsOf]
  · simp [item, plainWords, redirectsOf]

/-- What has been read of a stage and what is still read of it make up the whole stage. -/
structure StageGoesOn (segment : List Char) (s : StageState) : Prop where
  begins : Text.skipBlanks s.rest = s.rest
  words : s.words ++ plainWords (items s.rest) = plainWords (items segment)
  redirects : s.redirects ++ redirectsOf (items s.rest) = redirectsOf (items segment)

theorem skipBlanks_skipBlanks (cs : List Char) :
    Text.skipBlanks (Text.skipBlanks cs) = Text.skipBlanks cs := List.dropWhile_idempotent _ _

theorem items_skipBlanks (cs : List Char) : items (Text.skipBlanks cs) = items cs := by
  rw [items_of_skipBlanks, skipBlanks_skipBlanks, ← items_of_skipBlanks]

theorem items_of_stops {s : StageState} (stops : stageLoop.going s = false) :
    items s.rest = [] := by
  have nothing : s.rest = [] := by simpa [stageLoop] using stops
  rw [nothing, items_of_skipBlanks]
  rfl

theorem exists_of_rest {s : StageState} (begins : Text.skipBlanks s.rest = s.rest)
    (more : s.rest ≠ []) : ∃ c r, s.rest = c :: r ∧ Text.isBlank c = false := by
  obtain ⟨c, r, here⟩ := List.exists_cons_of_ne_nil more
  exact ⟨c, r, here, Text.isBlank_head_skipBlanks (begins.trans here)⟩

theorem plainWords_append (is js : List Item) :
    plainWords (is ++ js) = plainWords is ++ plainWords js := List.filterMap_append

theorem redirectsOf_append (is js : List Item) :
    redirectsOf (is ++ js) = redirectsOf is ++ redirectsOf js := List.filterMap_append

theorem stageLoop_keeps (segment : List Char) :
    stageLoop.Keeps (StageGoesOn segment) fun s => s.rest.length := by
  rintro s ⟨begins, words, redirects⟩ more
  obtain ⟨c, r, here, blank⟩ := exists_of_rest begins (by simpa [stageLoop] using more)
  -- an item of the rest is the first of those that are still read
  have first : items s.rest = [(nextItem c r).1] ++ items (Text.skipBlanks (nextItem c r).2) := by
    rw [here, items_cons blank, items_skipBlanks]
    rfl
  rw [first, plainWords_append, ← List.append_assoc] at words
  rw [first, redirectsOf_append, ← List.append_assoc] at redirects
  refine ⟨_, stage_round here blank, ⟨skipBlanks_skipBlanks _, words, redirects⟩, ?_⟩
  have shorter := length_nextItem_lt (r := r) blank
  have skipped := Text.length_skipBlanks_le (nextItem c r).2
  show (Text.skipBlanks (nextItem c r).2).length < s.rest.length
  rw [here]
  omega

theorem stageGoesOn_start (segment : List Char) : StageGoesOn segment (stageStart segment) where
  begins := skipBlanks_skipBlanks segment
  words := by simp [stageStart, items_skipBlanks]
  redirects := by simp [stageStart, items_skipBlanks]

/-- **A stage is read from its bytes as from its characters.** -/
theorem stage?_eq (segment : List Char) : stage? segment = some (Line.stage? segment) := by
  obtain ⟨s, reaches, goes, stops⟩ := (stageLoop_keeps segment).run (stageGoesOn_start segment)
  have words : s.words = plainWords (items segment) := by
    rw [← goes.words, items_of_stops stops]
    exact (List.append_nil _).symm
  have redirects : s.redirects = redirectsOf (items segment) := by
    rw [← goes.redirects, items_of_stops stops]
    exact (List.append_nil _).symm
  rw [stage?, reaches, Line.stage?, stageOfItems?, ← words, ← redirects, Option.bind_eq_bind,
    Option.bind_some]
  rcases s.words with _ | ⟨command, args⟩ <;> rfl

/-! ## Lines -/

/-- What has been cut off a line and what is still cut off it make up all its segments. -/
def CutGoesOn (line : List Char) (s : CutState) : Prop :=
  ∃ done current rest, line = done ++ current ++ rest ∧ s.start = Text.byteSize done ∧
    s.pos = Text.byteSize (done ++ current) ∧
    s.segments ++ consHead current (splitPipes rest) = splitPipes line

variable {line : List Char}

/-- **A round goes past a piece of the line.** -/
theorem cut_round {s : CutState} (text : line = front ++ c :: r)
    (place : s.pos = Text.byteSize front) (pipe : c ≠ '|') :
    (cutLoop line).round s =
      some { s with pos := Text.byteSize (front ++ (nextPiece c r).1.source) } := by
  obtain ⟨segments, start, pos⟩ := s
  subst text place
  simp only [cutLoop, Text.dropBytes?_append]
  by_cases backslash : c = '\\'
  · subst backslash
    rw [Option.bind_eq_bind, Option.bind_some]
    simp only [if_pos, Text.dropBytes?_behind]
    rcases r with _ | ⟨e, rest⟩
    · simp [nextPiece, Piece.source]
    · simp [nextPiece, Piece.source, Nat.add_assoc]
  · by_cases quote : isQuote c = true
    · have one := utf8Size_quote quote
      have behind : Text.dropBytes? (c :: r) 1 = some r := one ▸ Text.dropBytes?_cons c r
      rcases found : closing? c r with _ | n
      · have alone := splitAtClosing_eq_none found
        simp [backslash, quote, behind, found, nextPiece, alone, Piece.source, one]
      · obtain ⟨body, rest, rfl, rfl, region⟩ := exists_of_closing? found
        simp [backslash, quote, behind, found, nextPiece, region, Piece.source, one]
        omega
    · simp [backslash, quote, pipe, nextPiece, Piece.source]

/-- A round cuts the line at a bare pipe. -/
theorem cut_round_pipe {s : CutState} {done current : List Char}
    (text : line = done ++ current ++ '|' :: r) (begins : s.start = Text.byteSize done)
    (place : s.pos = Text.byteSize (done ++ current)) :
    (cutLoop line).round s = some ⟨s.segments ++ [current],
      Text.byteSize (done ++ current ++ ['|']), Text.byteSize (done ++ current ++ ['|'])⟩ := by
  obtain ⟨segments, start, pos⟩ := s
  subst text begins place
  have size : Text.byteSize (done ++ current ++ ['|']) = Text.byteSize (done ++ current) + 1 :=
    Text.byteSize_append _ _
  simp only [cutLoop, Text.dropBytes?_append, Text.bytesBetween?_append, size]
  rfl

/-- Less of the line is left behind a piece of it. -/
theorem less_is_left {s : CutState} {taken : List Char} (place : s.pos = Text.byteSize front)
    (inside : s.pos < Text.byteSize line) (ne : taken ≠ []) :
    Text.byteSize line - Text.byteSize (front ++ taken) < Text.byteSize line - s.pos := by
  have size := Text.byteSize_append front taken
  have some_byte := Text.length_le_byteSize taken
  have some_char := List.length_pos_iff.2 ne
  omega

theorem source_ne_nil (p : Piece) : p.source ≠ [] := by
  rcases p <;> exact List.cons_ne_nil _ _

theorem cutLoop_keeps (line : List Char) :
    (cutLoop line).Keeps (CutGoesOn line) fun s => Text.byteSize line - s.pos := by
  rintro s ⟨done, current, rest, text, begins, place, segments⟩ more
  have inside : s.pos < Text.byteSize line := by simpa [cutLoop] using more
  rcases rest with _ | ⟨c, r⟩
  · rw [text, place, List.append_nil] at inside
    exact absurd inside (Nat.lt_irrefl _)
  · rw [splitPipes_cons] at segments
    by_cases pipe : c = '|'
    · subst pipe
      rw [if_pos rfl] at segments
      have later : splitPipes r = consHead [] (splitPipes r) := uncut_nil r
      refine ⟨_, cut_round_pipe text begins place,
        ⟨done ++ current ++ ['|'], [], r, ?_, rfl, ?_, ?_⟩,
        less_is_left place inside (List.cons_ne_nil _ _)⟩
      · rw [text, List.append_nil, List.append_assoc _ ['|'], List.singleton_append]
      · rw [List.append_nil]
      · rw [← segments, ← later, consHead, List.append_nil, List.append_assoc,
          List.singleton_append]
    · rw [if_neg pipe, ← consHead_append] at segments
      refine ⟨_, cut_round text place pipe,
        ⟨done, current ++ (nextPiece c r).1.source, (nextPiece c r).2, ?_, begins, ?_, segments⟩,
        less_is_left place inside (source_ne_nil _)⟩
      · rw [text, ← nextPiece_source c r, ← List.append_assoc, ← List.append_assoc]
      · rw [List.append_assoc]

theorem cutGoesOn_start (line : List Char) : CutGoesOn line ⟨[], 0, 0⟩ :=
  ⟨[], [], line, rfl, rfl, rfl, (uncut_nil line).symm⟩

/-- **A line is cut at its bytes as it is cut at its characters.** -/
theorem splitPipes?_eq (line : List Char) : splitPipes? line = some (splitPipes line) := by
  obtain ⟨s, reaches, ⟨done, current, rest, text, begins, place, segments⟩, stops⟩ :=
    (cutLoop_keeps line).run (cutGoesOn_start line)
  have nothing_left : rest = [] := by
    have size := congrArg Text.byteSize text
    have last : Text.byteSize line ≤ s.pos := by simpa [cutLoop] using stops
    rw [Text.byteSize_append, ← place] at size
    exact Text.eq_nil_of_byteSize (by omega)
  subst nothing_left
  rw [splitPipes_nil, consHead, List.append_nil] at segments
  have last : Text.dropBytes? line s.start = some current := by
    rw [text, begins, List.append_nil, Text.dropBytes?_append]
  rw [splitPipes?, reaches, ← segments, Option.bind_eq_bind, Option.bind_some, last]
  rfl

theorem parse?_eq (raw : String) : parse? raw = some (parse raw) := by
  have stages (segments : List (List Char)) :
      segments.mapM stage? = some (segments.map Line.stage?) := by
    rw [funext stage?_eq]
    exact List.mapM_pure
  rw [parse?, splitPipes?_eq, Option.bind_eq_bind, Option.bind_some, stages]
  simp [parse, ofChars, List.filterMap_map]

/-! ## Reading cannot fail -/

/-- **A round of a stage is safe**, if something is left of the stage.  The rest gets shorter.
Where the reader looks for a redirect, one begins; where it looks for a word, one is found; and
where it takes an operator, one stands there, and its first byte is a character. -/
structure SafeRound (s : StageState) : Prop where
  shortens : ∃ s', stageLoop.round s = some s' ∧ s'.rest <:+ s.rest ∧
    Text.byteSize s'.rest < Text.byteSize s.rest
  redirect_begins : beginsRedirect s.rest = true →
    ∃ answer, redirect? s.rest = some answer ∧ answer ≠ .error .absent
  word_begins : beginsRedirect s.rest = false →
    ∃ c r word rest, s.rest = c :: r ∧ Text.isBlank c = false ∧ c ≠ '>' ∧ c ≠ '<' ∧
      word? s.rest = some (.ok (word, rest))
  never_lone : way? s.rest ≠ some .lone
  operator_begins (message : String) : way? s.rest = some (.dangling message) →
    beginsRedirect s.rest = true ∧ Text.IsBoundary s.rest 1 ∧
      Text.IsBoundary s.rest (operatorBytes s.rest)

theorem skipBlanks_suffix (cs : List Char) : Text.skipBlanks cs <:+ cs :=
  List.dropWhile_suffix _

/-- An item is taken off the front of the text. -/
theorem nextItem_suffix (c : Char) (r : List Char) : (nextItem c r).2 <:+ c :: r := by
  have dangling : (nextItem.dangling c r).2 <:+ c :: r :=
    (List.dropWhile_suffix _).trans (List.suffix_cons _ _)
  rcases operator : redirectOperator? (c :: r) with _ | ⟨kind, behind⟩
  · simp only [nextItem, operator]
    exact ⟨_, scanWord_source _⟩
  · have rest : Text.skipBlanks behind <:+ c :: r := by
      rw [redirectOperator?_source operator]
      exact (skipBlanks_suffix behind).trans (List.suffix_append _ _)
    rcases target : Text.skipBlanks behind with _ | ⟨d, later⟩
    · simpa only [nextItem, operator, target] using dangling
    · rw [target] at rest
      by_cases angle : d = '>' ∨ d = '<'
      · simpa only [nextItem, operator, target, if_pos angle] using dangling
      · simp only [nextItem, operator, target, if_neg angle]
        exact List.IsSuffix.trans ⟨_, scanWord_source _⟩ rest

/-- Each round makes the rest of a stage shorter. -/
theorem stage_shortens {s : StageState} (here : s.rest = c :: r) (blank : Text.isBlank c = false) :
    ∃ s', stageLoop.round s = some s' ∧ s'.rest <:+ s.rest ∧
      Text.byteSize s'.rest < Text.byteSize s.rest := by
  have part := (skipBlanks_suffix (nextItem c r).2).trans (nextItem_suffix c r)
  have shorter := length_nextItem_lt (r := r) blank
  have skipped := Text.length_skipBlanks_le (nextItem c r).2
  rw [here]
  exact ⟨_, stage_round here blank, part,
    Text.byteSize_lt_of_suffix part (Nat.lt_of_le_of_lt skipped shorter)⟩

/-- Where a redirect begins, the reader finds one, or an operator without a target. -/
theorem redirect?_ne_absent (begins : beginsRedirect (c :: r) = true) :
    ∃ answer, redirect? (c :: r) = some answer ∧ answer ≠ .error .absent := by
  rw [beginsRedirect_eq] at begins
  obtain ⟨⟨kind, behind⟩, operator⟩ := Option.isSome_iff_exists.1 begins
  rcases redirect?_eq operator with ⟨redirect, rest, found, -⟩ | ⟨found, -⟩
  · exact ⟨_, found, nofun⟩
  · exact ⟨_, found, nofun⟩

/-- Where no redirect begins, the reader finds a word. -/
theorem word?_of_no_redirect (blank : Text.isBlank c = false)
    (begins : beginsRedirect (c :: r) = false) :
    c ≠ '>' ∧ c ≠ '<' ∧ ∃ word rest, word? (c :: r) = some (.ok (word, rest)) := by
  rw [beginsRedirect_eq, Option.isSome_eq_false_iff, Option.isNone_iff_eq_none] at begins
  obtain ⟨more, less⟩ := redirectOperator?_eq_none begins
  exact ⟨more, less, _, _, word?_eq (endsWord_of_no_operator blank begins) r⟩

/-- An operator is one character at least, and a whole number of them. -/
theorem isBoundary_operator (h : isOperatorChar c = true) (r : List Char) :
    Text.IsBoundary (c :: r) 1 ∧ Text.IsBoundary (c :: r) (operatorBytes (c :: r)) := by
  have run := List.takeWhile_append_dropWhile (p := isOperatorChar) (l := r)
  have one : Text.byteSize [c] = 1 := by
    rw [Text.byteSize_cons, Text.byteSize_nil, utf8Size_operatorChar h]
  constructor
  · exact Text.isBoundary_iff.2 ⟨[c], r, rfl, one.symm⟩
  · rw [operatorBytes_eq h]
    exact Text.isBoundary_iff.2 ⟨_, r.dropWhile isOperatorChar, by rw [List.cons_append, run], rfl⟩

theorem safeRound {s : StageState} (here : s.rest = c :: r) (blank : Text.isBlank c = false) :
    SafeRound s := by
  obtain ⟨way, answer, takes⟩ := way?_eq blank r
  rw [← here] at answer
  refine ⟨stage_shortens here blank, ?redirect_begins, ?word_begins, ?never_lone, ?operator_begins⟩
  case redirect_begins =>
    rw [here]
    exact redirect?_ne_absent
  case word_begins =>
    rw [here]
    intro begins
    obtain ⟨more, less, word, rest, found⟩ := word?_of_no_redirect blank begins
    exact ⟨c, r, word, rest, rfl, blank, more, less, found⟩
  case never_lone =>
    intro lone
    rw [answer] at lone
    rcases takes <;> cases lone
  case operator_begins =>
    intro message dangling
    rw [answer] at dangling
    rcases takes with _ | ⟨_, operator, begins, -⟩ | _ <;> cases dangling
    rw [here]
    exact ⟨begins, isBoundary_operator operator r⟩

/-- **The places in a line lie between its characters**: where a segment starts, and how far the
line was looked at, which is not before that. -/
structure CutsWell (line : List Char) (s : CutState) : Prop where
  start : Text.IsBoundary line s.start
  pos : Text.IsBoundary line s.pos
  in_order : s.start ≤ s.pos

theorem CutGoesOn.cutsWell {s : CutState} (h : CutGoesOn line s) : CutsWell line s := by
  obtain ⟨done, current, rest, rfl, begins, place, -⟩ := h
  refine ⟨?_, ?_, ?_⟩
  · rw [begins, List.append_assoc]
    exact Text.isBoundary_append done _
  · rw [place]
    exact Text.isBoundary_append _ rest
  · rw [begins, place, Text.byteSize_append]
    exact Nat.le_add_right _ _

/-- **The place of a closing quote lies between characters**, in the text behind the opening quote
and in the line, and so does the place behind it. -/
structure ClosesWell (line inside : List Char) (pos n : Nat) : Prop where
  before : Text.IsBoundary inside n
  behind : Text.IsBoundary inside (n + 1)
  before_in_line : Text.IsBoundary line (pos + 1 + n)
  behind_in_line : Text.IsBoundary line (pos + 1 + n + 1)

theorem closesWell {inside : List Char} {pos n : Nat} (quote : isQuote q = true)
    (opens : Text.dropBytes? line pos = some (q :: inside)) (closes : closing? q inside = some n) :
    ClosesWell line inside pos n := by
  obtain ⟨front, rfl, rfl⟩ := Text.exists_of_dropBytes? opens
  obtain ⟨body, rest, rfl, rfl, -⟩ := exists_of_closing? closes
  have one := utf8Size_quote quote
  exact {
    before := Text.isBoundary_append body _
    behind := Text.isBoundary_iff.2 ⟨body ++ [q], rest, by simp, by simp [one]⟩
    before_in_line := Text.isBoundary_iff.2
      ⟨front ++ q :: body, q :: rest, by simp, by simp [one]; omega⟩
    behind_in_line := Text.isBoundary_iff.2
      ⟨front ++ q :: (body ++ [q]), rest, by simp, by simp [one]; omega⟩ }

/-- **Reading cannot fail.**  Every text is read to the end as a line: no loop goes on for ever,
and no character is cut in two.  In a stage every round is safe; in a line every place lies between
characters, and so does every place where a closing quote is found. -/
theorem reading_cannot_fail (raw : String) :
    parse? raw = some (parse raw) ∧
      (∀ segment s, stageLoop.Passes (stageStart segment) s → s.rest ≠ [] → SafeRound s) ∧
      (∀ line s, (cutLoop line).Passes ⟨[], 0, 0⟩ s → CutsWell line s) ∧
      ∀ line inside q pos n, isQuote q = true → Text.dropBytes? line pos = some (q :: inside) →
        closing? q inside = some n → ClosesWell line inside pos n := by
  refine ⟨parse?_eq raw, ?_, ?_, fun _ _ _ _ _ => closesWell⟩
  · intro segment s passed more
    have goes := (stageLoop_keeps segment).passes (stageGoesOn_start segment) passed
    obtain ⟨c, r, here, blank⟩ := exists_of_rest goes.begins more
    exact safeRound here blank
  · intro line s passed
    exact ((cutLoop_keeps line).passes (cutGoesOn_start line) passed).cutsWell

/-- A word of two bytes stands before an operator without a target and before a pipe, and between
quotes before an escaped quote. -/
theorem long_characters_are_not_cut :
    parse? "é >> >2 | 'ü\\''" = some (parse "é >> >2 | 'ü\\''") ∧
      SafeRound ⟨["é"], [], ">> >2 ".toList⟩ ∧
      CutsWell "é|ü".toList ⟨["é".toList], 3, 3⟩ ∧
      ClosesWell "é'ü\\''".toList "ü\\''".toList 2 4 := by
  obtain ⟨reads, rounds, cuts, closes⟩ := reading_cannot_fail "é >> >2 | 'ü\\''"
  refine ⟨reads, ?_, ?_, ?_⟩
  · have item : nextItem 'é' " >> >2 ".toList = (.word "é", " >> >2 ".toList) := by decide +kernel
    have text : "é >> >2 ".toList = 'é' :: " >> >2 ".toList := by decide
    have behind : Text.skipBlanks " >> >2 ".toList = ">> >2 ".toList := by decide
    have start : stageStart "é >> >2 ".toList = ⟨[], [], "é >> >2 ".toList⟩ := by decide
    have round := stage_round (s := ⟨[], [], "é >> >2 ".toList⟩) text (by decide)
    rw [item, behind] at round
    refine rounds "é >> >2 ".toList _ (start ▸ .single ⟨by decide, round⟩) ?_
    exact List.cons_ne_nil _ _
  · have past : (cutLoop "é|ü".toList).round ⟨[], 0, 0⟩ = some ⟨[], 0, 2⟩ := by decide
    have cut : (cutLoop "é|ü".toList).round ⟨[], 0, 2⟩ = some ⟨["é".toList], 3, 3⟩ := by decide
    exact cuts "é|ü".toList _ (.tail (.single ⟨by decide, past⟩) ⟨by decide, cut⟩)
  · exact closes "é'ü\\''".toList "ü\\''".toList '\'' 2 4 rfl (by decide) (by decide)

end CommandConsole.Line.Bytewise
