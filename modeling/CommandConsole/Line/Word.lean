import CommandConsole.Text.Blank

/-!
# Words and their pieces

A word is typed as a row of pieces: bare characters, a backslash with the character
it protects, and regions between quotes. `nextPiece` takes one piece off the text;
`scanWord` takes pieces until a blank or an angle bracket ends the word. A quote
without a partner and a backslash at the very end stand for themselves.

Each piece remembers how it was typed (`Piece.source`) and what it contributes to
the word (`Piece.value`). No text is lost: the sources of the pieces, followed by
the rest, are the text that was scanned (`scanWord_source`).
-/

namespace CommandConsole.Line

/-- A piece of a word. -/
inductive Piece where
  /-- A character that stands for itself. -/
  | bare (c : Char)
  /-- A character behind a backslash. -/
  | escaped (c : Char)
  /-- What stands between two quotes. -/
  | quoted (quote : Char) (body : List Char)
  deriving DecidableEq, Repr

/-- Resolves the escapes between quotes: a backslash protects the quote and itself,
and is an ordinary character before anything else. -/
def unescapeQuoted (quote : Char) : List Char → List Char
  | [] => []
  | [c] => [c]
  | c :: d :: r =>
    if c = '\\' ∧ (d = quote ∨ d = '\\') then d :: unescapeQuoted quote r
    else c :: unescapeQuoted quote (d :: r)

namespace Piece

/-- The piece as it was typed. -/
def source : Piece → List Char
  | bare c => [c]
  | escaped c => ['\\', c]
  | quoted q body => q :: (body ++ [q])

/-- What the piece adds to the word. -/
def value : Piece → List Char
  | bare c => [c]
  | escaped c => [c]
  | quoted q body => unescapeQuoted q body

end Piece

/-- The text up to the closing quote and the text behind it. A backslash hides the
character after it. -/
def splitAtClosing (quote : Char) : List Char → Option (List Char × List Char)
  | [] => none
  | [c] => if c = quote ∧ c ≠ '\\' then some ([], []) else none
  | c :: d :: r =>
    if c = '\\' then
      (splitAtClosing quote r).map fun (body, rest) => (c :: d :: body, rest)
    else if c = quote then some ([], d :: r)
    else (splitAtClosing quote (d :: r)).map fun (body, rest) => (c :: body, rest)

/-- Whether a character opens a quoted region. -/
def isQuote (c : Char) : Bool := c == '\'' || c == '"'

/-- Takes one piece off the text `c :: r`. -/
def nextPiece (c : Char) (r : List Char) : Piece × List Char :=
  if c = '\\' then
    match r with
    | [] => (.bare c, [])
    | e :: rest => (.escaped e, rest)
  else if isQuote c then
    match splitAtClosing c r with
    | some (body, rest) => (.quoted c body, rest)
    | none => (.bare c, r)
  else (.bare c, r)

theorem splitAtClosing_source {q : Char} {cs body rest : List Char}
    (h : splitAtClosing q cs = some (body, rest)) : body ++ q :: rest = cs := by
  fun_induction splitAtClosing q cs generalizing body rest with
  | case1 => simp at h
  | case2 c => simp_all
  | case3 c => simp at h
  | case4 d r ih =>
    obtain ⟨⟨b, t⟩, hb, he⟩ := Option.map_eq_some_iff.1 h
    cases he
    simp [ih hb]
  | case5 d r hc => simp_all
  | case6 c d r hc hq ih =>
    obtain ⟨⟨b, t⟩, hb, he⟩ := Option.map_eq_some_iff.1 h
    cases he
    simp [ih hb]

/-- A piece and the text behind it make up the text it was taken from. -/
theorem nextPiece_source (c : Char) (r : List Char) :
    (nextPiece c r).1.source ++ (nextPiece c r).2 = c :: r := by
  unfold nextPiece
  split
  · subst_vars
    cases r <;> simp [Piece.source]
  · split
    · split
      · rename_i h
        simp [Piece.source, splitAtClosing_source h]
      · simp [Piece.source]
    · simp [Piece.source]

theorem length_nextPiece_le (c : Char) (r : List Char) :
    (nextPiece c r).2.length ≤ r.length := by
  have h := congrArg List.length (nextPiece_source c r)
  have : 0 < (nextPiece c r).1.source.length := by
    cases (nextPiece c r).1 <;> simp [Piece.source]
  simp only [List.length_append, List.length_cons] at h
  omega

/-- Whether a character, standing bare, ends the word before it. -/
def endsWord (c : Char) : Bool := Text.isBlank c || c == '>' || c == '<'

/-- The pieces of the word in front, and the text behind it. -/
def scanWord : List Char → List Piece × List Char
  | [] => ([], [])
  | c :: r =>
    if endsWord c then ([], c :: r)
    else
      let piece := nextPiece c r
      let rest := scanWord piece.2
      (piece.1 :: rest.1, rest.2)
termination_by cs => cs.length
decreasing_by
  have := length_nextPiece_le c r
  simp only [List.length_cons]
  omega

/-- The word that a row of pieces spells. -/
def wordOf (pieces : List Piece) : String := String.ofList (pieces.flatMap Piece.value)

/-- A word and the text behind it make up the text that was scanned. -/
theorem scanWord_source (cs : List Char) :
    (scanWord cs).1.flatMap Piece.source ++ (scanWord cs).2 = cs := by
  fun_induction scanWord cs with
  | case1 => rfl
  | case2 => rfl
  | case3 c r _ piece rest ih =>
    simp only [List.flatMap_cons, List.append_assoc]
    rw [ih]
    exact nextPiece_source c r

theorem length_scanWord_le (cs : List Char) : (scanWord cs).2.length ≤ cs.length := by
  have h := congrArg List.length (scanWord_source cs)
  simp only [List.length_append] at h
  omega

/-- A word that does not start at an ending character takes text away. -/
theorem length_scanWord_lt {c : Char} {r : List Char} (h : endsWord c = false) :
    (scanWord (c :: r)).2.length < (c :: r).length := by
  unfold scanWord
  simp only [h, Bool.false_eq_true, if_false, List.length_cons]
  have h1 := length_scanWord_le (nextPiece c r).2
  have h2 := length_nextPiece_le c r
  omega

end CommandConsole.Line
