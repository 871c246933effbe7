import CommandConsole.Proofs.LineRoundTrip

/-!
# The grammar of a stage

What can be typed as a stage is written down here as a grammar, apart from the scanners that
read it: a word is a row of pieces (`Grammar.Piece`), and a stage is a row of words and
redirects with blanks between them (`Grammar.Segment`).  The types hold well-formed pieces
only, and each knows its text and its value.  The stage that is read from such a text is the
one that was written (`Grammar.stage?_text`).

A piece is scanned as itself before any text, and a word and a redirect before any blank, so
the lemmas go up the grammar one level at a time.
-/

namespace CommandConsole.Line.Grammar

/-! ## The grammar -/

/-- What stands between two quotes: characters other than the quote and the backslash, and
backslashes paired with the character behind them. -/
inductive Inner (quote : Char) where
  | plain (c : Char) (h : c ≠ quote ∧ c ≠ '\\')
  | pair (c : Char)

namespace Inner
variable {quote : Char}

def text : Inner quote → List Char
  | plain c _ => [c]
  | pair c => ['\\', c]

/-- A backslash before the quote or a backslash gives way; any other stays. -/
def value : Inner quote → List Char
  | plain c _ => [c]
  | pair c => if c = quote ∨ c = '\\' then [c] else ['\\', c]

end Inner

/-- A character that may stand bare in a word. -/
def IsBare (c : Char) : Prop :=
  Text.isBlank c = false ∧ c ≠ '\\' ∧ isQuote c = false ∧ c ≠ '>' ∧ c ≠ '<'

instance (c : Char) : Decidable (IsBare c) :=
  inferInstanceAs (Decidable (_ ∧ _ ∧ _ ∧ _ ∧ _))

/-- **A piece of a word.** -/
inductive Piece where
  | bare (c : Char) (h : IsBare c)
  | escaped (c : Char)
  | region (quote : Char) (h : isQuote quote = true) (content : List (Inner quote))

namespace Piece

def text : Piece → List Char
  | bare c _ => [c]
  | escaped c => ['\\', c]
  | region quote _ content => quote :: (content.flatMap Inner.text ++ [quote])

def value : Piece → List Char
  | bare c _ => [c]
  | escaped c => [c]
  | region _ _ content => content.flatMap Inner.value

end Piece

/-- **A word**: one piece or more. -/
structure Word where
  first : Piece
  others : List Piece

namespace Word

def pieces (w : Word) : List Piece := w.first :: w.others

def text (w : Word) : List Char := w.pieces.flatMap Piece.text

/-- **The value of a word**: the values of its pieces, one behind the other. -/
def value (w : Word) : String := String.ofList (w.pieces.flatMap Piece.value)

end Word

/-- Blanks, or nothing. -/
structure Blanks where
  chars : List Char
  blank : ∀ c ∈ chars, Text.isBlank c = true

/-- One blank or more. -/
structure Gap extends Blanks where
  ne : chars ≠ []

/-- A word by itself, or a redirect: an operator, blanks, and the word it is aimed at. -/
inductive Entry where
  | word (w : Word)
  | redirect (kind : RedirectKind) (between : Blanks) (target : Word)

namespace Entry

def text : Entry → List Char
  | word w => w.text
  | redirect kind between target => kind.operator.toList ++ (between.chars ++ target.text)

/-- The item that an entry is to be read as. -/
def item : Entry → Item
  | word w => .word w.value
  | redirect kind _ target => .redirect ⟨kind, target.value⟩

def word? : Entry → Option String
  | word w => some w.value
  | redirect .. => none

def redirect? : Entry → Option Redirect
  | word _ => none
  | redirect kind _ target => some ⟨kind, target.value⟩

end Entry

/-- **A stage as it is typed**: entries with gaps between them, and blanks at both ends. -/
structure Segment where
  front : Blanks
  first : Entry
  others : List (Gap × Entry)
  behind : Blanks

namespace Segment

def entries (s : Segment) : List Entry := s.first :: s.others.map Prod.snd

def text (s : Segment) : List Char :=
  s.front.chars ++ (s.first.text ++
    (s.others.flatMap (fun other => other.1.chars ++ other.2.text) ++ s.behind.chars))

/-- The values of the words that stand by themselves. -/
def words (s : Segment) : List String := s.entries.filterMap Entry.word?

/-- The redirects, with the values of their targets. -/
def redirects (s : Segment) : List Redirect := s.entries.filterMap Entry.redirect?

end Segment

/-! ## Pieces -/

theorem quote_ne_backslash {quote : Char} (h : isQuote quote = true) : quote ≠ '\\' := by
  rintro rfl
  cases h

theorem splitAtClosing_content {quote : Char} (h : quote ≠ '\\') (content : List (Inner quote))
    (rest : List Char) :
    splitAtClosing quote (content.flatMap Inner.text ++ quote :: rest) =
      some (content.flatMap Inner.text, rest) := by
  induction content with
  | nil => cases rest <;> simp [splitAtClosing, h]
  | cons inner content ih =>
      cases inner with
      | plain c hc => exact splitAtClosing_cons hc.2 hc.1 ih
      | pair c => simp [Inner.text, splitAtClosing, ih]

theorem unescapeQuoted_content {quote : Char} (content : List (Inner quote)) :
    unescapeQuoted quote (content.flatMap Inner.text) = content.flatMap Inner.value := by
  induction content with
  | nil => rfl
  | cons inner content ih =>
      cases inner with
      | plain c hc =>
          exact (unescapeQuoted_cons hc.2 _).trans (congrArg (c :: ·) ih)
      | pair c =>
          by_cases hidden : c = quote ∨ c = '\\'
          · simp [Inner.text, Inner.value, unescapeQuoted, hidden, ih]
          · have hc : c ≠ '\\' := fun he => hidden (.inr he)
            simp [Inner.text, Inner.value, unescapeQuoted, hidden, unescapeQuoted_cons hc, ih]

/-- A piece is taken off whatever stands behind it, and adds its value to the word. -/
theorem Piece.taken (p : Piece) : ∃ c r, p.text = c :: r ∧ endsWord c = false ∧
    ∃ taken : Line.Piece, taken.value = p.value ∧
      ∀ tail, nextPiece c (r ++ tail) = (taken, tail) := by
  cases p with
  | bare c h =>
      obtain ⟨blank, backslash, quote, more, less⟩ := h
      exact ⟨c, [], rfl, by simp [endsWord, blank, more, less], .bare c, rfl,
        fun tail => nextPiece_bare backslash quote tail⟩
  | escaped c => exact ⟨'\\', [c], rfl, by decide, .escaped c, rfl, fun _ => rfl⟩
  | region quote h content =>
      have ends : endsWord quote = false := by
        rcases (by simpa [isQuote] using h : quote = '\'' ∨ quote = '"') with rfl | rfl <;> decide
      refine ⟨quote, _, rfl, ends, .quoted quote (content.flatMap Inner.text),
        unescapeQuoted_content content, fun tail => ?_⟩
      have closing := splitAtClosing_content (quote_ne_backslash h) content tail
      simp [nextPiece, quote_ne_backslash h, h, closing]

/-- Before a pause, a row of pieces is scanned as one word. -/
theorem scanWord_pieces (pieces : List Piece) {tail : List Char} (ht : Pauses tail) :
    wordOf (scanWord (pieces.flatMap Piece.text ++ tail)).1 =
        String.ofList (pieces.flatMap Piece.value) ∧
      (scanWord (pieces.flatMap Piece.text ++ tail)).2 = tail := by
  induction pieces with
  | nil =>
      rw [List.flatMap_nil, List.nil_append, scanWord_of_pauses ht]
      exact ⟨rfl, rfl⟩
  | cons p pieces ih =>
      obtain ⟨c, r, text, ends, taken, value, next⟩ := p.taken
      rw [List.flatMap_cons, text, List.append_assoc, List.cons_append, scanWord_cons ends, next]
      refine ⟨?_, ih.2⟩
      have later := congrArg (String.toList) ih.1
      simp only [wordOf, String.toList_ofList] at later
      simp only [wordOf, List.flatMap_cons, later, value]

/-! ## Words and redirects -/

/-- How a word begins. -/
theorem Word.head (w : Word) : ∃ c r, w.text = c :: r ∧ endsWord c = false := by
  obtain ⟨c, r, text, ends, -⟩ := w.first.taken
  exact ⟨c, r ++ w.others.flatMap Piece.text, by simp [Word.text, Word.pieces, text], ends⟩

theorem not_operator_of_endsWord {c : Char} (h : endsWord c = false) :
    Text.isBlank c = false ∧ c ≠ '>' ∧ c ≠ '<' := by
  simpa [endsWord, and_assoc] using h

/-- What stands behind the first piece of a word does not begin with an angle bracket. -/
theorem head?_pieces_ne (pieces : List Piece) {tail : List Char} (ht : Pauses tail) :
    (pieces.flatMap Piece.text ++ tail).head? ≠ some '>' := by
  cases pieces with
  | nil => exact fun found => absurd (ht _ found) (by decide)
  | cons p pieces =>
      obtain ⟨c, r, text, ends, -⟩ := p.taken
      rw [List.flatMap_cons, text]
      intro found
      cases found
      cases ends

/-- No operator stands in front of a word, not even of one that begins with a `2`. -/
theorem Word.no_operator (w : Word) {tail : List Char} (ht : Pauses tail) :
    redirectOperator? (w.text ++ tail) = none := by
  obtain ⟨first, others⟩ := w
  rw [Word.text, Word.pieces, List.flatMap_cons, List.append_assoc]
  cases first with
  | bare c h => exact redirectOperator?_cons h.2.2.2.1 h.2.2.2.2 (head?_pieces_ne others ht)
  | escaped c => rfl
  | region quote h content =>
      rcases (by simpa [isQuote] using h : quote = '\'' ∨ quote = '"') with rfl | rfl <;> rfl

/-- An operator is found whole if no angle bracket stands behind it. -/
theorem redirectOperator?_operator_append (kind : RedirectKind) {r : List Char}
    (h : r.head? ≠ some '>') : redirectOperator? (kind.operator.toList ++ r) = some (kind, r) := by
  cases r with
  | nil => cases kind <;> rfl
  | cons c r =>
      have hc : c ≠ '>' := fun he => h (he ▸ rfl)
      cases kind <;> simp [RedirectKind.operator, redirectOperator?, hc]

/-- An entry is read as its item. -/
theorem Entry.nextItem_text (e : Entry) {tail : List Char} (ht : Pauses tail) :
    ∃ c r, e.text ++ tail = c :: r ∧ Text.isBlank c = false ∧ nextItem c r = (e.item, tail) := by
  cases e with
  | word w =>
      obtain ⟨c, r, text, ends⟩ := w.head
      have no_operator := w.no_operator ht
      obtain ⟨spelled, behind⟩ := scanWord_pieces w.pieces ht
      rw [← Word.text, text, List.cons_append] at spelled behind
      rw [text, List.cons_append] at no_operator
      refine ⟨c, r ++ tail, by rw [Entry.text, text]; rfl, (not_operator_of_endsWord ends).1, ?_⟩
      simp only [nextItem, no_operator]
      rw [spelled, behind]
      rfl
  | redirect kind between target =>
      obtain ⟨d, s, text, ends⟩ := target.head
      obtain ⟨blank, more, less⟩ := not_operator_of_endsWord ends
      obtain ⟨spelled, behind⟩ := scanWord_pieces target.pieces ht
      rw [← Word.text, text, List.cons_append] at spelled behind
      have gap : Text.skipBlanks (between.chars ++ d :: (s ++ tail)) = d :: (s ++ tail) := by
        rw [skipBlanks_append_of_all between.blank, skipBlanks_cons_of_not blank]
      have front : (between.chars ++ d :: (s ++ tail)).head? ≠ some '>' := by
        intro found
        rw [List.head?_append] at found
        cases first : between.chars.head? with
        | none =>
            rw [first] at found
            exact more (Option.some.inj found)
        | some b =>
            rw [first] at found
            cases found
            exact absurd (between.blank _ (List.mem_of_head? first)) (by decide)
      have operator := redirectOperator?_operator_append kind front
      obtain ⟨c, o, hc, first⟩ : ∃ c o, kind.operator.toList = c :: o ∧
          Text.isBlank c = false := by
        cases kind <;> exact ⟨_, _, rfl, by decide⟩
      rw [hc, List.cons_append] at operator
      refine ⟨c, o ++ (between.chars ++ d :: (s ++ tail)), ?_, first, ?_⟩
      · simp [Entry.text, hc, text]
      · simp only [nextItem, operator, gap, more, less, or_self, if_false]
        rw [spelled, behind]
        rfl

theorem Entry.items_text (e : Entry) {tail : List Char} (ht : Pauses tail) :
    items (e.text ++ tail) = e.item :: items tail := by
  obtain ⟨c, r, text, blank, read⟩ := e.nextItem_text ht
  rw [text, items_of_skipBlanks, skipBlanks_cons_of_not blank]
  simp only [read]

/-! ## Stages -/

theorem Blanks.pauses (b : Blanks) : Pauses b.chars :=
  fun c hc => b.blank c (List.mem_of_head? hc)

theorem Gap.pauses_append (g : Gap) (r : List Char) : Pauses (g.chars ++ r) := by
  obtain ⟨b, bs, chars⟩ := List.exists_cons_of_ne_nil g.ne
  rw [chars]
  exact pauses_cons (g.blank b (chars ▸ List.mem_cons_self)) _

/-- Entries with gaps in front of them pause first, and are read as their items. -/
theorem items_others (others : List (Gap × Entry)) (behind : Blanks) :
    Pauses (others.flatMap (fun other => other.1.chars ++ other.2.text) ++ behind.chars) ∧
      items (others.flatMap (fun other => other.1.chars ++ other.2.text) ++ behind.chars) =
        others.map fun other => other.2.item := by
  induction others with
  | nil => exact ⟨behind.pauses, items_of_all behind.blank⟩
  | cons other others ih =>
      obtain ⟨gap, entry⟩ := other
      obtain ⟨pauses, later⟩ := ih
      rw [List.flatMap_cons, List.append_assoc, List.append_assoc]
      refine ⟨gap.pauses_append _, ?_⟩
      rw [items_append_of_all gap.blank, entry.items_text pauses, later]
      rfl

/-- A stage is read as the items of its entries. -/
theorem Segment.items_text (s : Segment) : items s.text = s.entries.map Entry.item := by
  obtain ⟨pauses, later⟩ := items_others s.others s.behind
  rw [Segment.text, items_append_of_all s.front.blank, s.first.items_text pauses, later]
  simp [Segment.entries]

theorem plainWords_items (entries : List Entry) :
    plainWords (entries.map Entry.item) = entries.filterMap Entry.word? := by
  rw [plainWords, List.filterMap_map]
  congr 1
  funext e
  cases e <;> rfl

theorem redirectsOf_items (entries : List Entry) :
    redirectsOf (entries.map Entry.item) = entries.filterMap Entry.redirect? := by
  rw [redirectsOf, List.filterMap_map]
  congr 1
  funext e
  cases e <;> rfl

/-- **A stage is read as it was written.**  Whatever words and redirects a segment is made of,
with blanks between them and at both ends: if one word at least stands by itself, the stage has
the first of these words as its command and the others as its arguments, each with its value,
and the redirects in order, each with its kind and the value of its target. -/
theorem stage?_text (s : Segment) (command : String) (args : List String)
    (words : s.words = command :: args) :
    stage? s.text = some ⟨command, args, s.redirects⟩ := by
  rw [stage?, stageOfItems?, s.items_text, plainWords_items, redirectsOf_items]
  rw [Segment.words] at words
  rw [words]
  rfl

/-- A digit before a redirect, escapes in and between quotes, a pipe and an empty target. -/
theorem stage?_text_odd :
    let space : Gap := ⟨⟨[' '], blank_space⟩, List.cons_ne_nil _ _⟩
    let nothing : Blanks := ⟨[], List.forall_mem_nil _⟩
    let s : Segment :=
      { front := space.toBlanks
        first := .word ⟨.bare '2' (by decide), []⟩
        others :=
          [(space, .redirect .outTruncate nothing ⟨.bare '2' (by decide), [.escaped '>']⟩),
            (space, .word ⟨.region '"' rfl [.plain 'a' (by decide), .pair '"', .pair '\\', .pair 'n'],
              [.bare '|' (by decide), .escaped ' ']⟩),
            (space, .redirect .errAppend space.toBlanks ⟨.region '\'' rfl [], []⟩)]
        behind := nothing }
    String.ofList s.text = " 2 >2\\> \"a\\\"\\\\\\n\"|\\  2>> ''" ∧
      stage? s.text = some ⟨"2", ["a\"\\\\n| "], [⟨.outTruncate, "2>"⟩, ⟨.errAppend, ""⟩]⟩ :=
  ⟨by decide, stage?_text _ _ _ (by decide)⟩

end CommandConsole.Line.Grammar
