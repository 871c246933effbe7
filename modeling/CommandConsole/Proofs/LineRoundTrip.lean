import CommandConsole.Line.Parser
import CommandConsole.Line.Printer
import CommandConsole.Proofs.Stripping

/-!
# Reading back what was written

Four scanners look at a line: for its background mark, for its pipes, for the redirects of
a stage, and for words.  This module proves that on a line as it is shown they find what
was shown (`parse_render`).

What a scanner finds may depend on all the text behind it, since a quote looks for its
partner there.  So each lemma on a part of a line is about that part with any text behind
it: a shown word is scanned as that word before any blank (`WordText.scanned`), no pipe is
found in it before any text (`WordText.uncut`), and an item is read as that item before any
blank (`nextItem_itemText`).

Not every word comes back.  A backslash protects the character behind it, and nothing that
is shown says which backslash was meant to stand for itself.
-/

namespace CommandConsole

namespace Line

/-! ## Words that come back -/

/-- Each backslash stands before a character other than itself and the single quote. -/
def ProtectsNothing (cs : List Char) : Prop :=
  ∀ i < cs.length, cs[i]? = some '\\' → cs[i + 1]?.any (fun c => c ≠ '\\' ∧ c ≠ '\'') = true

instance (cs : List Char) : Decidable (ProtectsNothing cs) := Nat.decidableBallLT ..

/-- **A word that comes back.**  If it is shown as it is, it holds no backslash, and if it
is shown between quotes, its backslashes protect nothing. -/
def ComesBack (word : String) : Prop :=
  (renderWord word = word → '\\' ∉ word.toList) ∧
    (renderWord word ≠ word → ProtectsNothing word.toList)

instance (word : String) : Decidable (ComesBack word) := inferInstanceAs (Decidable (_ ∧ _))

/-- A text whose backslashes protect nothing, built from its front. -/
inductive Quotable : List Char → Prop where
  | nil : Quotable []
  | plain {c : Char} {cs : List Char} (h : c ≠ '\\') (later : Quotable cs) : Quotable (c :: cs)
  | backslash {c : Char} {cs : List Char} (h : c ≠ '\\') (hq : c ≠ '\'') (later : Quotable cs) :
      Quotable ('\\' :: c :: cs)

theorem ProtectsNothing.tail {c : Char} {cs : List Char} (h : ProtectsNothing (c :: cs)) :
    ProtectsNothing cs :=
  fun i hi he => h (i + 1) (Nat.succ_lt_succ hi) he

theorem quotable_of_protectsNothing : (cs : List Char) → ProtectsNothing cs → Quotable cs
  | [], _ => .nil
  | c :: cs, h => by
    by_cases hc : c = '\\'
    · subst hc
      have next := h 0 (Nat.succ_pos _) rfl
      cases cs with
      | nil => cases next
      | cons d cs =>
          obtain ⟨hd, hq⟩ : d ≠ '\\' ∧ d ≠ '\'' := by simpa using next
          exact .backslash hd hq (quotable_of_protectsNothing cs h.tail.tail)
    · exact .plain hc (quotable_of_protectsNothing cs h.tail)

theorem needsQuotes_eq_false {c : Char} (h : needsQuotes c = false) :
    Text.isBlank c = false ∧ c ≠ '|' ∧ c ≠ '>' ∧ c ≠ '<' ∧ c ≠ '&' ∧ isQuote c = false := by
  simp only [needsQuotes, Bool.or_eq_false_iff, beq_eq_false_iff_ne] at h
  obtain ⟨⟨⟨⟨⟨⟨blank, bar⟩, more⟩, less⟩, both⟩, double⟩, single⟩ := h
  exact ⟨blank, bar, more, less, both, by simp [isQuote, double, single]⟩

/-- **How a word that comes back is shown**, as the text and the characters of the word. -/
inductive WordText : List Char → List Char → Prop where
  | bare {cs : List Char} (ne : cs ≠ []) (h : ∀ c ∈ cs, needsQuotes c = false ∧ c ≠ '\\') :
      WordText cs cs
  | quoted {cs : List Char} (h : Quotable cs) : WordText (quoteChars cs) cs

/-- What stands between the quotes. -/
def escapeQuotes (cs : List Char) : List Char :=
  cs.flatMap fun c => if c = '\'' then ['\\', '\''] else [c]

theorem quoteChars_append (cs rest : List Char) :
    quoteChars cs ++ rest = '\'' :: (escapeQuotes cs ++ '\'' :: rest) := by
  simp [quoteChars, escapeQuotes]

theorem length_quoteChars (cs : List Char) : cs.length < (quoteChars cs).length := by
  have body : cs.length ≤ (escapeQuotes cs).length := by
    unfold escapeQuotes
    induction cs with
    | nil => exact Nat.le_refl 0
    | cons c cs ih =>
        simp only [List.flatMap_cons, List.length_append, List.length_cons]
        split <;> simp only [List.length_cons, List.length_nil] <;> omega
  rw [← List.append_nil (quoteChars cs), quoteChars_append, List.length_cons, List.length_append]
  omega

theorem ComesBack.wordText {word : String} (h : ComesBack word) :
    WordText (renderWord word).toList word.toList := by
  have quoted_text : renderWord word = String.ofList (quoteChars word.toList) →
      WordText (renderWord word).toList word.toList := by
    intro he
    -- quotes make a word longer, so a quoted word is not shown as it is
    have ne : renderWord word ≠ word := fun same => by
      have longer := length_quoteChars word.toList
      rw [← String.toList_ofList (l := quoteChars word.toList), ← he, same] at longer
      exact Nat.lt_irrefl _ longer
    rw [he, String.toList_ofList]
    exact .quoted (quotable_of_protectsNothing _ (h.2 ne))
  by_cases hempty : word = ""
  · subst hempty
    exact quoted_text rfl
  · by_cases hq : word.toList.any needsQuotes = true
    · exact quoted_text (by simp [renderWord, hempty, hq])
    · have same : renderWord word = word := by simp [renderWord, hempty, hq]
      rw [same]
      refine .bare (by simpa using hempty) fun c hc => ⟨?_, fun he => h.1 same (he ▸ hc)⟩
      exact Bool.eq_false_iff.2 fun hn => hq (List.any_eq_true.2 ⟨c, hc, hn⟩)

/-! ## Pieces -/

theorem escapeQuotes_cons_of_ne {c : Char} (h : c ≠ '\'') (cs : List Char) :
    escapeQuotes (c :: cs) = c :: escapeQuotes cs := by
  simp [escapeQuotes, h]

theorem escapeQuotes_cons_quote (cs : List Char) :
    escapeQuotes ('\'' :: cs) = '\\' :: '\'' :: escapeQuotes cs := by
  simp [escapeQuotes]

/-- In front of the closing quote stands what was put there. -/
theorem splitAtClosing_cons {q c : Char} {r body rest : List Char} (hc : c ≠ '\\') (hq : c ≠ q)
    (h : splitAtClosing q r = some (body, rest)) :
    splitAtClosing q (c :: r) = some (c :: body, rest) := by
  cases r with
  | nil => cases h
  | cons d r => simp [splitAtClosing, hc, hq, h]

theorem splitAtClosing_escapeQuotes {cs : List Char} (h : Quotable cs) (rest : List Char) :
    splitAtClosing '\'' (escapeQuotes cs ++ '\'' :: rest) = some (escapeQuotes cs, rest) := by
  induction h with
  | nil => cases rest <;> rfl
  | @plain c cs hc _ ih =>
      by_cases hq : c = '\''
      · subst hq
        simp [escapeQuotes_cons_quote, splitAtClosing, ih]
      · rw [escapeQuotes_cons_of_ne hq]
        exact splitAtClosing_cons hc hq ih
  | @backslash c cs hc hq _ ih =>
      rw [escapeQuotes_cons_of_ne (by decide), escapeQuotes_cons_of_ne hq]
      simp [splitAtClosing, ih]

theorem unescapeQuoted_cons {q c : Char} (hc : c ≠ '\\') (r : List Char) :
    unescapeQuoted q (c :: r) = c :: unescapeQuoted q r := by
  cases r with
  | nil => rfl
  | cons d r => simp [unescapeQuoted, hc]

/-- The escapes between the quotes are resolved. -/
theorem unescapeQuoted_escapeQuotes {cs : List Char} (h : Quotable cs) :
    unescapeQuoted '\'' (escapeQuotes cs) = cs := by
  induction h with
  | nil => rfl
  | @plain c cs hc _ ih =>
      by_cases hq : c = '\''
      · subst hq
        simp [escapeQuotes_cons_quote, unescapeQuoted, ih]
      · rw [escapeQuotes_cons_of_ne hq, unescapeQuoted_cons hc, ih]
  | @backslash c cs hc hq _ ih =>
      rw [escapeQuotes_cons_of_ne (by decide), escapeQuotes_cons_of_ne hq]
      simp [unescapeQuoted, hc, hq, unescapeQuoted_cons hc, ih]

theorem nextPiece_quoted {cs : List Char} (h : Quotable cs) (rest : List Char) :
    nextPiece '\'' (escapeQuotes cs ++ '\'' :: rest) = (.quoted '\'' (escapeQuotes cs), rest) := by
  simp [nextPiece, isQuote, splitAtClosing_escapeQuotes h]

theorem nextPiece_bare {c : Char} (hc : c ≠ '\\') (hq : isQuote c = false) (r : List Char) :
    nextPiece c r = (.bare c, r) := by
  simp [nextPiece, hc, hq]

/-! ## Words -/

/-- The text is over, or goes on with a blank. -/
def Pauses (tail : List Char) : Prop := ∀ c, tail.head? = some c → Text.isBlank c = true

theorem scanWord_of_pauses {tail : List Char} (h : Pauses tail) : scanWord tail = ([], tail) := by
  rw [scanWord.eq_def]
  cases tail with
  | nil => rfl
  | cons c r => exact if_pos (by simp [endsWord, h c rfl])

theorem scanWord_cons {c : Char} {r : List Char} (h : endsWord c = false) :
    scanWord (c :: r) =
      ((nextPiece c r).1 :: (scanWord (nextPiece c r).2).1, (scanWord (nextPiece c r).2).2) := by
  rw [scanWord.eq_def]
  exact if_neg (by simp [h])

theorem scanWord_bare {cs tail : List Char} (h : ∀ c ∈ cs, needsQuotes c = false ∧ c ≠ '\\')
    (ht : Pauses tail) : scanWord (cs ++ tail) = (cs.map .bare, tail) := by
  induction cs with
  | nil => exact scanWord_of_pauses ht
  | cons c cs ih =>
      obtain ⟨hn, hc⟩ := h c List.mem_cons_self
      obtain ⟨blank, -, more, less, -, hq⟩ := needsQuotes_eq_false hn
      rw [List.cons_append, scanWord_cons (by simp [endsWord, blank, more, less]),
        nextPiece_bare hc hq, ih fun d hd => h d (.tail _ hd)]
      rfl

/-- A shown word is scanned as the word. -/
theorem WordText.scanned {text word tail : List Char} (h : WordText text word)
    (ht : Pauses tail) :
    wordOf (scanWord (text ++ tail)).1 = String.ofList word ∧
      (scanWord (text ++ tail)).2 = tail := by
  cases h with
  | bare _ h =>
      have spelled : (text.map Piece.bare).flatMap Piece.value = text := by
        simp [List.flatMap_map, Piece.value]
      rw [scanWord_bare h ht, wordOf, spelled]
      exact ⟨rfl, rfl⟩
  | quoted h =>
      rw [quoteChars_append, scanWord_cons (by decide), nextPiece_quoted h, scanWord_of_pauses ht]
      simp [wordOf, Piece.value, unescapeQuoted_escapeQuotes h]

/-- How a shown word begins. -/
theorem WordText.head {text word : List Char} (h : WordText text word) :
    ∃ c r, text = c :: r ∧ Text.isBlank c = false ∧ c ≠ '>' ∧ c ≠ '<' := by
  cases h with
  | bare ne h =>
      obtain ⟨c, r, rfl⟩ := List.exists_cons_of_ne_nil ne
      obtain ⟨blank, -, more, less, -⟩ := needsQuotes_eq_false (h c List.mem_cons_self).1
      exact ⟨c, r, rfl, blank, more, less⟩
  | quoted => exact ⟨'\'', _, rfl, by decide, by decide, by decide⟩

/-- How a shown line ends: not with a blank, and not with a background mark. -/
def Closed (text : List Char) : Prop :=
  ∃ before c, text = before ++ [c] ∧ Text.isBlank c = false ∧ c ≠ '&'

theorem Closed.append {text : List Char} (h : Closed text) (front : List Char) :
    Closed (front ++ text) := by
  obtain ⟨before, c, rfl, hc⟩ := h
  exact ⟨front ++ before, c, (List.append_assoc ..).symm, hc⟩

theorem WordText.closed {text word : List Char} (h : WordText text word) : Closed text := by
  cases h with
  | bare ne h =>
      obtain ⟨blank, -, -, -, mark, -⟩ := needsQuotes_eq_false (h _ (List.getLast_mem ne)).1
      exact ⟨_, _, (List.dropLast_concat_getLast ne).symm, blank, mark⟩
  | quoted => exact ⟨_, '\'', rfl, by decide, by decide⟩

/-- **No pipe cuts a text**, whatever stands behind it. -/
def Uncut (text : List Char) : Prop :=
  ∀ rest, splitPipes (text ++ rest) = consHead text (splitPipes rest)

theorem consHead_append (a b : List Char) (segments : List (List Char)) :
    consHead (a ++ b) segments = consHead a (consHead b segments) := by
  cases segments <;> simp [consHead]

theorem consHead_ne_nil (front : List Char) (segments : List (List Char)) :
    consHead front segments ≠ [] := by
  cases segments <;> exact List.cons_ne_nil _ _

theorem splitPipes_cons (c : Char) (r : List Char) :
    splitPipes (c :: r) = if c = '|' then [] :: splitPipes r
      else consHead (nextPiece c r).1.source (splitPipes (nextPiece c r).2) := by
  rw [splitPipes.eq_def]

theorem splitPipes_nil : splitPipes [] = [[]] := by
  rw [splitPipes.eq_def]

theorem splitPipes_ne_nil (cs : List Char) : splitPipes cs ≠ [] := by
  cases cs with
  | nil => rw [splitPipes_nil]; exact List.cons_ne_nil _ _
  | cons c r =>
      rw [splitPipes_cons]
      split
      · exact List.cons_ne_nil _ _
      · exact consHead_ne_nil _ _

theorem uncut_nil : Uncut [] := fun rest => by
  cases h : splitPipes rest with
  | nil => exact absurd h (splitPipes_ne_nil rest)
  | cons segment segments => exact h

theorem Uncut.append {a b : List Char} (ha : Uncut a) (hb : Uncut b) : Uncut (a ++ b) :=
  fun rest => by rw [List.append_assoc, ha, hb, consHead_append]

/-- Characters that are neither pipes nor begin a protected piece. -/
theorem uncut_of_ordinary {cs : List Char}
    (h : ∀ c ∈ cs, c ≠ '|' ∧ c ≠ '\\' ∧ isQuote c = false) : Uncut cs := by
  induction cs with
  | nil => exact uncut_nil
  | cons c cs ih =>
      obtain ⟨bar, hc, hq⟩ := h c List.mem_cons_self
      have first : Uncut [c] := fun rest => by
        rw [List.singleton_append, splitPipes_cons, if_neg bar, nextPiece_bare hc hq]
        rfl
      exact first.append (ih fun d hd => h d (.tail _ hd))

theorem uncut_space : Uncut [' '] := uncut_of_ordinary (List.forall_mem_singleton.2 (by decide))

theorem WordText.uncut {text word : List Char} (h : WordText text word) : Uncut text := by
  cases h with
  | bare _ h =>
      refine uncut_of_ordinary fun c hc => ?_
      obtain ⟨-, bar, -, -, -, hq⟩ := needsQuotes_eq_false (h c hc).1
      exact ⟨bar, (h c hc).2, hq⟩
  | quoted h =>
      intro rest
      rw [quoteChars_append, splitPipes_cons, if_neg (by decide), nextPiece_quoted h]
      simp [Piece.source, quoteChars, escapeQuotes]

/-! ## Items -/

/-- An item as it is shown. -/
def Item.text : Item → List Char
  | .word w => (renderWord w).toList
  | .redirect r => r.render.toList

/-- The word of an item comes back. -/
def Item.ComesBack : Item → Prop
  | .word w => Line.ComesBack w
  | .redirect r => Line.ComesBack r.target

theorem redirect_text (r : Redirect) :
    (Item.redirect r).text = r.kind.operator.toList ++ ' ' :: (renderWord r.target).toList := by
  simp [Item.text, Redirect.render]

theorem pauses_cons {b : Char} (h : Text.isBlank b = true) (r : List Char) : Pauses (b :: r) :=
  fun c hc => by cases hc; exact h

theorem redirectOperator?_cons {c : Char} {r : List Char} (more : c ≠ '>') (less : c ≠ '<')
    (behind : r.head? ≠ some '>') : redirectOperator? (c :: r) = none := by
  unfold redirectOperator?
  split <;> simp_all

/-- No operator stands in front of a shown word, not even of the word `2`. -/
theorem WordText.no_operator {text word tail : List Char} (h : WordText text word)
    (ht : Pauses tail) : redirectOperator? (text ++ tail) = none := by
  cases h with
  | bare ne h =>
      obtain ⟨c, r, rfl⟩ := List.exists_cons_of_ne_nil ne
      obtain ⟨-, -, more, less, -⟩ := needsQuotes_eq_false (h c List.mem_cons_self).1
      refine redirectOperator?_cons more less fun hd => ?_
      -- the `>` of `2>` would stand in the word, and then the word is quoted, or behind it
      cases r with
      | nil => exact absurd (ht '>' hd) (by decide)
      | cons d r =>
          cases hd
          exact absurd (h '>' (by simp)).1 (by decide)
  | quoted => rfl

/-- The operator of a shown redirect is found, the longest and no longer one. -/
theorem redirectOperator?_operator (kind : RedirectKind) (r : List Char) :
    redirectOperator? (kind.operator.toList ++ ' ' :: r) = some (kind, ' ' :: r) := by
  cases kind <;> rfl

theorem skipBlanks_cons_of_not {c : Char} (h : Text.isBlank c = false) (r : List Char) :
    Text.skipBlanks (c :: r) = c :: r :=
  List.dropWhile_cons_of_neg (by simp [h])

theorem skipBlanks_append_of_all {blanks : List Char} (h : ∀ b ∈ blanks, Text.isBlank b = true)
    (r : List Char) : Text.skipBlanks (blanks ++ r) = Text.skipBlanks r :=
  List.dropWhile_append_of_pos h

/-- A shown item is read as the item. -/
theorem nextItem_text {i : Item} (h : i.ComesBack) {tail : List Char} (ht : Pauses tail) :
    ∃ c r, i.text ++ tail = c :: r ∧ Text.isBlank c = false ∧ nextItem c r = (i, tail) := by
  cases i with
  | word w =>
      have shown : WordText (Item.word w).text w.toList := ComesBack.wordText h
      obtain ⟨c, r, hc, blank, -⟩ := shown.head
      obtain ⟨spelled, behind⟩ := shown.scanned ht
      have no_operator := shown.no_operator ht
      rw [hc, List.cons_append] at spelled behind no_operator
      refine ⟨c, r ++ tail, by rw [hc]; rfl, blank, ?_⟩
      simp only [nextItem, no_operator]
      rw [spelled, behind, String.ofList_toList]
  | redirect redirect =>
      have shown := ComesBack.wordText h
      obtain ⟨d, r, hd, blank, more, less⟩ := shown.head
      obtain ⟨spelled, behind⟩ := shown.scanned ht
      rw [hd, List.cons_append] at spelled behind
      obtain ⟨c, o, hc, front⟩ : ∃ c o, redirect.kind.operator.toList = c :: o ∧
          Text.isBlank c = false := by
        cases redirect.kind <;> exact ⟨_, _, rfl, by decide⟩
      have operator := redirectOperator?_operator redirect.kind (d :: (r ++ tail))
      rw [hc, List.cons_append] at operator
      refine ⟨c, o ++ ' ' :: d :: (r ++ tail), ?_, front, ?_⟩
      · rw [redirect_text, hc, hd]
        simp
      · have gap : Text.skipBlanks (' ' :: d :: (r ++ tail)) = d :: (r ++ tail) :=
          skipBlanks_cons_of_not blank _
        simp only [nextItem, operator, gap, more, less, or_self, if_false]
        rw [spelled, behind, String.ofList_toList]

theorem items_of_skipBlanks (cs : List Char) :
    items cs = match Text.skipBlanks cs with
      | [] => []
      | c :: r => (nextItem c r).1 :: items (nextItem c r).2 := by
  rw [items.eq_def]
  split <;> rename_i h <;> rw [h]

theorem items_cons {c : Char} (blank : Text.isBlank c = false) (r : List Char) :
    items (c :: r) = (nextItem c r).1 :: items (nextItem c r).2 := by
  rw [items_of_skipBlanks, skipBlanks_cons_of_not blank]

theorem blank_space : ∀ b ∈ [' '], Text.isBlank b = true :=
  List.forall_mem_singleton.2 (by decide)

/-- Blanks in front of items do not matter. -/
theorem items_append_of_all {blanks : List Char} (h : ∀ b ∈ blanks, Text.isBlank b = true)
    (r : List Char) : items (blanks ++ r) = items r := by
  rw [items_of_skipBlanks, skipBlanks_append_of_all h, ← items_of_skipBlanks]

theorem items_of_all {blanks : List Char} (h : ∀ b ∈ blanks, Text.isBlank b = true) :
    items blanks = [] := by
  rw [← List.append_nil blanks, items_append_of_all h, items_of_skipBlanks]
  rfl

theorem items_text {i : Item} (h : i.ComesBack) {tail : List Char} (ht : Pauses tail) :
    items (i.text ++ tail) = i :: items tail := by
  obtain ⟨c, r, he, blank, hi⟩ := nextItem_text h ht
  rw [he, items_of_skipBlanks, skipBlanks_cons_of_not blank]
  dsimp only
  rw [hi]

/-- Items that are shown with blanks between them are read as these items. -/
theorem items_intercalate {is : List Item} (h : ∀ i ∈ is, i.ComesBack) {blanks : List Char}
    (hb : ∀ b ∈ blanks, Text.isBlank b = true) :
    items ([' '].intercalate (is.map Item.text) ++ blanks) = is := by
  induction is with
  | nil => exact items_of_all hb
  | cons i is ih =>
      have hi := h i List.mem_cons_self
      have later := ih fun j hj => h j (.tail _ hj)
      cases is with
      | nil =>
          have ht : Pauses blanks := fun c hc => hb c (List.mem_of_head? hc)
          simp [items_text hi ht, items_of_all hb]
      | cons j is =>
          have gap (r : List Char) : Pauses ([' '] ++ r) := pauses_cons (by decide) r
          rw [List.map_cons, List.map_cons, List.intercalate_cons_cons, ← List.map_cons,
            List.append_assoc, List.append_assoc, items_text hi (gap _),
            items_append_of_all blank_space, later]

/-! ## Stages -/

/-- The items of a stage, in the order in which they are shown. -/
def itemsOf (s : Stage) : List Item := s.tokens.map .word ++ s.redirects.map .redirect

/-- The words of a stage and the targets of its redirects. -/
def wordsOf (s : Stage) : List String := s.tokens ++ s.redirects.map Redirect.target

theorem itemsOf_comeBack {s : Stage} (h : ∀ w ∈ wordsOf s, ComesBack w) :
    ∀ i ∈ itemsOf s, i.ComesBack := by
  intro i hi
  rcases List.mem_append.1 hi with hi | hi
  · obtain ⟨w, hw, rfl⟩ := List.mem_map.1 hi
    exact h w (List.mem_append_left _ hw)
  · obtain ⟨r, hr, rfl⟩ := List.mem_map.1 hi
    exact h r.target (List.mem_append_right _ (List.mem_map_of_mem hr))

theorem toList_render (s : Stage) :
    s.render.toList = [' '].intercalate ((itemsOf s).map Item.text) := by
  rw [Stage.render, String.toList_intercalate, itemsOf]
  simp only [List.map_append, List.map_map]
  rfl

theorem stageOfItems?_itemsOf (s : Stage) : stageOfItems? (itemsOf s) = some s := by
  have words : plainWords (itemsOf s) = s.command :: s.args := by
    simp [plainWords, itemsOf, Stage.tokens, List.filterMap_append, List.filterMap_map]
  have redirects : redirectsOf (itemsOf s) = s.redirects := by
    simp [redirectsOf, itemsOf, List.filterMap_append, List.filterMap_map]
  rw [stageOfItems?, words, redirects]

/-- A shown stage is read as the stage, with blanks on both sides. -/
theorem stage?_render {s : Stage} (h : ∀ w ∈ wordsOf s, ComesBack w) {front : List Char}
    (hf : ∀ b ∈ front, Text.isBlank b = true) (behind : List Char)
    (hb : ∀ b ∈ behind, Text.isBlank b = true) :
    stage? (front ++ s.render.toList ++ behind) = some s := by
  rw [stage?, List.append_assoc, items_append_of_all hf, toList_render,
    items_intercalate (itemsOf_comeBack h) hb, stageOfItems?_itemsOf]

theorem Item.ComesBack.uncut {i : Item} (h : i.ComesBack) : Uncut i.text := by
  cases i with
  | word w => exact (Line.ComesBack.wordText h).uncut
  | redirect r =>
      have operator : Uncut r.kind.operator.toList := by
        cases r.kind <;> exact uncut_of_ordinary (by simp [RedirectKind.operator, isQuote])
      rw [redirect_text, ← List.singleton_append]
      exact operator.append (uncut_space.append (Line.ComesBack.wordText h).uncut)

theorem Item.ComesBack.closed {i : Item} (h : i.ComesBack) : Closed i.text := by
  cases i with
  | word w => exact (Line.ComesBack.wordText h).closed
  | redirect r =>
      rw [redirect_text, ← List.singleton_append]
      exact ((Line.ComesBack.wordText h).closed.append _).append _

theorem uncut_intercalate {between : List Char} (hb : Uncut between) {texts : List (List Char)}
    (h : ∀ text ∈ texts, Uncut text) : Uncut (between.intercalate texts) := by
  induction texts with
  | nil => exact uncut_nil
  | cons text texts ih =>
      have first := h text List.mem_cons_self
      have later := ih fun t ht => h t (.tail _ ht)
      cases texts with
      | nil => simpa using first
      | cons other texts =>
          rw [List.intercalate_cons_cons]
          exact (first.append hb).append later

theorem closed_intercalate {between : List Char} {texts : List (List Char)} (ne : texts ≠ [])
    (h : ∀ text ∈ texts, Closed text) : Closed (between.intercalate texts) := by
  induction texts with
  | nil => exact absurd rfl ne
  | cons text texts ih =>
      cases texts with
      | nil => simpa using h text List.mem_cons_self
      | cons other texts =>
          rw [List.intercalate_cons_cons]
          exact (ih (List.cons_ne_nil _ _) fun t ht => h t (.tail _ ht)).append _

theorem uncut_render {s : Stage} (h : ∀ w ∈ wordsOf s, ComesBack w) : Uncut s.render.toList := by
  rw [toList_render]
  refine uncut_intercalate uncut_space fun text ht => ?_
  obtain ⟨i, hi, rfl⟩ := List.mem_map.1 ht
  exact (itemsOf_comeBack h i hi).uncut

theorem closed_render {s : Stage} (h : ∀ w ∈ wordsOf s, ComesBack w) : Closed s.render.toList := by
  rw [toList_render]
  refine closed_intercalate (by simp [itemsOf, Stage.tokens]) fun text ht => ?_
  obtain ⟨i, hi, rfl⟩ := List.mem_map.1 ht
  exact (itemsOf_comeBack h i hi).closed

/-! ## Lines -/

/-- The stages of a line as they are shown. -/
def stagesText (stages : List Stage) : List Char :=
  [' ', '|', ' '].intercalate (stages.map fun s => s.render.toList)

theorem toList_commandText (l : Line) : l.commandText.toList = stagesText l.stages := by
  rw [commandText, String.toList_intercalate, stagesText, List.map_map]
  rfl

/-- Text that no pipe cuts is one segment. -/
theorem Uncut.alone {text : List Char} (h : Uncut text) : splitPipes text = [text] := by
  have whole := h []
  rw [List.append_nil, splitPipes_nil] at whole
  simpa [consHead] using whole

/-- A pipe ends the segment in front of it. -/
theorem Uncut.before_pipe {text : List Char} (h : Uncut text) (rest : List Char) :
    splitPipes (text ++ '|' :: rest) = text :: splitPipes rest := by
  rw [h, splitPipes_cons, if_pos rfl]
  simp [consHead]

/-- Shown stages are read as these stages. -/
theorem stages_of_text {stages : List Stage} (h : ∀ s ∈ stages, ∀ w ∈ wordsOf s, ComesBack w)
    (front : List Char) (hf : ∀ b ∈ front, Text.isBlank b = true) (hu : Uncut front) :
    (splitPipes (front ++ stagesText stages)).filterMap stage? = stages := by
  -- by induction on the stages: the blank behind a pipe is what stands in front of the rest
  induction stages generalizing front with
  | nil =>
      rw [stagesText, List.map_nil, List.intercalate_nil, List.append_nil, hu.alone]
      simp [stage?, items_of_all hf, stageOfItems?, plainWords]
  | cons s stages ih =>
      have hs := h s List.mem_cons_self
      have segment : Uncut (front ++ s.render.toList) := hu.append (uncut_render hs)
      cases stages with
      | nil =>
          have read := stage?_render hs hf [] (by simp)
          rw [List.append_nil] at read
          simp [stagesText, segment.alone, read]
      | cons s' stages =>
          have later := ih (fun t ht => h t (.tail _ ht)) [' '] blank_space uncut_space
          have text : front ++ stagesText (s :: s' :: stages) =
              (front ++ s.render.toList ++ [' ']) ++
                '|' :: ([' '] ++ stagesText (s' :: stages)) := by
            simp [stagesText, List.intercalate_cons_cons]
          rw [text, (segment.append uncut_space).before_pipe, List.filterMap_cons,
            stage?_render hs hf [' '] blank_space, later]

theorem closed_stagesText {stages : List Stage} (h : ∀ s ∈ stages, ∀ w ∈ wordsOf s, ComesBack w) :
    stagesText stages = [] ∨ Closed (stagesText stages) := by
  cases stages with
  | nil => exact .inl rfl
  | cons s stages =>
      refine .inr (closed_intercalate (by simp) fun text ht => ?_)
      obtain ⟨s', hs', rfl⟩ := List.mem_map.1 ht
      exact closed_render (h s' hs')

/-- Nothing is stripped off a closed text. -/
theorem stripped_text {text : List Char} (ht : text = [] ∨ Closed text) :
    Stripped text text false [] := by
  rcases ht with rfl | ⟨before, c, rfl, solid, mark⟩
  · exact .unmarked rfl endsSolid_nil (List.forall_mem_nil _) (by simp)
  · refine .unmarked (List.append_nil _).symm (endsSolid_concat solid before)
      (List.forall_mem_nil _) fun front he => ?_
    exact absurd (List.singleton_inj.1 (List.append_inj' he rfl).2) mark

theorem stripBackground_text {text : List Char} (ht : text = [] ∨ Closed text) :
    stripBackground text = (text, false) := (stripped_text ht).eq

theorem stripBackground_marked {text : List Char} (ht : text = [] ∨ Closed text) :
    stripBackground (text ++ [' ', '&']) = (text, true) := (stripped_text ht).with_mark.eq

theorem ofChars_render {l : Line} (h : ∀ s ∈ l.stages, ∀ w ∈ wordsOf s, ComesBack w) :
    ofChars l.render.toList = l := by
  have read := stages_of_text h [] (by simp) uncut_nil
  rw [List.nil_append] at read
  have closed := closed_stagesText h
  obtain ⟨stages, background⟩ := l
  cases background with
  | false =>
      have text : (render ⟨stages, false⟩).toList = stagesText stages := by
        simp [render, toList_commandText]
      rw [ofChars, text, stripBackground_text closed]
      exact congrArg (Line.mk · false) read
  | true =>
      have text : (render ⟨stages, true⟩).toList = stagesText stages ++ [' ', '&'] := by
        simp [render, toList_commandText]
      rw [ofChars, text, stripBackground_marked closed]
      exact congrArg (Line.mk · true) read

end Line

/-- **A shown line is read as the line**, whatever its stages, words and redirects, if its
words come back. -/
theorem parse_render (l : Line) (h : ∀ s ∈ l.stages, ∀ w ∈ Line.wordsOf s, Line.ComesBack w) :
    Line.parse l.render = l := Line.ofChars_render h

/-- A line with words that look like operators, quotes, blanks and nothing at all. -/
theorem parse_render_of_odd_words :
    let l : Line := ⟨[
      ⟨"", ["2", "a b", "it's", "c:\\d e", ">"], [⟨.errTruncate, "2"⟩, ⟨.input, "&"⟩]⟩,
      ⟨"wc", [], [⟨.outAppend, "|"⟩]⟩], true⟩
    l.render = "'' 2 'a b' 'it\\'s' 'c:\\d e' '>' 2> 2 < '&' | wc >> '|' &" ∧
      Line.parse l.render = l :=
  ⟨by decide, parse_render _ (by decide)⟩

end CommandConsole
