import CommandConsole.Proofs.PipeCutting
import CommandConsole.Proofs.Recording
import Mathlib.Data.List.Flatten

/-!
# Redirects as they are typed

In a text without quotes and backslashes every pipe cuts, and what stands between two pipes can
be told item by item without a scanner: blanks, words, redirects, and operators that nothing
follows (`Line.Typed`).  There is one such row of items for each text, and it is the row that is
read (`Line.typed_iff`).

A line runs the segments in which a word stands.  It has the redirects of these segments, and
no others: what is redirected in a segment without a word is lost as soon as another segment
has one (`Console.redirects_beside_a_word_are_kept`).  Only a line without any word is
refused.
-/

namespace CommandConsole

namespace Line

/-! ## Items as they are typed -/

/-- A text without quotes and backslashes. -/
def Unquoted (cs : List Char) : Prop := ∀ c ∈ cs, c ≠ '\\' ∧ isQuote c = false

instance (cs : List Char) : Decidable (Unquoted cs) := List.decidableBAll _ cs

/-- A run of characters none of which ends a word. -/
structure Solid (w : List Char) : Prop where
  ne : w ≠ []
  goes_on : ∀ c ∈ w, endsWord c = false

/-- What stands behind a word: nothing, a blank or an angle bracket. -/
def Ended (cs : List Char) : Prop := ∀ c, cs.head? = some c → endsWord c = true

/-- **Items as they are typed** in a text without quotes and backslashes.  A word is a run that
nothing makes longer.  A redirect is an operator with a word behind it, blanks between them or
not; a `2` stands for itself unless it is typed right before an angle bracket.  An operator
without a word behind it is a word itself, with the angle brackets and `2`s that follow. -/
inductive Typed : List Char → List Item → Prop where
  | nothing : Typed [] []
  | blank {b : Char} {rest : List Char} {is : List Item} (h : Text.isBlank b = true)
      (later : Typed rest is) : Typed (b :: rest) is
  | word {w rest : List Char} {is : List Item} (solid : Solid w) (ends : Ended rest)
      (apart : w = ['2'] → rest.head? ≠ some '>') (later : Typed rest is) :
      Typed (w ++ rest) (.word (String.ofList w) :: is)
  | redirect {kind : RedirectKind} {between target rest : List Char} {is : List Item}
      (blank : ∀ b ∈ between, Text.isBlank b = true) (solid : Solid target) (ends : Ended rest)
      (later : Typed rest is) :
      Typed (kind.operator.toList ++ (between ++ (target ++ rest)))
        (.redirect ⟨kind, String.ofList target⟩ :: is)
  | unaimed {kind : RedirectKind} {behind run rest : List Char} {is : List Item}
      (text : run ++ rest = kind.operator.toList ++ behind)
      (longest : behind.head? = some '>' → kind.appends = true ∨ kind = .input)
      (nowhere : ∀ c, (Text.skipBlanks behind).head? = some c → c = '>' ∨ c = '<')
      (all : ∀ c ∈ run, isOperatorChar c = true)
      (whole : ∀ c, rest.head? = some c → isOperatorChar c = false) (later : Typed rest is) :
      Typed (run ++ rest) (.word (String.ofList run) :: is)

/-! ## What is typed is read -/

/-- A run that stops is found whole. -/
theorem span_append {α : Type} {p : α → Bool} {w rest : List α} (h : ∀ x ∈ w, p x = true)
    (stops : ∀ x, rest.head? = some x → p x = false) :
    (w ++ rest).takeWhile p = w ∧ (w ++ rest).dropWhile p = rest := by
  rw [List.takeWhile_append_of_pos h, List.dropWhile_append_of_pos h]
  cases rest with
  | nil => exact ⟨List.append_nil w, rfl⟩
  | cons x rest => simp [stops x rfl]

theorem Unquoted.of_append {a b : List Char} (h : Unquoted (a ++ b)) : Unquoted a ∧ Unquoted b :=
  ⟨fun c hc => h c (List.mem_append_left _ hc), fun c hc => h c (List.mem_append_right _ hc)⟩

/-- A run is scanned as one word. -/
theorem scanWord_solid {w rest : List Char} (solid : ∀ c ∈ w, endsWord c = false)
    (plain : Unquoted w) (ends : Ended rest) : scanWord (w ++ rest) = (w.map .bare, rest) := by
  induction w with
  | nil =>
      rw [List.nil_append, scanWord.eq_def]
      cases rest with
      | nil => rfl
      | cons c rest => exact if_pos (ends c rfl)
  | cons c w ih =>
      obtain ⟨hc, hq⟩ := plain c List.mem_cons_self
      rw [List.cons_append, scanWord_cons (solid c List.mem_cons_self), nextPiece_bare hc hq,
        ih (fun d hd => solid d (.tail _ hd)) fun d hd => plain d (.tail _ hd)]
      rfl

theorem Solid.exists_cons {w : List Char} (h : Solid w) :
    ∃ c r, w = c :: r ∧ Text.isBlank c = false ∧ c ≠ '>' ∧ c ≠ '<' := by
  obtain ⟨c, r, rfl⟩ := List.exists_cons_of_ne_nil h.ne
  refine ⟨c, r, rfl, ?_⟩
  simpa [endsWord, and_assoc] using h.goes_on c List.mem_cons_self

/-- An operator is found if it is the longest. -/
theorem redirectOperator?_longest {kind : RedirectKind} {behind : List Char}
    (longest : behind.head? = some '>' → kind.appends = true ∨ kind = .input) :
    redirectOperator? (kind.operator.toList ++ behind) = some (kind, behind) := by
  cases behind with
  | nil => cases kind <;> rfl
  | cons c r =>
      by_cases hc : c = '>'
      · subst hc
        rcases longest rfl with appends | rfl
        · cases kind <;> first | rfl | cases appends
        · rfl
      · cases kind <;> simp [RedirectKind.operator, redirectOperator?, hc]

/-- The operator that is found is the longest. -/
theorem longest_of_redirectOperator? {cs behind : List Char} {kind : RedirectKind}
    (h : redirectOperator? cs = some (kind, behind)) :
    behind.head? = some '>' → kind.appends = true ∨ kind = .input := by
  intro more
  obtain ⟨r, rfl⟩ : ∃ r, behind = '>' :: r := by
    cases behind with
    | nil => cases more
    | cons c r => exact ⟨r, congrArg (· :: r) (Option.some.inj more)⟩
  unfold redirectOperator? at h
  split at h <;> cases h <;> simp_all [RedirectKind.appends]

theorem operator_eq_cons (kind : RedirectKind) :
    ∃ c r, kind.operator.toList = c :: r ∧ Text.isBlank c = false := by
  cases kind <;> exact ⟨_, _, rfl, by decide⟩

/-- The run of operator characters that begins with an operator is not empty. -/
theorem run_ne_nil {kind : RedirectKind} {behind run rest : List Char}
    (text : run ++ rest = kind.operator.toList ++ behind)
    (whole : ∀ c, rest.head? = some c → isOperatorChar c = false) : run ≠ [] := by
  rintro rfl
  obtain ⟨c, o, hc, -⟩ := operator_eq_cons kind
  have sign : isOperatorChar c = true := operatorChar_of_mem_operator c (hc ▸ List.mem_cons_self)
  rw [hc, List.nil_append] at text
  have stops := whole c (by rw [text]; rfl)
  rw [sign] at stops
  cases stops

/-- A run is read as one word, if no operator begins with it. -/
theorem items_word {w rest : List Char} (solid : Solid w) (plain : Unquoted w) (ends : Ended rest)
    (apart : w = ['2'] → rest.head? ≠ some '>') :
    items (w ++ rest) = .word (String.ofList w) :: items rest := by
  have scanned := scanWord_solid solid.goes_on plain ends
  obtain ⟨c, r, rfl, blank, more, less⟩ := solid.exists_cons
  have no_operator : redirectOperator? (c :: (r ++ rest)) = none := by
    cases r with
    | nil =>
        by_cases two : c = '2'
        · subst two
          exact redirectOperator?_cons (by decide) (by decide) (apart rfl)
        · unfold redirectOperator?
          split <;> simp_all
    | cons d r =>
        have hd : d ≠ '>' := by
          rintro rfl
          exact absurd (solid.goes_on '>' (by simp)) (by decide)
        exact redirectOperator?_cons more less (by simpa using hd)
  rw [List.cons_append] at scanned ⊢
  rw [items_cons blank]
  simp only [nextItem, no_operator, scanned, wordOf_bare]

/-- What is typed is read. -/
theorem Typed.items_eq {cs : List Char} {is : List Item} (h : Typed cs is) (plain : Unquoted cs) :
    items cs = is := by
  induction h with
  | nothing => exact items_of_all fun _ hc => absurd hc List.not_mem_nil
  | @blank b rest is hb _ ih =>
      have gap := items_append_of_all (List.forall_mem_singleton.2 hb) rest
      exact gap.trans (ih fun c hc => plain c (.tail _ hc))
  | @word w rest is solid ends apart _ ih =>
      obtain ⟨hw, hr⟩ := plain.of_append
      rw [items_word solid hw ends apart, ih hr]
  | @redirect kind between target rest is hb solid ends _ ih =>
      obtain ⟨-, plain⟩ := plain.of_append
      obtain ⟨-, plain⟩ := plain.of_append
      obtain ⟨ht, hr⟩ := plain.of_append
      have scanned := scanWord_solid solid.goes_on ht ends
      obtain ⟨d, s, rfl, blank, more, less⟩ := solid.exists_cons
      rw [List.cons_append] at scanned ⊢
      have gap : Text.skipBlanks (between ++ d :: (s ++ rest)) = d :: (s ++ rest) := by
        rw [skipBlanks_append_of_all hb, skipBlanks_cons_of_not blank]
      have operator := @redirectOperator?_longest kind (between ++ d :: (s ++ rest)) (by
        intro first
        cases between with
        | nil => exact absurd (Option.some.inj first) more
        | cons b between =>
            cases first
            exact absurd (hb '>' List.mem_cons_self) (by decide))
      obtain ⟨c, o, hc, front⟩ := operator_eq_cons kind
      rw [hc, List.cons_append] at operator ⊢
      rw [items_cons front]
      simp only [nextItem, operator, gap, more, less, or_self, if_false, scanned, wordOf_bare, ih hr]
  | @unaimed kind behind run rest is text longest nowhere all whole _ ih =>
      obtain ⟨-, hr⟩ := plain.of_append
      have operator := redirectOperator?_longest longest
      rw [← text] at operator
      obtain ⟨c, o, hc, front⟩ := operator_eq_cons kind
      obtain ⟨e, run, rfl⟩ := List.exists_cons_of_ne_nil (run_ne_nil text whole)
      rw [hc] at text
      obtain rfl : e = c := (List.cons.inj text).1
      obtain ⟨taken, dropped⟩ := span_append (fun d hd => all d (.tail _ hd)) whole
      have read : nextItem e (run ++ rest) = nextItem.dangling e (run ++ rest) := by
        rw [List.cons_append] at operator
        simp only [nextItem, operator]
        split
        · rfl
        · rename_i d s target
          exact if_pos (nowhere d (by rw [target]; rfl))
      rw [List.cons_append, items_cons front, read]
      simp only [nextItem.dangling, taken, dropped, ih hr]

/-- A word is typed in front of a text that does not begin with an ending character. -/
theorem exists_solid {c : Char} {r : List Char} (h : endsWord c = false) :
    ∃ w rest, c :: r = w ++ rest ∧ Solid w ∧ Ended rest := by
  obtain ⟨w, rest, text, goes_on, stops⟩ := exists_run (fun d => !endsWord d) (c :: r)
  refine ⟨w, rest, text, ⟨?_, fun d hd => by simpa using goes_on d hd⟩,
    fun d hd => by simpa using stops d hd⟩
  rintro rfl
  have ends := stops c (by rw [← List.nil_append rest, ← text]; rfl)
  simp [h] at ends

/-- An item is typed in front of a text that does not begin with a blank. -/
theorem exists_item {c : Char} {r : List Char} (blank : Text.isBlank c = false) :
    ∃ front i rest, c :: r = front ++ rest ∧ front ≠ [] ∧
      ∀ is, Typed rest is → Typed (c :: r) (i :: is) := by
  cases operator : redirectOperator? (c :: r) with
  | none =>
      obtain ⟨more, less⟩ := redirectOperator?_eq_none operator
      have goes_on : endsWord c = false := by simp [endsWord, blank, more, less]
      obtain ⟨w, rest, text, solid, ends⟩ := exists_solid (r := r) goes_on
      rw [text] at operator ⊢
      refine ⟨w, _, rest, rfl, solid.ne, fun is later => .word solid ends ?_ later⟩
      rintro rfl angle
      obtain ⟨rest, rfl⟩ := List.head?_eq_some_iff.1 angle
      have found : redirectOperator? ('2' :: '>' :: rest) ≠ none := by
        unfold redirectOperator?
        split <;> simp_all
      exact found operator
  | some found =>
      obtain ⟨kind, behind⟩ := found
      have source := redirectOperator?_source operator
      obtain ⟨between, hb, gap⟩ := exists_blanks behind
      obtain ⟨o, os, sign, -⟩ := operator_eq_cons kind
      by_cases aimed : ∃ d s, Text.skipBlanks behind = d :: s ∧ d ≠ '>' ∧ d ≠ '<'
      · obtain ⟨d, s, target, more, less⟩ := aimed
        have goes_on : endsWord d = false := by
          simp [endsWord, Text.isBlank_head_skipBlanks target, more, less]
        obtain ⟨w, rest, text, solid, ends⟩ := exists_solid (r := s) goes_on
        rw [target, text] at gap
        rw [source, gap]
        refine ⟨kind.operator.toList ++ (between ++ w), _, rest, by simp, by simp [sign],
          fun is later => .redirect hb solid ends later⟩
      · obtain ⟨run, rest, text, all, whole⟩ := exists_run isOperatorChar (c :: r)
        rw [text] at source ⊢
        refine ⟨run, _, rest, rfl, run_ne_nil source whole, fun is later =>
          .unaimed source (longest_of_redirectOperator? operator) ?_ all whole later⟩
        intro d hd
        obtain ⟨s, target⟩ := List.head?_eq_some_iff.1 hd
        by_contra other
        rw [not_or] at other
        exact aimed ⟨d, s, target, other⟩

/-- Every text is typed as some row of items. -/
theorem exists_typed (cs : List Char) : ∃ is, Typed cs is := by
  match cs with
  | [] => exact ⟨[], .nothing⟩
  | c :: r =>
      by_cases blank : Text.isBlank c = true
      · obtain ⟨is, later⟩ := exists_typed r
        exact ⟨is, .blank blank later⟩
      · obtain ⟨front, i, rest, text, ne, typed⟩ :=
          exists_item (r := r) (Bool.eq_false_iff.2 blank)
        have shorter : rest.length < (c :: r).length := by
          have := List.length_pos_of_ne_nil ne
          rw [text, List.length_append]
          omega
        obtain ⟨is, later⟩ := exists_typed rest
        exact ⟨i :: is, typed is later⟩
termination_by cs.length
decreasing_by
  · exact Nat.lt_succ_self r.length
  · exact shorter

/-- **A text is typed as the row of items that is read**, and as no other. -/
theorem typed_iff {cs : List Char} (plain : Unquoted cs) {is : List Item} :
    Typed cs is ↔ is = items cs := by
  constructor
  · intro h
    exact (h.items_eq plain).symm
  · rintro rfl
    obtain ⟨is, typed⟩ := exists_typed cs
    rwa [typed.items_eq plain]

/-! ## Lines as they are typed -/

/-- In a text without quotes and backslashes every pipe cuts. -/
theorem splitPipes_of_unquoted {cs : List Char} (plain : Unquoted cs) :
    splitPipes cs = cs.splitOn '|' := by
  induction cs with
  | nil => rw [splitPipes_nil, List.splitOn_nil]
  | cons c r ih =>
      obtain ⟨hc, hq⟩ := plain c List.mem_cons_self
      rw [splitPipes_cons, nextPiece_bare hc hq, List.splitOn_cons_eq_if_modifyHead,
        ← ih fun d hd => plain d (.tail _ hd)]
      by_cases pipe : c = '|'
      · simp [pipe]
      · simp only [pipe, if_false, beq_iff_eq]
        rw [splitPipes_eq_segment_cons r]
        rfl

/-- **The rows that are typed** in a text, one between each two pipes. -/
def TypedRows (cs : List Char) (rows : List (List Item)) : Prop :=
  List.Forall₂ Typed (cs.splitOn '|') rows

theorem typedRows_iff {cs : List Char} (plain : Unquoted cs) {rows : List (List Item)} :
    TypedRows cs rows ↔ rows = (splitPipes cs).map items := by
  rw [TypedRows, splitPipes_of_unquoted plain]
  have plain : ∀ part ∈ cs.splitOn '|', Unquoted part :=
    fun part hp c hc => plain c (subset_of_mem_splitOn hp hc)
  generalize cs.splitOn '|' = parts at plain ⊢
  induction parts generalizing rows with
  | nil => simp
  | cons part parts ih =>
      cases rows with
      | nil => simp
      | cons row rows =>
          have later : List.Forall₂ Typed parts rows ↔ rows = parts.map items :=
            ih fun p hp => plain p (.tail _ hp)
          rw [List.forall₂_cons, typed_iff (plain part List.mem_cons_self), later, List.map_cons,
            List.cons.injEq]

/-- The stages of a row of rows have the redirects of the rows in which a word stands. -/
theorem redirects_stagesOf (rows : List (List Item)) :
    (rows.filterMap stageOfItems?).map Stage.redirects =
      (rows.filter fun row => plainWords row ≠ []).map redirectsOf := by
  induction rows with
  | nil => rfl
  | cons row rows ih =>
      cases words : plainWords row with
      | nil => simp [stageOfItems?, words, ih]
      | cons command args => simp [stageOfItems?, words, ih]

/-- A part of a list gives all that the list gives just if the rest gives nothing. -/
theorem flatMap_filter_eq_iff {α β : Type} {p : α → Bool} {f : α → List β} {l : List α} :
    (l.filter p).flatMap f = l.flatMap f ↔ ∀ x ∈ l, p x = false → f x = [] := by
  induction l with
  | nil => simp
  | cons x l ih =>
      by_cases hx : p x = true
      · simp [hx, ih]
      · rw [List.filter_cons_of_neg hx, List.flatMap_cons, List.forall_mem_cons, ← ih]
        refine ⟨fun same => ?_, fun ⟨nothing, same⟩ => ?_⟩
        · have shorter := ((List.filter_sublist : (l.filter p).Sublist l).flatMap f).length_le
          rw [same, List.length_append] at shorter
          have nothing : f x = [] := List.length_eq_zero_iff.1 (by omega)
          rw [nothing] at same
          exact ⟨fun _ => nothing, same⟩
        · rw [nothing (Bool.eq_false_iff.2 hx), same, List.nil_append]

/-- The text of a line without its background mark. -/
def body (text : String) : List Char := (stripBackground text.toList).1

theorem stages_parse (text : String) :
    (parse text).stages = ((splitPipes (body text)).map items).filterMap stageOfItems? := by
  rw [List.filterMap_map]
  rfl

/-- In a blank line no redirect stands. -/
theorem redirectsOf_of_isAllBlank {text : String} (h : Text.isAllBlank text = true) :
    ∀ row ∈ (splitPipes (body text)).map items, redirectsOf row = [] := by
  have no_items : items [] = [] := items_of_all fun _ hc => absurd hc List.not_mem_nil
  intro row hr
  rw [body, stripBackground_of_isAllBlank h, splitPipes_nil, List.map_singleton, no_items,
    List.mem_singleton] at hr
  rw [hr]
  rfl

/-- A line has a stage just if a word stands somewhere in it. -/
theorem stages_eq_nil_iff {rows : List (List Item)} :
    rows.filterMap stageOfItems? = [] ↔ ∀ row ∈ rows, plainWords row = [] := by
  rw [List.filterMap_eq_nil_iff]
  refine forall₂_congr fun row _ => ?_
  cases words : plainWords row with
  | nil => simp [stageOfItems?, words]
  | cons command args => simp [stageOfItems?, words]

end Line

namespace Console
variable {setup : Setup} {console : Console} {raw : String}

/-! ## Executing a line without a word -/

/-- Executing a line without a stage that is not blank. -/
theorem execute_of_nothing (nothing : (console.lineOf raw).first? = none)
    (visible : Text.isAllBlank (expandAlias console.context raw) = false) :
    execute setup console raw = (do
      let begun ← Activity.now
      let ended ← Activity.now
      let o := (Outcome.ofFault (noCommand (expandAlias console.context raw))).lasting
        (ended - begun)
      Activity.instant
        (.appendHistory (entryFor setup raw "" [] console.context.workingDirectory o))
      pure (o, console)) := by
  rw [lineOf] at nothing
  simp only [execute, nothing, visible]
  rfl

/-- **A line without a word is refused**, and nothing but the clock and the history is asked. -/
theorem refused_of_nothing (nothing : (console.lineOf raw).first? = none)
    (visible : Text.isAllBlank (expandAlias console.context raw) = false) {d : Dialogue}
    {r : Except String (Outcome × Console)} (h : (execute setup console raw).Ends d r) :
    ∃ begun ended e, d = [⟨.instant .now, begun⟩, ⟨.instant .now, ended⟩,
        ⟨.instant (.appendHistory e), ()⟩] ∧
      r = .ok ((Outcome.ofFault (noCommand (expandAlias console.context raw))).lasting
        (ended - begun), console) := by
  rw [execute_of_nothing nothing visible] at h
  obtain ⟨begun, d₁, rfl, h₁⟩ := Activity.ends_query_bind_iff.1 h
  obtain ⟨ended, d₂, rfl, h₂⟩ := Activity.ends_query_bind_iff.1 h₁
  obtain ⟨-, d₃, rfl, h₃⟩ := Activity.ends_query_bind_iff.1 h₂
  obtain ⟨rfl, rfl⟩ := Activity.ends_pure_iff.1 h₃
  exact ⟨begun, ended, _, rfl, rfl⟩

/-! ## Which redirects are kept -/

/-- **A redirect is kept just if a word stands beside it.**  A line whose text, with its alias
expanded and without its background mark, holds no quotes and no backslashes is typed as one
row of items between each two pipes, in one way only.  The line that is read has the redirects
of the rows in which a word stands, each on its stage and in order, so it has all that were
typed just if none was typed in a row without a word.  If a word stands in any row, this line
is carried out.  If there is none, and a redirect was typed, the line is refused with the fault
of a line without a command, and nothing but the clock and the history is asked. -/
theorem redirects_beside_a_word_are_kept (setup : Setup) (console : Console) (raw : String)
    (plain : Line.Unquoted (Line.body (expandAlias console.context raw))) :
    let expanded := expandAlias console.context raw
    let l := console.lineOf raw
    ∃ rows, Line.TypedRows (Line.body expanded) rows ∧
      (∀ others, Line.TypedRows (Line.body expanded) others → others = rows) ∧
      l.stages.map Stage.redirects =
        (rows.filter fun row => Line.plainWords row ≠ []).map Line.redirectsOf ∧
      (l.stages.flatMap Stage.redirects = rows.flatMap Line.redirectsOf ↔
        ∀ row ∈ rows, Line.plainWords row = [] → Line.redirectsOf row = []) ∧
      ((∃ row ∈ rows, Line.plainWords row ≠ []) → ∃ first, l.first? = some first ∧
        ∀ d r, (execute setup console raw).Ends d r → ∃ o after e, r = .ok (o, after) ∧
          Recorded setup console raw e o after d) ∧
      ((∀ row ∈ rows, Line.plainWords row = []) → (∃ row ∈ rows, Line.redirectsOf row ≠ []) →
        ∀ d r, (execute setup console raw).Ends d r → ∃ begun ended e,
          d = [⟨.instant .now, begun⟩, ⟨.instant .now, ended⟩,
            ⟨.instant (.appendHistory e), ()⟩] ∧
          r = .ok ((Outcome.ofFault (noCommand expanded)).lasting (ended - begun), console)) := by
  intro expanded l
  have read : l.stages = ((Line.splitPipes (Line.body expanded)).map Line.items).filterMap
      Line.stageOfItems? := Line.stages_parse expanded
  have typed {rows} : Line.TypedRows (Line.body expanded) rows ↔
      rows = (Line.splitPipes (Line.body expanded)).map Line.items := Line.typedRows_iff plain
  have blank : Text.isAllBlank expanded = true →
      ∀ row ∈ (Line.splitPipes (Line.body expanded)).map Line.items, Line.redirectsOf row = [] :=
    Line.redirectsOf_of_isAllBlank
  generalize (Line.splitPipes (Line.body expanded)).map Line.items = rows at read typed blank
  have kept : l.stages.map Stage.redirects =
      (rows.filter fun row => Line.plainWords row ≠ []).map Line.redirectsOf := by
    rw [read, Line.redirects_stagesOf]
  refine ⟨rows, typed.2 rfl, fun others h => typed.1 h, kept, ?_, ?_, ?_⟩
  · rw [List.flatMap_def, kept, ← List.flatMap_def, Line.flatMap_filter_eq_iff]
    simp
  · rintro ⟨row, hr, word⟩
    have some_stage : l.stages ≠ [] := by
      rw [read, Ne, Line.stages_eq_nil_iff]
      intro wordless
      exact word (wordless row hr)
    obtain ⟨first, others, stages⟩ := List.exists_cons_of_ne_nil some_stage
    have present : l.first? = some first := by
      rw [Line.first?, stages]
      rfl
    refine ⟨first, present, fun d r h => ?_⟩
    obtain ⟨o, after, rfl, e, -, recorded⟩ := recorded_of_first present h
    exact ⟨o, after, e, rfl, recorded⟩
  · rintro wordless ⟨row, hr, some_redirect⟩ d r h
    have nothing : l.first? = none := by
      rw [Line.first?, read, Line.stages_eq_nil_iff.2 wordless]
      rfl
    have visible : Text.isAllBlank expanded = false :=
      Bool.eq_false_iff.2 fun h => some_redirect (blank h row hr)
    exact refused_of_nothing nothing visible h

/-- Redirects without blanks around them, a `2` that is a target, and a row without a word. -/
theorem redirects_beside_cat_are_kept :
    let raw := "<a2>b cat 2>> c| > f"
    Line.TypedRows (Line.body raw)
        [[.redirect ⟨.input, "a2"⟩, .redirect ⟨.outTruncate, "b"⟩, .word "cat",
          .redirect ⟨.errAppend, "c"⟩], [.redirect ⟨.outTruncate, "f"⟩]] ∧
      (inB.lineOf raw).stages.map Stage.redirects =
        [[⟨.input, "a2"⟩, ⟨.outTruncate, "b"⟩, ⟨.errAppend, "c"⟩]] := by
  intro raw
  have plain : Line.Unquoted (Line.body (expandAlias inB.context raw)) := by decide
  obtain ⟨rows, typed, -, kept, -⟩ :=
    redirects_beside_a_word_are_kept (setupWith .terse .empty []) inB raw plain
  have read : rows = [[.redirect ⟨.input, "a2"⟩, .redirect ⟨.outTruncate, "b"⟩, .word "cat",
      .redirect ⟨.errAppend, "c"⟩], [.redirect ⟨.outTruncate, "f"⟩]] :=
    ((Line.typedRows_iff plain).1 typed).trans (by decide +kernel)
  subst read
  exact ⟨typed, kept⟩

/-- Before a pipe with a command behind it a redirect is lost: the line is read as the command
alone, which succeeds, and no file is written. -/
theorem redirect_without_a_word_is_lost :
    let raw := "> f | echo hi"
    Line.Unquoted (Line.body (expandAlias inB.context raw)) ∧
      Line.TypedRows (Line.body (expandAlias inB.context raw))
        [[.redirect ⟨.outTruncate, "f"⟩], [.word "echo", .word "hi"]] ∧
      inB.lineOf raw = ⟨[⟨"echo", ["hi"], []⟩], false⟩ ∧
      ∃ d o after, (execute (setupWith .terse .empty []) inB raw).Ends d (.ok (o, after)) ∧
        o.success = true ∧ o.output = "hi" ∧ d.calls = [] := by
  intro raw
  have plain : Line.Unquoted (Line.body (expandAlias inB.context raw)) := by decide
  have parsed : inB.lineOf raw = .printing := by decide +kernel
  have ends : ∃ d o after, o.success = true ∧ o.output = "hi" ∧ d.calls = [] ∧
      (execute (setupWith .terse .empty []) inB raw).Ends d (.ok (o, after)) := by
    rw [execute_of_first parsed rfl]
    refine ⟨[⟨.instant .now, (0 : Nat)⟩, ⟨.instant .now, (0 : Nat)⟩, ⟨.instant .cancelled, false⟩,
      ⟨.instant .now, (0 : Nat)⟩, ⟨.instant .now, (0 : Nat)⟩, ⟨.instant (.appendHistory _), ()⟩],
      _, _, ?_, ?_, ?_, .asks (.asks (.asks (.asks (.asks (.asks (.here _))))))⟩ <;> rfl
  obtain ⟨d, o, after, success, printed, silent, h⟩ := ends
  exact ⟨plain, (Line.typedRows_iff plain).2 (by decide +kernel), parsed, d, o, after, h, success,
    printed, silent⟩

end Console

end CommandConsole
