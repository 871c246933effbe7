import CommandConsole.Proofs.Listings
import CommandConsole.Proofs.TypedRedirects

/-!
# The word that an alias stands for

Two scanners look at the first word of a line.  The one that expands an alias takes all
characters up to the first blank.  The one that reads a stage stops at a pipe and at an angle
bracket as well, and a mark at the end of the line is no part of the word.  So an alias is
expanded where a blank or nothing stands behind its name, and not where another sign does
that ends the command (`Console.alias_ends_at_blank`).
-/

namespace CommandConsole

open Activity hiding bind_assoc

/-! ## The names of aliases -/

/-- **The command `alias` defines a name** for an expansion, in some invocation. -/
def Commands.Defines (name expansion : String) : Prop :=
  ∃ i d p, (defineAlias.body i).Ends d (.ok (.ok p)) ∧ Change.setAlias name expansion ∈ p.changes

theorem Commands.Defines.isName {name expansion : String} (h : Defines name expansion) :
    isName name = true := by
  obtain ⟨i, d, p, ends, told⟩ := h
  cases (asked_defineAlias i).ends ends p rfl _ told with
  | setAlias named => exact named

namespace Line

/-! ## What ends the command -/

/-- **What ends a bare word**: the end of the line, a blank, a pipe, an angle bracket, or a mark
at the end of the line. -/
inductive EndsBare : List Char → Prop where
  | nothing : EndsBare []
  | sign {c : Char} {r : List Char} (h : endsWord c = true ∨ c = '|') : EndsBare (c :: r)
  | mark {blanks : List Char} (h : ∀ b ∈ blanks, Text.isBlank b = true) : EndsBare ('&' :: blanks)

/-- Behind what is closed, a line keeps the front of the rest. -/
theorem Closed.exists_kept {front : List Char} (h : Closed front) (rest : List Char) :
    ∃ kept, kept <+: rest ∧ (stripBackground (front ++ rest)).1 = front ++ kept := by
  obtain ⟨removed, stripped⟩ := exists_stripped (front ++ rest)
  obtain ⟨start, c, rfl, solid, mark⟩ := h
  rcases List.append_eq_append_iff.1 stripped.text_eq with
    ⟨kept, whole, parts⟩ | ⟨inside, cut, taken⟩
  · exact ⟨kept, ⟨removed, parts.symm⟩, whole⟩
  -- what is taken off holds blanks and a mark only, so it does not reach the last character
  · rcases List.eq_nil_or_concat inside with rfl | ⟨before, d, rfl⟩
    · rw [List.append_nil] at cut
      exact ⟨[], List.nil_prefix, by rw [List.append_nil, ← cut]⟩
    · rw [List.concat_eq_append, ← List.append_assoc] at cut
      obtain rfl := List.singleton_inj.1 (List.append_inj' cut rfl).2
      rcases stripped.blank_or_mark c (by simp [taken]) with blank | rfl
      · exact absurd blank (Bool.eq_false_iff.1 solid)
      · exact absurd rfl mark

/-- A mark behind what is closed is no part of the line. -/
theorem Closed.stripBackground_mark {front blanks : List Char} (h : Closed front)
    (hb : ∀ b ∈ blanks, Text.isBlank b = true) (bare : front.getLast? ≠ some '\\') :
    stripBackground (front ++ '&' :: blanks) = (front, true) := by
  have marked : Stripped (front ++ '&' :: blanks) front true ([] ++ '&' :: blanks) :=
    .marked rfl (stripped_text (.inr h)).solid (List.forall_mem_nil _) hb
      (by rw [List.append_nil]; exact backslashes_eq_zero_iff.2 bare)
  exact marked.eq

/-- **What ends a bare word is found behind it**, or nothing is. -/
theorem EndsBare.exists_kept {front rest : List Char} (h : Closed front)
    (bare : front.getLast? ≠ some '\\') (ends : EndsBare rest) :
    ∃ kept, (stripBackground (front ++ rest)).1 = front ++ kept ∧
      ∀ c, kept.head? = some c → endsWord c = true ∨ c = '|' := by
  cases ends with
  | nothing =>
      refine ⟨[], ?_, fun c hc => by cases hc⟩
      rw [List.append_nil, stripBackground_text (.inr h)]
  | mark blanks =>
      refine ⟨[], ?_, fun c hc => by cases hc⟩
      rw [h.stripBackground_mark blanks bare, List.append_nil]
  | @sign c r sign =>
      obtain ⟨kept, prefixed, he⟩ := h.exists_kept (c :: r)
      refine ⟨kept, he, fun d hd => ?_⟩
      obtain ⟨later, rfl⟩ := List.head?_eq_some_iff.1 hd
      rwa [← (List.cons_prefix_cons.1 prefixed).1] at sign

theorem ordinary_of_endsWord {c : Char} (h : endsWord c = true) : c ≠ '\\' ∧ isQuote c = false := by
  simp only [endsWord, Bool.or_eq_true, beq_iff_eq] at h
  rcases h with (blank | rfl) | rfl
  · exact ordinary_of_blank blank
  · decide
  · decide

/-- A segment that begins where a bare word ends does not go on with the word. -/
theorem ended_segment {kept : List Char}
    (h : ∀ c, kept.head? = some c → endsWord c = true ∨ c = '|') : Ended (segment kept) := by
  cases kept with
  | nil =>
      rw [segment, splitPipes_nil]
      exact fun c hc => by cases hc
  | cons c r =>
      by_cases pipe : c = '|'
      · rw [segment, splitPipes_cons, if_pos pipe]
        exact fun c hc => by cases hc
      · have ends := (h c rfl).resolve_right pipe
        obtain ⟨hc, hq⟩ := ordinary_of_endsWord ends
        rw [segment_cons pipe, nextPiece_bare hc hq]
        intro d hd
        cases hd
        exact ends

theorem unquoted_of_isName {name : String} (named : isName name = true) :
    Unquoted name.toList := by
  intro c hc
  have ordinary := ordinary_of_isName named c hc
  exact ⟨ordinary.2, (needsQuotes_eq_false ordinary.1).2.2.2.2.2⟩

theorem solid_of_isName {name : String} (named : isName name = true) : Solid name.toList := by
  refine ⟨?_, fun c hc => ?_⟩
  · obtain ⟨c, r, chars⟩ := exists_of_isName named
    simp [chars]
  · obtain ⟨blank, -, more, less, -⟩ := needsQuotes_eq_false (ordinary_of_isName named c hc).1
    simp [endsWord, blank, more, less]

/-- **A name is read as the command of its line**, whatever ends it. -/
theorem first_of_name {name : String} (named : isName name = true) {blanks rest : List Char}
    (hb : ∀ b ∈ blanks, Text.isBlank b = true) (ends : EndsBare rest) :
    ∃ first, (ofChars (blanks ++ (name.toList ++ rest))).first? = some first ∧
      first.command = name := by
  have solid := solid_of_isName named
  have plain := unquoted_of_isName named
  have word := WordText.bare solid.ne (ordinary_of_isName named)
  have closed : Closed (blanks ++ name.toList) := word.closed.append blanks
  have bare : (blanks ++ name.toList).getLast? ≠ some '\\' := by
    rw [List.getLast?_append_of_ne_nil _ solid.ne]
    exact fun he => (plain _ (List.mem_of_getLast? he)).1 rfl
  have uncut : Uncut (blanks ++ name.toList) := by
    refine Uncut.append (uncut_of_ordinary fun b hm => ⟨?_, ordinary_of_blank (hb b hm)⟩) word.uncut
    rintro rfl
    exact absurd (hb '|' hm) (by decide)
  have apart : name.toList ≠ ['2'] := by
    intro two
    rw [isName, two] at named
    cases named
  obtain ⟨kept, body, stops⟩ := ends.exists_kept closed bare
  have read : items (segment (blanks ++ name.toList ++ kept)) =
      .word name :: items (segment kept) := by
    rw [segment_append uncut, List.append_assoc, items_append_of_all hb,
      items_word solid plain (ended_segment stops) fun two => absurd two apart,
      String.ofList_toList]
  obtain ⟨first, stage, command⟩ : ∃ first,
      stage? (segment (blanks ++ name.toList ++ kept)) = some first ∧ first.command = name := by
    rw [stage?, read]
    exact ⟨_, rfl, rfl⟩
  refine ⟨first, ?_, command⟩
  rw [ofChars, ← List.append_assoc, body, splitPipes_eq_segment_cons, List.filterMap_cons, stage]
  rfl

end Line

namespace Console

/-! ## What an alias is expanded to -/

/-- Executes a submitted line as the text it is expanded to. -/
def executeAs (setup : Setup) (console : Console) (raw expanded : String) :
    Activity (Outcome × Console) := do
  let begun ← Activity.now
  match (Line.parse expanded).first? with
  | none =>
    if Text.isAllBlank expanded then pure (.ok "", console)
    else
      let ended ← Activity.now
      let o := (Outcome.ofFault (noCommand expanded)).lasting (ended - begun)
      Activity.instant
        (.appendHistory (entryFor setup raw "" [] console.context.workingDirectory o))
      pure (o, console)
  | some first =>
    let (command, args) := Pipeline.resolveName setup.commands first
    let (o, after) ← dispatch setup console (Line.parse expanded) command args
    record setup console raw first begun o after

theorem execute_eq_executeAs (setup : Setup) (console : Console) (raw : String) :
    execute setup console raw = executeAs setup console raw (expandAlias console.context raw) := rfl

/-- The word that is looked up goes as far as the first blank. -/
theorem expandAlias_of_name (c : Context) {name : String} (named : isName name = true)
    {blanks : List Char} (hb : ∀ b ∈ blanks, Text.isBlank b = true) {glued rest : List Char}
    (solid : ∀ c ∈ glued, Text.isBlank c = false)
    (stops : Line.Pauses rest) :
    expandAlias c (String.ofList (blanks ++ (name.toList ++ (glued ++ rest)))) =
      match c.aliases.get? (name ++ String.ofList glued) with
      | some expansion => expansion ++ String.ofList rest
      | none => String.ofList (blanks ++ (name.toList ++ (glued ++ rest))) := by
  obtain ⟨first, others, chars⟩ := Line.exists_of_isName named
  have unbroken : ∀ c ∈ name.toList, Text.isBlank c = false := fun c hc =>
    (Line.needsQuotes_eq_false (Line.ordinary_of_isName named c hc).1).1
  have trimmed : Text.skipBlanks (blanks ++ (name.toList ++ (glued ++ rest))) =
      name.toList ++ glued ++ rest := by
    rw [Line.skipBlanks_append_of_all hb, chars, List.cons_append,
      Line.skipBlanks_cons_of_not (unbroken first (chars ▸ List.mem_cons_self))]
    simp
  have head : (name.toList ++ glued ++ rest).takeWhile (fun ch => !Text.isBlank ch) =
      name.toList ++ glued := by
    refine (Line.span_append (fun c hc => ?_) fun c hc => by simp [stops c hc]).1
    rcases List.mem_append.1 hc with hc | hc
    · simp [unbroken c hc]
    · simp [solid c hc]
  have word : String.ofList (name.toList ++ glued) = name ++ String.ofList glued := by
    rw [String.ofList_append, String.ofList_toList]
  cases known : c.aliases.get? (name ++ String.ofList glued) with
  | none => simp only [expandAlias, String.toList_ofList, trimmed, head, word, known]
  | some expansion =>
      simp only [expandAlias, String.toList_ofList, trimmed, head, List.drop_left, word, known]

/-- What ends a bare word and is no blank does not stand in a name. -/
theorem not_isName_append {name : String} {c : Char} {rest : List Char}
    (ends : Line.EndsBare (c :: rest)) (solid : Text.isBlank c = false) (r : List Char) :
    isName (name ++ String.ofList (c :: r)) = false := by
  refine Bool.eq_false_iff.2 fun named => ?_
  have letter := Line.nameChar_of_isName named c (by simp)
  have sign : c = '>' ∨ c = '<' ∨ c = '|' ∨ c = '&' := by
    cases ends with
    | sign h =>
        have sign : c = '>' ∨ c = '<' ∨ c = '|' := by simpa [Line.endsWord, solid, or_assoc] using h
        exact sign.imp_right (·.imp_right .inl)
    | mark => simp
  rcases sign with rfl | rfl | rfl | rfl <;> exact absurd letter (by decide)

/-- **An alias ends at a blank.**  Whatever ends the word behind the name of an alias, the line
is read with the name as its command.  If a blank or nothing stands right behind the name, it is
executed with the expansion in the place of the name.  Otherwise the word that is looked up is
longer, by what stands before the next blank.  No alias has such a name that the command `alias`
defines, and without one the line is executed as it was typed. -/
theorem alias_ends_at_blank (setup : Setup) (console : Console) {name expansion : String}
    (told : Commands.Defines name expansion)
    (defined : console.context.aliases.get? name = some expansion) {blanks rest : List Char}
    (hb : ∀ b ∈ blanks, Text.isBlank b = true) (ends : Line.EndsBare rest) :
    let raw := String.ofList (blanks ++ (name.toList ++ rest))
    let glued := String.ofList (rest.takeWhile fun c => !Text.isBlank c)
    (∃ first, (Line.parse raw).first? = some first ∧ first.command = name) ∧
    (glued = "" → execute setup console raw =
      executeAs setup console raw (expansion ++ String.ofList rest)) ∧
    (glued ≠ "" → (∀ other, ¬ Commands.Defines (name ++ glued) other) ∧
      (console.context.aliases.get? (name ++ glued) = none →
        execute setup console raw = executeAs setup console raw raw)) := by
  intro raw glued
  have named := told.isName
  have solid : ∀ c ∈ rest.takeWhile (fun c => !Text.isBlank c), Text.isBlank c = false :=
    fun c hc => by simpa using List.mem_takeWhile_imp hc
  have stops : Line.Pauses (rest.dropWhile fun c => !Text.isBlank c) := fun c hc => by
    have stopped := List.head?_dropWhile_not (fun c => !Text.isBlank c) rest
    rw [hc] at stopped
    simpa using stopped
  have looked_up := expandAlias_of_name console.context named hb solid stops
  rw [List.takeWhile_append_dropWhile] at looked_up
  refine ⟨?_, fun nothing => ?_, fun longer => ⟨fun other told => ?_, fun unknown => ?_⟩⟩
  · obtain ⟨first, present, command⟩ := Line.first_of_name named hb ends
    refine ⟨first, ?_, command⟩
    rwa [Line.parse, String.toList_ofList]
  · have whole : rest.dropWhile (fun c => !Text.isBlank c) = rest := by
      have parts := List.takeWhile_append_dropWhile (p := fun c => !Text.isBlank c) (l := rest)
      rwa [String.ofList_eq_empty_iff.1 nothing, List.nil_append] at parts
    have word : name ++ glued = name := by rw [nothing, String.append_empty]
    rw [execute_eq_executeAs, looked_up, word, defined, whole]
  · cases rest with
    | nil => exact longer rfl
    | cons c r =>
        have visible : Text.isBlank c = false := by
          refine Bool.eq_false_iff.2 fun blank => longer ?_
          simp [glued, blank]
        have begins : glued = String.ofList (c :: r.takeWhile fun c => !Text.isBlank c) := by
          simp [glued, visible]
        rw [begins] at told
        cases told.isName.symm.trans (not_isName_append ends visible _)
  · rw [execute_eq_executeAs, looked_up, unknown]

/-- A console that knows an alias. -/
def greeting : Console :=
  { inB with context := inB.context.apply (.setAlias "greet" "echo hi") }

theorem defines_greet : Commands.Defines "greet" "echo hi" := by
  let i : Invocation :=
    ⟨"alias", ["greet=echo hi"], none, inB.context, CommandSet.standard.descriptions⟩
  have told : Commands.defineAlias.body i =
      Work.print (.changing [.setAlias "greet" (Text.trim "echo hi")]) :=
    Commands.alias_assignment (by decide) (by decide) i rfl
  have trimmed : Text.trim "echo hi" = "echo hi" := by decide
  rw [trimmed] at told
  refine ⟨i, [], .changing [.setAlias "greet" "echo hi"], ?_, List.mem_singleton_self _⟩
  rw [told]
  exact .here _

/-- Before a blank the alias is expanded. -/
theorem greeting_before_blank :
    let raw := String.ofList ([' '] ++ ("greet".toList ++ " | wc".toList))
    raw = " greet | wc" ∧
      execute (setupWith .terse .empty []) greeting raw =
        executeAs (setupWith .terse .empty []) greeting raw "echo hi | wc" := by
  intro raw
  have ends : Line.EndsBare " | wc".toList := .sign (.inl (by decide))
  obtain ⟨-, expanded, -⟩ := alias_ends_at_blank (setupWith .terse .empty []) greeting
    defines_greet (by decide) Line.blank_space ends
  exact ⟨by decide, expanded (by decide)⟩

/-- Before a pipe it is not: the pipeline stops where the expanded line would go on. -/
theorem greeting_before_pipe :
    Commands.Defines "greet" "echo hi" ∧
      greeting.context.aliases.get? "greet" = some "echo hi" ∧
      Line.EndsBare "|wc".toList ∧
      execute (setupWith .terse .empty []) greeting ("greet" ++ "|wc") ≠
        executeAs (setupWith .terse .empty []) greeting ("greet" ++ "|wc") ("echo hi" ++ "|wc") := by
  refine ⟨defines_greet, by decide, .sign (.inr rfl), fun same => ?_⟩
  have typed : greeting.lineOf ("greet" ++ "|wc") =
      ⟨[⟨"greet", [], []⟩, ⟨"wc", [], []⟩], false⟩ := by decide +kernel
  have meant : Line.parse ("echo hi" ++ "|wc") =
      ⟨[⟨"echo", ["hi"], []⟩, ⟨"wc", [], []⟩], false⟩ := by decide +kernel
  have ends : ∃ e r, (execute (setupWith .terse .empty []) greeting ("greet" ++ "|wc")).Ends
      [⟨.instant .now, (0 : Nat)⟩, ⟨.instant .now, (0 : Nat)⟩, ⟨.instant .cancelled, false⟩,
        ⟨.instant .now, (0 : Nat)⟩, ⟨.instant .now, (0 : Nat)⟩,
        ⟨.instant (.appendHistory e), ()⟩] r := by
    rw [execute_of_first typed rfl]
    exact ⟨_, .ok _, .asks (.asks (.asks (.asks (.asks (.asks (.here _))))))⟩
  obtain ⟨e, r, ends⟩ := ends
  rw [same] at ends
  simp only [executeAs, meant] at ends
  -- behind the first stage the pipe asks once more whether it is called off
  cases ends with
  | asks ends =>
    cases ends with
    | asks ends =>
      cases ends with
      | asks ends => cases ends

end Console

end CommandConsole
