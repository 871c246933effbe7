import Mathlib
import CommandConsole.Proofs.BuiltinChanges
import CommandConsole.Proofs.EscapedValues

/-!
# Typing a listing again

`export` and `alias` list what is set as lines that would set it.  Such a line is a command
and an assignment, `NAME=` and the value as `escapeValue` shows it.  Read again it is one
stage with the assignment for its only argument, if the value comes back
(`Line.parse_assignment`), and executing it then sets the same value.
-/

namespace CommandConsole

namespace Line

/-! ## Reading an assignment -/

theorem Spells.firstWord {text word : List Char} (h : Spells text word) (rest : List Char) :
    firstWord (text ++ rest) = word ++ firstWord rest := by
  obtain ⟨pieces, rfl, scanned⟩ := h.scanned
  rw [Line.firstWord, segment_append h.uncut, scanned, List.flatMap_append]
  rfl

/-- Letters, digits and the underscore, by number. -/
theorem toNat_of_nameChar {c : Char} (h : (c.isAlphanum || c == '_') = true) :
    (48 ≤ c.toNat ∧ c.toNat ≤ 57) ∨ (65 ≤ c.toNat ∧ c.toNat ≤ 90) ∨ c.toNat = 95 ∨
      (97 ≤ c.toNat ∧ c.toNat ≤ 122) := by
  simp only [Char.isAlphanum, Char.isAlpha, Char.isUpper, Char.isLower, Char.isDigit,
    Bool.or_eq_true, Bool.and_eq_true, decide_eq_true_eq, beq_iff_eq, ge_iff_le,
    UInt32.le_iff_toNat_le] at h
  rcases h with ((⟨h₁, h₂⟩ | ⟨h₁, h₂⟩) | ⟨h₁, h₂⟩) | rfl
  · exact .inr (.inl ⟨h₁, h₂⟩)
  · exact .inr (.inr (.inr ⟨h₁, h₂⟩))
  · exact .inl ⟨h₁, h₂⟩
  · exact .inr (.inr (.inl rfl))

theorem ordinary_of_nameChar {c : Char} (h : (c.isAlphanum || c == '_') = true) :
    needsQuotes c = false ∧ c ≠ '\\' := by
  have number := toNat_of_nameChar h
  have other {d : Char} (hd : ¬ ((48 ≤ d.toNat ∧ d.toNat ≤ 57) ∨ (65 ≤ d.toNat ∧ d.toNat ≤ 90) ∨
      d.toNat = 95 ∨ (97 ≤ d.toNat ∧ d.toNat ≤ 122))) : c ≠ d := fun he => hd (he ▸ number)
  have blank : Text.isBlank c = false := by
    simp only [Text.isBlank, Bool.or_eq_false_iff, Bool.and_eq_false_iff, beq_eq_false_iff_ne,
      decide_eq_false_iff_not]
    omega
  refine ⟨?_, other (by decide)⟩
  simp only [needsQuotes, Bool.or_eq_false_iff, beq_eq_false_iff_ne]
  exact ⟨⟨⟨⟨⟨⟨blank, other (by decide)⟩, other (by decide)⟩, other (by decide)⟩,
    other (by decide)⟩, other (by decide)⟩, other (by decide)⟩

theorem nameChar_of_isName {name : String} (h : isName name = true) :
    ∀ c ∈ name.toList, (c.isAlphanum || c == '_') = true := by
  intro c hc
  unfold isName at h
  split at h
  · cases h
  · rename_i first rest he
    rw [he] at hc
    simp only [Bool.and_eq_true, Bool.or_eq_true, List.all_eq_true] at h ⊢
    rcases List.mem_cons.1 hc with rfl | hc
    · exact h.1.imp_left fun ha => by simp [Char.isAlphanum, ha]
    · exact h.2 c hc

/-- The characters of a name are ordinary ones. -/
theorem ordinary_of_isName {name : String} (h : isName name = true) :
    ∀ c ∈ name.toList, needsQuotes c = false ∧ c ≠ '\\' :=
  fun c hc => ordinary_of_nameChar (nameChar_of_isName h c hc)

theorem exists_of_isName {name : String} (h : isName name = true) :
    ∃ c r, name.toList = c :: r := by
  cases hn : name.toList with
  | nil => simp [isName, hn] at h
  | cons c r => exact ⟨c, r, rfl⟩

/-- What is typed behind the command. -/
def assignmentText (name value : String) : List Char :=
  name.toList ++ '=' :: (escapeValue value).toList

variable {name : String}

theorem spells_name (h : isName name = true) :
    Spells (name.toList ++ ['=']) (name.toList ++ ['=']) := by
  refine spells_bare_text fun c hc => ?_
  rcases List.mem_append.1 hc with hc | hc
  · exact ordinary_of_isName h c hc
  · rw [List.mem_singleton.1 hc]
    decide

theorem spells_assignmentText (h : isName name = true) {value : String}
    (hv : ProtectsNothing value.toList) :
    Spells (assignmentText name value) (name.toList ++ '=' :: value.toList) := by
  have both := (spells_name h).append (spells_escapeValue hv)
  rwa [List.append_assoc, List.append_assoc] at both

/-- The item in front of a segment that begins with a name and an equals sign is a word. -/
theorem items_of_name (h : isName name = true) (rest : List Char) :
    ∃ later, items (name.toList ++ '=' :: rest) =
      .word (wordOf (scanWord (name.toList ++ '=' :: rest)).1) :: later ∧
      later = items (scanWord (name.toList ++ '=' :: rest)).2 := by
  obtain ⟨c, r, hr⟩ := exists_of_isName h
  have ordinary := ordinary_of_isName h
  rw [hr] at ordinary ⊢
  obtain ⟨blank, -, more, less, -⟩ := needsQuotes_eq_false (ordinary c List.mem_cons_self).1
  have no_operator : redirectOperator? (c :: (r ++ '=' :: rest)) = none := by
    refine redirectOperator?_cons more less ?_
    cases r with
    | nil => simp
    | cons d r =>
        intro he
        cases he
        exact absurd (ordinary '>' (by simp)).1 (by decide)
  refine ⟨_, ?_, rfl⟩
  rw [List.cons_append, items_of_skipBlanks, skipBlanks_cons_of_not blank]
  simp only [nextItem, no_operator]

theorem toList_assignment (name value : String) :
    (name ++ "=" ++ value).toList = name.toList ++ '=' :: value.toList := by
  simp [String.toList_append]

theorem exists_segment (cs : List Char) : ∃ later, splitPipes cs = segment cs :: later := by
  cases h : splitPipes cs with
  | nil => exact absurd h (splitPipes_ne_nil cs)
  | cons first later => exact ⟨later, by rw [segment, h]; rfl⟩

/-- An assignment of a value that comes back is one word. -/
theorem items_assignment {name value : String} (h : isName name = true)
    (hv : ProtectsNothing value.toList) :
    items (assignmentText name value) = [.word (name ++ "=" ++ value)] := by
  obtain ⟨pieces, value_eq, scanned⟩ := (spells_assignmentText h hv).scanned
  have ends := scanned []
  have nothing_left : scanWord [] = ([], []) := scanWord_of_pauses fun _ hc => by cases hc
  rw [List.append_nil, nothing_left, List.append_nil] at ends
  obtain ⟨later, read, rest⟩ := items_of_name h (escapeValue value).toList
  change items (assignmentText name value) = _ at read
  change later = items (scanWord (assignmentText name value)).2 at rest
  change _ = .word (wordOf (scanWord (assignmentText name value)).1) :: later at read
  have nothing_there : items [] = [] := items_of_all (by simp)
  have spelled : wordOf pieces = name ++ "=" ++ value := by
    rw [wordOf, value_eq, ← toList_assignment, String.ofList_toList]
  rw [read, rest, ends, nothing_there, spelled]

/-- An assignment is no background mark. -/
theorem stripBackground_assignment (command name value : String) :
    stripBackground (command.toList ++ ' ' :: assignmentText name value) =
      (command.toList ++ ' ' :: assignmentText name value, false) := by
  refine stripBackground_text (.inr ?_)
  have ends := (closed_escapeValue value).append (command.toList ++ ' ' :: (name.toList ++ ['=']))
  simpa [assignmentText] using ends

section Command
variable {command : String} (shown : renderWord command = command) (back : ComesBack command)
include shown back

theorem uncut_command : Uncut (command.toList ++ [' ']) := by
  rw [← shown]
  exact (ComesBack.wordText back).uncut.append uncut_space

/-- A line is read as its command and as what stands behind it. -/
theorem items_command (r : List Char) :
    items (command.toList ++ ' ' :: r) = .word command :: items r := by
  have read := items_text (i := .word command) back (pauses_cons (b := ' ') (by decide) r)
  rw [show (Item.word command).text = command.toList from congrArg String.toList shown] at read
  rw [read]
  exact congrArg _ (items_append_of_all blank_space r)

/-- The first segment of a line with an assignment goes as far as the value lets it. -/
theorem segment_command {name : String} (h : isName name = true) (value : String) :
    segment (command.toList ++ ' ' :: assignmentText name value) =
      command.toList ++ ' ' :: (name.toList ++ '=' :: segment (escapeValue value).toList) := by
  have cut := segment_append (uncut_command shown back) (assignmentText name value)
  have cut' := segment_append (spells_name h).uncut (escapeValue value).toList
  rw [List.append_assoc, List.append_assoc] at cut cut'
  exact cut.trans (congrArg (command.toList ++ ' ' :: ·) cut')

/-- **An assignment as a listing shows it is read as the assignment, just if the value comes
back.** -/
theorem parse_assignment {name : String} (h : isName name = true) (value : String) :
    ofChars (command.toList ++ ' ' :: assignmentText name value) =
        ⟨[⟨command, [name ++ "=" ++ value], []⟩], false⟩ ↔
      ProtectsNothing value.toList := by
  rw [ofChars, stripBackground_assignment]
  constructor
  · intro read
    obtain ⟨others, segments⟩ := exists_segment (command.toList ++ ' ' :: assignmentText name value)
    obtain ⟨later, word, -⟩ := items_of_name h (segment (escapeValue value).toList)
    have stages := congrArg Line.stages read
    simp only [segments, segment_command shown back h, List.filterMap_cons, stage?,
      items_command shown back, word, stageOfItems?, plainWords, List.cons.injEq,
      Stage.mk.injEq, true_and] at stages
    have chars := congrArg String.toList stages.1.1.1
    rw [wordOf, String.toList_ofList, toList_assignment] at chars
    -- what is read of the assignment is its name, and what is read of the value
    have behind := (spells_name h).firstWord (escapeValue value).toList
    have cut := segment_append (spells_name h).uncut (escapeValue value).toList
    rw [firstWord, cut, List.append_assoc, List.append_assoc] at behind
    have both : name.toList ++ '=' :: firstWord (escapeValue value).toList =
        name.toList ++ '=' :: value.toList := behind.symm.trans chars
    exact firstWord_escapeValue (List.cons.inj (List.append_cancel_left both)).2
  · intro hv
    have whole : Uncut (command.toList ++ ' ' :: assignmentText name value) := by
      have both := (uncut_command shown back).append (spells_assignmentText h hv).uncut
      rwa [List.append_assoc] at both
    simp [whole.alone, stage?, items_command shown back, items_assignment h hv, stageOfItems?,
      plainWords, redirectsOf]

end Command

end Line

/-! ## Executing an assignment -/

namespace Registry

/-- A command is found under its own names only, whatever its arguments are. -/
theorem resolve_of_head {β : Type} {r : Registry β} {command : Command β} {first : String}
    {args : List String} (two : r.longest = 2) (found : r.get? first = some command)
    (alone : ∀ name ∈ r.names, (first ++ " ").toList.isPrefixOf name.toList = false) :
    r.resolve (first :: args) = some (command, 1) := by
  have single : r.resolveUpTo (first :: args) 1 = some (command, 1) := by
    rw [resolveUpTo, show (first :: args).take 1 = [first] by simp,
      show " ".intercalate [first] = first from rfl, found]
  cases args with
  | nil => rw [resolve, two]; exact single
  | cons arg rest =>
      have longer : r.get? (" ".intercalate [first, arg]) = none := by
        refine Dictionary.findEntry_eq_none fun e he named => ?_
        have apart := alone e.1 (List.mem_map_of_mem he)
        have begins : (first ++ " ").toList <+: e.1.toList :=
          ⟨arg.toList, by rw [named, String.toList_intercalate]; simp [List.intercalate]⟩
        rw [List.isPrefixOf_iff_prefix.2 begins] at apart
        cases apart
      rw [resolve, two, show min 2 (first :: arg :: rest).length = 2 by simp, resolveUpTo,
        show (first :: arg :: rest).take 2 = [first, arg] by simp, longer]
      exact single

end Registry

/-- A name and a value are told apart at the equals sign between them. -/
theorem splitAssignment?_of_isName {name : String} (h : isName name = true) (value : String) :
    splitAssignment? (name ++ "=" ++ value) = some (name, value) := by
  have no_sign : ∀ c ∈ name.toList, decide (c ≠ '=') = true := by
    intro c hc
    have number := Line.toNat_of_nameChar (Line.nameChar_of_isName h c hc)
    refine decide_eq_true fun he => ?_
    subst he
    exact absurd number (by decide)
  have front : (name ++ "=" ++ value).toList.takeWhile (· ≠ '=') = name.toList := by
    rw [Line.toList_assignment, List.takeWhile_append_of_pos no_sign]
    simp
  rw [splitAssignment?, front, Line.toList_assignment, List.drop_left]
  simp

namespace Commands
variable {name value : String}

theorem export_assignment (h : isName name = true) (i : Invocation)
    (args : i.args = [name ++ "=" ++ value]) :
    exportVariables.body i = Work.print (.changing [.setEnvironment name value]) := by
  simp [exportVariables, args, exportChange, splitAssignment?_of_isName h, h]
  rfl

theorem alias_assignment (h : isName name = true) (hv : Text.isAllBlank value = false)
    (i : Invocation) (args : i.args = [name ++ "=" ++ value]) :
    defineAlias.body i = Work.print (.changing [.setAlias name (Text.trim value)]) := by
  simp [defineAlias, args, splitAssignment?_of_isName h, h, hv]

end Commands

namespace Console

/-- A line stays as it is if its first word is no alias. -/
theorem expandAlias_of_unaliased {c : Context} {command raw : String} {rest : List Char}
    (text : raw.toList = command.toList ++ ' ' :: rest) (ne : command ≠ "")
    (unbroken : command.toList.any Text.isBlank = false)
    (h : c.aliases.get? command = none) : expandAlias c raw = raw := by
  have solid : ∀ ch ∈ command.toList, Text.isBlank ch = false := by simpa using unbroken
  have trimmed : Text.skipBlanks raw.toList = raw.toList := by
    obtain ⟨first, others, he⟩ := List.exists_cons_of_ne_nil (mt String.toList_eq_nil_iff.1 ne)
    rw [text, he, List.cons_append]
    exact Line.skipBlanks_cons_of_not (solid first (he ▸ List.mem_cons_self)) _
  have head : raw.toList.takeWhile (fun ch => !Text.isBlank ch) = command.toList := by
    rw [text, List.takeWhile_append_of_pos fun ch hm => by simp [solid ch hm]]
    simp [show Text.isBlank ' ' = true by decide]
  simp only [expandAlias, trimmed, head, String.ofList_toList, h]

/-- **A listed line that is typed again does what was listed**, if the value comes back.  It is
read as the command with the assignment for its only argument just if each backslash of the
value stands before a character other than itself and the single quote.  Then a line of the
`export` listing sets the variable to the value, and one of the `alias` listing sets the
alias to the expansion as `alias` keeps it, without blanks around it; neither can break off,
and both succeed unless they are called off.  All this holds where the command's own name is
no alias. -/
theorem listed_lines_replay (setup : Setup) (builtin : setup.commands = .standard) {name : String}
    (h : isName name = true) (value : String) :
    let exported := "export " ++ name ++ "=" ++ escapeValue value
    let aliased := Commands.aliasLine name value
    (Line.parse exported = ⟨[⟨"export", [name ++ "=" ++ value], []⟩], false⟩ ↔
      Line.ProtectsNothing value.toList) ∧
    (Line.parse aliased = ⟨[⟨"alias", [name ++ "=" ++ value], []⟩], false⟩ ↔
      Line.ProtectsNothing value.toList) ∧
    (Line.ProtectsNothing value.toList → ∀ console d r,
      (console.context.aliases.get? "export" = none →
        (execute setup console exported).Ends d r →
        ∃ o after, r = .ok (o, after) ∧ (⟨.instant .cancelled, true⟩ ∉ d →
          o.success = true ∧
          after.context = console.context.apply (.setEnvironment name value))) ∧
      (console.context.aliases.get? "alias" = none → Text.isAllBlank value = false →
        (execute setup console aliased).Ends d r →
        ∃ o after, r = .ok (o, after) ∧ (⟨.instant .cancelled, true⟩ ∉ d →
          o.success = true ∧
          after.context = console.context.apply (.setAlias name (Text.trim value))))) := by
  intro exported aliased
  have exported_text :
      exported.toList = "export".toList ++ ' ' :: Line.assignmentText name value := by
    simp [exported, Line.assignmentText, String.toList_append]
  have aliased_text :
      aliased.toList = "alias".toList ++ ' ' :: Line.assignmentText name value := by
    simp [aliased, Commands.aliasLine, Line.assignmentText, String.toList_append]
  have read_export : Line.parse exported = ⟨[⟨"export", [name ++ "=" ++ value], []⟩], false⟩ ↔
      Line.ProtectsNothing value.toList := by
    rw [Line.parse, exported_text]
    exact Line.parse_assignment (by decide) (by decide) h value
  have read_alias : Line.parse aliased = ⟨[⟨"alias", [name ++ "=" ++ value], []⟩], false⟩ ↔
      Line.ProtectsNothing value.toList := by
    rw [Line.parse, aliased_text]
    exact Line.parse_assignment (by decide) (by decide) h value
  refine ⟨read_export, read_alias, fun back console d r => ⟨fun unaliased he => ?_,
    fun unaliased some_text he => ?_⟩⟩
  · have same := expandAlias_of_unaliased exported_text (by decide) rfl unaliased
    have found : setup.commands.resolve ["export", name ++ "=" ++ value] =
        some (Commands.exportVariables, 1) := by
      rw [builtin]
      exact Registry.resolve_of_head (by decide +kernel) rfl (by decide +kernel)
    have line : Line.parse (expandAlias console.context exported) = _ :=
      (congrArg Line.parse same).trans (read_export.2 back)
    exact execute_of_print he line found (fun i args _ => Commands.export_assignment h i args) rfl
  · have same := expandAlias_of_unaliased aliased_text (by decide) rfl unaliased
    have found : setup.commands.resolve ["alias", name ++ "=" ++ value] =
        some (Commands.defineAlias, 1) := by
      rw [builtin]
      exact Registry.resolve_of_head (by decide +kernel) rfl (by decide +kernel)
    have line : Line.parse (expandAlias console.context aliased) = _ :=
      (congrArg Line.parse same).trans (read_alias.2 back)
    exact execute_of_print he line found
      (fun i args _ => Commands.alias_assignment h some_text i args) rfl

/-- A value with a blank, a quote and a backslash is set again. -/
theorem odd_value_replays :
    let setup := setupWith (.standard "/") .empty []
    let console := opened (.standard "/") .empty "/"
    let listed := "export " ++ "n" ++ "=" ++ escapeValue "it's c:\\d"
    listed = "export n='it'\\''s c:\\d'" ∧
    Line.parse listed = ⟨[⟨"export", ["n=it's c:\\d"], []⟩], false⟩ ∧
    ∃ d o after, (execute setup console listed).Ends d (.ok (o, after)) ∧ o.success = true ∧
      after.context.environment.get? "n" = some "it's c:\\d" := by
  intro setup console listed
  obtain ⟨read, -, replays⟩ :=
    listed_lines_replay setup rfl (show isName "n" = true by decide) "it's c:\\d"
  have back : Line.ProtectsNothing "it's c:\\d".toList := by decide
  have parsed : Line.parse (expandAlias console.context listed) =
      ⟨[⟨"export", ["n=it's c:\\d"], []⟩], false⟩ :=
    (congrArg Line.parse (by decide)).trans (read.2 back)
  have ends : ∃ d r, ⟨.instant .cancelled, true⟩ ∉ d ∧ (execute setup console listed).Ends d r := by
    simp only [execute, parsed]
    refine ⟨[⟨.instant .now, (0 : Nat)⟩, ⟨.instant .now, (0 : Nat)⟩, ⟨.instant .cancelled, false⟩,
      ⟨.instant .now, (0 : Nat)⟩, ⟨.instant .now, (0 : Nat)⟩, ⟨.instant (.appendHistory _), ()⟩],
      .ok _, ?_, .asks (.asks (.asks (.asks (.asks (.asks (.here _))))))⟩
    simp
  obtain ⟨d, r, calm, he⟩ := ends
  obtain ⟨o, after, rfl, does⟩ := (replays back console d r).1 rfl he
  obtain ⟨success, same⟩ := does calm
  refine ⟨by decide, read.2 back, d, o, after, he, success, ?_⟩
  rw [same]
  decide

/-- A value with two backslashes side by side is listed as a line that is read otherwise. -/
theorem doubled_backslash_is_lost :
    ¬ ∀ name value : String, isName name = true →
      Line.parse ("export " ++ name ++ "=" ++ escapeValue value) =
        ⟨[⟨"export", [name ++ "=" ++ value], []⟩], false⟩ := by
  intro always
  have read := always "n" "a\\\\" (by decide)
  have text : ("export " ++ "n" ++ "=" ++ escapeValue "a\\\\").toList =
      "export".toList ++ ' ' :: Line.assignmentText "n" "a\\\\" := by decide
  rw [Line.parse, text] at read
  have back := (Line.parse_assignment (by decide) (by decide) (by decide) _).1 read
  exact absurd back (by decide)

end Console

end CommandConsole
