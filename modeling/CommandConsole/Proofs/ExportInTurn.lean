import CommandConsole.Console
import Mathlib.Data.List.Induction
import Mathlib.Data.List.ReduceOption

/-!
# Exporting at once and in turn

`export` looks a name that stands alone up in the context that its line began with, and what the
line assigns takes effect only behind it.  So the arguments of one `export` and as many `export`s
with one argument each do not always come to the same.  Either way a variable has the value that
was assigned to it last, unless it is named alone behind that: then one line exports the value from
before the line, and several export what the one before has assigned (`exports_agree_iff`).
-/

namespace CommandConsole

namespace Commands

/-! ## What the arguments say -/

/-- **What an argument of `export` says**: a name, and a value unless the name stands alone. -/
structure Mention where
  name : String
  given : Option String

namespace Mention

/-- An argument, cut at the first equals sign if it has one. -/
def ofArg (arg : String) : Mention :=
  match splitAssignment? arg with
  | some (name, value) => ⟨name, some value⟩
  | none => ⟨arg, none⟩

/-- The value that is exported: the one that is given, or the one that the name has. -/
def value (c : Context) (m : Mention) : String := m.given.getD ((c.lookup? m.name).getD "")

/-- The change that is asked for. -/
def change (c : Context) (m : Mention) : Change := .setEnvironment m.name (m.value c)

end Mention

/-- **What the arguments give for one name**, in their order. -/
def given (name : String) (args : List String) : List (Option String) :=
  ((args.map Mention.ofArg).filter (·.name = name)).map (·.given)

@[simp] theorem given_nil (name : String) : given name [] = [] := rfl

theorem given_append (name : String) (args args' : List String) :
    given name (args ++ args') = given name args ++ given name args' := by
  simp [given]

theorem given_singleton (name arg : String) :
    given name [arg] =
      if (Mention.ofArg arg).name = name then [(Mention.ofArg arg).given] else [] := by
  by_cases h : (Mention.ofArg arg).name = name <;> simp [given, h]

theorem given_cons (name arg : String) (args : List String) :
    given name (arg :: args) =
      if (Mention.ofArg arg).name = name then (Mention.ofArg arg).given :: given name args
      else given name args := by
  rw [← List.singleton_append, given_append, given_singleton]
  split <;> rfl

theorem mem_names_of_given {name : String} {args : List String} {value : Option String}
    (h : value ∈ given name args) : name ∈ args.map fun arg => (Mention.ofArg arg).name := by
  obtain ⟨m, hm, -⟩ := List.mem_map.1 h
  obtain ⟨listed, named⟩ := List.mem_filter.1 hm
  obtain ⟨arg, ha, rfl⟩ := List.mem_map.1 listed
  exact List.mem_map.2 ⟨arg, ha, by simpa using named⟩

/-! ## One `export` -/

/-- **`export` succeeds** with these arguments, and leads from one context to another. -/
def Exports (c : Context) (args : List String) (after : Context) : Prop :=
  ∃ p, (∀ name input catalogue,
      exportVariables.body ⟨name, args, input, c, catalogue⟩ = Work.print p) ∧
    p.isSuccess = true ∧ after = c.applyAll p.changes

/-- The changes that arguments ask for, all of the same context. -/
def changesOf (c : Context) (args : List String) : List Change :=
  args.map fun arg => (Mention.ofArg arg).change c

theorem exportChange_eq (c : Context) (arg : String) :
    exportChange c arg =
      if isName (Mention.ofArg arg).name then .ok ((Mention.ofArg arg).change c)
      else .error (.plain ("'" ++ arg ++ "': not a valid identifier")) := by
  rw [exportChange, Mention.change, Mention.value, Mention.ofArg]
  cases splitAssignment? arg <;> rfl

theorem mapM_exportChange_eq_ok_iff {c : Context} {args : List String} {changes : List Change} :
    args.mapM (exportChange c) = .ok changes ↔
      (∀ arg ∈ args, isName (Mention.ofArg arg).name = true) ∧ changes = changesOf c args := by
  induction args generalizing changes with
  | nil =>
      constructor
      · rintro ⟨⟩
        exact ⟨nofun, rfl⟩
      · rintro ⟨-, rfl⟩
        rfl
  | cons arg args ih =>
      rw [List.mapM_cons, exportChange_eq, List.forall_mem_cons]
      cases named : isName (Mention.ofArg arg).name with
      | false =>
          constructor
          · rintro ⟨⟩
          · rintro ⟨⟨⟨⟩, -⟩, -⟩
      | true =>
          cases made : args.mapM (exportChange c) with
          | error complaint =>
              constructor
              · rintro ⟨⟩
              · rintro ⟨⟨-, names⟩, -⟩
                cases made.symm.trans (ih.2 ⟨names, rfl⟩)
          | ok rest =>
              obtain ⟨names, rfl⟩ := ih.1 made
              constructor
              · rintro ⟨⟩
                exact ⟨⟨rfl, names⟩, rfl⟩
              · rintro ⟨-, rfl⟩
                rfl

/-- `export` succeeds just if every argument has a name. -/
theorem exports_iff {c : Context} {args : List String} {after : Context} :
    Exports c args after ↔
      (∀ arg ∈ args, isName (Mention.ofArg arg).name = true) ∧
      after = c.applyAll (changesOf c args) := by
  cases args with
  | nil =>
      constructor
      · rintro ⟨p, prints, -, leads⟩
        cases prints "export" none .empty
        exact ⟨nofun, leads⟩
      · rintro ⟨-, leads⟩
        exact ⟨.lines (c.environment.entries.map fun e =>
            "export " ++ e.1 ++ "=" ++ escapeValue e.2),
          fun _ _ _ => by simp [exportVariables], rfl, leads⟩
  | cons arg args =>
      have body (name : String) (input : Option String) (catalogue : Registry Unit) :
          exportVariables.body ⟨name, arg :: args, input, c, catalogue⟩ =
            pure (((arg :: args).mapM (exportChange c)).map .changing) := rfl
      constructor
      · rintro ⟨p, prints, -, leads⟩
        have printed := (body "export" none .empty).symm.trans (prints ..)
        cases made : (arg :: args).mapM (exportChange c) with
        | error complaint =>
            rw [made] at printed
            cases printed
        | ok changes =>
            rw [made] at printed
            cases printed
            obtain ⟨names, rfl⟩ := mapM_exportChange_eq_ok_iff.1 made
            exact ⟨names, leads⟩
      · rintro ⟨names, leads⟩
        refine ⟨.changing (changesOf c (arg :: args)), fun _ _ _ => ?_, rfl, leads⟩
        rw [body, mapM_exportChange_eq_ok_iff.2 ⟨names, rfl⟩]
        rfl

/-- **`export`s in turn**, one for each argument and each in the context that the one before has
left. -/
inductive ExportsInTurn : Context → List String → Context → Prop where
  | nothing (c : Context) : ExportsInTurn c [] c
  | next {c between after : Context} {arg : String} {args : List String}
      (first : Exports c [arg] between) (later : ExportsInTurn between args after) :
      ExportsInTurn c (arg :: args) after

/-! ## What becomes of the variables -/

/-- What programs see of a variable behind one `export`: what its last mention gives, and for a
name alone the value before. -/
def valueAtOnce (c : Context) (args : List String) (name : String) : Option String :=
  match (given name args).getLast? with
  | none => c.environment.get? name
  | some value => some (value.getD ((c.lookup? name).getD ""))

/-- What programs see of a variable behind `export`s in turn: the value that is given last, and if
none is given the value before. -/
def valueInTurn (c : Context) (args : List String) (name : String) : Option String :=
  if given name args = [] then c.environment.get? name
  else some ((given name args).reduceOption.getLast?.getD ((c.lookup? name).getD ""))

/-- **A context in which names were exported**, with these values. -/
structure Exported (c : Context) (args : List String) (value : String → Option String)
    (after : Context) : Prop where
  environment : ∀ name, after.environment.get? name = value name
  shellVariables : ∀ name, after.shellVariables.get? name =
    if given name args = [] then c.shellVariables.get? name else none
  workingDirectory : after.workingDirectory = c.workingDirectory
  aliases : after.aliases = c.aliases
  homeDirectory : after.homeDirectory = c.homeDirectory

namespace Exported
variable {c after after' : Context} {args : List String} {value value' : String → Option String}

/-- The values say it all. -/
theorem eq_iff (h : Exported c args value after) (h' : Exported c args value' after') :
    after = after' ↔ ∀ name, value name = value' name := by
  constructor
  · rintro rfl name
    rw [← h.environment, h'.environment]
  · intro same
    have environment : after.environment = after'.environment :=
      Dictionary.ext_get? fun name => by rw [h.environment, h'.environment, same]
    have shellVariables : after.shellVariables = after'.shellVariables :=
      Dictionary.ext_get? fun name => by rw [h.shellVariables, h'.shellVariables]
    cases after
    cases after'
    simp only [Context.mk.injEq]
    exact ⟨h.workingDirectory.trans h'.workingDirectory.symm, environment,
      h.aliases.trans h'.aliases.symm, shellVariables,
      h.homeDirectory.trans h'.homeDirectory.symm⟩

end Exported

/-- Of a list of values the last that is there, with one more in front. -/
theorem getD_getLast?_cons (first : Option String) (later : List (Option String))
    (before : String) :
    (first :: later).reduceOption.getLast?.getD before =
      later.reduceOption.getLast?.getD (first.getD before) := by
  cases first with
  | none => rw [List.reduceOption_cons_of_none, Option.getD_none]
  | some value => rw [List.reduceOption_cons_of_some, List.getLast?_cons]; rfl

section Change
variable (c d : Context) (m : Mention) (name : String)

theorem environment_apply_change :
    (d.apply (m.change c)).environment.get? name =
      if m.name = name then some (m.value c) else d.environment.get? name := by
  rw [Mention.change, Context.apply, Dictionary.get?_insert]

theorem shellVariables_apply_change :
    (d.apply (m.change c)).shellVariables.get? name =
      if m.name = name then none else d.shellVariables.get? name := by
  rw [Mention.change, Context.apply, Dictionary.get?_erase]

theorem lookup?_apply_change :
    (d.apply (m.change c)).lookup? name =
      if m.name = name then some (m.value c) else d.lookup? name := by
  rw [Context.lookup?, Context.lookup?, environment_apply_change, shellVariables_apply_change]
  split <;> rfl

end Change

/-- **One `export`** gives every name what its last mention says. -/
theorem exported_atOnce (c : Context) (args : List String) :
    Exported c args (valueAtOnce c args) (c.applyAll (changesOf c args)) := by
  -- from the end, for the last argument has the last word
  induction args using List.reverseRecOn with
  | nil => exact ⟨fun _ => rfl, fun _ => rfl, rfl, rfl, rfl⟩
  | append_singleton args arg ih =>
      have last : c.applyAll (changesOf c (args ++ [arg])) =
          (c.applyAll (changesOf c args)).apply ((Mention.ofArg arg).change c) := by
        rw [changesOf, List.map_append, Context.applyAll, List.foldl_append]
        rfl
      rw [last]
      refine ⟨fun name => ?_, fun name => ?_, ih.workingDirectory, ih.aliases, ih.homeDirectory⟩
      · rw [environment_apply_change, ih.environment, valueAtOnce, valueAtOnce, given_append,
          given_singleton]
        split
        · rename_i named
          simp [Mention.value, named]
        · simp
      · rw [shellVariables_apply_change, ih.shellVariables, given_append, given_singleton]
        split
        · simp
        · simp

/-- What comes behind an `export` starts from the value that it has left. -/
theorem valueInTurn_apply_change (c : Context) (arg : String) (args : List String)
    (name : String) :
    valueInTurn (c.apply ((Mention.ofArg arg).change c)) args name =
      valueInTurn c (arg :: args) name := by
  rw [valueInTurn, valueInTurn, lookup?_apply_change, environment_apply_change, given_cons]
  by_cases named : (Mention.ofArg arg).name = name
  · rw [if_pos named, if_pos named, if_pos named, if_neg (List.cons_ne_nil _ _),
      getD_getLast?_cons, Mention.value, named]
    split
    · rename_i unnamed
      rw [unnamed]
      rfl
    · rfl
  · rw [if_neg named, if_neg named, if_neg named]

/-- **`export`s in turn** give every name the value that is given last. -/
theorem ExportsInTurn.exported {c after : Context} {args : List String}
    (h : ExportsInTurn c args after) : Exported c args (valueInTurn c args) after := by
  induction h with
  | nothing c => exact ⟨fun _ => rfl, fun _ => rfl, rfl, rfl, rfl⟩
  | @next c between after arg args first _ ih =>
      obtain rfl : between = c.apply ((Mention.ofArg arg).change c) := (exports_iff.1 first).2
      refine ⟨fun name => ?_, fun name => ?_, ih.workingDirectory, ih.aliases, ih.homeDirectory⟩
      · rw [ih.environment, valueInTurn_apply_change]
      · rw [ih.shellVariables, shellVariables_apply_change, given_cons]
        by_cases named : (Mention.ofArg arg).name = name
        · simp [named]
        · rw [if_neg named, if_neg named]

/-- **A name has the same value either way** unless it is named alone in the end, behind a value
that it did not have before. -/
theorem valueAtOnce_eq_valueInTurn_iff {c : Context} {args : List String} {name : String} :
    valueAtOnce c args name = valueInTurn c args name ↔
      ((given name args).getLast? = some none → ∀ value,
        (given name args).reduceOption.getLast? = some value →
          value = (c.lookup? name).getD "") := by
  rw [valueAtOnce, valueInTurn]
  rcases List.eq_nil_or_concat (given name args) with nothing | ⟨before, last, said⟩
  · simp [nothing]
  · rw [said, List.concat_eq_append, List.reduceOption_append]
    cases last with
    | some value => simp
    | none =>
        cases assigned : before.reduceOption.getLast? with
        | none => simp [assigned]
        | some value => simpa [assigned] using eq_comm

/-- An argument is taken, in whatever context, just if it has a name. -/
theorem exists_exports_singleton_iff {c : Context} {arg : String} :
    (∃ after, Exports c [arg] after) ↔ isName (Mention.ofArg arg).name = true := by
  simp [exports_iff]

theorem exists_exportsInTurn {args : List String}
    (names : ∀ arg ∈ args, isName (Mention.ofArg arg).name = true) (c : Context) :
    ∃ after, ExportsInTurn c args after := by
  induction args generalizing c with
  | nil => exact ⟨c, .nothing c⟩
  | cons arg args ih =>
      obtain ⟨named, later⟩ := List.forall_mem_cons.1 names
      obtain ⟨after, exports⟩ := ih later (c.applyAll (changesOf c [arg]))
      exact ⟨after, .next (exports_iff.2 ⟨by simpa using named, rfl⟩) exports⟩

/-- **When one `export` is as good as several.**  Let each of some arguments be one that `export`
takes.  Then one `export` succeeds with all of them, and so do `export`s in turn.  Nothing is
changed but the variables that are named, and all of these are left to programs alone.  At once, a
variable gets the value that its last mention gives, and if that is the name alone the value that
it had before.  In turn, it gets the value that is given last, and if none is given the one that it
had before.  So both come to the same just if each name that is last mentioned alone, behind a
value, had the last such value before. -/
theorem exports_agree_iff (c : Context) (args : List String)
    (taken : ∀ arg ∈ args, ∃ after, Exports c [arg] after) :
    (∃ atOnce, Exports c args atOnce) ∧ (∃ inTurn, ExportsInTurn c args inTurn) ∧
    ∀ atOnce inTurn, Exports c args atOnce → ExportsInTurn c args inTurn →
      Exported c args (valueAtOnce c args) atOnce ∧ Exported c args (valueInTurn c args) inTurn ∧
      (atOnce = inTurn ↔ ∀ name, (given name args).getLast? = some none → ∀ value,
        (given name args).reduceOption.getLast? = some value →
          value = (c.lookup? name).getD "") := by
  have names : ∀ arg ∈ args, isName (Mention.ofArg arg).name = true := fun arg ha =>
    exists_exports_singleton_iff.1 (taken arg ha)
  refine ⟨⟨_, exports_iff.2 ⟨names, rfl⟩⟩, exists_exportsInTurn names c, ?_⟩
  intro atOnce inTurn exports inTurn'
  obtain ⟨-, rfl⟩ := exports_iff.1 exports
  have once := exported_atOnce c args
  have turn := inTurn'.exported
  refine ⟨once, turn, ?_⟩
  rw [once.eq_iff turn]
  exact forall_congr' fun name => valueAtOnce_eq_valueInTurn_iff

/-- A name that is mentioned three times, and one that has its value already. -/
theorem repeated_names_agree :
    let c := (Context.rootedAt "/srv/app" "/home/ops").apply (.setShell "UNIT" "7")
    let args := ["X=1", "X", "UNIT=7", "X=2", "UNIT", "NEW"]
    (∀ arg ∈ args, ∃ after, Exports c [arg] after) ∧
    ∃ after, Exports c args after ∧ ExportsInTurn c args after ∧
      after.environment.get? "X" = some "2" ∧ after.environment.get? "UNIT" = some "7" ∧
      after.environment.get? "NEW" = some "" ∧ after.shellVariables.get? "UNIT" = none := by
  intro c args
  have names : ∀ arg ∈ args, isName (Mention.ofArg arg).name = true := by decide
  have taken : ∀ arg ∈ args, ∃ after, Exports c [arg] after := fun arg ha =>
    exists_exports_singleton_iff.2 (names arg ha)
  obtain ⟨⟨atOnce, once⟩, ⟨inTurn, turn⟩, agree⟩ := exports_agree_iff c args taken
  obtain ⟨values, -, same⟩ := agree atOnce inTurn once turn
  have harmless : ∀ name ∈ ["X", "X", "UNIT", "X", "UNIT", "NEW"],
      (given name args).getLast? = some none →
        ∀ value ∈ (given name args).reduceOption.getLast?, value = (c.lookup? name).getD "" := by
    decide
  obtain rfl := same.2 fun name alone value assigned =>
    harmless name (mem_names_of_given (List.mem_of_getLast? alone)) alone value assigned
  exact ⟨taken, atOnce, once, turn, (values.environment _).trans (by decide),
    (values.environment _).trans (by decide), (values.environment _).trans (by decide),
    (values.shellVariables _).trans (by decide)⟩

/-- A name alone does not take what the same line assigns. -/
theorem name_alone_is_looked_up_first :
    ¬ ∀ (c : Context) (args : List String), (∀ arg ∈ args, ∃ after, Exports c [arg] after) →
      ∀ atOnce inTurn, Exports c args atOnce → ExportsInTurn c args inTurn → atOnce = inTurn := by
  intro always
  let c := Context.rootedAt "/srv/app" "/home/ops"
  let args := ["X=1", "X"]
  have names : ∀ arg ∈ args, isName (Mention.ofArg arg).name = true := by decide
  obtain ⟨inTurn, turn⟩ := exists_exportsInTurn names c
  have same := always c args (fun arg ha => exists_exports_singleton_iff.2 (names arg ha)) _ inTurn
    (exports_iff.2 ⟨names, rfl⟩) turn
  have equal : valueAtOnce c args "X" = valueInTurn c args "X" :=
    ((exported_atOnce c args).eq_iff turn.exported).1 same "X"
  exact absurd equal (by decide)

end Commands

end CommandConsole
