import CommandConsole.Arguments
import CommandConsole.Command

/-!
# Commands on the context

`cd` and `pwd`; `export`, `set` and `unset`; `alias` and `unalias`. The listings show
each entry as a line that would define it.
-/

namespace CommandConsole.Commands

/-- `pwd` prints the working directory. -/
def pwd : Command Body where
  description := ⟨"pwd", [], "Print the working directory", "pwd"⟩
  body i := Work.print (.text i.context.workingDirectory)

/-- Moves to a directory that the host knows; `shown` prints it. -/
def moveTo (target : String) (shown : Bool) : Work := do
  if ← Activity.host (.isDirectory target) then
    Work.print { Printout.changing [.moveTo target] with output := if shown then target else "" }
  else Work.complain (target ++ ": No such directory")

/-- `cd` moves home, back, or to a path. -/
def cd : Command Body where
  description := ⟨"cd", [], "Change the working directory", "cd [dir | - | ~]"⟩
  body i :=
    match i.first? with
    | none => moveTo i.context.homeDirectory false
    | some "-" =>
      match i.context.lookup? "OLDPWD" with
      | some old => moveTo (i.context.resolve old) true
      | none => Work.complain "OLDPWD not set"
    | some path => moveTo (i.context.resolve path) false

/-- The change that one argument of `export` asks for. A name alone exports the value it
has, or an empty one. -/
def exportChange (c : Context) (arg : String) : Except Complaint Change :=
  let (name, value) := (splitAssignment? arg).getD (arg, (c.lookup? arg).getD "")
  if isName name then .ok (.setEnvironment name value)
  else .error (.plain ("'" ++ arg ++ "': not a valid identifier"))

/-- `export` sets variables that programs see, or lists them. -/
def exportVariables : Command Body where
  description := ⟨"export", [], "Set or list environment variables", "export [NAME[=value]...]"⟩
  body i :=
    if i.args.isEmpty then
      Work.print (.lines (i.context.environment.entries.map fun e =>
        "export " ++ e.1 ++ "=" ++ escapeValue e.2))
    else pure ((i.args.mapM (exportChange i.context)).map .changing)

/-- `set` sets a variable of the console, or lists them. -/
def setVariable : Command Body where
  description := ⟨"set", [], "Set or list shell variables", "set [NAME=value | NAME value...]"⟩
  body i :=
    match i.first? with
    | none =>
      Work.print (.lines (i.context.shellVariables.entries.map fun e =>
        e.1 ++ "=" ++ escapeValue e.2))
    | some first =>
      let (name, value) := (splitAssignment? first).getD (first, " ".intercalate i.others)
      if isName name then Work.print (.changing [.setShell name value])
      else Work.complain ("'" ++ name ++ "': not a valid identifier")

/-- `unset` forgets variables. -/
def unsetVariables : Command Body where
  description := ⟨"unset", [], "Remove variables", "unset NAME..."⟩
  body i :=
    if i.args.isEmpty then Work.complain "not enough arguments"
    else Work.print (.changing (i.args.map .unset))

/-- A line of the alias listing. -/
def aliasLine (name expansion : String) : String := "alias " ++ name ++ "=" ++ escapeValue expansion

/-- `alias` defines an alias, shows one, or lists them. -/
def defineAlias : Command Body where
  description := ⟨"alias", [], "Define or list aliases", "alias [name[=expansion...]]"⟩
  body i :=
    let aliases := i.context.aliases
    if i.args.isEmpty then Work.print (.lines (aliases.entries.map fun e => aliasLine e.1 e.2))
    else
      let definition := " ".intercalate i.args
      match splitAssignment? definition with
      | none =>
        match aliases.get? definition with
        | some expansion => Work.print (.text (aliasLine definition expansion))
        | none => Work.complain (definition ++ ": not found")
      | some (name, expansion) =>
        if !isName name then Work.complain ("'" ++ name ++ "': invalid alias name")
        else if Text.isAllBlank expansion then Work.complain (name ++ ": empty expansion")
        else Work.print (.changing [.setAlias name (Text.trim expansion)])

/-- The change that one argument of `unalias` asks for. -/
def unaliasChange (c : Context) (name : String) : Except Complaint Change :=
  if c.aliases.contains name then .ok (.unsetAlias name)
  else .error (.plain (name ++ ": not found"))

/-- `unalias` forgets aliases. -/
def removeAliases : Command Body where
  description := ⟨"unalias", [], "Remove aliases", "unalias name..."⟩
  body i :=
    if i.args.isEmpty then Work.complain "not enough arguments"
    else pure ((i.args.mapM (unaliasChange i.context)).map .changing)

end CommandConsole.Commands
