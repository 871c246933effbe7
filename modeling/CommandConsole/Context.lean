import CommandConsole.Dictionary
import CommandConsole.Path

/-!
# The context of a console

The directory, variables and aliases that lines run against. Commands never change a
context themselves; they return `Change`s, which are applied once a line has succeeded.

Directories are named by texts here, so their names are taken to be valid UTF-8, and are
shown and kept in variables as they are. A name in other bytes cannot be shown in full;
`RawContext` is a context whose directories may have such names.
-/

namespace CommandConsole

/-- What a line runs against. -/
structure Context where
  /-- The text of the directory, which is valid UTF-8. -/
  workingDirectory : String
  /-- The variables that programs see. -/
  environment : Dictionary String
  aliases : Dictionary String
  /-- The variables that only the console sees. -/
  shellVariables : Dictionary String
  /-- The text of the home directory, which is valid UTF-8. -/
  homeDirectory : String
  deriving DecidableEq, Inhabited

/-- A change that a command asks for. -/
inductive Change where
  /-- Sets a variable that programs see. -/
  | setEnvironment (name value : String)
  /-- Sets a variable that programs see only if they saw it before. -/
  | setShell (name value : String)
  /-- Forgets a variable. -/
  | unset (name : String)
  /-- Moves to a directory; the one before is kept as `OLDPWD`. -/
  | moveTo (directory : String)
  | setAlias (name expansion : String)
  | unsetAlias (name : String)
  deriving DecidableEq, Repr, Inhabited

namespace Context

/-- Moves to a directory, which `PWD` follows. -/
def setDirectory (c : Context) (directory : String) : Context :=
  { c with workingDirectory := directory, environment := c.environment.insert "PWD" directory }

/-- A context in `directory`, with nothing but `PWD` in its environment. -/
def rootedAt (directory home : String) : Context :=
  setDirectory ⟨"", .empty, .empty, .empty, home⟩ (Path.normalizeText directory)

/-- A variable, wherever it is kept. -/
def lookup? (c : Context) (name : String) : Option String :=
  c.environment.get? name <|> c.shellVariables.get? name

/-- The path that a text stands for: `~` is the home directory, and a path without
root starts from the working directory. The result is in normal form. -/
def resolve (c : Context) (text : String) : String :=
  let expanded :=
    match text.toList with
    | ['~'] => Path.ofText c.homeDirectory
    | '~' :: '/' :: rest => (Path.ofText c.homeDirectory).join (Path.ofText (String.ofList rest))
    | _ => Path.ofText text
  ((Path.ofText c.workingDirectory).join expanded).normalize.toText

/-- Applies a change. -/
def apply (c : Context) : Change → Context
  | .setEnvironment name value =>
    { c with
      shellVariables := c.shellVariables.erase name
      environment := c.environment.insert name value }
  | .setShell name value =>
    if c.environment.contains name then
      { c with environment := c.environment.insert name value }
    else { c with shellVariables := c.shellVariables.insert name value }
  | .unset name =>
    { c with
      shellVariables := c.shellVariables.erase name
      environment := c.environment.erase name }
  | .moveTo directory =>
    setDirectory
      { c with environment := c.environment.insert "OLDPWD" c.workingDirectory } directory
  | .setAlias name expansion => { c with aliases := c.aliases.insert name expansion }
  | .unsetAlias name => { c with aliases := c.aliases.erase name }

/-- Applies changes in order. -/
def applyAll (c : Context) (changes : List Change) : Context := changes.foldl apply c

end Context

end CommandConsole
