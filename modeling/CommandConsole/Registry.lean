import CommandConsole.Dictionary

/-!
# The registry of commands

Built-in commands are found by name. A name may have several words; the registry finds
the longest name that the first words of a stage spell. Of two commands declared under
one name the later is found.
-/

namespace CommandConsole

/-- How a command presents itself. -/
structure Description where
  /-- The name, one or more words. -/
  name : String
  /-- Further names. -/
  aliases : List String
  /-- One line on what the command does. -/
  summary : String
  /-- How it is called. -/
  usage : String
  deriving DecidableEq, Repr, Inhabited

/-- All names of a command. -/
def Description.allNames (d : Description) : List String := d.name :: d.aliases

/-- A command: how it presents itself, and what it does. -/
structure Command (β : Type) where
  description : Description
  body : β

/-- The number of words in a name, empty ones included. -/
def wordCount (name : String) : Nat := (name.toList.splitOn ' ').length

/-- The commands of a console by name. -/
structure Registry (β : Type) where
  commands : Dictionary (Command β)
  /-- The word count of the longest name so far. -/
  longest : Nat

namespace Registry

variable {β : Type}

/-- The registry without commands. -/
def empty : Registry β := ⟨.empty, 0⟩

instance : Inhabited (Registry β) := ⟨empty⟩

/-- Declares a command under one name. -/
def declare (r : Registry β) (command : Command β) (name : String) : Registry β :=
  ⟨r.commands.insert name command, max r.longest (wordCount name)⟩

/-- Registers a command under all its names. -/
def register (r : Registry β) (command : Command β) : Registry β :=
  command.description.allNames.foldl (fun r name => r.declare command name) r

/-- The registry of a list of commands, registered in order. -/
def ofCommands (commands : List (Command β)) : Registry β := commands.foldl register empty

/-- The command under a name. -/
def get? (r : Registry β) (name : String) : Option (Command β) := r.commands.get? name

/-- Whether a name is registered. -/
def contains (r : Registry β) (name : String) : Bool := r.commands.contains name

/-- The command under the longest name, of at most `n` words, that the tokens begin
with, and the number of words in that name. -/
def resolveUpTo (r : Registry β) (tokens : List String) : Nat → Option (Command β × Nat)
  | 0 => none
  | n + 1 =>
    match r.get? (" ".intercalate (tokens.take (n + 1))) with
    | some command => some (command, n + 1)
    | none => r.resolveUpTo tokens n

/-- The command under the longest name that the tokens begin with, and the number of
tokens in that name. -/
def resolve (r : Registry β) (tokens : List String) : Option (Command β × Nat) :=
  r.resolveUpTo tokens (min r.longest tokens.length)

/-- Every registered name, ascending. -/
def names (r : Registry β) : List String := r.commands.names

/-- The commands that still stand under their own name, by name. -/
def primary (r : Registry β) : List (Command β) :=
  (r.commands.entries.filter fun e => e.2.description.name = e.1).map Prod.snd

/-- The number of names. -/
def size (r : Registry β) : Nat := r.commands.size

end Registry

end CommandConsole
