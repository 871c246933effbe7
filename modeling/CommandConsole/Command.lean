import CommandConsole.Activity
import CommandConsole.Registry

/-!
# Commands

A built-in command is called with its arguments, its input and the context, and comes
to a printout. It changes the context only through the changes it returns. A command
that cannot do what it is asked complains; the complaint is printed behind its name.
-/

namespace CommandConsole

/-- What a command, or a program, printed and how it ended. -/
structure Printout where
  output : String
  error : Option String
  exitCode : Int
  /-- The changes that the context is to take. -/
  changes : List Change
  /-- Whether the output gets a line end where it is redirected or piped. -/
  endsLine : Bool
  deriving DecidableEq, Repr

namespace Printout

/-- A success that printed nothing. -/
def empty : Printout := ⟨"", none, 0, [], true⟩

instance : Inhabited Printout := ⟨empty⟩

/-- A success that printed a text. -/
def text (output : String) : Printout := { empty with output }

/-- A success that printed lines. -/
def lines (ls : List String) : Printout := text ("\n".intercalate ls)

/-- A success that changes the context. -/
def changing (changes : List Change) : Printout := { empty with changes }

/-- A failure with a reason. -/
def failure (exitCode : Int) (error : String) : Printout :=
  { empty with error := some error, exitCode }

/-- Whether the command succeeded. -/
def isSuccess (p : Printout) : Bool := p.exitCode = 0

end Printout

/-- Why a command does not do what it is asked. -/
inductive Complaint where
  /-- Something it relies on failed. -/
  | fault (f : Fault)
  /-- What it was given does not do. -/
  | plain (text : String)
  deriving DecidableEq, Repr

/-- The words of a complaint. -/
def Complaint.message : Complaint → String
  | fault f => f.message
  | plain text => text

/-- A complaint as it is printed. -/
def Complaint.printout (name : String) (c : Complaint) : Printout :=
  .failure 1 (name ++ ": " ++ c.message)

/-- The call of a command. -/
structure Invocation where
  /-- The name by which the command was found. -/
  name : String
  /-- The words behind the name. -/
  args : List String
  /-- What is piped or redirected in. -/
  input : Option String
  /-- The context, which stays as it is while the command works. -/
  context : Context
  /-- How the registered commands present themselves. -/
  catalogue : Registry Unit

/-- The work of a command. -/
abbrev Work := Activity (Except Complaint Printout)

/-- What a command does when it is called. -/
abbrev Body := Invocation → Work

/-- A registry of commands that can be called. -/
abbrev CommandSet := Registry Body

namespace Invocation

/-- The first argument. -/
def first? (i : Invocation) : Option String := i.args.head?

/-- The arguments behind the first. -/
def others (i : Invocation) : List String := i.args.drop 1

/-- Goes on with the first argument, or complains that it is missing. -/
def withFirst (i : Invocation) (what : String) (f : String → Work) : Work :=
  match i.first? with
  | some arg => f arg
  | none => pure (.error (.plain ("missing " ++ what)))

end Invocation

namespace Work

/-- Work that is done at once. -/
def print (p : Printout) : Work := pure (.ok p)

/-- Work that cannot be done. -/
def complain (text : String) : Work := pure (.error (.plain text))

/-- Work that fails because of a fault. -/
def fail (f : Fault) : Work := pure (.error (.fault f))

end Work

/-- The registry without what the commands do. -/
def Registry.descriptions {β : Type} (r : Registry β) : Registry Unit :=
  ⟨⟨r.commands.entries.map fun e => (e.1, ⟨e.2.description, ()⟩),
    List.pairwise_map.2 r.commands.ascending⟩, r.longest⟩

end CommandConsole
