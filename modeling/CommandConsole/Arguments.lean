import CommandConsole.Text.Blank

/-!
# Arguments of a command

How a command reads its arguments: flags, the mark `--` that ends them, assignments
and names; and how a value is shown so that it can be typed again.
-/

namespace CommandConsole

/-- One argument as a command reads it. -/
inductive Argument where
  /-- `-x`; of several letters behind the dash only the first is read. -/
  | flag (letter : Char)
  /-- `--name`. -/
  | longFlag (name : String)
  | positional (text : String)
  /-- The first `--`. -/
  | endOfFlags
  deriving DecidableEq, Repr, Inhabited

namespace Argument

/-- Whether an argument is written like a flag: a dash, then more, but no digit. -/
def looksLikeFlag (arg : String) : Bool :=
  match arg.toList with
  | '-' :: c :: _ => !c.isDigit
  | _ => false

/-- Reads one argument, where `--` still has its meaning. -/
def read (arg : String) : Argument :=
  if arg = "--" then endOfFlags
  else if looksLikeFlag arg then
    match arg.toList with
    | '-' :: '-' :: name => longFlag (String.ofList name)
    | '-' :: c :: _ => flag c
    | _ => positional arg
  else positional arg

/-- Reads arguments in order. Behind the first `--` all are positional. -/
def readAll : List String → List Argument
  | [] => []
  | arg :: rest =>
    if arg = "--" then endOfFlags :: rest.map positional
    else read arg :: readAll rest

/-- Whether a flag is given, on its own or among other letters behind one dash. -/
def hasFlag (args : List String) (short : Char) (long : String) : Bool :=
  ((args.takeWhile (· ≠ "--")).filter looksLikeFlag).any fun arg =>
    match arg.toList with
    | '-' :: '-' :: name => String.ofList name = long
    | _ :: letters => letters.contains short
    | [] => false

/-- The texts of the positional arguments. -/
def positionalTexts (args : List String) : List String :=
  (readAll args).filterMap fun
    | positional text => some text
    | _ => none

end Argument

/-- Whether a text can name a variable or an alias: ASCII letters, digits and
underscores, no digit in front. -/
def isName (text : String) : Bool :=
  match text.toList with
  | [] => false
  | c :: r => (c.isAlpha || c == '_') && r.all fun d => d.isAlphanum || d == '_'

/-- Cuts `NAME=value` at the first equals sign. -/
def splitAssignment? (arg : String) : Option (String × String) :=
  let name := arg.toList.takeWhile (· ≠ '=')
  match arg.toList.drop name.length with
  | [] => none
  | _ :: value => some (String.ofList name, String.ofList value)

/-- The characters that put a listed value between quotes. -/
def needsEscape (c : Char) : Bool :=
  Text.isBlank c || c == '\'' || c == '"' || c == '$' || c == '|' || c == '&' || c == '<' ||
    c == '>' || c == '\\'

/-- A value as listings show it: between single quotes where it holds a special
character, a quote inside it written as `'\''`. -/
def escapeValue (value : String) : String :=
  let cs := value.toList
  if cs.isEmpty || cs.any needsEscape then
    String.ofList ('\'' ::
      (cs.flatMap fun c => if c = '\'' then ['\'', '\\', '\'', '\''] else [c]) ++ ['\''])
  else value

end CommandConsole
