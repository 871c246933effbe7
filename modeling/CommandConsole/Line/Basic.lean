/-!
# Command lines

A parsed line is a row of stages, joined by pipes, and a mark that sends it to the
background. A stage names a command, its arguments, and the redirects that connect
its input and output to files.
-/

namespace CommandConsole

/-- What a redirect does with its target. -/
inductive RedirectKind where
  /-- `>` replaces the file by the output. -/
  | outTruncate
  /-- `>>` adds the output to the file. -/
  | outAppend
  /-- `2>` replaces the file by the error text. -/
  | errTruncate
  /-- `2>>` adds the error text to the file. -/
  | errAppend
  /-- `<` feeds the file to the stage. -/
  | input
  deriving DecidableEq, Repr, Inhabited

namespace RedirectKind

/-- The operator as it is typed. -/
def operator : RedirectKind → String
  | outTruncate => ">"
  | outAppend => ">>"
  | errTruncate => "2>"
  | errAppend => "2>>"
  | input => "<"

/-- Whether what the file already holds is kept. -/
def appends : RedirectKind → Bool
  | outAppend | errAppend => true
  | _ => false

/-- Whether the stage's output goes to the file. -/
def takesOutput : RedirectKind → Bool
  | outTruncate | outAppend => true
  | _ => false

end RedirectKind

/-- A redirect: an operator and the path it is aimed at. -/
structure Redirect where
  kind : RedirectKind
  target : String
  deriving DecidableEq, Repr, Inhabited

/-- One stage of a pipeline. -/
structure Stage where
  /-- The first word. -/
  command : String
  /-- The words after the first. -/
  args : List String
  /-- The redirects, in the order they were typed. -/
  redirects : List Redirect
  deriving DecidableEq, Repr, Inhabited

/-- The words of a stage: its command, then its arguments. -/
def Stage.tokens (s : Stage) : List String := s.command :: s.args

/-- A line of input. -/
structure Line where
  /-- The stages, in the order the text flows through them. -/
  stages : List Stage
  /-- Whether the line is to run in the background. -/
  background : Bool
  deriving DecidableEq, Repr, Inhabited

namespace Line

/-- A line without a stage has nothing to run. -/
def isEmpty (l : Line) : Bool := l.stages.isEmpty

/-- Whether the line joins stages or redirects one. -/
def usesPipeline (l : Line) : Bool :=
  1 < l.stages.length || l.stages.any fun s => !s.redirects.isEmpty

/-- The first stage. -/
def first? (l : Line) : Option Stage := l.stages.head?

end Line

end CommandConsole
