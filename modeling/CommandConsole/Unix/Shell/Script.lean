/-!
# Scripts

The commands of the machine's script language: simple commands with their words and
redirections, and the ways to put commands together.
-/

namespace CommandConsole.Unix.Shell

/-- What is made of a parameter, with the help of a word. Where `alsoEmpty` stands, an
empty parameter counts as one without a value. -/
inductive Adjustment where
  /-- The word where there is no value. -/
  | orElse (alsoEmpty : Bool)
  /-- The word where there is no value, which the variable has from then on. -/
  | assigning (alsoEmpty : Bool)
  /-- The word where there is a value. -/
  | instead (alsoEmpty : Bool)
  /-- The process ends with the word as a complaint where there is no value. -/
  | demanded (alsoEmpty : Bool)
  /-- The number of characters. -/
  | length
  /-- The value without what the word matches in front. -/
  | withoutFront (longest : Bool)
  /-- The value without what the word matches at its end. -/
  | withoutEnd (longest : Bool)
  deriving DecidableEq, Repr, Inhabited

/-- A part of a word. Where it is quoted, its value is not cut into fields. -/
inductive WordPart where
  | text (quoted : Bool) (s : String)
  /-- A variable or a special parameter. -/
  | parameter (quoted : Bool) (name : String)
  /-- What is made of a parameter. -/
  | adjusted (quoted : Bool) (name : String) (how : Adjustment) (word : List WordPart)
  /-- What a script prints. -/
  | output (quoted : Bool) (script : String)
  /-- The value of an arithmetic expression. -/
  | arithmetic (quoted : Bool) (expression : List WordPart)
  deriving Repr, Inhabited

/-- A word. -/
abbrev Word := List WordPart

/-- How a redirection opens its file. -/
inductive Opening where
  | reading
  | writing
  | appending
  deriving DecidableEq, Repr, Inhabited

/-- Where a redirection leads. -/
inductive Target where
  | file (opening : Opening) (path : Word)
  /-- To where another descriptor leads. -/
  | copyOf (descriptor : Nat)
  deriving Repr, Inhabited

/-- A redirection of a descriptor. -/
structure Redirection where
  descriptor : Nat
  target : Target
  deriving Repr, Inhabited

/-- A command. -/
inductive Cmd where
  | nothing
  | simple (assignments : List (String × Word)) (words : List Word)
      (redirections : List Redirection)
  /-- The output of the first is the input of the second. -/
  | pipe (first second : Cmd)
  | negated (c : Cmd)
  | both (first second : Cmd)
  | either (first second : Cmd)
  | inTurn (first second : Cmd)
  /-- Goes round while the condition ends well, or badly if `untilWell`. -/
  | loop (untilWell : Bool) (condition body : Cmd)
  | branch (condition yes no : Cmd)
  | each (name : String) (words : List Word) (body : Cmd)
  /-- The first command one of whose patterns matches the word. -/
  | choice (word : Word) (clauses : List (List Word × Cmd))
  /-- From then on, the name stands for the command. -/
  | definition (name : String) (body : Cmd)
  /-- Changes nothing outside. -/
  | enclosed (c : Cmd)
  | redirected (c : Cmd) (redirections : List Redirection)
  /-- Does not hold up what follows. -/
  | aside (c : Cmd)
  deriving Repr, Inhabited

end CommandConsole.Unix.Shell
