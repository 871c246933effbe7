import CommandConsole.Line.Basic
import CommandConsole.Text.Blank

/-!
# Writing a line

A line is written with single blanks between its words. A word that holds a blank, a
quote or an operator character stands between single quotes.
-/

namespace CommandConsole

namespace Line

/-- The characters that a word cannot show outside quotes. -/
def needsQuotes (c : Char) : Bool :=
  Text.isBlank c || c == '|' || c == '>' || c == '<' || c == '&' || c == '"' || c == '\''

/-- A text between single quotes, each quote inside it behind a backslash. -/
def quoteChars (cs : List Char) : List Char :=
  '\'' :: (cs.flatMap fun c => if c = '\'' then ['\\', '\''] else [c]) ++ ['\'']

/-- A word as it is shown. -/
def renderWord (token : String) : String :=
  if token.isEmpty then "''"
  else if token.toList.any needsQuotes then String.ofList (quoteChars token.toList)
  else token

end Line

/-- A redirect as it is shown. -/
def Redirect.render (r : Redirect) : String := r.kind.operator ++ " " ++ Line.renderWord r.target

/-- A stage as it is shown. -/
def Stage.render (s : Stage) : String :=
  " ".intercalate (s.tokens.map Line.renderWord ++ s.redirects.map Redirect.render)

/-- The stages of a line as they are shown, without the background mark. -/
def Line.commandText (l : Line) : String := " | ".intercalate (l.stages.map Stage.render)

/-- A line as it is shown. -/
def Line.render (l : Line) : String := l.commandText ++ if l.background then " &" else ""

end CommandConsole
