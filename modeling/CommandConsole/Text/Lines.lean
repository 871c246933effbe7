/-!
# Lines

A line ends at a line feed; a carriage return right before it belongs to the end. What
stands behind the last line feed is a line too, unless it is empty.
-/

namespace CommandConsole.Text

/-- A line without the carriage return of its end. -/
def withoutReturn (line : List Char) : List Char :=
  match line.reverse with
  | '\r' :: before => before.reverse
  | _ => line

/-- The lines of a text; `current` is what the line in front holds already. -/
def linesFrom (current : List Char) : List Char → List (List Char)
  | [] => if current.isEmpty then [] else [current]
  | c :: r =>
    if c = '\n' then withoutReturn current :: linesFrom [] r else linesFrom (current ++ [c]) r

/-- The lines of a text. -/
def lines (cs : List Char) : List (List Char) := linesFrom [] cs

end CommandConsole.Text
