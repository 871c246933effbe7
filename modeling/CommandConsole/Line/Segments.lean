import CommandConsole.Line.Word

/-!
# Cutting a line

Before its stages are read, a line loses its background mark and is cut at the pipes
that stand outside quotes and escapes. `splitPipes` walks the line by the same pieces
as words are read by, so a pipe inside a piece never cuts.
-/

namespace CommandConsole.Line

/-- The body of a line and whether a background mark stood behind it. The mark is a
final `&` that no backslash touches. -/
def stripBackground (raw : List Char) : List Char × Bool :=
  let trimmed := Text.dropBlanksEnd raw
  match trimmed.reverse with
  | '&' :: before =>
    if before.head? = some '\\' then (trimmed, false)
    else (Text.dropBlanksEnd before.reverse, true)
  | _ => (trimmed, false)

/-- Puts a text in front of the first segment. -/
def consHead (front : List Char) : List (List Char) → List (List Char)
  | [] => [front]
  | segment :: segments => (front ++ segment) :: segments

/-- The segments between the pipes of a line. There is always at least one. -/
def splitPipes : List Char → List (List Char)
  | [] => [[]]
  | c :: r =>
    if c = '|' then [] :: splitPipes r
    else
      let piece := nextPiece c r
      consHead piece.1.source (splitPipes piece.2)
termination_by cs => cs.length
decreasing_by
  · simp
  · have := length_nextPiece_le c r
    simp only [List.length_cons]
    omega

end CommandConsole.Line
