/-!
# Patterns

The patterns of the script language: a star stands for any text, a question mark for any
character, and brackets hold the characters that may stand in a place. A pattern is
matched against a whole text; `trimFront` and `trimEnd` take a part off that matches.
-/

namespace CommandConsole.Unix.Shell

/-- A place of a pattern. -/
inductive Place where
  | char (c : Char)
  /-- Any text. -/
  | anyText
  /-- A character within one of the ranges, or within none of them if `not`. -/
  | range (not : Bool) (ranges : List (Char × Char))
  deriving Repr, Inhabited

/-- A pattern. -/
abbrev Pattern := List Place

namespace Place

/-- Any character: one that is in none of no ranges. -/
def anyChar : Place := .range true []

/-- Whether a character may stand in the place. -/
def admits : Place → Char → Bool
  | .char c, d => c = d
  | .anyText, _ => false
  | .range not ranges, d => (ranges.any fun r => r.1 ≤ d && d ≤ r.2) != not

end Place

namespace Pattern

/-- Whether a pattern matches the whole of a text. -/
def covers : Pattern → List Char → Bool
  | [], cs => cs.isEmpty
  | .anyText :: p, [] => covers p []
  | .anyText :: p, c :: cs => covers p (c :: cs) || covers (.anyText :: p) cs
  | _ :: _, [] => false
  | x :: p, c :: cs => x.admits c && covers p cs
termination_by p cs => p.length + cs.length

/-- The ranges up to a closing bracket, and what stands behind it. A character is marked
if it was quoted. -/
def rangesFrom : List (Bool × Char) → Option (List (Char × Char) × List (Bool × Char))
  | [] => none
  | (false, ']') :: r => some ([], r)
  | (_, a) :: (false, '-') :: (quoted, b) :: r =>
    if b = ']' && !quoted then some ([(a, a), ('-', '-')], r)
    else (rangesFrom r).map fun (ranges, rest) => ((a, b) :: ranges, rest)
  | (_, a) :: r => (rangesFrom r).map fun (ranges, rest) => ((a, a) :: ranges, rest)

/-- The inside of brackets: a closing bracket in front is one of the characters. -/
def bracket (cs : List (Bool × Char)) : Option (List (Char × Char) × List (Bool × Char)) :=
  match cs with
  | (false, ']') :: r => (rangesFrom r).map fun (ranges, rest) => ((']', ']') :: ranges, rest)
  | _ => rangesFrom cs

/-- The pattern that a text stands for. A quoted character stands for itself, and so does
an opening bracket that is never closed. -/
def ofMarked : Nat → List (Bool × Char) → Pattern
  | 0, _ => []
  | _, [] => []
  | n + 1, (quoted, c) :: r =>
    if quoted then .char c :: ofMarked n r
    else if c = '*' then .anyText :: ofMarked n r
    else if c = '?' then .anyChar :: ofMarked n r
    else if c = '[' then
      let (not, inside) :=
        match r with
        | (false, '!') :: s => (true, s)
        | _ => (false, r)
      match bracket inside with
      | some (ranges, rest) => .range not ranges :: ofMarked n rest
      | none => .char c :: ofMarked n r
    else .char c :: ofMarked n r

/-- The lengths up to one, in the order in which they are tried. -/
def lengths (longest : Bool) (n : Nat) : List Nat :=
  if longest then (List.range (n + 1)).reverse else List.range (n + 1)

/-- A text without the shortest or longest part in front that matches. -/
def trimFront (p : Pattern) (longest : Bool) (cs : List Char) : List Char :=
  match (lengths longest cs.length).find? fun i => covers p (cs.take i) with
  | some i => cs.drop i
  | none => cs

/-- A text without the shortest or longest part at its end that matches. -/
def trimEnd (p : Pattern) (longest : Bool) (cs : List Char) : List Char :=
  match (lengths longest cs.length).find? fun i => covers p (cs.drop (cs.length - i)) with
  | some i => cs.take (cs.length - i)
  | none => cs

end Pattern

end CommandConsole.Unix.Shell
