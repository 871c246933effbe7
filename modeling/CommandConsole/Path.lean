/-!
# Paths

A path is rooted or not, and names the steps down from there. `.` and empty names say
nothing and are dropped when a path is read; `..` is kept, and `Path.normalize` takes
it against the step before it, whatever that step is. At the root a `..` stays at the
root; at the front of a path that is not rooted it is kept.
-/

namespace CommandConsole

/-- A path. -/
structure Path where
  /-- Whether the path starts at the root. -/
  rooted : Bool
  /-- The steps, none of them empty or `.` once a path has been read. -/
  steps : List String
  deriving DecidableEq, Repr, Inhabited

namespace Path

/-- Reads a path. -/
def ofText (s : String) : Path :=
  ⟨s.toList.head? == some '/',
    ((s.toList.splitOn '/').map String.ofList).filter fun step => step != "" && step != "."⟩

/-- Writes a path; one without root and steps is `.`. -/
def toText (p : Path) : String :=
  if p.rooted then "/" ++ "/".intercalate p.steps
  else if p.steps.isEmpty then "."
  else "/".intercalate p.steps

/-- One step of normalizing: `taken` holds the steps so far, the last one first. -/
def take (rooted : Bool) (taken : List String) (step : String) : List String :=
  if step = ".." then
    match taken with
    | _ :: before => before
    | [] => if rooted then [] else [step]
  else step :: taken

/-- Takes every `..` against the step before it. -/
def normalize (p : Path) : Path :=
  ⟨p.rooted, (p.steps.foldl (take p.rooted) []).reverse⟩

/-- The path that `q` names from the directory `p`. -/
def join (p q : Path) : Path := if q.rooted then q else ⟨p.rooted, p.steps ++ q.steps⟩

/-- The normal form of a path that is given as text. -/
def normalizeText (s : String) : String := (ofText s).normalize.toText

/-- Whether a text names a path from the root. -/
def isAbsolute (s : String) : Bool := s.toList.head? == some '/'

/-- Whether `p` is `q` or lies below it. -/
def isWithin (p q : Path) : Bool := p.rooted == q.rooted && q.steps.isPrefixOf p.steps

end Path

end CommandConsole
