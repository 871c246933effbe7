import CommandConsole.Text.LowerCase

/-!
# History

The lines that were executed, newest last. The history is bounded: when it is full the
oldest entry goes. Entries are numbered in the order they came, and clearing does not
start the numbers anew.
-/

namespace CommandConsole

/-- One executed line. The time of day at which it was executed is left out: it is never
read. -/
structure HistoryEntry where
  /-- The entry's number, given by the history. -/
  id : Nat
  /-- The resolved name of the command, all its words. -/
  command : String
  args : List String
  /-- The line as submitted, before aliases are expanded. -/
  line : String
  /-- The directory the line started in. -/
  workingDirectory : String
  exitCode : Int
  durationMs : Nat
  /-- The beginning of the output. -/
  output : String
  /-- The beginning of the error text. -/
  error : Option String
  deriving DecidableEq, Repr, Inhabited

/-- Command name and arguments, joined by blanks. -/
def HistoryEntry.commandLine (e : HistoryEntry) : String := " ".intercalate (e.command :: e.args)

/-- At most `limit` characters of a text, an ellipsis behind them if that cuts it. -/
def snapshot (text : String) (limit : Nat) : String :=
  let cs := text.toList
  if cs.length ≤ limit then text else String.ofList (cs.take limit ++ ['…'])

/-- A bounded history. -/
structure History where
  /-- How many entries are kept. -/
  capacity : Nat
  /-- The entries, oldest first. -/
  entries : List HistoryEntry
  /-- How many entries were ever appended. -/
  appended : Nat
  deriving DecidableEq, Repr, Inhabited

namespace History

/-- An empty history; room for one entry there always is. -/
def withCapacity (capacity : Nat) : History := ⟨max capacity 1, [], 0⟩

/-- Appends an entry under the next number; beyond the capacity the oldest go. -/
def append (h : History) (e : HistoryEntry) : History :=
  let entries := h.entries ++ [{ e with id := h.appended + 1 }]
  { h with entries := entries.drop (entries.length - h.capacity), appended := h.appended + 1 }

/-- The last `limit` entries, oldest first. -/
def recent (h : History) (limit : Nat) : List HistoryEntry :=
  h.entries.drop (h.entries.length - limit)

/-- Whether an entry holds a text that is given in lower case. -/
def matchesLower (query : List Char) (e : HistoryEntry) : Bool :=
  Text.occursIn query (Text.lower e.line.toList) ||
    Text.occursIn query (Text.lower e.commandLine.toList)

/-- The entries whose line or resolved command holds `query`, letter case set aside. -/
def search (h : History) (query : String) : List HistoryEntry :=
  h.entries.filter (matchesLower (Text.lower query.toList))

/-- Forgets the entries, but not how many there were. -/
def clear (h : History) : History := { h with entries := [] }

/-- The number of entries kept. -/
def size (h : History) : Nat := h.entries.length

end History

end CommandConsole
