/-!
# Values of a TOML document

A document is a table of values. Tables remember how they were written, because that
decides whether later lines may still add to them.
-/

namespace CommandConsole.Toml

/-- How a table came to be. -/
inductive TableOrigin where
  /-- Written between braces; nothing can be added. -/
  | inline
  /-- Under a header of its own. -/
  | header
  /-- Passed through by a longer header. -/
  | implicit
  /-- Passed through by a dotted key. -/
  | dotted
  deriving DecidableEq, Repr, Inhabited

/-- A value. -/
inductive Value where
  | text (s : String)
  | integer (i : Int)
  /-- A floating-point number, as it was typed. -/
  | real (typed : String)
  | boolean (b : Bool)
  /-- A date, a time of day or both, in normal form. -/
  | moment (text : String)
  | list (items : List Value)
  | table (origin : TableOrigin) (entries : List (String × Value))
  /-- An array of tables under headers with two brackets. -/
  | tables (rows : List (List (String × Value)))
  deriving Repr, Inhabited

/-- The entries of a table, in the order they were written. -/
abbrev Entries := List (String × Value)

/-- The value under a key. -/
def Entries.find? (es : Entries) (key : String) : Option Value :=
  (List.find? (fun e => e.1 == key) es).map Prod.snd

/-- Puts a value under a key, in place of the one that stood there. -/
def Entries.set (es : Entries) (key : String) (v : Value) : Entries :=
  if List.any es (fun e => e.1 == key) then
    List.map (fun e => if e.1 == key then (key, v) else e) es
  else es ++ [(key, v)]

end CommandConsole.Toml
