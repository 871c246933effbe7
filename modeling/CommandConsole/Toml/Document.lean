import CommandConsole.Toml.Scalar

/-!
# TOML documents

A document is a row of statements: assignments, headers, and headers of arrays of
tables. Each statement is carried out on the table built so far; a statement that
would define something twice fails.
-/

namespace CommandConsole.Toml

/-! ## Assignments -/

/-- Puts a value under a dotted key, which passes through `path`. A table on the way
must have come about without a header of its own, and the last one by dotted keys. -/
def assign (key : String) (v : Value) : List String → Entries → Option Entries
  | [], es => if (es.find? key).isSome then none else some (es.set key v)
  | step :: path, es =>
    match es.find? step with
    | none => (assign key v path []).map fun inner => es.set step (.table .dotted inner)
    | some (.table origin inner) =>
      if origin = .dotted || (origin = .implicit && !path.isEmpty) then
        (assign key v path inner).map fun inner => es.set step (.table origin inner)
      else none
    | some (.tables rows) =>
      match rows.reverse with
      | last :: before =>
        if path.isEmpty then none
        else (assign key v path last).map fun last =>
          es.set step (.tables (before.reverse ++ [last]))
      | [] => none
    | some _ => none

/-- Puts a value under a key whose parts are all given. -/
def assignPath (parts : List String) (v : Value) (es : Entries) : Option Entries :=
  match parts.reverse with
  | key :: path => assign key v path.reverse es
  | [] => none

/-! ## Values -/

/-- How deep arrays and inline tables may be nested. -/
def maxDepth : Nat := 80

/-- The rest of an array, its items read by `item`. -/
def items? (item : Reader Value) : Nat → Reader (List Value)
  | 0, _ => none
  | n + 1, cs => do
    match ← skipFiller false cs with
    | ']' :: r => some ([], r)
    | cs =>
      let (v, r) ← item cs
      match ← skipFiller false r with
      | ',' :: s =>
        let (vs, t) ← items? item n s
        some (v :: vs, t)
      | ']' :: s => some ([v], s)
      | _ => none

/-- The assignments of an inline table, their values read by `item`. -/
def inlineEntries? (item : Reader Value) : Nat → Entries → Reader Entries
  | 0, _, _ => none
  | n + 1, es, cs => do
    let (parts, r) ← key? (skipGap cs)
    let r ← mark? '=' (skipGap r)
    let (v, r) ← item (skipGap r)
    let es ← assignPath parts v es
    match skipGap r with
    | ',' :: s => inlineEntries? item n es s
    | '}' :: s => some (es, s)
    | _ => none

/-- A value with at most `depth` levels of brackets. -/
def valueUpTo : Nat → Reader Value
  | 0, _ => none
  | depth + 1, cs =>
    match cs with
    | '[' :: r => (items? (valueUpTo depth) (r.length + 1) r).map fun (vs, s) => (.list vs, s)
    | '{' :: r =>
      match skipGap r with
      | '}' :: s => some (.table .inline [], s)
      | s =>
        (inlineEntries? (valueUpTo depth) (s.length + 1) [] s).map fun (es, t) =>
          (.table .inline es, t)
    | 't' :: 'r' :: 'u' :: 'e' :: r => some (.boolean true, r)
    | 'f' :: 'a' :: 'l' :: 's' :: 'e' :: r => some (.boolean false, r)
    | '"' :: _ | '\'' :: _ => (string? cs).map fun (s, r) => (.text s, r)
    | _ => number? cs

/-- A value. -/
def value? (cs : List Char) : Option (Value × List Char) := valueUpTo maxDepth cs

/-! ## Statements -/

/-- A statement of a document. -/
inductive Statement where
  | assignment (parts : List String) (v : Value)
  /-- `[a.b]` -/
  | header (path : List String)
  /-- `[[a.b]]` -/
  | rowHeader (path : List String)

/-- One statement. -/
def statement? (cs : List Char) : Option (Statement × List Char) :=
  match cs with
  | '[' :: '[' :: r => do
    let (path, r) ← key? (skipGap r)
    let r ← mark? ']' (skipGap r)
    let r ← mark? ']' r
    some (.rowHeader path, r)
  | '[' :: r => do
    let (path, r) ← key? (skipGap r)
    let r ← mark? ']' (skipGap r)
    some (.header path, r)
  | _ => do
    let (parts, r) ← key? cs
    let r ← mark? '=' (skipGap r)
    let (v, r) ← value? (skipGap r)
    some (.assignment parts v, r)

/-- The statements of a text, at most `n` of them. -/
def statementsUpTo : Nat → List Char → Option (List Statement)
  | 0, _ => none
  | n + 1, cs => do
    match ← skipFiller false cs with
    | [] => some []
    | cs =>
      let (s, r) ← statement? cs
      let r ← endLine r
      (statementsUpTo n r).map (s :: ·)

/-! ## Building the document -/

/-- Opens the table under a header. -/
def openTable (es : Entries) : List String → Option Entries
  | [] => none
  | [key] =>
    match es.find? key with
    | none => some (es.set key (.table .header []))
    | some (.table .implicit inner) => some (es.set key (.table .header inner))
    | some _ => none
  | step :: path => passThrough es step fun inner => openTable inner path
where
  /-- Carries out `act` on the table under `step`, or on the last row there. -/
  passThrough (es : Entries) (step : String) (act : Entries → Option Entries) : Option Entries :=
    match es.find? step with
    | none => (act []).map fun inner => es.set step (.table .implicit inner)
    | some (.table .inline _) => none
    | some (.table origin inner) => (act inner).map fun inner => es.set step (.table origin inner)
    | some (.tables rows) =>
      match rows.reverse with
      | last :: before =>
        (act last).map fun last => es.set step (.tables (before.reverse ++ [last]))
      | [] => none
    | some _ => none

/-- Adds a row to the array of tables under a header. -/
def openRow (es : Entries) : List String → Option Entries
  | [] => none
  | [key] =>
    match es.find? key with
    | none => some (es.set key (.tables [[]]))
    | some (.tables rows) => some (es.set key (.tables (rows ++ [[]])))
    | some _ => none
  | step :: path => openTable.passThrough es step fun inner => openRow inner path

/-- Carries out an assignment in the table that the current header opened. -/
def assignUnder (parts : List String) (v : Value) : List String → Entries → Option Entries
  | [], es => assignPath parts v es
  | step :: path, es =>
    openTable.passThrough es step fun inner => assignUnder parts v path inner

/-- Carries out statements; `path` is the current header. -/
def build : List Statement → List String → Entries → Option Entries
  | [], _, es => some es
  | .assignment parts v :: rest, path, es => (assignUnder parts v path es).bind (build rest path)
  | .header path :: rest, _, es => (openTable es path).bind (build rest path)
  | .rowHeader path :: rest, _, es => (openRow es path).bind (build rest path)

/-- Reads a document; a byte-order mark in front of it is skipped. -/
def read? (text : String) : Option Entries := do
  let cs :=
    match text.toList with
    | '\uFEFF' :: r => r
    | cs => cs
  build (← statementsUpTo (cs.length + 1) cs) [] []

end CommandConsole.Toml
