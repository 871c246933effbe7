/-!
# Numerals

Reading bounded whole numbers the way arguments give them: an optional sign, then at
least one decimal digit, and no more than the bound.
-/

namespace CommandConsole.Text

/-- The number that decimal digits spell. -/
def digitsValue (ds : List Char) : Nat := ds.foldl (fun n c => n * 10 + (c.toNat - '0'.toNat)) 0

/-- The number of at least one decimal digit. -/
def digits? (cs : List Char) : Option Nat :=
  if cs.isEmpty || !cs.all Char.isDigit then none else some (digitsValue cs)

/-- A count of at most 64 bits; a plus sign may stand in front. -/
def count? (s : String) : Option Nat :=
  let digits :=
    match s.toList with
    | '+' :: r => r
    | cs => cs
  (digits? digits).filter (· < Nat.pow 2 64)

/-- A whole number of 32 bits with its sign. -/
def integer32? (s : String) : Option Int :=
  let number : Option Int :=
    match s.toList with
    | '-' :: r => (digits? r).map fun n => -(n : Int)
    | '+' :: r => (digits? r).map Int.ofNat
    | cs => (digits? cs).map Int.ofNat
  number.filter fun i => -(Nat.pow 2 31 : Int) ≤ i && i < Nat.pow 2 31

/-- A text with blanks behind it, up to a width. -/
def padEnd (width : Nat) (s : String) : String :=
  s ++ String.ofList (List.replicate (width - s.length) ' ')

/-- A text with blanks in front of it, up to a width. -/
def padStart (width : Nat) (s : String) : String :=
  String.ofList (List.replicate (width - s.length) ' ') ++ s

end CommandConsole.Text
