import CommandConsole.Toml.Text
import CommandConsole.Toml.Value

/-!
# Numbers and moments in TOML

Integers have 64 bits and may be written in four bases, with single underscores between
digits. Floating-point numbers are checked for their form only. Dates and times are
checked against the calendar.
-/

namespace CommandConsole.Toml

/-- Digits, each but the first perhaps behind an underscore, as far as they go. -/
def moreDigits (isDigit : Char → Bool) : List Char → List Char × List Char
  | '_' :: c :: r =>
    if isDigit c then
      let (ds, rest) := moreDigits isDigit r
      (c :: ds, rest)
    else ([], '_' :: c :: r)
  | c :: r =>
    if isDigit c then
      let (ds, rest) := moreDigits isDigit r
      (c :: ds, rest)
    else ([], c :: r)
  | [] => ([], [])

/-- At least one digit. -/
def digits? (isDigit : Char → Bool) : Reader (List Char)
  | c :: r =>
    if isDigit c then
      let (ds, rest) := moreDigits isDigit r
      some (c :: ds, rest)
    else none
  | [] => none

/-- Whether a minus sign stands in front, and the text behind the sign. -/
def sign (cs : List Char) : Bool × List Char :=
  match cs with
  | '+' :: r => (false, r)
  | '-' :: r => (true, r)
  | _ => (false, cs)

/-- A decimal integer without a leading zero: sign and digits. -/
def decimal? (cs : List Char) : Option ((Bool × List Char) × List Char) :=
  let (negative, r) := sign cs
  match r with
  | '0' :: s => some ((negative, ['0']), s)
  | _ => (digits? Char.isDigit r).map fun (ds, s) => ((negative, ds), s)

/-- The number that digits spell in a base. -/
def valueOf (base : Nat) (digits : List Char) : Nat :=
  digits.foldl (fun n c => n * base + (hexValue? c).getD 0) 0

/-- An integer that 64 bits hold. -/
def fits? (i : Int) : Option Value :=
  if -(Nat.pow 2 63 : Int) ≤ i && i < Nat.pow 2 63 then some (.integer i) else none

/-- An integer in one of the four bases. -/
def integer? (cs : List Char) : Option (Value × List Char) :=
  let based (base : Nat) (isDigit : Char → Bool) (r : List Char) : Option (Value × List Char) := do
    let (ds, rest) ← digits? isDigit r
    let v ← fits? (valueOf base ds)
    some (v, rest)
  match cs with
  | '0' :: 'x' :: r => based 16 (fun c => (hexValue? c).isSome) r
  | '0' :: 'o' :: r => based 8 (fun c => '0' ≤ c && c ≤ '7') r
  | '0' :: 'b' :: r => based 2 (fun c => c == '0' || c == '1') r
  | _ => do
    let ((negative, ds), rest) ← decimal? cs
    let n : Int := valueOf 10 ds
    let v ← fits? (if negative then -n else n)
    some (v, rest)

/-- The exponent of a floating-point number. -/
def exponent? (cs : List Char) : Option (List Char) :=
  match cs with
  | c :: r =>
    if c = 'e' || c = 'E' then (digits? Char.isDigit (sign r).2).map Prod.snd else none
  | [] => none

/-- A floating-point number: a decimal integer with a fraction, an exponent or both, or
one of the special numbers. -/
def real? (cs : List Char) : Option (Value × List Char) :=
  let typed (rest : List Char) : Value × List Char :=
    (.real (String.ofList (cs.take (cs.length - rest.length))), rest)
  match (sign cs).2 with
  | 'i' :: 'n' :: 'f' :: r => some (typed r)
  | 'n' :: 'a' :: 'n' :: r => some (typed r)
  | _ => do
    let (_, r) ← decimal? cs
    match r with
    | '.' :: s =>
      let (_, t) ← digits? Char.isDigit s
      some (typed ((exponent? t).getD t))
    | _ => (exponent? r).map typed

/-! ## Moments -/

/-- A number of exactly `n` digits, between two bounds. -/
def fixed? (n low high : Nat) (cs : List Char) : Option (Nat × List Char) :=
  let ds := cs.take n
  let v := valueOf 10 ds
  if ds.length = n && ds.all Char.isDigit && low ≤ v && v ≤ high then some (v, cs.drop n) else none

/-- Takes one given character off. -/
def mark? (c : Char) : List Char → Option (List Char)
  | d :: r => if d = c then some r else none
  | [] => none

/-- The number of days in a month. -/
def daysIn (year month : Nat) : Nat :=
  if month = 2 then
    if year % 4 = 0 && (year % 100 ≠ 0 || year % 400 = 0) then 29 else 28
  else if month = 4 || month = 6 || month = 9 || month = 11 then 30
  else 31

/-- A date, and the text behind it. -/
def date? (cs : List Char) : Option (List Char) := do
  let (year, r) ← fixed? 4 0 9999 cs
  let r ← mark? '-' r
  let (month, r) ← fixed? 2 1 12 r
  let r ← mark? '-' r
  let (_, r) ← fixed? 2 1 (daysIn year month) r
  some r

/-- A time of day in normal form: the fraction has at most nine digits and ends in none
that is zero. -/
def clock? (cs : List Char) : Option (List Char × List Char) := do
  let (_, r) ← fixed? 2 0 23 cs
  let r ← mark? ':' r
  let (_, r) ← fixed? 2 0 59 r
  let r ← mark? ':' r
  let (_, r) ← fixed? 2 0 60 r
  let whole := cs.take 8
  match r with
  | '.' :: s =>
    let fraction := s.takeWhile Char.isDigit
    if fraction.isEmpty then some (whole, r)
    else
      let kept := ((fraction.take 9).reverse.dropWhile (· == '0')).reverse
      some (if kept.isEmpty then whole else whole ++ '.' :: kept, s.dropWhile Char.isDigit)
  | _ => some (whole, r)

/-- An offset from universal time, in normal form. -/
def offset? (cs : List Char) : Option (List Char × List Char) :=
  match cs with
  | 'Z' :: r | 'z' :: r => some (['Z'], r)
  | c :: r =>
    if c = '+' || c = '-' then do
      let (hours, s) ← fixed? 2 0 23 r
      let s ← mark? ':' s
      let (minutes, s) ← fixed? 2 0 59 s
      some ((if hours = 0 && minutes = 0 then '+' else c) :: r.take 5, s)
    else none
  | [] => none

/-- A date, a time, or both with an optional offset. -/
def moment? (cs : List Char) : Option (Value × List Char) :=
  let made (text rest : List Char) : Value × List Char := (.moment (String.ofList text), rest)
  match date? cs with
  | none => (clock? cs).map fun (t, r) => made t r
  | some r =>
    let date := cs.take 10
    let withTime : Option (Value × List Char) :=
      match r with
      | c :: s =>
        if c = 'T' || c = 't' || c = ' ' then
          (clock? s).map fun (t, u) =>
            match offset? u with
            | some (o, v) => made (date ++ 'T' :: t ++ o) v
            | none => made (date ++ 'T' :: t) u
        else none
      | [] => none
    withTime.getD (made date r)

/-- A number or a moment. -/
def number? (cs : List Char) : Option (Value × List Char) :=
  moment? cs <|> real? cs <|> integer? cs

end CommandConsole.Toml
