import CommandConsole.Text.Blank
import CommandConsole.Text.Numeral

/-!
# Intervals of time

An interval is given as a decimal number of seconds, minutes, hours or days. It passes
through a binary number of 53 significant digits twice, once for the number as typed
and once for its product with the unit; after that it is rounded to nanoseconds, and a
started millisecond counts as a whole one. All roundings go to the nearest value, a tie
to the even one.
-/

namespace CommandConsole.Interval

/-- `num / den` rounded to a whole number, a tie to the even one. -/
def roundHalfEven (num den : Nat) : Nat :=
  let q := num / den
  let r := num % den
  if 2 * r < den then q
  else if den < 2 * r then q + 1
  else if q % 2 = 0 then q else q + 1

/-- A number that is not negative, as a fraction. -/
structure Fraction where
  num : Nat
  den : Nat
  deriving DecidableEq, Repr

/-- The nearest binary number of 53 significant digits with an exponent from -1074 on;
`none` if it is not below `2 ^ 1024`. -/
def toBinary? (f : Fraction) : Option Fraction :=
  if f.num = 0 then some ⟨0, 1⟩
  else
    let low : Int := (f.num.log2 : Int) - (f.den.log2 : Int) - 1
    -- the exponent of the leading digit is `low` or `low + 1`
    let lead : Int :=
      if (if low + 1 < 0 then f.den ≤ f.num * Nat.pow 2 (-(low + 1)).toNat
          else f.den * Nat.pow 2 (low + 1).toNat ≤ f.num) then low + 1 else low
    let unit : Int := max (lead - 52) (-1074)
    let rounded : Fraction :=
      if unit < 0 then
        ⟨roundHalfEven (f.num * Nat.pow 2 (-unit).toNat) f.den, Nat.pow 2 (-unit).toNat⟩
      else ⟨roundHalfEven f.num (f.den * Nat.pow 2 unit.toNat) * Nat.pow 2 unit.toNat, 1⟩
    if rounded.num < Nat.pow 2 1024 * rounded.den then some rounded else none

/-- The parts of a decimal number: digits before and behind the point, and an exponent. -/
structure Decimal where
  negative : Bool
  digits : List Char
  /-- The power of ten that the last digit counts. -/
  exponent : Int

/-- The exponent behind an `e`; without one it is zero. -/
def exponent? (cs : List Char) : Option Int :=
  match cs with
  | [] => some 0
  | e :: r =>
    if e = 'e' || e = 'E' then
      match r with
      | '-' :: ds => (Text.digits? ds).map fun n => -(n : Int)
      | '+' :: ds => (Text.digits? ds).map Int.ofNat
      | ds => (Text.digits? ds).map Int.ofNat
    else none

/-- Reads a decimal number: a sign, digits with at most one point among them, and an
exponent. -/
def Decimal.read? (cs : List Char) : Option Decimal := do
  let (negative, r) :=
    match cs with
    | '-' :: r => (true, r)
    | '+' :: r => (false, r)
    | r => (false, r)
  let whole := r.takeWhile Char.isDigit
  let behind := r.dropWhile Char.isDigit
  let (fraction, rest) :=
    match behind with
    | '.' :: s => (s.takeWhile Char.isDigit, s.dropWhile Char.isDigit)
    | s => ([], s)
  if whole.isEmpty && fraction.isEmpty then none
  else
    let e ← exponent? rest
    some ⟨negative, whole ++ fraction, e - fraction.length⟩

/-- The size of a decimal number, rounded to a binary number; `none` if it is too large.
Numbers far beyond the range of binary numbers are settled by their length. -/
def Decimal.toBinary? (d : Decimal) : Option Fraction :=
  let digits := d.digits.dropWhile (· == '0')
  if digits.isEmpty then some ⟨0, 1⟩
  else
    let top : Int := d.exponent + digits.length
    if 400 < top then none
    else if top < -400 then some ⟨0, 1⟩
    else
      let n := Text.digitsValue digits
      Interval.toBinary?
        (if d.exponent < 0 then ⟨n, Nat.pow 10 (-d.exponent).toNat⟩
          else ⟨n * Nat.pow 10 d.exponent.toNat, 1⟩)

/-- The unit behind a number, in seconds, and the number in front of it. -/
def unit (cs : List Char) : Nat × List Char :=
  match cs.reverse with
  | 's' :: r => (1, r.reverse)
  | 'm' :: r => (60, r.reverse)
  | 'h' :: r => (3600, r.reverse)
  | 'd' :: r => (86400, r.reverse)
  | _ => (1, cs)

/-- Reads an interval, in milliseconds. -/
def read? (text : String) : Option Nat := do
  let (seconds, number) := unit (Text.trimChars text.toList)
  let d ← Decimal.read? number
  let typed ← d.toBinary?
  if d.negative && typed.num ≠ 0 then none
  else
    let product ← toBinary? ⟨typed.num * seconds, typed.den⟩
    let nanos := roundHalfEven (product.num * Nat.pow 10 9) product.den
    if Nat.pow 2 64 * Nat.pow 10 9 ≤ nanos then none else some ((nanos + 999999) / 1000000)

/-- Thirty years, in milliseconds: an interval that long never ends. -/
def never : Nat := 30 * 365 * 86400 * 1000

/-- The interval as a span to wait for. -/
def span (ms : Nat) : Option Nat := if never ≤ ms then none else some ms

end CommandConsole.Interval
