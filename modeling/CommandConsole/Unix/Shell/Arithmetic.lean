/-!
# Arithmetic in scripts

Whole numbers, variables, brackets and the usual operators. Comparisons come to one or
zero, and division goes toward zero.
-/

namespace CommandConsole.Unix.Shell

/-- The operators by how strongly they bind, the weakest first. -/
def operatorLevels : List (List String) :=
  [["||"], ["&&"], ["==", "!="], ["<=", ">=", "<", ">"], ["+", "-"], ["*", "/", "%"]]

/-- One for true, zero for false. -/
def truth (b : Bool) : Int := if b then 1 else 0

/-- Why an expression has no value. -/
inductive ArithmeticFault where
  /-- Something else stands where a number, a variable or a bracket should. -/
  | noPrimary
  /-- Something is left behind the expression. -/
  | notAtEnd
  | divisionByZero
  deriving DecidableEq, Repr, Inhabited

/-- What is said of a fault in an expression. -/
def ArithmeticFault.message (fault : ArithmeticFault) (expression : String) : String :=
  let reason := match fault with
    | .noPrimary => "expecting primary"
    | .notAtEnd => "expecting EOF"
    | .divisionByZero => "division by zero"
  "arithmetic expression: " ++ reason ++ ": \"" ++ expression ++ "\""

/-- Applies an operator; there is no division by zero. -/
def applyOperator (o : String) (a b : Int) : Except ArithmeticFault Int :=
  match o with
  | "||" => .ok (truth (a ≠ 0 || b ≠ 0))
  | "&&" => .ok (truth (a ≠ 0 && b ≠ 0))
  | "==" => .ok (truth (a = b))
  | "!=" => .ok (truth (a ≠ b))
  | "<=" => .ok (truth (a ≤ b))
  | ">=" => .ok (truth (b ≤ a))
  | "<" => .ok (truth (a < b))
  | ">" => .ok (truth (b < a))
  | "+" => .ok (a + b)
  | "-" => .ok (a - b)
  | "*" => .ok (a * b)
  | "/" => if b = 0 then .error .divisionByZero else .ok (a.tdiv b)
  | _ => if b = 0 then .error .divisionByZero else .ok (a.tmod b)

/-- Drops blanks. -/
def skipBlank (cs : List Char) : List Char :=
  cs.dropWhile fun c => c == ' ' || c == '\t' || c == '\n'

/-- A number: a zero in front makes it octal, and an `x` behind that zero hexadecimal. -/
def number? (token : List Char) : Option Nat :=
  let digitsIn (base : Nat) (cs : List Char) : Option Nat :=
    cs.foldl
      (fun v c => do
        let v ← v
        let d ← if c.isDigit then some (c.toNat - '0'.toNat)
          else if c.isAlpha then some (c.toLower.toNat - 'a'.toNat + 10)
          else none
        if d < base then some (v * base + d) else none)
      (some 0)
  match token with
  | '0' :: 'x' :: r => digitsIn 16 r
  | '0' :: r => digitsIn 8 r
  | _ => digitsIn 10 token

mutual

/-- The value of an expression whose operators bind at least as strongly as the first
level given; `look` gives the values of variables. -/
def valueAt (look : String → Int) :
    Nat → List (List String) → List Char → Except ArithmeticFault (Int × List Char)
  | 0, _, _ => .error .noPrimary
  | n + 1, [], cs =>
    match skipBlank cs with
    | '(' :: r => do
      let (v, s) ← valueAt look n operatorLevels r
      match skipBlank s with
      | ')' :: t => .ok (v, t)
      | _ => .error .notAtEnd
    | '-' :: r => (valueAt look n [] r).map fun (v, s) => (-v, s)
    | '+' :: r => valueAt look n [] r
    | '!' :: r => (valueAt look n [] r).map fun (v, s) => (truth (v = 0), s)
    | c :: r =>
      let token := (c :: r).takeWhile fun d => d.isAlphanum || d == '_'
      if token.isEmpty then .error .noPrimary
      else
        let rest := (c :: r).drop token.length
        if c.isDigit then (number? token).elim (.error .noPrimary) fun v => .ok (Int.ofNat v, rest)
        else .ok (look (String.ofList token), rest)
    | [] => .error .noPrimary
  | n + 1, level :: stronger, cs => do
    let (v, r) ← valueAt look n stronger cs
    more look n level stronger v r

/-- Goes on with the operators of a level, from left to right. -/
def more (look : String → Int) :
    Nat → List String → List (List String) → Int → List Char →
      Except ArithmeticFault (Int × List Char)
  | 0, _, _, _, _ => .error .noPrimary
  | n + 1, level, stronger, v, cs =>
    let s := skipBlank cs
    match level.find? fun o => o.toList.isPrefixOf s with
    | none => .ok (v, cs)
    | some o => do
      let (w, r) ← valueAt look n stronger (s.drop o.length)
      let u ← applyOperator o v w
      more look n level stronger u r

end

/-- The value of an expression. Where there is none, it is zero. -/
def value (look : String → Int) (expression : String) : Except ArithmeticFault Int :=
  let cs := expression.toList
  if (skipBlank cs).isEmpty then .ok 0
  else do
    let (v, rest) ← valueAt look (20 * cs.length + 20) operatorLevels cs
    if (skipBlank rest).isEmpty then .ok v else .error .notAtEnd

end CommandConsole.Unix.Shell
