import CommandConsole.Text.Numeral
import CommandConsole.Unix.Frame

/-!
# Fields and escapes

How expanded words and lines are cut into fields, and how `echo` and `printf` read the escapes in
their arguments.
-/

namespace CommandConsole.Unix.Shell

/-- A part of a word after expansion. -/
inductive Expanded where
  /-- Was quoted. -/
  | solid (s : String)
  /-- Was typed without quotes. -/
  | plain (s : String)
  /-- Is the value of something without quotes, which is cut into fields. -/
  | soft (s : String)
  /-- Ends a field. -/
  | gap
  deriving Repr, Inhabited

/-- The same part as the value of something without quotes. -/
def Expanded.softened : Expanded → Expanded
  | .plain s => .soft s
  | e => e

/-- The text of a word that is not cut. -/
def joined (parts : List Expanded) : String :=
  String.join (parts.map fun
    | .solid s | .plain s | .soft s => s
    | .gap => " ")

/-- The characters of a word, each with whether it was quoted. -/
def marked (parts : List Expanded) : List (Bool × Char) :=
  parts.flatMap fun
    | .solid s => s.toList.map (true, ·)
    | .plain s | .soft s => s.toList.map (false, ·)
    | .gap => [(true, ' ')]

/-! ## Fields -/

/-- The characters at which values are cut unless a variable says otherwise. -/
def standardSeparators : String := " \t\n"

/-- Whether a character separates, and any number of it separates only once. -/
def isLooseSeparator (separators : List Char) (c : Char) : Bool :=
  (c == ' ' || c == '\t' || c == '\n') && separators.contains c

/-- The fields that were cut, latest first, and the one at hand. -/
structure Cut where
  /-- The field at hand, backwards. -/
  current : Option (List Char)
  fields : List (List Char)
  /-- Whether a loose separator ended the last field. -/
  atGap : Bool

namespace Cut

/-- Nothing cut yet. -/
def nothing : Cut := ⟨none, [], false⟩

/-- Ends the field at hand. -/
def ended (c : Cut) : Cut :=
  match c.current with
  | some field => ⟨none, field :: c.fields, false⟩
  | none => { c with atGap := false }

/-- Adds a text to the field at hand. -/
def grow (c : Cut) (s : List Char) : Cut :=
  ⟨some (s.reverse ++ c.current.getD []), c.fields, false⟩

/-- Takes in a character of a value. A separator that is not loose ends a field even if
there is nothing in it, unless loose ones just did. -/
def take (separators : List Char) (c : Cut) (x : Char) : Cut :=
  if isLooseSeparator separators x then
    if c.current.isSome then { c.ended with atGap := true } else c
  else if separators.contains x then
    if c.current.isNone && c.atGap then { c with atGap := false }
    else ⟨none, c.current.getD [] :: c.fields, false⟩
  else c.grow [x]

/-- Takes in a part of a word. -/
def takePart (separators : List Char) (c : Cut) : Expanded → Cut
  | .gap => c.ended
  | .solid s | .plain s => c.grow s.toList
  | .soft s => s.toList.foldl (take separators) c

end Cut

/-- The fields of a word. -/
def fields (separators : List Char) (parts : List Expanded) : List String :=
  (parts.foldl (Cut.takePart separators) .nothing).ended.fields.reverse.map fun field =>
    String.ofList field.reverse

/-- Cuts a line into as many words as there are names; the last one takes what is left. -/
def assignWords (separators : List Char) :
    List String → List Char → Dictionary String → Dictionary String
  | [], _, m => m
  | [name], cs, m =>
    let loose := isLooseSeparator separators
    m.insert name (String.ofList ((cs.dropWhile loose).reverse.dropWhile loose).reverse)
  | name :: names, cs, m =>
    let start := cs.dropWhile (isLooseSeparator separators)
    let w := start.takeWhile fun c => !separators.contains c
    let rest := (start.drop w.length).dropWhile (isLooseSeparator separators)
    let rest := if rest.head?.any separators.contains then rest.drop 1 else rest
    assignWords separators names rest (m.insert name (String.ofList w))

/-! ## Escapes -/

/-- The value of octal digits, at most `n`, and the text behind them. -/
def octal : Nat → Nat → List Char → Nat × List Char
  | 0, v, cs => (v, cs)
  | n + 1, v, c :: r =>
    if '0' ≤ c && c ≤ '7' then octal n (v * 8 + (c.toNat - '0'.toNat)) r else (v, c :: r)
  | _, v, [] => (v, [])

/-- The byte behind a backslash, where it is one of the usual letters. -/
def escapeByte? : Char → Option UInt8
  | 'a' => some 7
  | 'b' => some 8
  | 'f' => some 12
  | 'n' => some 10
  | 'r' => some 13
  | 't' => some 9
  | 'v' => some 11
  | '\\' => some 92
  | _ => none

/-- The bytes of a character. -/
def charBytes (c : Char) : List UInt8 := Text.encode (String.ofList [c])

/-- The bytes of a text in which octal numbers stand behind a backslash and a zero.
The answer also says whether `\c` asked for silence from there on. -/
def echoBytes : Nat → List Char → List UInt8 × Bool
  | 0, _ => ([], false)
  | _, [] => ([], false)
  | n + 1, '\\' :: c :: r =>
    let go (bytes : List UInt8) (rest : List Char) : List UInt8 × Bool :=
      let (more, silent) := echoBytes n rest
      (bytes ++ more, silent)
    match escapeByte? c with
    | some b => go [b] r
    | none =>
      if c = 'c' then ([], true)
      else if c = '0' then
        let (v, s) := octal 3 0 r
        go [UInt8.ofNat v] s
      else go (92 :: charBytes c) r
  | n + 1, c :: r =>
    let (more, silent) := echoBytes n r
    (charBytes c ++ more, silent)

/-- The bytes of a text with escapes as `echo` reads them. -/
def echoText (s : String) : List UInt8 × Bool := echoBytes (s.length + 1) s.toList

/-! ## Formats -/

/-- A text filled up to a width, behind or in front. -/
def fillTo (width : Nat) (left zeros : Bool) (bytes : List UInt8) : List UInt8 :=
  let missing := width - bytes.length
  if left then bytes ++ List.replicate missing 32
  else List.replicate missing (if zeros then 48 else 32) ++ bytes

/-- A number in some base. -/
def inBase (base : Nat) (upper : Bool) (i : Int) : String :=
  let digits := Nat.toDigits base i.natAbs
  (if i < 0 then "-" else "") ++
    String.ofList (if upper then digits.map Char.toUpper else digits)

/-- One round through a format. Comes to what is printed and the arguments left. -/
def formatOnce : Nat → List Char → List String → List UInt8 × List String
  | 0, _, args => ([], args)
  | _, [], args => ([], args)
  | n + 1, '\\' :: c :: r, args =>
    let go (bytes : List UInt8) (rest : List Char) : List UInt8 × List String :=
      let (more, left) := formatOnce n rest args
      (bytes ++ more, left)
    match escapeByte? c with
    | some b => go [b] r
    | none =>
      if '0' ≤ c && c ≤ '7' then
        let (v, s) := octal 3 0 (c :: r)
        go [UInt8.ofNat v] s
      else go (92 :: charBytes c) r
  | n + 1, '%' :: '%' :: r, args =>
    let (more, left) := formatOnce n r args
    (37 :: more, left)
  | n + 1, '%' :: r, args =>
    let flags := r.takeWhile fun c => c == '-' || c == '0' || c == '+' || c == ' '
    let r := r.drop flags.length
    let width := r.takeWhile Char.isDigit
    let r := r.drop width.length
    let precision := match r with
      | '.' :: s => some (s.takeWhile Char.isDigit)
      | _ => none
    let r := match precision with
      | some p => r.drop (p.length + 1)
      | none => r
    let arg := args.headD ""
    let number : Int := (Text.integer32? arg).getD 0
    let fill (zeros : Bool) := fillTo (Text.digitsValue width) (flags.contains '-') zeros
    let zeros := flags.contains '0'
    let cut (bytes : List UInt8) : List UInt8 :=
      match precision with
      | some p => bytes.take (Text.digitsValue p)
      | none => bytes
    let bytes : List UInt8 :=
      match r.head? with
      | some 's' => fill false (cut (Text.encode arg))
      | some 'b' => fill false (cut (echoText arg).1)
      | some 'c' => fill false ((Text.encode arg).take 1)
      | some 'd' | some 'i' | some 'u' => fill zeros (Text.encode (toString number))
      | some 'x' => fill zeros (Text.encode (inBase 16 false number))
      | some 'X' => fill zeros (Text.encode (inBase 16 true number))
      | some 'o' => fill zeros (Text.encode (inBase 8 false number))
      | _ => []
    let (more, left) := formatOnce n (r.drop 1) (args.drop 1)
    (bytes ++ more, left)
  | n + 1, c :: r, args =>
    let (more, left) := formatOnce n r args
    (charBytes c ++ more, left)

/-- What `printf` prints: the format is gone through again while arguments are left. -/
def format : Nat → String → List String → List UInt8
  | 0, _, _ => []
  | n + 1, pattern, args =>
    let (bytes, left) := formatOnce (pattern.length + 1) pattern.toList args
    if left.isEmpty || left.length = args.length then bytes else bytes ++ format n pattern left

end CommandConsole.Unix.Shell
