/-!
# Texts and keys in TOML

Readers take something off the front of a text and return the rest, or fail. This
module reads filler (blanks, line ends, comments), the four kinds of string, and keys.
-/

namespace CommandConsole.Toml

/-- Takes something off the front of a text. -/
abbrev Reader (α : Type) := List Char → Option (α × List Char)

/-- Blanks within a line. -/
def isGap (c : Char) : Bool := c == ' ' || c == '\t'

/-- Drops the blanks in front. -/
def skipGap (cs : List Char) : List Char := cs.dropWhile isGap

/-- The characters a comment may hold. -/
def isCommentChar (c : Char) : Bool := c == '\t' || 0x20 ≤ c.toNat

/-- The characters a string may hold besides its quotes and escapes. -/
def isTextChar (c : Char) : Bool := c == '\t' || (0x20 ≤ c.toNat && c.toNat ≠ 0x7F)

/-- Drops blanks, line ends and comments; fails at a control character in a comment. -/
def skipFiller (inComment : Bool) : List Char → Option (List Char)
  | [] => some []
  | '\n' :: r => skipFiller false r
  | '\r' :: '\n' :: r => skipFiller false r
  | c :: r =>
    if inComment then if isCommentChar c then skipFiller true r else none
    else if isGap c then skipFiller false r
    else if c = '#' then skipFiller true r
    else some (c :: r)

/-- Drops the rest of a comment, up to the line end. -/
def skipComment : List Char → Option (List Char)
  | [] => some []
  | '\n' :: r => some ('\n' :: r)
  | '\r' :: '\n' :: r => some ('\n' :: r)
  | c :: r => if isCommentChar c then skipComment r else none

/-- Finishes a line: blanks, perhaps a comment, and a line end unless the text is over. -/
def endLine (cs : List Char) : Option (List Char) :=
  match skipGap cs with
  | '#' :: r => (skipComment r).bind lineEnd
  | r => lineEnd r
where
  lineEnd : List Char → Option (List Char)
    | [] => some []
    | '\n' :: r => some r
    | '\r' :: '\n' :: r => some r
    | _ => none

/-! ## Strings -/

/-- The value of a hexadecimal digit. -/
def hexValue? (c : Char) : Option Nat :=
  if c.isDigit then some (c.toNat - '0'.toNat)
  else if 'a' ≤ c && c ≤ 'f' then some (c.toNat - 'a'.toNat + 10)
  else if 'A' ≤ c && c ≤ 'F' then some (c.toNat - 'A'.toNat + 10)
  else none

/-- The character that hexadecimal digits name. -/
def codePoint? (digits : List Char) : Option Char := do
  let n ← digits.foldlM (fun acc c => (hexValue? c).map (acc * 16 + ·)) 0
  if n < 0xD800 || (0xDFFF < n && n < 0x110000) then some (Char.ofNat n) else none

/-- The character behind a backslash. -/
def simpleEscape? : Char → Option Char
  | 'b' => some '\x08'
  | 't' => some '\t'
  | 'n' => some '\n'
  | 'f' => some '\x0c'
  | 'r' => some '\r'
  | '"' => some '"'
  | '\\' => some '\\'
  | _ => none

/-- Adds a character in front of what a reader gave. -/
def consText (c : Char) (rest : Option (List Char × List Char)) : Option (List Char × List Char) :=
  rest.map fun (s, r) => (c :: s, r)

/-- The rest of a string between double quotes. -/
def basicBody : Reader (List Char)
  | [] => none
  | '"' :: r => some ([], r)
  | '\\' :: 'u' :: a :: b :: c :: d :: r =>
    (codePoint? [a, b, c, d]).bind fun x => consText x (basicBody r)
  | '\\' :: 'U' :: a :: b :: c :: d :: e :: f :: g :: h :: r =>
    (codePoint? [a, b, c, d, e, f, g, h]).bind fun x => consText x (basicBody r)
  | '\\' :: e :: r => (simpleEscape? e).bind fun x => consText x (basicBody r)
  | c :: r => if isTextChar c && c != '\\' then consText c (basicBody r) else none

/-- The rest of a string between single quotes. -/
def literalBody : Reader (List Char)
  | [] => none
  | '\'' :: r => some ([], r)
  | c :: r => if isTextChar c then consText c (literalBody r) else none

/-- Whether blanks and a line end follow: a backslash in front of them joins lines. -/
def joinsLines (cs : List Char) : Bool :=
  match skipGap cs with
  | '\n' :: _ => true
  | '\r' :: '\n' :: _ => true
  | _ => false

/-- The rest of a string between three double quotes; `joining` while the blanks behind
a joining backslash are dropped. -/
def longBasicBody (joining : Bool) : Reader (List Char)
  | [] => none
  | '"' :: '"' :: '"' :: '"' :: '"' :: r => some (['"', '"'], r)
  | '"' :: '"' :: '"' :: '"' :: r => some (['"'], r)
  | '"' :: '"' :: '"' :: r => some ([], r)
  | '\n' :: r => if joining then longBasicBody true r else consText '\n' (longBasicBody false r)
  | '\r' :: '\n' :: r =>
    if joining then longBasicBody true r else consText '\n' (longBasicBody false r)
  | '\\' :: 'u' :: a :: b :: c :: d :: r =>
    (codePoint? [a, b, c, d]).bind fun x => consText x (longBasicBody false r)
  | '\\' :: 'U' :: a :: b :: c :: d :: e :: f :: g :: h :: r =>
    (codePoint? [a, b, c, d, e, f, g, h]).bind fun x => consText x (longBasicBody false r)
  | '\\' :: e :: r =>
    if joinsLines (e :: r) then longBasicBody true (e :: r)
    else (simpleEscape? e).bind fun x => consText x (longBasicBody false r)
  | c :: r =>
    if joining && isGap c then longBasicBody true r
    else if isTextChar c && c != '\\' then consText c (longBasicBody false r)
    else none

/-- The rest of a string between three single quotes. -/
def longLiteralBody : Reader (List Char)
  | [] => none
  | '\'' :: '\'' :: '\'' :: '\'' :: '\'' :: r => some (['\'', '\''], r)
  | '\'' :: '\'' :: '\'' :: '\'' :: r => some (['\''], r)
  | '\'' :: '\'' :: '\'' :: r => some ([], r)
  | '\r' :: '\n' :: r => consText '\n' (longLiteralBody r)
  | c :: r => if c = '\n' || isTextChar c then consText c (longLiteralBody r) else none

/-- Drops a line end right behind opening quotes. -/
def dropFirstLineEnd : List Char → List Char
  | '\n' :: r => r
  | '\r' :: '\n' :: r => r
  | cs => cs

/-- A string of any kind. -/
def string? (cs : List Char) : Option (String × List Char) :=
  let made (body : Option (List Char × List Char)) := body.map fun (s, r) => (String.ofList s, r)
  match cs with
  | '"' :: '"' :: '"' :: r => made (longBasicBody false (dropFirstLineEnd r))
  | '"' :: r => made (basicBody r)
  | '\'' :: '\'' :: '\'' :: r => made (longLiteralBody (dropFirstLineEnd r))
  | '\'' :: r => made (literalBody r)
  | _ => none

/-! ## Keys -/

/-- The characters of a key without quotes. -/
def isKeyChar (c : Char) : Bool := c.isAlphanum || c == '_' || c == '-'

/-- A key without dots. -/
def simpleKey? (cs : List Char) : Option (String × List Char) :=
  match cs with
  | '"' :: r => (basicBody r).map fun (s, t) => (String.ofList s, t)
  | '\'' :: r => (literalBody r).map fun (s, t) => (String.ofList s, t)
  | _ =>
    let key := cs.takeWhile isKeyChar
    if key.isEmpty then none else some (String.ofList key, cs.dropWhile isKeyChar)

/-- A key with dots, of at most `n` parts. -/
def keyUpTo : Nat → Reader (List String)
  | 0, _ => none
  | n + 1, cs => do
    let (key, r) ← simpleKey? cs
    match skipGap r with
    | '.' :: s =>
      let (keys, t) ← keyUpTo n (skipGap s)
      some (key :: keys, t)
    | _ => some ([key], r)

/-- A key, dotted or not. -/
def key? (cs : List Char) : Option (List String × List Char) := keyUpTo cs.length cs

end CommandConsole.Toml
