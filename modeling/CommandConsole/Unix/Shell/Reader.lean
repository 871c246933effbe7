import CommandConsole.Text.Numeral
import CommandConsole.Unix.Shell.Script

/-!
# Reading scripts

A script is cut into tokens (words, operators, descriptor numbers), and the tokens are
put together to commands. A script that breaks off within a command is not read.
-/

namespace CommandConsole.Unix.Shell

/-- A token of a script. -/
inductive Token where
  | word (w : Word)
  | operator (s : String)
  /-- A number right in front of a redirection. -/
  | descriptor (n : Nat)
  deriving Repr, Inhabited

/-! ## Words -/

/-- The characters of a name. -/
def isNameChar (c : Char) : Bool := c.isAlphanum || c == '_'

/-- The parameters whose name is a single sign. -/
def isSpecialParameter (c : Char) : Bool := "@*#?$!-".toList.contains c || c.isDigit

/-- Takes the text up to the bracket that closes the open one; quotes hide brackets. -/
def untilClosing (opening closing : Char) : Nat → Nat → List Char → Option (List Char × List Char)
  | 0, _, _ => none
  | _, _, [] => none
  | n + 1, depth, c :: r =>
    if c = '\'' then
      let inner := r.takeWhile (· ≠ '\'')
      (untilClosing opening closing n depth (r.drop (inner.length + 1))).map fun (s, t) =>
        (c :: inner ++ '\'' :: s, t)
    else if c = '\\' then
      (untilClosing opening closing n depth (r.drop 1)).map fun (s, t) => (c :: r.take 1 ++ s, t)
    else if c = closing then
      if depth = 0 then some ([], r)
      else (untilClosing opening closing n (depth - 1) r).map fun (s, t) => (c :: s, t)
    else
      let depth := if c = opening then depth + 1 else depth
      (untilClosing opening closing n depth r).map fun (s, t) => (c :: s, t)

/-- Puts a character in front of a word, into its first part if that is such a text. -/
def consChar (quoted : Bool) (c : Char) : Word → Word
  | .text q s :: ps =>
    if q = quoted then .text q (String.ofList (c :: s.toList)) :: ps
    else .text quoted (String.ofList [c]) :: .text q s :: ps
  | ps => .text quoted (String.ofList [c]) :: ps

/-- The parameter that stands in braces, and what follows its name. -/
def braceName (cs : List Char) : List Char × List Char :=
  let name := match cs with
    | c :: _ => if isNameChar c then cs.takeWhile isNameChar else [c]
    | [] => []
  (name, cs.drop name.length)

/-- What follows the name of a parameter in braces: an adjustment and its word. -/
def adjustment? : List Char → Option (Adjustment × List Char)
  | ':' :: '-' :: r => some (.orElse true, r)
  | '-' :: r => some (.orElse false, r)
  | ':' :: '=' :: r => some (.assigning true, r)
  | '=' :: r => some (.assigning false, r)
  | ':' :: '+' :: r => some (.instead true, r)
  | '+' :: r => some (.instead false, r)
  | ':' :: '?' :: r => some (.demanded true, r)
  | '?' :: r => some (.demanded false, r)
  | '#' :: '#' :: r => some (.withoutFront true, r)
  | '#' :: r => some (.withoutFront false, r)
  | '%' :: '%' :: r => some (.withoutEnd true, r)
  | '%' :: r => some (.withoutEnd false, r)
  | _ => none

/-- The characters that end a word. -/
def endsBareWord (c : Char) : Bool := " \t\n;&|<>()".toList.contains c

mutual

/-- The part behind a dollar sign. -/
def dollar : Nat → Bool → List Char → Option (WordPart × List Char)
  | 0, _, _ => none
  | n + 1, quoted, cs =>
    match cs with
    | '(' :: '(' :: r =>
      match untilClosing '(' ')' r.length 0 r with
      | some (e, ')' :: s) => do
        let (w, _) ← doubleQuoted n (e ++ ['"'])
        some (.arithmetic quoted w, s)
      | _ => none
    | '(' :: r =>
      (untilClosing '(' ')' (r.length + 1) 0 r).map fun (e, s) =>
        (.output quoted (String.ofList e), s)
    | '{' :: r => do
      let (e, s) ← untilClosing '{' '}' (r.length + 1) 0 r
      let p ← inBraces n quoted e
      some (p, s)
    | c :: r =>
      if isSpecialParameter c then some (.parameter quoted (String.ofList [c]), r)
      else if isNameChar c then
        let name := cs.takeWhile isNameChar
        some (.parameter quoted (String.ofList name), cs.drop name.length)
      else some (.text quoted "$", cs)
    | [] => some (.text quoted "$", [])

/-- A parameter in braces. -/
def inBraces : Nat → Bool → List Char → Option WordPart
  | 0, _, _ => none
  | n + 1, quoted, cs =>
    match cs with
    | '#' :: c :: r => some (.adjusted quoted (String.ofList (c :: r)) .length [])
    | _ =>
      let (name, rest) := braceName cs
      match adjustment? rest with
      | some (how, e) => do
        let (w, _) ← if quoted then doubleQuoted n (e ++ ['"']) else word n true e
        some (.adjusted quoted (String.ofList name) how w)
      | none => some (.parameter quoted (String.ofList name))

/-- The rest of a text between double quotes. -/
def doubleQuoted : Nat → List Char → Option (Word × List Char)
  | 0, _ => none
  | _, [] => none
  | n + 1, c :: r =>
    match c, r with
    | '"', _ => some ([], r)
    | '\\', d :: s =>
      if d = '$' || d = '"' || d = '\\' || d = Char.ofNat 96 then
        (doubleQuoted n s).map fun (w, t) => (consChar true d w, t)
      else if d = '\n' then doubleQuoted n s
      else (doubleQuoted n r).map fun (w, t) => (consChar true c w, t)
    | '$', _ => do
      let (p, s) ← dollar n true r
      let (w, t) ← doubleQuoted n s
      some (p :: w, t)
    | _, _ =>
      if c = Char.ofNat 96 then do
        let inner := r.takeWhile (· ≠ c)
        let (w, t) ← doubleQuoted n (r.drop (inner.length + 1))
        some (.output true (String.ofList inner) :: w, t)
      else (doubleQuoted n r).map fun (w, t) => (consChar true c w, t)

/-- A word, which takes up all there is if it is `whole`. -/
def word : Nat → Bool → List Char → Option (Word × List Char)
  | 0, _, _ => none
  | _, _, [] => some ([], [])
  | n + 1, whole, c :: r =>
    if endsBareWord c && !whole then some ([], c :: r)
    else
      match c, r with
      | '\\', '\n' :: s => word n whole s
      | '\\', d :: s => (word n whole s).map fun (w, t) => (consChar true d w, t)
      | '\'', _ => do
        let inner := r.takeWhile (· ≠ '\'')
        let _ ← (r.drop inner.length).head?
        let (w, t) ← word n whole (r.drop (inner.length + 1))
        some (.text true (String.ofList inner) :: w, t)
      | '"', _ => do
        let (inner, s) ← doubleQuoted n r
        let (w, t) ← word n whole s
        some ((if inner.isEmpty then [.text true ""] else inner) ++ w, t)
      | '$', _ => do
        let (p, s) ← dollar n false r
        let (w, t) ← word n whole s
        some (p :: w, t)
      | _, _ =>
        if c = Char.ofNat 96 then do
          let inner := r.takeWhile (· ≠ c)
          let _ ← (r.drop inner.length).head?
          let (w, t) ← word n whole (r.drop (inner.length + 1))
          some (.output false (String.ofList inner) :: w, t)
        else (word n whole r).map fun (w, t) => (consChar false c w, t)

end

/-! ## Tokens -/

/-- The operator in front. -/
def operator? : List Char → Option (String × List Char)
  | '&' :: '&' :: r => some ("&&", r)
  | '|' :: '|' :: r => some ("||", r)
  | ';' :: ';' :: r => some (";;", r)
  | '>' :: '>' :: r => some (">>", r)
  | '>' :: '&' :: r => some (">&", r)
  | '>' :: '|' :: r => some (">", r)
  | '<' :: '&' :: r => some ("<&", r)
  | '&' :: r => some ("&", r)
  | '|' :: r => some ("|", r)
  | ';' :: r => some (";", r)
  | '>' :: r => some (">", r)
  | '<' :: r => some ("<", r)
  | '(' :: r => some ("(", r)
  | ')' :: r => some (")", r)
  | '\n' :: r => some ("\n", r)
  | _ => none

/-- The tokens of a script. -/
def tokens : Nat → List Char → Option (List Token)
  | 0, _ => none
  | _, [] => some []
  | n + 1, c :: r =>
    if c = ' ' || c = '\t' || c = '\r' then tokens n r
    else if c = '#' then tokens n (r.dropWhile (· ≠ '\n'))
    else
      match operator? (c :: r) with
      | some (s, t) => (tokens n t).map (.operator s :: ·)
      | none =>
        let digits := (c :: r).takeWhile Char.isDigit
        let behind := (c :: r).drop digits.length
        if !digits.isEmpty && (behind.head? = some '>' || behind.head? = some '<') then
          (tokens n behind).map (.descriptor (Text.digitsValue digits) :: ·)
        else do
          let (w, t) ← word (4 * r.length + 8) false (c :: r)
          (tokens n t).map (.word w :: ·)

/-! ## Commands -/

/-- The text of a word that is typed without quotes or parameters. -/
def bareText? : Word → Option String
  | [.text false s] => some s
  | _ => none

/-- The words that end a list of commands. -/
def isCloser (s : String) : Bool :=
  ["then", "do", "done", "fi", "else", "elif", "\x7d", "esac"].contains s

/-- Drops line ends. -/
def skipLineEnds (ts : List Token) : List Token :=
  ts.dropWhile fun
    | .operator "\n" => true
    | _ => false

/-- Takes one given bare word off. -/
def expect (s : String) (ts : List Token) : Option (List Token) :=
  match ts with
  | .word w :: r => if bareText? w = some s then some r else none
  | .operator o :: r => if o = s then some r else none
  | _ => none

/-- The redirection that an operator makes of a descriptor and a word. -/
def redirection? (descriptor : Option Nat) (o : String) (w : Word) : Option Redirection :=
  match o with
  | ">" => some ⟨descriptor.getD 1, .file .writing w⟩
  | ">>" => some ⟨descriptor.getD 1, .file .appending w⟩
  | "<" => some ⟨descriptor.getD 0, .file .reading w⟩
  | ">&" => (bareText? w).bind fun s => (Text.count? s).map fun n => ⟨descriptor.getD 1, .copyOf n⟩
  | "<&" => (bareText? w).bind fun s => (Text.count? s).map fun n => ⟨descriptor.getD 0, .copyOf n⟩
  | _ => none

/-- The redirections in front. -/
def redirections : Nat → List Token → List Redirection × List Token
  | 0, ts => ([], ts)
  | n + 1, ts =>
    let go (d : Option Nat) (o : String) (w : Word) (r : List Token) :
        List Redirection × List Token :=
      match redirection? d o w with
      | some x =>
        let (xs, t) := redirections n r
        (x :: xs, t)
      | none => ([], ts)
    match ts with
    | .descriptor d :: .operator o :: .word w :: r => go (some d) o w r
    | .operator o :: .word w :: r => go none o w r
    | _ => ([], ts)

/-- The assignment that a word makes, if it makes one. -/
def assignment? (w : Word) : Option (String × Word) :=
  match w with
  | .text false s :: rest =>
    let name := s.toList.takeWhile isNameChar
    match s.toList.drop name.length with
    | '=' :: value =>
      if name.isEmpty || name.head?.any Char.isDigit then none
      else
        some (String.ofList name,
          if value.isEmpty then rest else .text false (String.ofList value) :: rest)
    | _ => none
  | _ => none

/-- Adds to what was collected of a simple command; `none` at its end. -/
def simpleCommand : Nat → Cmd → List Token → Option (Cmd × List Token)
  | 0, _, _ => none
  | n + 1, c, ts =>
    match c with
    | .simple assignments words rs =>
      match redirections (ts.length + 1) ts with
      | (x :: xs, t) => simpleCommand n (.simple assignments words (rs ++ x :: xs)) t
      | ([], _) =>
        match ts with
        | .word w :: r =>
          match (if words.isEmpty then assignment? w else none) with
          | some a => simpleCommand n (.simple (assignments ++ [a]) words rs) r
          | none => simpleCommand n (.simple assignments (words ++ [w]) rs) r
        | _ =>
          if assignments.isEmpty && words.isEmpty && rs.isEmpty then none else some (c, ts)
    | _ => some (c, ts)

/-- The words of a loop over words, up to the end of the list. -/
def loopWords : List Token → List Word × List Token
  | .word w :: r =>
    let (ws, t) := loopWords r
    (w :: ws, t)
  | ts => ([], ts)

/-- The patterns of a clause, up to the bracket that closes them. -/
def clausePatterns : List Token → Option (List Word × List Token)
  | .word w :: .operator ")" :: r => some ([w], r)
  | .word w :: .operator "|" :: r => (clausePatterns r).map fun (ws, t) => (w :: ws, t)
  | _ => none

/-- Puts redirections around a command. -/
def around (c : Cmd) (ts : List Token) : Cmd × List Token :=
  match redirections (ts.length + 1) ts with
  | ([], t) => (c, t)
  | (rs, t) => (.redirected c rs, t)

mutual

/-- A list of commands, up to a word or bracket that closes it. -/
def list : Nat → List Token → Option (Cmd × List Token)
  | 0, _ => none
  | n + 1, ts =>
    match skipLineEnds ts with
    | [] => some (.nothing, [])
    | .operator ")" :: r => some (.nothing, .operator ")" :: r)
    | .operator ";;" :: r => some (.nothing, .operator ";;" :: r)
    | .word w :: r =>
      if (bareText? w).any isCloser then some (.nothing, .word w :: r)
      else listItem n (.word w :: r)
    | ts => listItem n ts

/-- One item of a list, and the rest of the list. -/
def listItem : Nat → List Token → Option (Cmd × List Token)
  | 0, _ => none
  | n + 1, ts => do
    let (c, r) ← andOr n ts
    match r with
    | .operator "&" :: s =>
      let (d, t) ← list n s
      some (.inTurn (.aside c) d, t)
    | .operator ";" :: s | .operator "\n" :: s =>
      let (d, t) ← list n s
      some (.inTurn c d, t)
    | _ => some (c, r)

/-- Pipelines joined by `&&` and `||`. -/
def andOr : Nat → List Token → Option (Cmd × List Token)
  | 0, _ => none
  | n + 1, ts => do
    let (c, r) ← pipeline n ts
    andOrRest n c r

/-- What is joined to a command. -/
def andOrRest : Nat → Cmd → List Token → Option (Cmd × List Token)
  | 0, _, _ => none
  | n + 1, c, ts =>
    match ts with
    | .operator "&&" :: r => do
      let (d, s) ← pipeline n (skipLineEnds r)
      andOrRest n (.both c d) s
    | .operator "||" :: r => do
      let (d, s) ← pipeline n (skipLineEnds r)
      andOrRest n (.either c d) s
    | _ => some (c, ts)

/-- Commands joined by pipes. -/
def pipeline : Nat → List Token → Option (Cmd × List Token)
  | 0, _ => none
  | n + 1, ts =>
    match expect "!" ts with
    | some r => (pipeline n r).map fun (c, s) => (.negated c, s)
    | none => do
      let (c, r) ← command n ts
      match r with
      | .operator "|" :: s =>
        let (d, t) ← pipeline n (skipLineEnds s)
        some (.pipe c d, t)
      | _ => some (c, r)

/-- A command. -/
def command : Nat → List Token → Option (Cmd × List Token)
  | 0, _ => none
  | n + 1, ts =>
    match ts with
    | .operator "(" :: r => do
      let (c, s) ← list n r
      let s ← expect ")" s
      some (around (.enclosed c) s)
    | .word w :: r =>
      match bareText? w with
      | some "\x7b" => do
        let (c, s) ← list n r
        let s ← expect "\x7d" s
        some (around c s)
      | some "while" => loopOver n false r
      | some "until" => loopOver n true r
      | some "if" => conditional n r
      | some "case" =>
        match r with
        | .word w :: r => do
          let r ← expect "in" (skipLineEnds r)
          let (cs, r) ← clauses n r
          some (around (.choice w cs) r)
        | _ => none
      | some "for" =>
        match r with
        | .word name :: r => do
          let name ← bareText? name
          let (words, r) :=
            match expect "in" (skipLineEnds r) with
            | some r => loopWords r
            | none => ([[.parameter true "@"]], r)
          let r := match r with
            | .operator ";" :: r => r
            | _ => r
          let r ← expect "do" (skipLineEnds r)
          let (body, r) ← list n r
          let r ← expect "done" r
          some (around (.each name words body) r)
        | _ => none
      | some s =>
        if isCloser s then none
        else
          match r with
          | .operator "(" :: .operator ")" :: r =>
            (command n (skipLineEnds r)).map fun (body, r) => (.definition s body, r)
          | _ => simpleCommand (ts.length + 1) (.simple [] [] []) ts
      | none => simpleCommand (ts.length + 1) (.simple [] [] []) ts
    | _ => simpleCommand (ts.length + 1) (.simple [] [] []) ts

/-- The rest of a loop on a condition. -/
def loopOver : Nat → Bool → List Token → Option (Cmd × List Token)
  | 0, _, _ => none
  | n + 1, untilWell, ts => do
    let (condition, r) ← list n ts
    let r ← expect "do" r
    let (body, r) ← list n r
    let r ← expect "done" r
    some (around (.loop untilWell condition body) r)

/-- The clauses of a choice, up to the word that ends it. -/
def clauses : Nat → List Token → Option (List (List Word × Cmd) × List Token)
  | 0, _ => none
  | n + 1, ts =>
    let ts := skipLineEnds ts
    match expect "esac" ts with
    | some r => some ([], r)
    | none => do
      let (ws, r) ← clausePatterns ((expect "(" ts).getD ts)
      let (body, r) ← list n r
      match skipLineEnds r with
      | .operator ";;" :: r =>
        let (more, r) ← clauses n r
        some ((ws, body) :: more, r)
      | r => do
        let r ← expect "esac" r
        some ([(ws, body)], r)

/-- The rest of a conditional. -/
def conditional : Nat → List Token → Option (Cmd × List Token)
  | 0, _ => none
  | n + 1, ts => do
    let (condition, r) ← list n ts
    let r ← expect "then" r
    let (yes, r) ← list n r
    match expect "elif" r with
    | some r =>
      let (no, r) ← conditional n r
      some (.branch condition yes no, r)
    | none =>
      match expect "else" r with
      | some r =>
        let (no, r) ← list n r
        let r ← expect "fi" r
        some (around (.branch condition yes no) r)
      | none =>
        let r ← expect "fi" r
        some (around (.branch condition yes .nothing) r)

end

/-- Reads a script. -/
def read? (script : String) : Option Cmd := do
  let cs := script.toList
  let ts ← tokens (cs.length + 1) cs
  match list (10 * ts.length + 20) ts with
  | some (c, []) => some c
  | _ => none

end CommandConsole.Unix.Shell
