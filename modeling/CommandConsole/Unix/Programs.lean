import CommandConsole.Interval
import CommandConsole.Text.Numeral
import CommandConsole.Unix.Frame

/-!
# Installed programs

`cat`, `wc`, `sleep`, `seq`, `tail`, `head`, `echo` and `env`, as far as they are used in
scripts. What a program says of an error begins with the name it was called by.
-/

namespace CommandConsole.Unix.Programs

/-- The lines of a row of bytes, each with its line feed. -/
def byteLines (bytes : List UInt8) : List (List UInt8) :=
  let (lines, last) := bytes.foldr
    (fun b (acc : List (List UInt8) × List UInt8) =>
      if b = 10 then (if acc.2.isEmpty then acc.1 else acc.2 :: acc.1, [b])
      else (acc.1, b :: acc.2))
    ([], [])
  if last.isEmpty then lines else last :: lines

/-- Reads the files that are named, or the input, one after the other; `complaint` says
what is said of a file that cannot be read. -/
def withContents (complaint : String → DiskError → String)
    (contents : List (Option String × List UInt8)) (failed : Bool) :
    List String → Frame → (List (Option String × List UInt8) → Bool → Then) → Behaviour
  | [], f, k => k contents.reverse failed f
  | arg :: rest, f, k =>
    if arg = "-" then
      f.receiveAll Frame.patience [] fun bytes f =>
        withContents complaint ((some "-", bytes) :: contents) failed rest f k
    else
      .disk (.read (f.path arg)) fun
        | .ok bytes => withContents complaint ((some arg, bytes) :: contents) failed rest f k
        | .error e =>
          f.complain (complaint arg e ++ "\n") 1 fun f =>
            withContents complaint contents true rest f k

/-- `cat` prints files, or its input as it comes. -/
def cat : List String → Bool → Frame → Then → Behaviour
  | [], failed, f, k => k (f.ending (if failed then 1 else 0))
  | "-" :: rest, failed, f, k => f.copyInput Frame.patience fun f => cat rest failed f k
  | arg :: rest, failed, f, k =>
    .disk (.read (f.path arg)) fun
      | .ok bytes => f.print bytes fun f => cat rest failed f k
      | .error e =>
        f.complain (f.name ++ ": " ++ arg ++ ": " ++ e.reason ++ "\n") 1 fun f => cat rest true f k

/-! ## Counting -/

/-- What `wc` counts. -/
structure Counts where
  lines : Bool
  words : Bool
  chars : Bool
  bytes : Bool

/-- Whether a byte separates words. -/
def isBlankByte (b : UInt8) : Bool := b = 32 || (9 ≤ b && b ≤ 13)

/-- The number of words in a row of bytes. -/
def wordTotal (bytes : List UInt8) : Nat :=
  (bytes.foldl
    (fun (acc : Nat × Bool) b =>
      if isBlankByte b then (acc.1, false) else (if acc.2 then acc.1 else acc.1 + 1, true))
    (0, false)).1

/-- The numbers that are asked for. -/
def Counts.of (c : Counts) (bytes : List UInt8) : List Nat :=
  (if c.lines then [bytes.count 10] else []) ++ (if c.words then [wordTotal bytes] else []) ++
    (if c.chars then [bytes.length] else []) ++ (if c.bytes then [bytes.length] else [])

/-- The letters of the flags among arguments. -/
def flagLetters (args : List String) : List Char :=
  (args.filter fun a => a.toList.head? = some '-' && a ≠ "-").flatMap fun a => a.toList.drop 1

/-- The arguments that are no flags. -/
def plainArgs (args : List String) : List String :=
  args.filter fun a => !(a.toList.head? = some '-' && a ≠ "-")

/-- One line of `wc`. -/
def countLine (width : Nat) (numbers : List Nat) (name : Option String) : String :=
  " ".intercalate (numbers.map fun n => Text.padStart width (toString n)) ++
    (match name with
      | some n => " " ++ n
      | none => "") ++ "\n"

/-- `wc` counts lines, words and bytes of its input or of files. -/
def wc (args : List String) (f : Frame) (k : Then) : Behaviour :=
  let letters := flagLetters args
  let files := plainArgs args
  let counts : Counts :=
    if letters.isEmpty then ⟨true, true, false, true⟩
    else ⟨letters.contains 'l', letters.contains 'w', letters.contains 'm', letters.contains 'c'⟩
  if files.isEmpty then
    let regular :=
      match f.input with
      | .bytes fromFile _ => fromFile
      | .outer => false
    f.receiveAll Frame.patience [] fun bytes f =>
      let numbers := counts.of bytes
      let width :=
        if numbers.length = 1 then 1
        else if regular then (toString bytes.length).length else 7
      f.say (countLine width numbers none) fun f => k (f.ending 0)
  else
    let complaint (name : String) (e : DiskError) : String :=
      f.name ++ ": " ++ name ++ ": " ++ e.reason
    withContents complaint [] false files f fun contents failed f =>
      let total := contents.flatMap Prod.snd
      let rows := contents.map (fun c => (counts.of c.2, c.1)) ++
        if files.length = 1 then [] else [(counts.of total, some "total")]
      let width :=
        if files.length = 1 && (counts.of []).length = 1 then 1 else (toString total.length).length
      f.say (String.join (rows.map fun r => countLine width r.1 r.2)) fun f =>
        k (f.ending (if failed then 1 else 0))

/-! ## The beginning and the end of a text -/

/-- Which part of a text is wanted. -/
inductive Part where
  | lines (n : Nat)
  | bytes (n : Nat)
  /-- From a line on, counted from one. -/
  | fromLine (n : Nat)
  | fromByte (n : Nat)

/-- The part that options name, and the arguments behind them. -/
def partOf (part : Part) : List String → Part × List String
  | [] => (part, [])
  | "-n" :: n :: rest => partOf (lineCount n.toList) rest
  | "-c" :: n :: rest => partOf (byteCount n.toList) rest
  | arg :: rest =>
    match arg.toList with
    | '-' :: 'n' :: n => partOf (lineCount n) rest
    | '-' :: 'c' :: n => partOf (byteCount n) rest
    | '-' :: d :: n => if d.isDigit then partOf (lineCount (d :: n)) rest else (part, arg :: rest)
    | _ => (part, arg :: rest)
where
  /-- A count of lines; behind a plus sign, the line to start from. -/
  lineCount : List Char → Part
    | '+' :: n => .fromLine (Text.digitsValue n)
    | '-' :: n => .lines (Text.digitsValue n)
    | n => .lines (Text.digitsValue n)
  /-- A count of bytes; behind a plus sign, the byte to start from. -/
  byteCount : List Char → Part
    | '+' :: n => .fromByte (Text.digitsValue n)
    | '-' :: n => .bytes (Text.digitsValue n)
    | n => .bytes (Text.digitsValue n)

/-- The end of a row of bytes. -/
def lastPart (p : Part) (bytes : List UInt8) : List UInt8 :=
  match p with
  | .lines n =>
    let ls := byteLines bytes
    (ls.drop (ls.length - n)).flatten
  | .bytes n => bytes.drop (bytes.length - n)
  | .fromLine n => ((byteLines bytes).drop (n - 1)).flatten
  | .fromByte n => bytes.drop (n - 1)

/-- The beginning of a row of bytes. -/
def firstPart (p : Part) (bytes : List UInt8) : List UInt8 :=
  match p with
  | .lines n | .fromLine n => ((byteLines bytes).take n).flatten
  | .bytes n | .fromByte n => bytes.take n

/-- Prints a part of the input or of files. -/
def partly (cut : Part → List UInt8 → List UInt8) (args : List String) (f : Frame) (k : Then) :
    Behaviour :=
  let (part, files) := partOf (.lines 10) args
  let complaint (name : String) (e : DiskError) : String :=
    if e = .isDirectory then f.name ++ ": error reading '" ++ name ++ "': " ++ e.reason
    else f.name ++ ": cannot open '" ++ name ++ "' for reading: " ++ e.reason
  let sources := if files.isEmpty then ["-"] else files
  withContents complaint [] false sources f fun contents failed f =>
    let piece (c : Option String × List UInt8) : List UInt8 := cut part c.2
    let titled (c : Option String × List UInt8) : List UInt8 :=
      let name := if c.1 = some "-" then "standard input" else c.1.getD ""
      Text.encode ("==> " ++ name ++ " <==\n") ++ piece c
    f.print
      (if files.length ≤ 1 then contents.flatMap piece
        else (Text.encode "\n").intercalate (contents.map titled))
      fun f => k (f.ending (if failed then 1 else 0))

/-! ## Time and numbers -/

/-- `sleep` waits for the sum of its arguments. -/
def sleep (args : List String) (f : Frame) (k : Then) : Behaviour :=
  let hint := "Try '" ++ f.name ++ " --help' for more information.\n"
  let total := args.foldl
    (fun (acc : Except String (Option Nat)) a =>
      match acc with
      | .error bad => .error bad
      | .ok sum =>
        if a = "infinity" || a = "inf" then .ok none
        else
          match Interval.read? a with
          | some ms => .ok (sum.map (· + ms))
          | none => .error a)
    (.ok (some 0))
  if args.isEmpty then f.complain (f.name ++ ": missing operand\n" ++ hint) 1 k
  else
    match total with
    | .error bad => f.complain (f.name ++ ": invalid time interval '" ++ bad ++ "'\n" ++ hint) 1 k
    | .ok ms => .sleep ms fun _ => k (f.ending 0)

/-- The numbers from `first` to `last`, `n` of them at most. -/
def numbersFrom (first step last : Int) : Nat → List Int
  | 0 => []
  | n + 1 =>
    if (0 < step && last < first) || (step < 0 && first < last) then []
    else first :: numbersFrom (first + step) step last n

/-- `seq` prints numbers one per line. -/
def seq (args : List String) (f : Frame) (k : Then) : Behaviour :=
  let hint := "Try '" ++ f.name ++ " --help' for more information.\n"
  let listed (first step last : Int) : Behaviour :=
    let rows := numbersFrom first step last ((last - first).natAbs / step.natAbs + 1)
    f.say (String.join (rows.map fun n => toString n ++ "\n")) fun f => k (f.ending 0)
  match args.find? fun a => (Text.integer32? a).isNone with
  | some bad =>
    f.complain (f.name ++ ": invalid floating point argument: '" ++ bad ++ "'\n" ++ hint) 1 k
  | none =>
    match args.filterMap Text.integer32? with
    | [last] => listed 1 1 last
    | [first, last] => listed first 1 last
    | [first, step, last] =>
      if step = 0 then
        f.complain (f.name ++ ": invalid Zero increment value: '0'\n" ++ hint) 1 k
      else listed first step last
    | [] => f.complain (f.name ++ ": missing operand\n" ++ hint) 1 k
    | _ :: _ :: _ :: extra :: _ =>
      f.complain (f.name ++ ": extra operand '" ++ toString extra ++ "'\n" ++ hint) 1 k

/-- `echo` prints its arguments as they are. -/
def echo (args : List String) (f : Frame) (k : Then) : Behaviour :=
  let (words, lineEnd) :=
    match args with
    | "-n" :: rest => (rest, "")
    | rest => (rest, "\n")
  f.say (" ".intercalate words ++ lineEnd) fun f => k (f.ending 0)

/-- `env` lists the variables that it sees. -/
def env (f : Frame) (k : Then) : Behaviour :=
  f.say (String.join (f.environment.entries.map fun e => e.1 ++ "=" ++ e.2 ++ "\n")) fun f =>
    k (f.ending 0)

end CommandConsole.Unix.Programs
