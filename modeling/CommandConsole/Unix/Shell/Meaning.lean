import CommandConsole.Unix.Programs
import CommandConsole.Unix.Shell.Arithmetic
import CommandConsole.Unix.Shell.Pattern
import CommandConsole.Unix.Shell.Reader
import CommandConsole.Unix.Shell.Words

/-!
# What scripts do

The behaviour of each command of the script language. `layer` gives the behaviour of a
command from that of the commands in it; `behaviour` puts layers on top of each other.
A loop takes a layer for each round, so a script that goes on for ever without waiting
counts as stuck.
-/

namespace CommandConsole.Unix.Shell

/-- How commands are carried out. -/
abbrev Carry := Cmd → Frame → Then → Behaviour

/-- The number that a process is given. -/
def processNumber : String := "4242"

/-- A complaint of the script language. -/
def grumble (f : Frame) (text : String) (status : Nat) (k : Then) : Behaviour :=
  f.complain (f.name ++ ": " ++ toString f.line ++ ": " ++ text ++ "\n") status k

/-- The path in which programs are looked for unless a variable says otherwise. -/
def standardPath : String := "/usr/local/sbin:/usr/local/bin:/usr/sbin:/usr/bin:/sbin:/bin"

/-! ## Expansion -/

/-- The value of a variable or a special parameter. -/
def parameter? (f : Frame) (name : String) : Option String :=
  match name with
  | "?" => some (toString f.status)
  | "#" => some (toString f.args.length)
  | "$" => some processNumber
  | "0" => some f.name
  | "-" => some ""
  | "!" => some ""
  | "@" | "*" => if f.args.isEmpty then none else some (" ".intercalate f.args)
  | _ =>
    match Text.count? name with
    | some n => f.args[n - 1]?
    | none => f.bindings.get? name

/-- The arguments as parts of a word, each a field of its own. -/
def separateArgs (quoted : Bool) (args : List String) : List Expanded :=
  (args.map fun a => [if quoted then Expanded.solid a else .soft a]).intersperse [.gap] |>.flatten

/-- Runs a script for what it prints. -/
def capturing (carry : Carry) (script : String) (f : Frame) (k : String → Then) : Behaviour :=
  match read? script with
  | none => grumble f "Syntax error" 2 fun f => k "" { f with flow := .leaving }
  | some c =>
    let level := f.captured.length
    carry c { f with output := .capture level, captured := f.captured ++ [[]] } fun g =>
      let text := Text.decodeLossy (g.captured.getD level [])
      let kept := (text.toList.reverse.dropWhile (· == '\n')).reverse
      k (String.ofList kept)
        { f with status := g.status, input := g.input, captured := g.captured.take level }

/-- A value as parts of a word. -/
def made (quoted : Bool) (s : String) : List Expanded := [if quoted then .solid s else .soft s]

/-- A word that stands for a value, as parts of another word. -/
def standIn (quoted : Bool) (parts : List Expanded) : List Expanded :=
  if quoted then [.solid (joined parts)] else parts.map .softened

/-- The pattern that a word stands for. -/
def patternOf (parts : List Expanded) : Pattern :=
  Pattern.ofMarked ((marked parts).length + 1) (marked parts)

/-- Whether a parameter counts as one with a value. -/
def hasValue (alsoEmpty : Bool) : Option String → Bool
  | none => false
  | some v => !(alsoEmpty && v = "")

/-- Goes on with what is made of a parameter; `word` expands the word that helps. -/
def adjust (quoted : Bool) (name : String) (how : Adjustment)
    (word : (List Expanded → Then) → Behaviour) (f : Frame) (k : List Expanded → Then) :
    Behaviour :=
  let value := parameter? f name
  let v := value.getD ""
  match how with
  | .orElse alsoEmpty =>
    if hasValue alsoEmpty value then k (made quoted v) f
    else word fun parts f => k (standIn quoted parts) f
  | .assigning alsoEmpty =>
    if hasValue alsoEmpty value then k (made quoted v) f
    else
      word fun parts f =>
        k (made quoted (joined parts))
          { f with bindings := f.bindings.insert name (joined parts) }
  | .instead alsoEmpty =>
    if hasValue alsoEmpty value then word fun parts f => k (standIn quoted parts) f
    else k (made quoted "") f
  | .demanded alsoEmpty =>
    if hasValue alsoEmpty value then k (made quoted v) f
    else
      word fun parts f =>
        let text :=
          if joined parts ≠ "" then joined parts
          else if alsoEmpty then "parameter not set or null" else "parameter not set"
        grumble f (name ++ ": " ++ text) 2 fun f => k [] { f with flow := .leaving }
  | .length => k (made quoted (toString v.utf8ByteSize)) f
  | .withoutFront longest =>
    word fun parts f =>
      k (made quoted (String.ofList ((patternOf parts).trimFront longest v.toList))) f
  | .withoutEnd longest =>
    word fun parts f =>
      k (made quoted (String.ofList ((patternOf parts).trimEnd longest v.toList))) f

mutual

/-- Expands a part of a word. -/
def expandPart (carry : Carry) : WordPart → Frame → (List Expanded → Then) → Behaviour
  | .text quoted s, f, k => k [if quoted then .solid s else .plain s] f
  | .parameter quoted name, f, k =>
    if name = "@" || (name = "*" && !quoted) then k (separateArgs quoted f.args) f
    else k (made quoted ((parameter? f name).getD "")) f
  | .adjusted quoted name how w, f, k => adjust quoted name how (expand carry w f) f k
  | .output quoted script, f, k => capturing carry script f fun s f => k (made quoted s) f
  | .arithmetic quoted e, f, k =>
    expand carry e f fun parts f =>
      let look (name : String) : Int := ((f.bindings.get? name).bind Text.integer32?).getD 0
      match value look (joined parts) with
      | .ok v => k (made quoted (toString v)) f
      | .error e => grumble f (e.message (joined parts)) 2 fun f =>
          k [] { f with flow := .leaving }

/-- Expands the parts of a word. -/
def expand (carry : Carry) : List WordPart → Frame → (List Expanded → Then) → Behaviour
  | [], f, k => k [] f
  | p :: ps, f, k =>
    expandPart carry p f fun parts f =>
      if f.flow = .onward then expand carry ps f fun rest f => k (parts ++ rest) f
      else k parts f

end

/-- The characters at which values are cut. -/
def separators (f : Frame) : List Char :=
  ((f.bindings.get? "IFS").getD standardSeparators).toList

/-- Expands words to fields. -/
def expandAll (carry : Carry) : List Word → Frame → (List String → Then) → Behaviour
  | [], f, k => k [] f
  | w :: ws, f, k =>
    expand carry w f fun parts f =>
      expandAll carry ws f fun rest f => k (fields (separators f) parts ++ rest) f

/-- Carries assignments out. -/
def assignAll (carry : Carry) : List (String × Word) → Frame → Then → Behaviour
  | [], f, k => k f
  | (name, w) :: rest, f, k =>
    expand carry w f fun parts f =>
      assignAll carry rest { f with bindings := f.bindings.insert name (joined parts) } k

/-- Opens redirections, and says whether all could be opened. -/
def openAll (carry : Carry) : List Redirection → Frame → (Bool → Then) → Behaviour
  | [], f, k => k true f
  | r :: rest, f, k =>
    let lead (sink : Sink) (f : Frame) : Behaviour :=
      openAll carry rest
        (if r.descriptor = 1 then { f with output := sink }
          else if r.descriptor = 2 then { f with errors := sink } else f) k
    match r.target with
    | .copyOf n => lead (if n = 2 then f.errors else f.output) f
    | .file opening w =>
      expand carry w f fun parts f =>
        let name := joined parts
        let path := f.path name
        match opening with
        | .reading =>
          .disk (.read path) fun
            | .ok bytes => openAll carry rest { f with input := .bytes true bytes } k
            | .error .noEntry =>
              grumble f ("cannot open " ++ name ++ ": No such file") 2 (k false)
            | .error e => grumble f ("cannot open " ++ name ++ ": " ++ e.reason) 2 (k false)
        | _ =>
          if path = "/dev/stderr" then lead (.outer true) f
          else if path = "/dev/stdout" then lead (.outer false) f
          else
            .disk (.write path [] (opening = .appending)) fun
              | .ok () => lead (.file path) f
              | .error .noEntry =>
                grumble f ("cannot create " ++ name ++ ": Directory nonexistent") 2 (k false)
              | .error e => grumble f ("cannot create " ++ name ++ ": " ++ e.reason) 2 (k false)

/-- The frame with its input and output led back to where they were in another. -/
def Frame.ledBack (g f : Frame) (inputRedirected : Bool) : Frame :=
  { g with
    output := f.output
    errors := f.errors
    input := if inputRedirected then f.input else g.input }

/-- Whether one of the redirections is of the input. -/
def redirectsInput (rs : List Redirection) : Bool := rs.any fun r => r.descriptor = 0

/-! ## Commands of the script language -/

/-- A line without the backslashes that protect characters. -/
def unescapeLine : List Char → List Char
  | '\\' :: c :: r => c :: unescapeLine r
  | c :: r => c :: unescapeLine r
  | [] => []

/-- Whether a condition of `test` holds; `none` if it cannot be read. -/
def holds (f : Frame) (look : String → Option Node) : List String → Option Bool
  | [] => some false
  | "!" :: rest => (holds f look rest).map not
  | [s] => some (s ≠ "")
  | ["-n", s] => some (s ≠ "")
  | ["-z", s] => some (s = "")
  | ["-e", p] => some (look p).isSome
  | ["-d", p] =>
    some (match look p with
      | some .directory => true
      | _ => false)
  | ["-f", p] =>
    some (match look p with
      | some .directory | none => false
      | _ => true)
  | ["-x", p] =>
    some (match look p with
      | some (.file _ executable) => executable
      | some _ => true
      | none => false)
  | ["-s", p] =>
    some (match look p with
      | some (.file content _) => !content.isEmpty
      | some _ => true
      | none => false)
  | ["-r", p] | ["-w", p] => some (look p).isSome
  | [a, "=", b] => some (a = b)
  | [a, "!=", b] => some (a ≠ b)
  | [a, o, b] => do
    let x ← Text.integer32? a
    let y ← Text.integer32? b
    match o with
    | "-eq" => some (x = y)
    | "-ne" => some (x ≠ y)
    | "-lt" => some (x < y)
    | "-le" => some (x ≤ y)
    | "-gt" => some (y < x)
    | "-ge" => some (y ≤ x)
    | _ => none
  | _ => none

/-- The paths that a condition of `test` looks at. -/
def lookedAt (args : List String) : List String :=
  match args with
  | "!" :: _ :: p :: _ => [p]
  | _ :: p :: _ => [p]
  | _ => []

/-- Looks at paths, and goes on with what stands there. -/
def lookAll (f : Frame) (found : List (String × Node)) : List String →
    (List (String × Node) → Behaviour) → Behaviour
  | [], k => k found
  | p :: ps, k =>
    .disk (.look (f.path p)) fun
      | .ok n => lookAll f ((p, n) :: found) ps k
      | .error _ => lookAll f found ps k

/-- The number of a signal by name or number. -/
def signal? (name : String) : Option Nat :=
  match name with
  | "EXIT" => some 0
  | "HUP" | "SIGHUP" => some 1
  | "INT" | "SIGINT" => some 2
  | "QUIT" | "SIGQUIT" => some 3
  | "ABRT" | "SIGABRT" => some 6
  | "KILL" | "SIGKILL" => some 9
  | "USR1" | "SIGUSR1" => some 10
  | "SEGV" | "SIGSEGV" => some 11
  | "USR2" | "SIGUSR2" => some 12
  | "PIPE" | "SIGPIPE" => some 13
  | "ALRM" | "SIGALRM" => some 14
  | "TERM" | "SIGTERM" => some 15
  | _ => Text.count? name

/-- The signal and the processes that the arguments of `kill` name. -/
def killArgs (args : List String) : Option Nat × List String :=
  match args with
  | "-s" :: name :: rest => (signal? name, rest)
  | a :: rest =>
    match a.toList with
    | '-' :: name => (signal? (String.ofList name), rest)
    | _ => (some 15, args)
  | [] => (some 15, [])

/-- Carries out a text as a script. -/
def runText (carry : Carry) (script : String) (f : Frame) (k : Then) : Behaviour :=
  match read? script with
  | some c => carry c f k
  | none => grumble f "Syntax error" 2 fun f => k { f with flow := .leaving }

/-- `trap` says what is done at the end, or when the process is to terminate. -/
def trap (action : String) : List String → Frame → Then → Behaviour
  | [], f, k => k (f.ending 0)
  | name :: rest, f, k =>
    let kept := if action = "-" then none else some action
    match signal? name with
    | some 0 => trap action rest { f with onExit := kept } k
    | some 15 =>
      let reaction : OnTerminate :=
        if action = "-" then .die else if action = "" then .ignore else .note
      .onTerminate reaction fun _ => trap action rest { f with onTerminate := kept } k
    | some _ => trap action rest f k
    | none => grumble f ("trap: " ++ name ++ ": bad trap") 1 k

/-- `kill` with the number of the process itself. -/
def signalSelf (carry : Carry) (signal : Nat) (f : Frame) (k : Then) : Behaviour :=
  if signal = 0 then k (f.ending 0)
  else
    match (if signal = 15 then f.onTerminate else none) with
    | none => .die signal
    | some "" => k (f.ending 0)
    | some action => runText carry action f k

/-- `printf` and `echo`. -/
def echo (args : List String) (f : Frame) (k : Then) : Behaviour :=
  let (plain, words) :=
    match args with
    | "-n" :: rest => (true, rest)
    | rest => (false, rest)
  let (bytes, silent) := echoText (" ".intercalate words)
  f.print (bytes ++ if plain || silent then [] else [10]) fun f => k (f.ending 0)

/-- `cd` moves to a directory. -/
def changeDirectory (target : String) (shown : Bool) (f : Frame) (k : Then) : Behaviour :=
  let path := Path.normalizeText (f.path target)
  .disk (.look path) fun
    | .ok .directory =>
      let moved : Frame :=
        { f with
          directory := path
          bindings := (f.bindings.insert "OLDPWD" f.directory).insert "PWD" path }
      moved.say (if shown then path ++ "\n" else "") fun f => k (f.ending 0)
    | _ => grumble f ("cd: can't cd to " ++ target) 2 k

/-- Sets variables that are given as assignments, and marks them for programs. -/
def exportArgs (args : List String) (f : Frame) : Frame :=
  args.foldl
    (fun f a =>
      let name := a.toList.takeWhile (· ≠ '=')
      let f : Frame :=
        match a.toList.drop name.length with
        | _ :: v => { f with bindings := f.bindings.insert (String.ofList name) (String.ofList v) }
        | [] => f
      { f with exported := String.ofList name :: f.exported })
    f

/-- A command of the script language; `none` if there is none of that name. -/
def ownCommand (carry : Carry) (name : String) (args : List String) (f : Frame) (k : Then) :
    Option Behaviour :=
  match name with
  | ":" | "true" | "wait" => some (k (f.ending 0))
  | "false" => some (k (f.ending 1))
  | "echo" => some (echo args f k)
  | "printf" =>
    some (match args with
      | pattern :: rest =>
        f.print (format (rest.length + 1) pattern rest) fun f => k (f.ending 0)
      | [] => grumble f "printf: usage: printf format [arg ...]" 2 k)
  | "pwd" => some (f.say (f.directory ++ "\n") fun f => k (f.ending 0))
  | "cd" =>
    some (match args with
      | [] => changeDirectory ((f.bindings.get? "HOME").getD "") false f k
      | "-" :: _ => changeDirectory ((f.bindings.get? "OLDPWD").getD "") true f k
      | d :: _ => changeDirectory d false f k)
  | "exit" =>
    some (match args with
      | [] => k { f with flow := .leaving }
      | n :: _ =>
        match Text.digits? n.toList with
        | some code => k { f with flow := .leaving, status := code % 256 }
        | none =>
          grumble f ("exit: Illegal number: " ++ n) 2 fun f => k { f with flow := .leaving })
  | "return" =>
    some (k { f with
      flow := .returning, status := ((args.head?.bind Text.count?).getD f.status) % 256 })
  | "break" => some (k { f with flow := .breaking ((args.head?.bind Text.count?).getD 1) })
  | "continue" => some (k { f with flow := .continuing ((args.head?.bind Text.count?).getD 1) })
  | "read" =>
    let raw := args.head? = some "-r"
    let names := if raw then args.drop 1 else args
    some (f.receive true fun bytes f =>
      let ended := bytes.getLast? ≠ some 10
      let line := (Text.decodeLossy (if ended then bytes else bytes.dropLast)).toList
      let line := if raw then line else unescapeLine line
      let bindings := assignWords (separators f) names line f.bindings
      k { f with bindings, status := if ended then 1 else 0 })
  | "trap" =>
    some (match args with
      | action :: names => trap action names f k
      | [] => k (f.ending 0))
  | "kill" =>
    let (signal, targets) := killArgs args
    some (match signal with
      | some n =>
        if targets.contains processNumber then signalSelf carry n f k
        else grumble f "kill: No such process" 1 k
      | none => grumble f "kill: Illegal option" 2 k)
  | "export" => some (k ((exportArgs args f).ending 0))
  | "unset" =>
    some (k { f with
      bindings := args.foldl (fun m a => m.erase a) f.bindings
      exported := f.exported.filter fun e => !args.contains e
      status := 0 })
  | "shift" =>
    some (k { f with args := f.args.drop ((args.head?.bind Text.count?).getD 1), status := 0 })
  | "set" =>
    some (match args with
      | "--" :: rest => k { f with args := rest, status := 0 }
      | "-e" :: _ => k { f with strict := true, status := 0 }
      | "+e" :: _ => k { f with strict := false, status := 0 }
      | _ => k (f.ending 0))
  | "eval" => some (runText carry (" ".intercalate args) f k)
  | "test" | "[" =>
    let condition := if name = "[" then args.dropLast else args
    some (lookAll f [] (lookedAt condition) fun found =>
      match holds f (fun p => found.lookup p) condition with
      | some b => k (f.ending (if b then 0 else 1))
      | none => grumble f (name ++ ": unexpected operator") 2 k)
  | _ => none

/-! ## Programs -/

/-- Carries out lines of input as they come; `before` is the beginning of a command that
is not complete. -/
def runInput (carry : Carry) (n : Nat) (before : String) (f : Frame) (k : Then) : Behaviour :=
  match n with
  | 0 => Frame.stuck
  | n + 1 =>
    f.receive true fun bytes f =>
      if bytes.isEmpty then
        if before.isEmpty then k f else grumble f "Syntax error: end of file unexpected" 2 k
      else
        let text := before ++ Text.decodeLossy bytes
        let next (f : Frame) : Frame := { f with line := f.line + 1 }
        match read? text with
        | none => runInput carry n text (next f) k
        | some c =>
          carry c f fun f => if f.flow = .leaving then k f else runInput carry n "" (next f) k

/-- What is left to do at the end of a process: its action for that. -/
def atEnd (carry : Carry) (f : Frame) (k : Then) : Behaviour :=
  match f.onExit with
  | none => k f
  | some action =>
    runText carry action { f with onExit := none, flow := .onward } fun g =>
      k (if g.flow = .leaving then g else { g with status := f.status })

/-- Runs the script language as a program of its own, in a frame of its own. -/
def runShell (carry : Carry) (args : List String) (f : Frame) (k : Then) : Behaviour :=
  let own (name : String) (rest : List String) : Frame :=
    let start := Frame.start (f.environment.insert "PWD" f.directory) f.directory name rest
    let path := (start.bindings.get? "PATH").getD standardPath
    { start with
      bindings := (start.bindings.insert "PATH" path).insert "IFS" standardSeparators
      input := f.input, output := f.output, errors := f.errors, captured := f.captured }
  let after (g : Frame) : Behaviour :=
    atEnd carry g fun g =>
      k { f with status := g.status, input := g.input, captured := g.captured }
  match args with
  | "-c" :: script :: rest => runText carry script (own (rest.headD f.name) (rest.drop 1)) after
  | "-c" :: [] => f.complain (f.name ++ ": 0: -c requires an argument\n") 2 k
  | [] | "-s" :: _ => runInput carry Frame.patience "" (own f.name []) after
  | file :: rest =>
    .disk (.read (f.path file)) fun
      | .ok bytes => runText carry (Text.decodeLossy bytes) (own file rest) after
      | .error e =>
        let reason := if e = .noEntry then "No such file" else e.reason
        f.complain (f.name ++ ": 0: cannot open " ++ file ++ ": " ++ reason ++ "\n") 2 k

/-- Runs `env`: a command with more variables, or else the list of all variables. -/
def runEnv (carry : Carry) (f : Frame) (k : Then) : List String → Behaviour
  | [] => Programs.env f k
  | "-i" :: rest => runEnv carry { f with exported := [] } k rest
  | arg :: rest =>
    if arg.toList.contains '=' then runEnv carry (exportArgs [arg] f) k rest
    else
      let words : List Word := (arg :: rest).map fun w => [.text true w]
      carry (.simple [] words []) f k

/-- Runs an installed program, called by some name. -/
def runProgram (carry : Carry) (program called : String) (args : List String) (f : Frame)
    (k : Then) : Behaviour :=
  let own : Frame := { f with name := called }
  let after (g : Frame) : Behaviour := k { g with name := f.name }
  match program with
  | "cat" => Programs.cat (if args.isEmpty then ["-"] else args) false own after
  | "wc" => Programs.wc args own after
  | "sleep" => Programs.sleep args own after
  | "seq" => Programs.seq args own after
  | "tail" => Programs.partly Programs.lastPart args own after
  | "head" => Programs.partly Programs.firstPart args own after
  | "echo" => Programs.echo args own after
  | "env" =>
    runEnv carry own (fun g => after { g with bindings := f.bindings, exported := f.exported }) args
  | "sh" => runShell carry args own after
  | _ => (ownCommand carry program args own after).getD (after (own.ending 0))

/-- Runs what stands at a path, called by some name. A file is a script. -/
def runNode (carry : Carry) (node : Node) (called : String) (args : List String) (f : Frame)
    (k : Then) : Behaviour :=
  match node with
  | .program program => runProgram carry program called args f k
  | _ => runShell carry (called :: args) f k

/-- Looks for a program in directories, and runs it. -/
def runFrom (carry : Carry) (name : String) (args : List String) (f : Frame) (k : Then) :
    List String → Behaviour
  | [] => grumble f (name ++ ": not found") 127 k
  | d :: ds =>
    let path := f.path (d ++ "/" ++ name)
    .disk (.look path) fun
      | .ok (.program program) => runNode carry (.program program) name args f k
      | .ok (.file content true) => runNode carry (.file content true) path args f k
      | _ => runFrom carry name args f k ds

/-- Runs a program that a command names. -/
def runNamed (carry : Carry) (name : String) (args : List String) (f : Frame) (k : Then) :
    Behaviour :=
  if name.toList.contains '/' then
    .disk (.look (f.path name)) fun
      | .error _ => grumble f (name ++ ": not found") 127 k
      | .ok .directory | .ok (.file _ false) => grumble f (name ++ ": Permission denied") 126 k
      | .ok node => runNode carry node name args f k
  else
    let search := (f.bindings.get? "PATH").getD standardPath
    runFrom carry name args f k ((search.toList.splitOn ':').map String.ofList)

/-- Sees to it if the process noted that it is to terminate. -/
def seeToIt (carry : Carry) (f : Frame) (k : Then) : Behaviour :=
  match f.onTerminate with
  | none | some "" => k f
  | some action => .wasAsked fun asked => if asked then runText carry action f k else k f

/-- Ends the process after a failure, if that is wanted. -/
def strictly (f : Frame) : Frame :=
  if f.strict && f.status ≠ 0 && f.flow = .onward then { f with flow := .leaving } else f

/-- The variables of a frame, where those of the names are as they were in another. -/
def Frame.restored (g : Frame) (names : List String) (f : Frame) : Dictionary String :=
  names.foldl
    (fun m name =>
      match f.bindings.get? name with
      | some v => m.insert name v
      | none => m.erase name)
    g.bindings

/-- Carries out a simple command whose words are expanded. -/
def simpleFields (carry : Carry) (assignments : List (String × Word)) (words : List String)
    (rs : List Redirection) (f : Frame) (k : Then) : Behaviour :=
  let done (g : Frame) : Behaviour :=
    seeToIt carry (strictly (Frame.ledBack g f (redirectsInput rs))) k
  openAll carry rs f fun opened f =>
    if !opened then done f
    else
      match words with
      | [] => assignAll carry assignments f done
      | "exec" :: [] => k (f.ending 0)
      | "exec" :: name :: args =>
        runNamed carry name args f fun f => done { f with flow := .leaving }
      | name :: args =>
        let names := assignments.map Prod.fst
        assignAll carry assignments f fun g =>
          let restored (h : Frame) : Behaviour := 
            done { h with bindings := Frame.restored h names f }
          match g.definitions.lookup name with
          | some body =>
            carry body { g with args } fun h =>
              restored { h with
                args := g.args, flow := if h.flow = .returning then .onward else h.flow }
          | none =>
            match ownCommand carry name args g restored with
            | some b => b
            | none =>
              runNamed carry name args { g with exported := names ++ g.exported } fun h =>
                restored { h with exported := f.exported }

/-- The frame after a part in parentheses: only what it read and printed is left of it. -/
def afterEnclosed (f g : Frame) : Frame :=
  { f with status := g.status, input := g.input, captured := g.captured }

/-- The frame in which a condition is tried: its failure ends nothing. -/
def tentative (f : Frame) : Frame := { f with strict := false }

/-- How a command goes on after a round of a loop: with the next one, or not. -/
def afterRound (f : Frame) : Bool × Frame :=
  match f.flow with
  | .onward => (true, f)
  | .leaving | .returning => (false, f)
  | .breaking n => (false, { f with flow := if n ≤ 1 then .onward else .breaking (n - 1) })
  | .continuing n =>
    if n ≤ 1 then (true, { f with flow := .onward })
    else (false, { f with flow := .continuing (n - 1) })

/-- Goes through the rounds of a loop over words. Between rounds there is a pause without
length, so that a loop unfolds round by round. -/
def eachWord (carry : Carry) (name : String) (body : Cmd) : List String → Frame → Then → Behaviour
  | [], f, k => k f
  | w :: ws, f, k =>
    carry body { f with bindings := f.bindings.insert name w } fun f =>
      match afterRound f with
      | (true, f) => .sleep (some 0) fun _ => eachWord carry name body ws f k
      | (false, f) => k f

/-- Goes on with whether one of the words matches a text as a pattern. -/
def matching (carry : Carry) (text : List Char) : List Word → Frame → (Bool → Then) → Behaviour
  | [], f, k => k false f
  | w :: ws, f, k =>
    expand carry w f fun parts f =>
      if (patternOf parts).covers text then k true f else matching carry text ws f k

/-- Carries out the first command one of whose patterns matches a text. -/
def choose (carry : Carry) (text : List Char) : List (List Word × Cmd) → Frame → Then → Behaviour
  | [], f, k => k f
  | (ws, body) :: rest, f, k =>
    matching carry text ws f fun hit f =>
      if hit then carry body f k else choose carry text rest f k

/-- The behaviour of a command, given that of the commands in it. -/
def layer (carry : Carry) : Carry := fun c f k =>
  match c with
  | .nothing => k f
  | .simple assignments words rs =>
    expandAll carry words { f with status := if words.isEmpty then 0 else f.status } fun fields f =>
      if f.flow = .onward then simpleFields carry assignments fields rs f k else k f
  | .pipe first second =>
    let level := f.captured.length
    carry first { f with output := .capture level, captured := f.captured ++ [[]] } fun g =>
      let content := g.captured.getD level []
      let inner : Frame :=
        { f with input := .bytes false content, captured := g.captured.take level }
      carry second inner fun h =>
        k (strictly { f with status := h.status, input := g.input, captured := h.captured })
  | .negated c =>
    carry c (tentative f) fun g =>
      k { g with status := if g.status = 0 then 1 else 0, strict := f.strict }
  | .both a b =>
    carry a (tentative f) fun g =>
      let g := { g with strict := f.strict }
      if g.flow = .onward && g.status = 0 then carry b g k else k g
  | .either a b =>
    carry a (tentative f) fun g =>
      let g := { g with strict := f.strict }
      if g.flow = .onward && g.status ≠ 0 then carry b g k else k g
  | .inTurn a b => carry a f fun g => if g.flow = .onward then carry b g k else k g
  | .loop untilWell condition body =>
    carry condition (tentative f) fun g =>
      let g := { g with strict := f.strict }
      if g.flow ≠ .onward then k (afterRound g).2
      else if (g.status = 0) ≠ untilWell then
        carry body g fun h =>
          match afterRound h with
          | (true, h) => .sleep (some 0) fun _ => carry (.loop untilWell condition body) h k
          | (false, h) => k h
      else k (g.ending 0)
  | .branch condition yes no =>
    carry condition (tentative f) fun g =>
      let g := { g with strict := f.strict }
      if g.flow ≠ .onward then k g
      else if g.status = 0 then carry yes g k
      else carry no (g.ending 0) k
  | .each name words body =>
    expandAll carry words f fun fields f => eachWord carry name body fields (f.ending 0) k
  | .choice w clauses =>
    expand carry w f fun parts f => choose carry (joined parts).toList clauses (f.ending 0) k
  | .definition name body =>
    k { f with definitions := (name, body) :: f.definitions, status := 0 }
  | .enclosed c => carry c f fun g => k (strictly (afterEnclosed f g))
  | .redirected c rs =>
    openAll carry rs f fun opened g =>
      let done (g : Frame) : Behaviour := k (Frame.ledBack g f (redirectsInput rs))
      if opened then carry c g done else done g
  | .aside c => carry c f fun g => k { afterEnclosed f g with status := 0 }

/-- The behaviour of commands, with at most `n` layers. -/
def behaviour : Nat → Carry
  | 0 => fun _ _ _ => Frame.stuck
  | n + 1 => layer (behaviour n)

/-- The behaviour of a process that runs what stands at a path. -/
def processOf (path : String) (node : Node) (args : List String) (environment : Dictionary String)
    (directory : String) : Behaviour :=
  runNode (behaviour Frame.patience) node path args (Frame.start environment directory path args)
    fun f => .exit f.status

end CommandConsole.Unix.Shell
