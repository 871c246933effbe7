import CommandConsole.Unix.Behaviour
import CommandConsole.Unix.Shell.Script
import CommandConsole.Text.Utf8

/-!
# The frame of a running command

What a command finds when it runs inside a process: variables, arguments, a directory,
where its input comes from and where its output goes. Commands are written in passing
style: each is given the frame and what happens after it.
-/

namespace CommandConsole.Unix

/-- Where input comes from. -/
inductive Source where
  /-- The input of the process. -/
  | outer
  /-- Bytes at hand; `fromFile` if they were taken from a file. -/
  | bytes (fromFile : Bool) (content : List UInt8)
  deriving Inhabited

/-- Where output goes. -/
inductive Sink where
  /-- The output of the process, or its error output. -/
  | outer (toError : Bool)
  | file (path : String)
  /-- Kept for the command that captures it, counted from the outermost. -/
  | capture (level : Nat)
  deriving Inhabited, DecidableEq

/-- How a command list goes on. -/
inductive Flow where
  | onward
  /-- The process, or the part of it in parentheses, is to end. -/
  | leaving
  /-- The definition that is carried out is to end. -/
  | returning
  /-- Some loops are to end. -/
  | breaking (loops : Nat)
  /-- A loop is to go on with its next round, after some loops in it have ended. -/
  | continuing (loops : Nat)
  deriving Inhabited, DecidableEq

/-- The frame of a command. -/
structure Frame where
  bindings : Dictionary String
  /-- The variables that programs see. -/
  exported : List String
  /-- The name that the process, or the program in it, was called by. -/
  name : String
  args : List String
  /-- The commands that names stand for, the latest definition first. -/
  definitions : List (String × Shell.Cmd)
  /-- The number of the line that is carried out. -/
  line : Nat
  directory : String
  /-- The status of the last command. -/
  status : Nat
  flow : Flow
  input : Source
  output : Sink
  errors : Sink
  /-- What was captured so far, the outermost capture first. -/
  captured : List (List UInt8)
  /-- What is done when the process is asked to terminate. -/
  onTerminate : Option String
  /-- What is done when the process ends. -/
  onExit : Option String
  /-- Whether the first command that fails ends the process. -/
  strict : Bool
  deriving Inhabited

/-- What happens after a command. -/
abbrev Then := Frame → Behaviour

namespace Frame

/-- The frame at the start of a process. -/
def start (environment : Dictionary String) (directory name : String) (args : List String) :
    Frame where
  bindings := environment
  exported := environment.names
  name := name
  args := args
  definitions := []
  line := 1
  directory := directory
  status := 0
  flow := .onward
  input := .outer
  output := .outer false
  errors := .outer true
  captured := []
  onTerminate := none
  onExit := none
  strict := false

/-- The variables that programs see, with their values. -/
def environment (f : Frame) : Dictionary String :=
  Dictionary.ofList (f.bindings.entries.filter fun e => f.exported.contains e.1)

/-- A path as seen from the directory. -/
def path (f : Frame) (p : String) : String :=
  if Path.isAbsolute p then p else f.directory ++ "/" ++ p

/-- The frame after a command that ended with a status. -/
def ending (f : Frame) (status : Nat) : Frame := { f with status }

/-- Prints bytes. -/
def put (f : Frame) (sink : Sink) (bytes : List UInt8) (k : Then) : Behaviour :=
  if bytes.isEmpty then k f
  else
    match sink with
    | .outer toError => .emit toError bytes fun _ => k f
    | .file path => .disk (.write path bytes true) fun _ => k f
    | .capture level => k { f with captured := f.captured.modify level (· ++ bytes) }

/-- Prints to the output. -/
def print (f : Frame) (bytes : List UInt8) (k : Then) : Behaviour := f.put f.output bytes k

/-- Prints a text to the output. -/
def say (f : Frame) (text : String) (k : Then) : Behaviour := f.print (Text.encode text) k

/-- Complains, and goes on with a status. -/
def complain (f : Frame) (text : String) (status : Nat) (k : Then) : Behaviour :=
  f.put f.errors (Text.encode text) fun f => k (f.ending status)

/-- Reads a line, or what there is. -/
def receive (f : Frame) (line : Bool) (k : List UInt8 → Then) : Behaviour :=
  match f.input with
  | .outer => .receive line fun bytes => k bytes f
  | .bytes fromFile content =>
    if line then
      let front := content.takeWhile (· ≠ 10)
      let rest := content.drop front.length
      k (front ++ rest.take 1) { f with input := .bytes fromFile (rest.drop 1) }
    else k content { f with input := .bytes fromFile [] }

/-- How many reads or rounds a process takes before it counts as one that never ends. -/
def patience : Nat := 1000000

/-- The behaviour of a process that never ends. -/
def stuck : Behaviour := .sleep none fun _ => .exit 0

/-- Reads all input. -/
def receiveAll (n : Nat) (f : Frame) (before : List UInt8) (k : List UInt8 → Then) : Behaviour :=
  match n with
  | 0 => stuck
  | n + 1 =>
    f.receive false fun bytes f =>
      if bytes.isEmpty then k before f else receiveAll n f (before ++ bytes) k

/-- Prints all input as it comes. -/
def copyInput (n : Nat) (f : Frame) (k : Then) : Behaviour :=
  match n with
  | 0 => stuck
  | n + 1 =>
    f.receive false fun bytes f =>
      if bytes.isEmpty then k f else f.print bytes fun f => copyInput n f k

end Frame

end CommandConsole.Unix
