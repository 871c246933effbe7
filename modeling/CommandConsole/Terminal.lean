import CommandConsole.CommandLine
import CommandConsole.Console
import CommandConsole.Text.Lines
import CommandConsole.Unix.Host

/-!
# The terminal

A console at the other end of a text stream. It prints a prompt, takes a line, prints
what came of it, and prompts again, until it is told to exit or the input ends. Lines of
sessions are printed as they come, each with the id of its session in front. At the end
everything is shut down, and what the sessions still have to say is printed.
-/

namespace CommandConsole

/-- A piece of text on one of the two outputs. -/
inductive Printed where
  | out (text : String)
  | err (text : String)
  deriving DecidableEq, Repr, Inhabited

/-- The surroundings that the program is started in. -/
structure Surroundings where
  /-- The variables of the program. -/
  environment : Dictionary String
  /-- The directory of the program. -/
  directory : String

/-- The home directory of the user. -/
def Surroundings.home (s : Surroundings) : String := (s.environment.get? "HOME").getD "/"

/-- A console with the sessions whose lines are printed. -/
structure Terminal where
  machine : Machine Unix.Host
  console : Console
  /-- The numbers of the sessions that are followed. -/
  followed : List Nat

namespace Terminal

/-- What is printed when a line can be entered. -/
def prompt : String := "console> "

/-- The settings that a command line asks for. -/
def settings (c : CommandLine) (s : Surroundings) (d : Unix.Disk) : Except Fault Settings :=
  match c.config with
  | none => .ok (.standard s.home)
  | some path => Settings.ofFile s.home path (d.read path)

/-- Opens a terminal on a machine. -/
def start (c : CommandLine) (s : Surroundings) (d : Unix.Disk) : Except Fault Terminal := do
  let chosen ← settings c s d
  (chosen.check).mapError Settings.Refusal.toFault
  let setup := Console.setupWith chosen (AllowList.default.adding chosen.systemCommands) []
  let host := Unix.Host.idle d ((s.environment.get? "PATH").getD "")
  pure
    { machine := .initial setup host
      console := Console.opened chosen s.environment (c.directory.getD s.directory)
      followed := [] }

/-- How an event of a session is printed. -/
def eventText (id : String) : SessionEvent → String
  | .stdout line => "[" ++ id ++ "] " ++ line ++ "\n"
  | .stderr line => "[" ++ id ++ "] ! " ++ line ++ "\n"
  | .close (some code) => "[" ++ id ++ "] exited (" ++ toString code ++ ")\n"
  | .close none => "[" ++ id ++ "] terminated\n"

/-- Prints what waits in the streams of some sessions. -/
def drain (w : World) : List Nat → List Printed × World
  | [] => ([], w)
  | number :: rest =>
    let ((events, _), w) := w.readStream number
    let (later, w) := drain w rest
    (events.map (fun e => .out (eventText (Session.idOf number) e)) ++ later, w)

/-- Carries out an activity, and prints what sessions reported meanwhile. The result is
missing if the activity broke off or waits for ever. -/
def perform {β : Type} (t : Terminal) (a : Activity β) : List Printed × Option β × Terminal :=
  let (result, machine) := t.machine.perform Unix.Host.model .nobody a
  let (printed, world) := drain machine.world t.followed
  let result := result.bind Except.toOption
  (printed, result, { t with machine := { machine with world } })

/-- Whether a line ends the conversation. -/
def isFarewell (line : String) : Bool := Text.trim line = "exit" || Text.trim line = "quit"

/-- What is printed of an outcome. -/
def report (o : Outcome) : List Printed :=
  (if o.output.isEmpty then [] else [.out (o.output ++ "\n")]) ++
    (match o.error with
      | some e => [.err (e ++ "\n")]
      | none => [])

/-- Follows the session that a line started. -/
def follow (t : Terminal) (o : Outcome) : Terminal :=
  match o.session.bind t.console.claim with
  | some (number, console) => { t with console, followed := t.followed ++ [number] }
  | none => t

/-- Carries out a line, and prompts for the next one. -/
def submit (t : Terminal) (line : String) : List Printed × Terminal :=
  match t.perform (t.console.execute t.machine.world.setup line) with
  | (printed, some (o, console), t) =>
    (printed ++ report o ++ [.out prompt], follow { t with console } o)
  | (printed, none, t) => (printed ++ [.out prompt], t)

/-- How long sessions are heard after the console was shut down, in milliseconds. -/
def closingMs : Nat := 10000

/-- Shuts everything down. -/
def finish (t : Terminal) : List Printed × Terminal :=
  let (first, _, t) := t.perform t.console.shutDown
  let (second, _, t) := t.perform (Activity.query (.pause (some closingMs)))
  (first ++ second, t)

/-- Carries out lines until one ends the conversation, and shuts everything down. -/
def converse (t : Terminal) : List String → List Printed
  | [] => t.finish.1
  | line :: rest =>
    if isFarewell line then t.finish.1
    else
      let (printed, t) := t.submit line
      printed ++ converse t rest

/-! ## The whole program -/

/-- What a run of the program comes to: an exit code and what was printed. -/
structure Transcript where
  exitCode : Nat
  printed : List Printed
  deriving DecidableEq, Repr

/-- The text on the ordinary output. -/
def Transcript.stdout (t : Transcript) : String :=
  String.join (t.printed.filterMap fun p =>
    match p with
    | .out text => some text
    | .err _ => none)

/-- The text on the error output. -/
def Transcript.stderr (t : Transcript) : String :=
  String.join (t.printed.filterMap fun p =>
    match p with
    | .err text => some text
    | .out _ => none)

/-- What is said of a start that failed. -/
def refusal (reason : String) : Printed := .err ("Error: " ++ reason ++ "\n")

/-- Reads the arguments of the program and opens its terminal. -/
def opened (args : List String) (s : Surroundings) (d : Unix.Disk) : Except String Terminal := do
  let c ← (CommandLine.read args).mapError Misuse.message
  (start c s d).mapError Fault.render

/-- Runs the program on an input. -/
def run (args : List String) (s : Surroundings) (d : Unix.Disk) (input : String) : Transcript :=
  match opened args s d with
  | .error reason => ⟨1, [refusal reason]⟩
  | .ok t => ⟨0, .out prompt :: t.converse ((Text.lines input.toList).map String.ofList)⟩

end Terminal

end CommandConsole
