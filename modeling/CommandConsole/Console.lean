import CommandConsole.Background
import CommandConsole.Builtins
import CommandConsole.Line.Parser
import CommandConsole.Line.Printer
import CommandConsole.Session.Control

/-!
# The console

A console owns one context and carries out submitted lines against it. A line in the
background becomes a job, a line that names an interactive program becomes a session,
and any other line is run at once; only the last kind can change the context. Every
line that is not blank is recorded in the history.
-/

namespace CommandConsole

/-- The state of a console besides the tables of jobs, sessions and history. -/
structure Console where
  context : Context
  /-- The numbers of the sessions whose stream nobody has claimed yet. -/
  unclaimed : List Nat
  deriving DecidableEq, Inhabited

namespace Console

/-- The line with its first word replaced, if that is an alias. -/
def expandAlias (c : Context) (raw : String) : String :=
  let trimmed := Text.skipBlanks raw.toList
  let head := trimmed.takeWhile fun ch => !Text.isBlank ch
  match c.aliases.get? (String.ofList head) with
  | some expansion => expansion ++ String.ofList (trimmed.drop head.length)
  | none => raw

/-- Whether a line is a single stage without redirects that names an interactive program. -/
def routesToSession (setup : Setup) (l : Line) : Bool :=
  match l.stages with
  | [s] =>
    s.redirects.isEmpty && setup.settings.isInteractive s.command &&
      !Pipeline.isBuiltin setup.commands s
  | _ => false

/-- The fault of a line without a command. -/
def noCommand (expanded : String) : Fault :=
  ⟨.parse, "no command in '" ++ Text.trim expanded ++ "'"⟩

/-- The history entry of a line. -/
def entryFor (setup : Setup) (raw command : String) (args : List String) (directory : String)
    (o : Outcome) : HistoryEntry where
  id := 0
  command := command
  args := args
  line := Text.trim raw
  workingDirectory := directory
  exitCode := o.exitCode
  durationMs := o.durationMs
  output := snapshot o.output setup.settings.historyOutputChars
  error := o.error.map (snapshot · setup.settings.historyOutputChars)

/-- Starts a line in the background. -/
def startJob (l : Line) (c : Context) : Activity Outcome := do
  match ← Activity.instant (.spawnJob l c) with
  | .ok id => pure { Outcome.ok ("[" ++ id ++ "] started") with job := some id }
  | .error f => pure (.ofFault f)

/-- Starts a session, whose stream is then unclaimed. -/
def startSession (console : Console) (command : String) (args : List String) :
    Activity (Outcome × Console) := do
  match ← Session.start command args console.context with
  | .ok number =>
    let id := Session.idOf number
    pure ({ Outcome.ok ("[" ++ id ++ "] " ++ command ++ " started") with session := some id },
      { console with unclaimed := console.unclaimed ++ [number] })
  | .error f => pure (.ofFault f, console)

/-- Runs a line at once; its changes go to the context. -/
def runNow (setup : Setup) (console : Console) (l : Line) : Activity (Outcome × Console) := do
  let r ← Pipeline.runGuarded setup l console.context
  pure (r.outcome, { console with context := console.context.applyAll r.changes })

/-- Of some sessions, those that are still tracked. -/
def stillTracked : List Nat → Activity (List Nat)
  | [] => pure []
  | number :: rest => do
    let found ← Activity.instant (.findSession (Session.idOf number))
    let others ← stillTracked rest
    pure (if found.isSome then number :: others else others)

/-- Carries a line out, by whichever of the three ways it asks for. -/
def dispatch (setup : Setup) (console : Console) (l : Line) (command : String)
    (args : List String) : Activity (Outcome × Console) :=
  if l.background then do
    let o ← startJob l console.context
    pure (o, console)
  else if routesToSession setup l then startSession console command args
  else runNow setup console l

/-- Executes a submitted line. -/
def execute (setup : Setup) (console : Console) (raw : String) : Activity (Outcome × Console) := do
  let begun ← Activity.now
  let expanded := expandAlias console.context raw
  let l := Line.parse expanded
  let directory := console.context.workingDirectory
  match l.first? with
  | none =>
    if Text.isAllBlank expanded then pure (.ok "", console)
    else
      let ended ← Activity.now
      let o := (Outcome.ofFault (noCommand expanded)).lasting (ended - begun)
      Activity.instant (.appendHistory (entryFor setup raw "" [] directory o))
      pure (o, console)
  | some first =>
    let (command, args) := Pipeline.resolveName setup.commands first
    let (o, after) ← dispatch setup console l command args
    let ended ← Activity.now
    let o := o.lasting (ended - begun)
    Activity.instant (.appendHistory (entryFor setup raw command args directory o))
    let unclaimed ← stillTracked after.unclaimed
    pure (o, { after with unclaimed })

/-- Claims the stream of a session. A stream can be claimed once, and not after a line
found its session gone. -/
def claim (console : Console) (id : String) : Option (Nat × Console) :=
  (console.unclaimed.find? fun number => Session.idOf number = id).map fun number =>
    (number, { console with unclaimed := console.unclaimed.filter (· ≠ number) })

/-- Cancels every job, kills every session, and shuts the host down. -/
def shutDown (console : Console) : Activity Console := do
  let _ ← Background.cancelAll
  Session.killAll
  Activity.host .shutDown
  pure { console with unclaimed := [] }

/-! ## Completion -/

/-- What the argument of a command is completed to. -/
inductive IdArgument where
  | jobs
  | sessions
  | either

/-- The commands whose argument is an id. -/
def idArgument? (command : String) : Option IdArgument :=
  if command = "fg" || command = "bg" then some .jobs
  else if command = "send" then some .sessions
  else if command = "kill" then some .either
  else none

/-- The ids that an argument may be. -/
def idsFor (a : IdArgument) : Activity (List String) := do
  let jobs := (← Activity.instant .listJobs).map Job.id
  let sessions := (← Activity.instant .listSessions).map Session.id
  match a with
  | .jobs => pure jobs
  | .sessions => pure sessions
  | .either => pure (jobs ++ sessions)

/-- The words that may stand first on a line. -/
def commandNames (setup : Setup) (c : Context) : List String :=
  setup.commands.names ++ c.aliases.names ++ setup.programs.known

/-- The candidates that begin with a text, ascending and each once. -/
def candidates (start : String) (names : List String) : List String :=
  (Dictionary.ofList ((names.filter fun n => start.toList.isPrefixOf n.toList).map (·, ()))).names

/-- The completions of a partly typed line. -/
def complete (setup : Setup) (console : Console) (typed : String) : Activity (List String) := do
  let words := (Text.words typed.toList).map String.ofList
  let isOpen := !(typed.toList.getLast?.any Text.isBlank)
  let names := commandNames setup console.context
  match words, isOpen with
  | [], _ => pure (candidates "" names)
  | [word], true => pure (candidates word names)
  | [command], false =>
    match idArgument? command with
    | some a => pure (candidates "" (← idsFor a))
    | none => pure []
  | [command, word], true =>
    match idArgument? command with
    | some a => pure (candidates word (← idsFor a))
    | none => pure []
  | _, _ => pure []

/-! ## Opening a console -/

/-- The setup of a console with settings that have passed their check: the built-in
commands, then `extra` ones, and `programs` to try. -/
def setupWith (s : Settings) (programs : AllowList) (extra : List (Command Body)) : Setup :=
  ⟨extra.foldl Registry.register CommandSet.standard, programs, s⟩

/-- The console at its start. -/
def opened (s : Settings) (inherited : Dictionary String) (directory : String) : Console :=
  ⟨s.initialContext inherited directory, []⟩

end Console

end CommandConsole
