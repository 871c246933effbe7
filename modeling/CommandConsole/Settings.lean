import CommandConsole.Context
import CommandConsole.Fault
import CommandConsole.Toml.Document

/-!
# Settings

What a console can be told when it starts, how that is read from a TOML document, and
which settings are refused.
-/

namespace CommandConsole

/-- Programs that start a session instead of running once. -/
def defaultInteractivePrograms : List String :=
  ["ssh", "telnet", "nc", "mysql", "psql", "redis-cli", "mongosh", "sqlite3", "python3", "node"]

/-- The settings of a console. -/
structure Settings where
  /-- How many background jobs may run at once. -/
  maxConcurrentJobs : Nat
  /-- How long a finished job stays listed, in seconds. -/
  jobRetentionSecs : Nat
  /-- How long a program may run, in milliseconds. -/
  commandTimeoutMs : Option Nat
  /-- Where `cd` goes without an argument. -/
  homeDirectory : String
  /-- How many history entries are kept. -/
  historyLimit : Nat
  /-- How many characters of output an entry keeps. -/
  historyOutputChars : Nat
  /-- Names tried as programs besides the default ones. -/
  systemCommands : List String
  /-- Programs that start a session. -/
  interactiveCommands : List String
  /-- Aliases to start with. -/
  aliases : Dictionary String
  /-- Variables laid over the inherited ones. -/
  environment : Dictionary String
  /-- Whether the console starts with its own process's variables. -/
  inheritEnvironment : Bool
  deriving DecidableEq, Inhabited

namespace Settings

/-- The settings of a console that is told nothing, for a user at home in `home`. -/
def standard (home : String) : Settings where
  maxConcurrentJobs := 10
  jobRetentionSecs := 300
  commandTimeoutMs := none
  homeDirectory := home
  historyLimit := 1000
  historyOutputChars := 4096
  systemCommands := []
  interactiveCommands := defaultInteractivePrograms
  aliases := .empty
  environment := .empty
  inheritEnvironment := true

/-- Why settings are refused. -/
inductive Refusal where
  /-- The document is no TOML, or a setting has the wrong type. -/
  | unreadable
  | noJobs
  | noHistory
  | noTime
  | homeNotAbsolute (home : String)
  deriving DecidableEq, Repr

/-- The text of a refusal. -/
def Refusal.message : Refusal → String
  | unreadable => "Failed to parse config"
  | noJobs => "max_concurrent_jobs must be at least 1"
  | noHistory => "history_limit must be at least 1"
  | noTime => "command_timeout_ms must be positive"
  | homeNotAbsolute home => "home_directory must be absolute, got " ++ home

/-- A refusal as a fault. -/
def Refusal.toFault (r : Refusal) : Fault := ⟨.config, r.message⟩

/-- Refuses settings that no console can work with. -/
def check (s : Settings) : Except Refusal Unit :=
  if s.maxConcurrentJobs = 0 then .error .noJobs
  else if s.historyLimit = 0 then .error .noHistory
  else if s.commandTimeoutMs = some 0 then .error .noTime
  else if Path.isAbsolute s.homeDirectory then .ok ()
  else .error (.homeNotAbsolute s.homeDirectory)

/-- Whether a command starts a session. -/
def isInteractive (s : Settings) (command : String) : Bool :=
  s.interactiveCommands.contains command

/-- How long a finished job stays listed, in milliseconds. -/
def jobRetentionMs (s : Settings) : Nat := s.jobRetentionSecs * 1000

/-! ## Reading a document -/

/-- A count. -/
def asCount : Toml.Value → Option Nat
  | .integer i => if i < 0 then none else some i.toNat
  | _ => none

/-- A text. -/
def asText : Toml.Value → Option String
  | .text s => some s
  | _ => none

/-- A truth value. -/
def asTruth : Toml.Value → Option Bool
  | .boolean b => some b
  | _ => none

/-- A list of texts. -/
def asTexts : Toml.Value → Option (List String)
  | .list vs => vs.mapM asText
  | _ => none

/-- The key under which the format hands out a moment where a table is asked for. -/
def momentKey : String := "$__toml_private_datetime"

/-- A table of texts. -/
def asDictionary : Toml.Value → Option (Dictionary String)
  | .table _ es => (es.mapM fun e => (asText e.2).map (e.1, ·)).map Dictionary.ofList
  | .moment text => some (Dictionary.empty.insert momentKey text)
  | _ => none

/-- The setting under a key; `none` if it has the wrong type. -/
def field {α : Type} (es : Toml.Entries) (key : String) (convert : Toml.Value → Option α)
    (fallback : α) : Option α :=
  match es.find? key with
  | none => some fallback
  | some v => convert v

/-- The settings in a table; what it does not mention is as in `base`, and what is no
setting is ignored. -/
def ofEntries? (base : Settings) (es : Toml.Entries) : Option Settings := do
  some {
    maxConcurrentJobs := ← field es "max_concurrent_jobs" asCount base.maxConcurrentJobs
    jobRetentionSecs := ← field es "job_retention_secs" asCount base.jobRetentionSecs
    commandTimeoutMs :=
      ← field es "command_timeout_ms" (fun v => (asCount v).map some) base.commandTimeoutMs
    homeDirectory := ← field es "home_directory" asText base.homeDirectory
    historyLimit := ← field es "history_limit" asCount base.historyLimit
    historyOutputChars := ← field es "history_output_chars" asCount base.historyOutputChars
    systemCommands := ← field es "system_commands" asTexts base.systemCommands
    interactiveCommands := ← field es "interactive_commands" asTexts base.interactiveCommands
    aliases := ← field es "aliases" asDictionary base.aliases
    environment := ← field es "environment" asDictionary base.environment
    inheritEnvironment := ← field es "inherit_environment" asTruth base.inheritEnvironment }

/-- Reads and checks the settings in a document. -/
def ofDocument (home document : String) : Except Refusal Settings :=
  match (Toml.read? document).bind (ofEntries? (standard home)) with
  | none => .error .unreadable
  | some s => (s.check).map fun _ => s

/-! ## The first context -/

/-- The context a console starts with in `directory`; `inherited` are the variables of
its own process. -/
def initialContext (s : Settings) (inherited : Dictionary String) (directory : String) : Context :=
  let start := Context.rootedAt directory s.homeDirectory
  let taken := if s.inheritEnvironment then inherited.entries.filter (·.1 ≠ "PWD") else []
  let layered :=
    (taken ++ s.environment.entries).foldl (fun m e => m.insert e.1 e.2) start.environment
  { start with environment := layered.insert "HOME" s.homeDirectory, aliases := s.aliases }

end Settings

end CommandConsole
