import CommandConsole.Fault

/-!
# Outcomes

The outcome of a submitted line: what it printed, how it ended, and the job or session
that it started.
-/

namespace CommandConsole

/-- Exit codes with a fixed meaning. -/
inductive ExitCode where
  | success
  | failure
  | notFound
  | cancelled

/-- The number of an exit code. -/
def ExitCode.toInt : ExitCode → Int
  | success => 0
  | failure => 1
  | notFound => 127
  | cancelled => 130

/-- The outcome of a line. -/
structure Outcome where
  success : Bool
  output : String
  /-- What went wrong, or what a successful program said besides its output. -/
  error : Option String
  exitCode : Int
  /-- How long the line took, in milliseconds. -/
  durationMs : Nat
  /-- The job that was started. -/
  job : Option String
  /-- The session that was started. -/
  session : Option String
  /-- The stage that stopped the pipeline, counted from zero. -/
  failedStage : Option Nat
  deriving DecidableEq, Repr

namespace Outcome

/-- An outcome before anything is known: nothing printed, no success. -/
def blank : Outcome := ⟨false, "", none, 0, 0, none, none, none⟩

instance : Inhabited Outcome := ⟨blank⟩

/-- A success that printed `output`. -/
def ok (output : String) : Outcome := { blank with success := true, output }

/-- A failure with an exit code and a reason. -/
def failure (exitCode : Int) (error : String) : Outcome :=
  { blank with error := some error, exitCode }

/-- The text that reports an unknown command. -/
def unknownCommand (command : String) : String := "command not found: " ++ command

/-- The outcome of an unknown command. -/
def notFound (command : String) : Outcome :=
  failure ExitCode.notFound.toInt (unknownCommand command)

/-- The outcome of a line that was called off. -/
def cancelled : Outcome := failure ExitCode.cancelled.toInt "cancelled"

/-- The outcome of a fault. -/
def ofFault (f : Fault) : Outcome := failure f.exitCode f.message

/-- The outcome with its duration filled in. -/
def lasting (o : Outcome) (ms : Nat) : Outcome := { o with durationMs := ms }

end Outcome

end CommandConsole
