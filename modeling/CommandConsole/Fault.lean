/-!
# Faults

What can go wrong between the console and its surroundings. A fault has a kind, which
fixes its code, and a message that says what was concerned.
-/

namespace CommandConsole

/-- The kinds of fault. -/
inductive FaultKind where
  /-- The line cannot be read. -/
  | parse
  /-- Neither a built-in nor a system command has the name. -/
  | commandNotFound
  /-- A program failed or could not be driven. -/
  | executionFailed
  /-- Too many jobs run already. -/
  | concurrencyLimitExceeded
  | jobNotFound
  | sessionNotFound
  /-- The session exists but does not run. -/
  | sessionNotRunning
  /-- The program could not be started. -/
  | spawnFailed
  /-- The program took too long. -/
  | timeout
  /-- A file or pipe failed. -/
  | io
  /-- The settings cannot be used. -/
  | config
  deriving DecidableEq, Repr, Inhabited

namespace FaultKind

/-- The machine-readable code. -/
def code : FaultKind → Nat
  | parse => 9000
  | commandNotFound => 9001
  | executionFailed => 9002
  | concurrencyLimitExceeded => 9003
  | jobNotFound => 9004
  | sessionNotFound => 9005
  | sessionNotRunning => 9006
  | spawnFailed => 9007
  | timeout => 9008
  | io => 9009
  | config => 9010

/-- The words in front of the message. -/
def title : FaultKind → String
  | parse => "Parse error"
  | commandNotFound => "Command not found"
  | executionFailed => "Execution failed"
  | concurrencyLimitExceeded => "Concurrency limit exceeded"
  | jobNotFound => "Job not found"
  | sessionNotFound => "Session not found"
  | sessionNotRunning => "Session not running"
  | spawnFailed => "Failed to spawn"
  | timeout => "Timeout"
  | io => "IO error"
  | config => "Invalid configuration"

end FaultKind

/-- A fault. -/
structure Fault where
  kind : FaultKind
  /-- What was concerned, in words. -/
  message : String
  deriving DecidableEq, Repr, Inhabited

namespace Fault

/-- The whole text of a fault. -/
def render (f : Fault) : String :=
  "[" ++ toString f.kind.code ++ "] " ++ f.kind.title ++ ": " ++ f.message

/-- The exit code of a command that ends in this fault. -/
def exitCode (f : Fault) : Int := if f.kind = .commandNotFound then 127 else 1

end Fault

/-- The causes a failed file or pipe operation reports, as far as faults tell them apart. -/
inductive FileFailure where
  | notFound
  | timedOut
  | other
  deriving DecidableEq, Repr

/-- The fault that a failed file or pipe operation amounts to. -/
def FileFailure.toFault (failure : FileFailure) (message : String) : Fault :=
  match failure with
  | notFound => ⟨.commandNotFound, message⟩
  | timedOut => ⟨.timeout, message⟩
  | other => ⟨.io, message⟩

end CommandConsole
