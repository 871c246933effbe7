import CommandConsole.Context
import CommandConsole.Fault
import CommandConsole.ProcessTable

/-!
# Hosts

A host runs programs and keeps files for the console. This module says what can be
asked of a host and what it answers; hosts themselves are in `CommandConsole.Host`.

A program is run in one of two ways. A one-shot run ends with an exit code and
everything the program printed. An interactive process is started under a handle and
reports line by line, as events on the channel it was given, until it is closed.
-/

namespace CommandConsole

/-- An invocation of a program. -/
structure Request where
  command : String
  args : List String
  /-- The directory the program starts in. -/
  directory : String
  /-- All the variables the program sees. -/
  environment : Dictionary String
  /-- What the program reads; its input ends there. -/
  input : Option String
  /-- How long the program may run. -/
  timeoutMs : Option Nat
  deriving DecidableEq, Inhabited

/-- The request to run a command in a context, without input or limit. -/
def Request.inContext (command : String) (args : List String) (c : Context) : Request :=
  ⟨command, args, c.workingDirectory, c.environment, none, none⟩

/-- What a one-shot run came to. How long it took is left out: that is never read. -/
structure ProgramOutput where
  exitCode : Int
  stdout : String
  stderr : String
  deriving DecidableEq, Repr, Inhabited

/-- What a program says when it is called off. -/
def ProgramOutput.interrupted : ProgramOutput := ⟨130, "", "interrupted"⟩

/-- An event of an interactive process. -/
inductive SessionEvent where
  /-- A line of output. -/
  | stdout (line : String)
  /-- A line of error text. -/
  | stderr (line : String)
  /-- The end; without a code if none is known. -/
  | close (code : Option Int)
  deriving DecidableEq, Repr, Inhabited

/-- Whether an event is the end of its process. -/
def SessionEvent.isClose : SessionEvent → Bool
  | close _ => true
  | _ => false

/-- What travels on the channel of an interactive process. -/
inductive Signal where
  | event (e : SessionEvent)
  /-- Nothing will follow. -/
  | hangUp
  deriving DecidableEq, Repr, Inhabited

/-- A call on the host. -/
inductive HostCall where
  /-- Reads a file. -/
  | fetch (path : String)
  /-- Writes a file, over or behind what it holds. -/
  | save (path text : String) (append : Bool)
  /-- Asks whether a directory exists. -/
  | isDirectory (path : String)
  /-- Runs a program to its end. -/
  | run (request : Request)
  /-- Starts an interactive process that reports on a channel. -/
  | start (request : Request) (channel : Nat)
  /-- Writes to an interactive process. -/
  | send (handle : Handle) (data : String)
  /-- Asks an interactive process to terminate. -/
  | stop (handle : Handle)
  /-- Asks everything that still runs to terminate. -/
  | shutDown
  deriving DecidableEq, Inhabited

/-- What a host answers to a call. -/
@[reducible] def HostCall.Answer : HostCall → Type
  | fetch _ => Except Fault String
  | save .. => Except Fault Unit
  | isDirectory _ => Bool
  | run _ => Except Fault ProgramOutput
  | start .. => Except Fault Handle
  | send .. => Except Fault Unit
  | stop _ => Except Fault Unit
  | shutDown => Unit

end CommandConsole
