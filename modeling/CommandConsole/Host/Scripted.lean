import CommandConsole.Machine.Schedule
import CommandConsole.Text.Lines
import CommandConsole.Text.Numeral

/-!
# A scripted host

A host that lives in memory. Its files are a map from paths to texts; some directories
are missing; a few programs are built in, and others answer as they are told. It keeps
a record of the programs it was asked to run, so that a console can be tried out on it.
-/

namespace CommandConsole

/-- What a scripted program does. -/
structure ScriptedProgram where
  result : Except Fault ProgramOutput
  /-- How long it takes. -/
  delayMs : Nat
  deriving Inhabited

/-- A program that the host was asked for. -/
structure RequestRecord where
  /-- Whether the program was to be interactive. -/
  interactive : Bool
  request : Request

/-- The state of a scripted host. -/
structure ScriptedHost where
  /-- The files by path. -/
  files : Dictionary String
  missingDirectories : List String
  /-- The commands that cannot be started as sessions. -/
  failingCommands : List String
  programs : Dictionary ScriptedProgram
  /-- The live interactive processes and their channels. -/
  live : List (Handle × Nat)
  /-- How many handles were given out. -/
  handles : Nat
  /-- Whether the host was shut down. -/
  isShutDown : Bool
  /-- What the host was asked for, latest first. -/
  requests : List RequestRecord

namespace ScriptedHost

/-- A host without files and programs. -/
def empty : ScriptedHost := ⟨.empty, [], [], .empty, [], 0, false, []⟩

instance : Inhabited ScriptedHost := ⟨empty⟩

/-- Whether a path is, or lies below, a missing directory. -/
def isMissing (h : ScriptedHost) (path : String) : Bool :=
  h.missingDirectories.any fun d => (Path.ofText path).isWithin (Path.ofText d)

/-- Whether a directory exists. -/
def isDirectory (h : ScriptedHost) (path : String) : Bool :=
  !h.isMissing path && !h.files.contains path

/-! ## Programs -/

/-- The texts of files one after the other, up to the first that is missing. -/
def concatenate (h : ScriptedHost) (directory read : String) : List String → ProgramOutput
  | [] => ⟨0, read, ""⟩
  | arg :: rest =>
    let path := ((Path.ofText directory).join (Path.ofText arg)).normalize.toText
    match h.files.get? path with
    | some text => h.concatenate directory (read ++ text) rest
    | none => ⟨1, read, "cat: " ++ arg ++ ": No such file\n"⟩

/-- The count that `wc` prints. -/
def countOf (option : Option String) (text : String) : Nat :=
  match option with
  | some "-l" => text.toList.count '\n'
  | some "-c" => text.utf8ByteSize
  | _ => text.length

/-- An optional text between brackets. -/
def shown : Option String → String
  | some text => "(" ++ text ++ ")"
  | none => "none"

/-- Arguments, each between square brackets. -/
def bracketed (args : List String) : String := String.join (args.map fun a => "[" ++ a ++ "]")

/-- What a program does, and how long it takes. -/
def outcome (h : ScriptedHost) (r : Request) : Except Fault ProgramOutput × Nat :=
  let printed (stdout : String) : Except Fault ProgramOutput × Nat := (.ok ⟨0, stdout, ""⟩, 0)
  match h.programs.get? r.command with
  | some p => (p.result, p.delayMs)
  | none =>
    match r.command with
    | "cat" =>
      if r.args.isEmpty then printed (r.input.getD "")
      else (.ok (h.concatenate r.directory "" r.args), 0)
    | "wc" => printed (toString (countOf r.args.head? (r.input.getD "")) ++ "\n")
    | "env" => printed (String.join (r.environment.entries.map fun e => e.1 ++ "=" ++ e.2 ++ "\n"))
    | "args" => printed (bracketed r.args ++ " " ++ shown r.input ++ "\n")
    | "fail" =>
      let code := (r.args.head?.bind Text.integer32?).getD 1
      (.ok ⟨code, "partial\n", "failure reported\n"⟩, 0)
    | "warn" => (.ok ⟨0, "ok\n", "warning: " ++ " ".intercalate r.args ++ "\n"⟩, 0)
    | "slow" => (.ok ⟨0, "slept\n", ""⟩, (r.args.head?.bind Text.count?).getD 0)
    | command => (.error ⟨.commandNotFound, command⟩, 0)

/-- The longest wait that ever ends, in milliseconds. -/
def longestWait : Nat := 30 * 365 * 86400 * 1000

/-- Runs a program. What takes longer than it may ends at its limit. -/
def run (h : ScriptedHost) (r : Request) : Reaction (Except Fault ProgramOutput) :=
  let (result, delay) := h.outcome r
  if delay = 0 then .now result
  else
    let interrupted : Except Fault ProgramOutput := .ok .interrupted
    match r.timeoutMs.filter (· < delay) with
    | some limit => ⟨.error ⟨.timeout, r.command ++ " timed out"⟩, some limit, some interrupted⟩
    | none => ⟨result, if longestWait ≤ delay then none else some delay, some interrupted⟩

/-! ## Interactive processes -/

/-- The fault of a handle without a process. -/
def noProcess : Fault := ⟨.executionFailed, "no live process"⟩

/-- What a process reports about the lines it reads, and whether one of them ends it. -/
def respond : List (List Char) → List SessionEvent × Bool
  | [] => ([], false)
  | line :: rest =>
    let head := line.takeWhile (· ≠ ' ')
    let tail := String.ofList (line.drop (head.length + 1))
    match String.ofList head with
    | "exit" => ([.close (some ((Text.integer32? tail).getD 0))], true)
    | "die" => ([.close none], true)
    | "err" =>
      let (events, ended) := respond rest
      (.stderr tail :: events, ended)
    | _ =>
      let (events, ended) := respond rest
      (.stdout (String.ofList line) :: events, ended)

/-- Takes a process away. -/
def removing (h : ScriptedHost) (handle : Handle) : ScriptedHost :=
  { h with live := h.live.filter fun p => p.1 ≠ handle }

/-- Reacts to a call. -/
def call (h : ScriptedHost) (_now : Nat) :
    (c : HostCall) → Reaction c.Answer × List (Nat × Signal) × ScriptedHost
  | .fetch path =>
    match h.files.get? path with
    | some text => (.now (.ok text), [], h)
    | none => (.now (.error ⟨.io, path ++ ": No such file"⟩), [], h)
  | .save path text append =>
    if h.isMissing path then (.now (.error ⟨.io, path ++ ": No such directory"⟩), [], h)
    else
      let before := if append then (h.files.get? path).getD "" else ""
      (.now (.ok ()), [], { h with files := h.files.insert path (before ++ text) })
  | .isDirectory path => (.now (h.isDirectory path), [], h)
  | .run r => (h.run r, [], { h with requests := ⟨false, r⟩ :: h.requests })
  | .start r channel =>
    let h := { h with requests := ⟨true, r⟩ :: h.requests }
    if h.failingCommands.contains r.command then
      (.now (.error ⟨.spawnFailed, r.command ++ ": permission denied"⟩), [(channel, .hangUp)], h)
    else
      let handle := h.handles + 1
      (.now (.ok handle), [], { h with live := h.live ++ [(handle, channel)], handles := handle })
  | .send handle data =>
    match h.live.lookup handle with
    | none => (.now (.error noProcess), [], h)
    | some channel =>
      let (events, ended) := respond (Text.lines data.toList)
      (.now (.ok ()), events.map fun e => (channel, .event e),
        if ended then h.removing handle else h)
  | .stop handle =>
    match h.live.lookup handle with
    | none => (.now (.error noProcess), [], h)
    | some channel => (.now (.ok ()), [(channel, .event (.close none))], h.removing handle)
  | .shutDown =>
    (.now (), h.live.map fun p => (p.2, .hangUp), { h with live := [], isShutDown := true })

/-- A scripted host as a host; nothing happens in it by itself. -/
def model : HostModel ScriptedHost where
  call := call
  nextEvent _ := none
  elapse h _ := ([], h)

end ScriptedHost

/-! ## Scripted commands -/

/-- What a scripted command does: the first of the things it is told, in this order. -/
structure Script where
  /-- Breaks off with this message. -/
  panic : Option String
  /-- Complains in these words. -/
  complaint : Option String
  /-- Fails because of this fault. -/
  fault : Option Fault
  /-- Complains if there is no argument that is this. -/
  required : Option String
  /-- Prints this, or a report on its call. -/
  output : Option String
  exitCode : Int
  error : Option String
  changes : List Change
  endsLine : Bool

/-- The report on a call: name, arguments, input. -/
def Invocation.report (i : Invocation) : String :=
  i.name ++ " " ++ ScriptedHost.bracketed i.args ++ " " ++ ScriptedHost.shown i.input

/-- Carries a script out. -/
def Script.body (s : Script) : Body := fun i =>
  match s.panic, s.complaint, s.fault with
  | some message, _, _ => .panic message
  | none, some text, _ => Work.complain text
  | none, none, some f => Work.fail f
  | none, none, none =>
    let print : Work :=
      Work.print ⟨s.output.getD i.report, s.error, s.exitCode, s.changes, s.endsLine⟩
    match s.required with
    | some what => i.withFirst what fun _ => print
    | none => print

end CommandConsole
