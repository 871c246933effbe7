import CommandConsole.Machine.Schedule
import CommandConsole.Unix.Process
import CommandConsole.Unix.Shell.Meaning

/-!
# A machine with a disk and processes

A host that keeps files on a `Disk` and runs the installed programs and scripts on it.
A program that is run once is followed to its end at the moment it is started, which
gives its answer and how long that takes; its work on the disk is done as time passes.
Interactive processes go on by themselves as time passes, and react to what they are
sent a moment later.
-/

namespace CommandConsole.Unix

/-- An interactive process and who follows it. -/
structure Live where
  handle : Handle
  channel : Nat
  process : Process
  out : LineFeed
  err : LineFeed

/-- A machine. -/
structure Host where
  disk : Disk
  /-- Where programs are looked for if a request does not say so. -/
  searchPath : String
  /-- The interactive processes, in the order they were started. -/
  live : List Live
  /-- How many handles were given out. -/
  handles : Nat
  /-- The programs that are being run once. -/
  runs : List Process

namespace Host

/-- A machine on which nothing runs. -/
def idle (disk : Disk) (searchPath : String) : Host := ⟨disk, searchPath, [], 0, []⟩

/-! ## Starting programs -/

/-- The fault of a program that cannot be started. -/
def startFault (command : String) (e : DiskError) : Fault :=
  if e = .noEntry then ⟨.commandNotFound, command⟩
  else ⟨.spawnFailed, command ++ ": " ++ e.message⟩

/-- A path below a directory. -/
def below (directory path : String) : String :=
  if Path.isAbsolute path then path
  else if directory.isEmpty || directory.toList.getLast? = some '/' then directory ++ path
  else directory ++ "/" ++ path

/-- The path of the program that a request names. A name with a slash is a path; any
other is looked for in the directories of the search path. -/
def programPath (h : Host) (r : Request) : Option String :=
  if r.command.toList.contains '/' then
    let path := below r.directory r.command
    if h.disk.isThere path then some path else none
  else
    let directories := (((r.environment.get? "PATH").getD h.searchPath).toList.splitOn ':')
    (directories.map fun d => below (String.ofList d) r.command).find? h.disk.isExecutable

/-- The interpreter that the first line of a script names, with its argument. -/
def interpreter? (content : List UInt8) : Option (String × List String) :=
  match (Text.decodeLossy (content.takeWhile (· ≠ 10))).toList with
  | '#' :: '!' :: line =>
    let blank (c : Char) : Bool := c == ' ' || c == '\t'
    let line := ((line.dropWhile blank).reverse.dropWhile blank).reverse
    let program := line.takeWhile fun c => !blank c
    let argument := (line.drop program.length).dropWhile blank
    if program.isEmpty then none
    else some (String.ofList program,
      if argument.isEmpty then [] else [String.ofList argument])
  | _ => none

/-- How many scripts may be interpreters of one another. -/
def interpreterDepth : Nat := 5

/-- The behaviour of what stands at a path, started in a directory. A script is run by
its interpreter, which takes the path of the script as an argument. -/
def behaviourOf (d : Disk) (environment : Dictionary String) (directory : String) :
    (depth : Nat) → (path : String) → (args : List String) → Except DiskError Behaviour
  | 0, _, _ => .error .noProgram
  | depth + 1, path, args => do
    match ← d.find path with
    | .directory | .file _ false => .error .noAccess
    | .program name => .ok (Shell.processOf path (.program name) args environment directory)
    | .file content true =>
      match interpreter? content with
      | some (interpreter, extra) =>
        behaviourOf d environment directory depth (below directory interpreter)
          (extra ++ path :: args)
      | none => .error .noProgram

/-- The directory that a request is started in. -/
def startDirectory (d : Disk) (path : String) : Except DiskError String := do
  let steps ← d.locate path
  match d.node? steps with
  | some .directory => .ok (Path.toText ⟨true, steps⟩)
  | some _ => .error .notDirectory
  | none => .error .noEntry

/-- The behaviour of the program that a request names. -/
def launch (h : Host) (r : Request) : Except Fault Behaviour :=
  match h.programPath r with
  | none => .error ⟨.commandNotFound, r.command⟩
  | some path =>
    let started : Except DiskError Behaviour := do
      let directory ← startDirectory h.disk r.directory
      behaviourOf h.disk r.environment directory interpreterDepth (below directory path) r.args
    started.mapError (startFault r.command)

/-! ## Running a program once -/

/-- What was printed on one of the outputs, given everything printed, latest first. -/
def textOf (toError : Bool) (printed : List (Bool × List UInt8)) : String :=
  Text.decodeLossy ((printed.reverse.filter fun p => p.1 = toError).flatMap Prod.snd)

/-- The fault of a program that took too long. -/
def timeoutFault (command : String) (ms : Nat) : Fault :=
  ⟨.timeout, command ++ " did not finish within " ++ toString ms ++ " ms"⟩

/-- How long a process or the disk takes to react, in milliseconds. -/
def latencyMs : Nat := 1

/-- Runs a program, which is called off after `calledOff` milliseconds if it is not done
by then. A program takes a little longer than it sleeps, so it does not end within a
limit that it sleeps out. -/
def run (h : Host) (now : Nat) (r : Request) (calledOff : Option Nat) :
    Reaction (Except Fault ProgramOutput) × Host :=
  match h.launch r with
  | .error f => (.now (.error f), h)
  | .ok b =>
    let bytes := (r.input.map Text.encode).getD []
    let limit := (r.timeoutMs.toList ++ calledOff.toList).min?
    let interrupted : Except Fault ProgramOutput := .ok .interrupted
    let (halt, s) := b.advance (limit.map (· - latencyMs)) ⟨h.disk, bytes, true, .die, false, [], 0⟩
    let atLimit : Except Fault ProgramOutput × Option Nat :=
      (if limit = r.timeoutMs then .error (timeoutFault r.command (limit.getD 0))
        else interrupted, limit)
    let (answer, delay) : Except Fault ProgramOutput × Option Nat :=
      match halt with
      | .ended status =>
        if limit = some 0 then atLimit
        else
          (.ok ⟨status, textOf false s.printed, textOf true s.printed⟩, some (s.slept + latencyMs))
      | _ => atLimit
    let (_, p, disk) := (Process.starting b (some bytes) now).goOn h.disk now
    let p := { p with deadline := limit.map (now + ·) }
    let after : Host := { h with disk, runs := if p.status?.isSome then h.runs else h.runs ++ [p] }
    (⟨answer, delay, some interrupted⟩, after)

/-! ## Interactive processes -/

/-- The fault of a handle without a process. -/
def noProcess (handle : Handle) : Fault :=
  ⟨.executionFailed, "no live process " ++ renderHandle handle⟩

/-- Starts an interactive process. -/
def start (h : Host) (now : Nat) (r : Request) (channel : Nat) :
    Except Fault Handle × List (Nat × Signal) × Host :=
  match h.launch r with
  | .error f => (.error f, [(channel, .hangUp)], h)
  | .ok b =>
    let handle := h.handles + 1
    let l : Live := ⟨handle, channel, .starting b none (now + latencyMs), .fresh, .fresh⟩
    (.ok handle, [], { h with live := h.live ++ [l], handles := handle })

/-- Whether a handle has a process. -/
def isLive (h : Host) (handle : Handle) : Bool := h.live.any fun l => l.handle = handle

/-- Changes the process of a handle. -/
def change (h : Host) (handle : Handle) (f : Process → Process) : Host :=
  let changed (l : Live) : Live :=
    if l.handle = handle then { l with process := f l.process } else l
  { h with live := h.live.map changed }

/-- Takes in what an interactive process printed, and reports the lines of it. -/
def follow (l : Live) : List (Bool × List UInt8) → List SessionEvent × Live
  | [] => ([], l)
  | (true, bytes) :: rest =>
    let (lines, err) := l.err.take bytes
    let (events, l) := follow { l with err } rest
    (lines.map .stderr ++ events, l)
  | (false, bytes) :: rest =>
    let (lines, out) := l.out.take bytes
    let (events, l) := follow { l with out } rest
    (lines.map .stdout ++ events, l)

/-- What a process reports when it is over. -/
def farewell (l : Live) (status : Nat) : List SessionEvent :=
  l.out.finish.map .stdout ++ l.err.finish.map .stderr ++ [.close (some status)]

/-- Lets an interactive process go on at a moment, if it is due; it is gone when it is
over. -/
def goOnLive (d : Disk) (now : Nat) (l : Live) : List (Nat × Signal) × Option Live × Disk :=
  if l.process.nextMoment?.any (· ≤ now) then
    let (printed, process, d) := l.process.goOn d now
    let (events, l) := follow { l with process } printed
    let (events, kept) :=
      match process.status? with
      | some status => (events ++ farewell l status, none)
      | none => (events, some l)
    (events.map fun e => (l.channel, .event e), kept, d)
  else ([], some l, d)

/-- Lets a program that is run once go on at a moment, if it is due. -/
def goOnRun (d : Disk) (now : Nat) (p : Process) : Option Process × Disk :=
  if p.nextMoment?.any (· ≤ now) then
    let (_, p, d) := p.goOn d now
    (if p.status?.isSome then none else some p, d)
  else (some p, d)

/-- Lets everything go on that is due at a moment. -/
def elapse (h : Host) (now : Nat) : List (Nat × Signal) × Host :=
  let (runs, disk) := h.runs.foldl
    (fun acc p =>
      let (kept, d) := goOnRun acc.2 now p
      (acc.1 ++ kept.toList, d))
    (([] : List Process), h.disk)
  let (signals, live, disk) := h.live.foldl
    (fun acc l =>
      let (signals, kept, d) := goOnLive acc.2.2 now l
      (acc.1 ++ signals, acc.2.1 ++ kept.toList, d))
    (([] : List (Nat × Signal)), ([] : List Live), disk)
  (signals, { h with disk, live, runs })

/-- The next moment at which something happens. -/
def nextEvent (h : Host) : Option Nat :=
  (h.live.filterMap (·.process.nextMoment?) ++ h.runs.filterMap (·.nextMoment?)).min?

/-! ## Files -/

/-- The fault of a path that cannot be used. -/
def fileFault (path : String) (e : DiskError) : Fault := ⟨.io, path ++ ": " ++ e.message⟩

/-- The text of a file. -/
def fetch (h : Host) (path : String) : Except Fault String :=
  match h.disk.read path with
  | .ok bytes => .ok (Text.decodeLossy bytes)
  | .error e => .error (fileFault path e)

/-- Writes a file. -/
def save (h : Host) (path text : String) (append : Bool) : Except Fault Unit × Host :=
  let (answer, disk) := h.disk.serve (.write path (Text.encode text) append)
  (answer.mapError (fileFault path), { h with disk })

/-! ## The host -/

/-- A reaction of the disk. -/
def soon {α : Type} (answer : α) : Reaction α := ⟨answer, some latencyMs, none⟩

/-- Reacts to a call. -/
def call (h : Host) (now : Nat) : (c : HostCall) → Reaction c.Answer × List (Nat × Signal) × Host
  | .fetch path => (soon (h.fetch path), [], h)
  | .save path text append =>
    let (answer, h) := h.save path text append
    (soon answer, [], h)
  | .isDirectory path => (soon (h.disk.isDirectory path), [], h)
  | .run r =>
    let (reaction, h) := h.run now r none
    (reaction, [], h)
  | .start r channel =>
    let (answer, signals, h) := h.start now r channel
    (.now answer, signals, h)
  | .send handle data =>
    if h.isLive handle then
      (.now (.ok ()), [], h.change handle (·.receive (Text.encode data) (now + latencyMs)))
    else (.now (.error (noProcess handle)), [], h)
  | .stop handle =>
    if h.isLive handle then
      (.now (.ok ()), [], h.change handle (·.terminate (now + latencyMs)))
    else (.now (.error (noProcess handle)), [], h)
  | .shutDown =>
    let live := h.live.map fun l => { l with process := l.process.terminate (now + latencyMs) }
    (.now (), [], { h with live })

/-- A machine as a host. -/
def model : HostModel Host where
  call := call
  nextEvent := nextEvent
  elapse := elapse

end Host

end CommandConsole.Unix
