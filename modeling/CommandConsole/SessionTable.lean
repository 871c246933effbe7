import CommandConsole.Host

/-!
# Interactive sessions

A session is an interactive process that the console talks to. Its record is made
before the process is started, and is dropped when the process closes or the session
is killed; only a session whose process could not be started stays until it is killed.

What a process reports waits in its channel's inbox until the console forwards it to
the session's stream. A stream holds at most `Channel.capacity` events that nobody has
read; what arrives beyond that is lost.
-/

namespace CommandConsole

/-- How a session stands. -/
inductive SessionState where
  | starting
  | running
  | stopped
  | error
  deriving DecidableEq, Repr, Inhabited

/-- The name of a state. -/
def SessionState.word : SessionState → String
  | starting => "starting"
  | running => "running"
  | stopped => "stopped"
  | error => "error"

/-- The record of a session. The times of day at which it began and ended are left out: the
first only orders the records, as the numbers do, and of the second it is only read whether
there is one. -/
structure Session where
  /-- The number of the session among all sessions ever begun, from one. -/
  number : Nat
  command : String
  args : List String
  state : SessionState
  /-- The process, once it runs. -/
  handle : Option Handle
  /-- Whether the session is over. -/
  ended : Bool
  deriving DecidableEq, Repr, Inhabited

namespace Session

/-- The id of the session with a number. -/
def idOf (number : Nat) : String := "session-" ++ toString number

/-- The id of a session. -/
def id (s : Session) : String := idOf s.number

/-- Command and arguments, joined by blanks. -/
def commandLine (s : Session) : String := " ".intercalate (s.command :: s.args)

/-- The record of a session whose process runs. -/
def runs (s : Session) (handle : Handle) : Session :=
  { s with state := .running, handle := some handle }

/-- The record of a session whose process could not be started. -/
def failed (s : Session) : Session := { s with state := .error, ended := true }

/-- The last record of a session that was killed. -/
def killed (s : Session) : Session := { s with state := .stopped, ended := true }

end Session

/-- The table of sessions. -/
structure SessionTable where
  /-- The tracked sessions, in the order they were begun. -/
  sessions : List Session
  /-- How many sessions were ever begun. -/
  begun : Nat
  deriving DecidableEq, Repr, Inhabited

namespace SessionTable

/-- The table without sessions. -/
def empty : SessionTable := ⟨[], 0⟩

/-- The tracked session with an id. -/
def find? (t : SessionTable) (id : String) : Option Session :=
  t.sessions.find? fun s => s.id = id

/-- Begins a session under the next number. -/
def begin (t : SessionTable) (command : String) (args : List String) : Nat × SessionTable :=
  let number := t.begun + 1
  (number, ⟨t.sessions ++ [⟨number, command, args, .starting, none, false⟩], number⟩)

/-- Changes the record with a number, if it is tracked. -/
def update (t : SessionTable) (number : Nat) (f : Session → Session) : SessionTable :=
  { t with sessions := t.sessions.map fun s => if s.number = number then f s else s }

/-- Takes the record with an id out of the table. -/
def remove (t : SessionTable) (id : String) : Option Session × SessionTable :=
  (t.find? id, { t with sessions := t.sessions.filter fun s => s.id ≠ id })

/-- The number of tracked sessions. -/
def size (t : SessionTable) : Nat := t.sessions.length

end SessionTable

/-- The channel between a process and the stream of its session. -/
structure Channel where
  /-- What the process reported and nobody has forwarded yet. -/
  inbox : List Signal
  /-- What was forwarded and nobody has read yet. -/
  unread : List SessionEvent
  /-- Whether more may still be forwarded. -/
  isOpen : Bool
  deriving DecidableEq, Repr, Inhabited

namespace Channel

/-- How many events a stream holds for its reader. -/
def capacity : Nat := 256

/-- A channel on which nothing was reported. -/
def fresh : Channel := ⟨[], [], true⟩

/-- Hands one event to the stream, if there is room. -/
def deliver (unread : List SessionEvent) (e : SessionEvent) : List SessionEvent :=
  if unread.length < capacity then unread ++ [e] else unread

/-- Forwards signals until the process is closed or nothing is left. The answer says
whether the process is closed, and holds what the reader finds. -/
def forwardAll : List Signal → List SessionEvent → Bool × List SessionEvent
  | [], unread => (false, unread)
  | .hangUp :: _, unread => (true, unread)
  | .event e :: rest, unread =>
    let unread := deliver unread e
    if e.isClose then (true, unread) else forwardAll rest unread

/-- Forwards all that waits; says whether the process is closed. -/
def forward (c : Channel) : Bool × Channel :=
  let (closed, unread) := forwardAll c.inbox c.unread
  (closed, ⟨[], unread, c.isOpen && !closed⟩)

end Channel

end CommandConsole
