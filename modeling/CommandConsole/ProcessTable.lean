/-!
# The table of live processes

Interactive processes are known by handles, which are numbered from one and never used
again. The table keeps the system's number of each process and whether its termination
was asked for; a request outlives the entry it was made through.
-/

namespace CommandConsole

/-- The handle of an interactive process. -/
abbrev Handle := Nat

/-- How a handle is written. -/
def renderHandle (h : Handle) : String := "proc-" ++ toString h

/-- An entry of the table. -/
structure TrackedProcess where
  handle : Handle
  /-- The system's number of the process. -/
  pid : Option Nat
  /-- Whether the process takes input. -/
  hasInput : Bool
  deriving DecidableEq, Repr, Inhabited

/-- The table. -/
structure ProcessTable where
  /-- The processes that are tracked, in the order they were registered. -/
  tracked : List TrackedProcess
  /-- How many handles were given out. -/
  handles : Nat
  /-- The handles whose process was asked to terminate while it was tracked. -/
  killRequested : List Handle
  deriving DecidableEq, Repr, Inhabited

namespace ProcessTable

/-- The table without processes. -/
def empty : ProcessTable := ⟨[], 0, []⟩

/-- Tracks a process under the next handle. -/
def register (t : ProcessTable) (pid : Option Nat) (hasInput : Bool) : Handle × ProcessTable :=
  let handle := t.handles + 1
  (handle, { t with tracked := t.tracked ++ [⟨handle, pid, hasInput⟩], handles := handle })

/-- The entry of a handle. -/
def find? (t : ProcessTable) (h : Handle) : Option TrackedProcess :=
  t.tracked.find? fun p => p.handle = h

/-- Whether a handle is tracked. -/
def contains (t : ProcessTable) (h : Handle) : Bool := (t.find? h).isSome

/-- Whether a tracked process takes input. -/
def hasInput (t : ProcessTable) (h : Handle) : Bool := (t.find? h).any (·.hasInput)

/-- Asks a process to terminate; the answer says whether it is tracked. -/
def kill (t : ProcessTable) (h : Handle) : Bool × ProcessTable :=
  if t.contains h then (true, { t with killRequested := h :: t.killRequested }) else (false, t)

/-- Asks every tracked process to terminate. -/
def killAll (t : ProcessTable) : ProcessTable :=
  { t with killRequested := t.tracked.map (·.handle) ++ t.killRequested }

/-- Forgets a process. -/
def remove (t : ProcessTable) (h : Handle) : ProcessTable :=
  { t with tracked := t.tracked.filter fun p => p.handle ≠ h }

/-- The system's numbers of the tracked processes. -/
def pids (t : ProcessTable) : List Nat := t.tracked.filterMap (·.pid)

/-- The number of tracked processes. -/
def size (t : ProcessTable) : Nat := t.tracked.length

/-- Whether the process behind a handle was asked to terminate. -/
def wasKilled (t : ProcessTable) (h : Handle) : Bool := t.killRequested.contains h

end ProcessTable

end CommandConsole
