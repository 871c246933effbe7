import CommandConsole.Activity

/-!
# Working with sessions

Starting a session, writing to it and killing it, each a few questions to the session
table with a call on the host between them. Other activities may go on during that
call, so the table is looked at again behind it.
-/

namespace CommandConsole.Session

/-- Starts a program as a session in a context, and comes to the session's number. -/
def start (command : String) (args : List String) (c : Context) : Activity (Except Fault Nat) := do
  let number ← Activity.instant (.beginSession command args)
  match ← Activity.host (.start (Request.inContext command args c) number) with
  | .error f =>
    Activity.instant (.sessionFailed number)
    pure (.error f)
  | .ok handle =>
    Activity.instant (.sessionRuns number handle)
    Activity.instant (.forwardSession number)
    pure (.ok number)

/-- The fault of a session that nobody knows. -/
def unknown (id : String) : Fault := ⟨.sessionNotFound, id⟩

/-- The fault of a session that does not run. -/
def notRunning (id : String) (state : SessionState) : Fault :=
  ⟨.sessionNotRunning, id ++ " is " ++ state.word⟩

/-- Writes to the process of a running session. -/
def write (id data : String) : Activity (Except Fault Unit) := do
  match ← Activity.instant (.findSession id) with
  | none => pure (.error (unknown id))
  | some s =>
    match s.state, s.handle with
    | .running, some handle => Activity.host (.send handle data)
    | state, _ => pure (.error (notRunning id state))

/-- Kills a session and comes to its last record. A process that closes by itself
meanwhile counts as killed. -/
def kill (id : String) : Activity (Except Fault Session) := do
  match ← Activity.instant (.findSession id) with
  | none => pure (.error (unknown id))
  | some seen =>
    if let some handle := seen.handle then
      let _ ← Activity.host (.stop handle)
    let removed ← Activity.instant (.removeSession id)
    pure (.ok (removed.getD seen).killed)

/-- Kills sessions one after the other. -/
def killEach : List Session → Activity Unit
  | [] => pure ()
  | s :: rest => do
    let _ ← kill s.id
    killEach rest

/-- Kills every tracked session. -/
def killAll : Activity Unit := do
  killEach (← Activity.instant .listSessions)

end CommandConsole.Session
