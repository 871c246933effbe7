import CommandConsole.Command
import CommandConsole.Session.Control
import CommandConsole.Text.Numeral

/-!
# Commands on jobs and sessions

`jobs`, `jobs clear`, `fg` and `bg` for jobs, `sessions` and `send` for sessions, and
`kill` for both.
-/

namespace CommandConsole.Commands

/-- A line of the job listing. -/
def jobLine (j : Job) : String :=
  let status :=
    match j.exitCode with
    | some code =>
      if j.status.isTerminal then j.status.label ++ " (" ++ toString code ++ ")" else j.status.label
    | none => j.status.label
  "[" ++ j.id ++ "] " ++ Text.padEnd 14 status ++ " " ++ j.line

/-- `jobs` lists the tracked jobs. -/
def jobs : Command Body where
  description := ⟨"jobs", [], "List background jobs", "jobs"⟩
  body _ := do
    let js ← Activity.instant .listJobs
    Work.print (if js.isEmpty then .text "no jobs" else .lines (js.map jobLine))

/-- `jobs clear` forgets the jobs that are over. -/
def jobsClear : Command Body where
  description := ⟨"jobs clear", [], "Forget finished background jobs", "jobs clear"⟩
  body _ := do
    let n ← Activity.instant .clearJobs
    Work.print (.text ("cleared " ++ toString n ++ " finished job(s)"))

/-- `fg` waits for a job and prints what it printed. -/
def fg : Command Body where
  description := ⟨"fg", [], "Wait for a background job and show its result", "fg <job-id>"⟩
  body i := i.withFirst "job id" fun id => do
    match ← Activity.instant (.findJob id) with
    | none => Work.fail ⟨.jobNotFound, id⟩
    | some j =>
      match ← Activity.query (.awaitJob j.number) with
      | some o =>
        Work.print { Printout.text o.output with error := o.error, exitCode := o.exitCode }
      | none => Work.complain (id ++ ": still running")

/-- The complaint about a job that is over. -/
def alreadyOver (j : Job) (id : String) : String := id ++ ": job has already " ++ j.status.word

/-- `bg` confirms that a job runs. -/
def bg : Command Body where
  description := ⟨"bg", [], "Keep a job running in the background", "bg <job-id>"⟩
  body i := i.withFirst "job id" fun id => do
    match ← Activity.instant (.findJob id) with
    | none => Work.complain (id ++ ": no such job")
    | some j =>
      if j.isRunning then Work.print (.text ("[" ++ id ++ "] running in background"))
      else Work.complain (alreadyOver j id)

/-- `kill` cancels a job or kills a session. -/
def kill : Command Body where
  description :=
    ⟨"kill", [], "Cancel a background job or stop an interactive session",
      "kill <job-id | session-id>"⟩
  body i := i.withFirst "job or session id" fun id => do
    match ← Activity.instant (.findJob id) with
    | some j =>
      if ← Activity.instant (.cancelJob id) then Work.print (.text ("[" ++ id ++ "] cancelled"))
      else Work.complain (alreadyOver j id)
    | none =>
      match ← Session.kill id with
      | .ok s => Work.print (.text ("[" ++ s.id ++ "] " ++ s.state.word))
      | .error f =>
        if f.kind = .sessionNotFound then Work.complain (id ++ ": no such job or session")
        else Work.fail f

/-- A line of the session listing. -/
def sessionLine (s : Session) : String :=
  "[" ++ s.id ++ "] " ++ Text.padEnd 8 s.state.word ++ " " ++ s.commandLine

/-- `sessions` lists the tracked sessions. -/
def sessions : Command Body where
  description := ⟨"sessions", [], "List interactive sessions", "sessions"⟩
  body _ := do
    let ss ← Activity.instant .listSessions
    Work.print
      (if ss.isEmpty then .text "no interactive sessions" else .lines (ss.map sessionLine))

/-- `send` writes a line to a session. -/
def send : Command Body where
  description :=
    ⟨"send", [], "Send a line of input to an interactive session", "send <session-id> <text...>"⟩
  body i := i.withFirst "session id" fun id => do
    match ← Session.write id (" ".intercalate i.others ++ "\n") with
    | .ok () => Work.print .empty
    | .error f => Work.fail f

end CommandConsole.Commands
