import CommandConsole.Fault
import CommandConsole.Outcome

/-!
# Background jobs

A job is a line that runs in the background. The table tracks jobs from the moment
they are taken on until they are cleared or evicted. A job runs, and then it has
completed, failed or been cancelled; from then on its record does not change.

Two things outlive a record. A job that was cancelled stays cancelled for the task
that still runs it (`cancelRequested`), and the outcome of a finished job stays known
to whoever waits for it (`published`).
-/

namespace CommandConsole

/-- How a job stands. -/
inductive JobStatus where
  | running
  | completed
  | failed
  | cancelled
  deriving DecidableEq, Repr, Inhabited

namespace JobStatus

/-- Whether the job is over. -/
def isTerminal (s : JobStatus) : Bool := s ≠ running

/-- How a status is shown in listings. -/
def label : JobStatus → String
  | running => "Running"
  | completed => "Completed"
  | failed => "Failed"
  | cancelled => "Cancelled"

/-- How a status is named in a sentence. -/
def word : JobStatus → String
  | running => "running"
  | completed => "completed"
  | failed => "failed"
  | cancelled => "cancelled"

end JobStatus

/-- The record of a job. -/
structure Job where
  /-- The number of the job among all jobs ever admitted, from one. -/
  number : Nat
  /-- The resolved name of the first command. -/
  command : String
  args : List String
  /-- The line, without its background mark. -/
  line : String
  status : JobStatus
  /-- When the job was admitted, in milliseconds. -/
  startedAt : Nat
  /-- When the job was over. -/
  endedAt : Option Nat
  exitCode : Option Int
  output : String
  error : Option String
  deriving DecidableEq, Repr, Inhabited

namespace Job

/-- The id of the job with a number. -/
def idOf (number : Nat) : String := "job-" ++ toString number

/-- The id of a job. -/
def id (j : Job) : String := idOf j.number

/-- Whether a job still runs. -/
def isRunning (j : Job) : Bool := j.status = .running

/-- The record of a job that is over since `now` with the given outcome. -/
def ended (j : Job) (status : JobStatus) (o : Outcome) (now : Nat) : Job :=
  { j with
    status
    endedAt := some now
    exitCode := some o.exitCode
    output := o.output
    error := o.error }

end Job

/-- The table of jobs. -/
structure JobTable where
  /-- The tracked jobs, in the order they were admitted. -/
  jobs : List Job
  /-- How many jobs were ever admitted. -/
  admitted : Nat
  /-- The numbers of the jobs that were cancelled. -/
  cancelRequested : List Nat
  /-- The outcomes of the jobs that are over. -/
  published : List (Nat × Outcome)
  deriving DecidableEq, Repr, Inhabited

namespace JobTable

/-- The table without jobs. -/
def empty : JobTable := ⟨[], 0, [], []⟩

/-- The tracked job with an id. -/
def find? (t : JobTable) (id : String) : Option Job := t.jobs.find? fun j => j.id = id

/-- How many jobs run. -/
def runningCount (t : JobTable) : Nat := (t.jobs.filter Job.isRunning).length

/-- The jobs that are over, newest first. -/
def finished (t : JobTable) : List Job := (t.jobs.filter fun j => j.status.isTerminal).reverse

/-- Whether a job was cancelled. -/
def isCancelled (t : JobTable) (number : Nat) : Bool := t.cancelRequested.contains number

/-- The outcome of a job that is over. -/
def outcome? (t : JobTable) (number : Nat) : Option Outcome := t.published.lookup number

/-- The fault of a job that comes when `limit` jobs run already. -/
def tooMany (running limit : Nat) : Fault :=
  ⟨.concurrencyLimitExceeded,
    toString running ++ " of " ++ toString limit ++ " background jobs already running"⟩

/-- Takes a job on under the next number, unless `limit` jobs run already. -/
def accept (t : JobTable) (limit : Nat) (command : String) (args : List String) (line : String)
    (now : Nat) : Except Fault (Nat × JobTable) :=
  if limit ≤ t.runningCount then .error (tooMany t.runningCount limit)
  else
    let number := t.admitted + 1
    .ok (number,
      { t with
        jobs := t.jobs ++ [⟨number, command, args, line, .running, now, none, none, "", none⟩]
        admitted := number })

/-- Whether a job is tracked and runs. -/
def isRunning (t : JobTable) (number : Nat) : Bool :=
  t.jobs.any fun j => j.number = number && j.isRunning

/-- Ends a running job: its record takes the outcome, which is published. The answer
says whether the job was running. -/
def finish (t : JobTable) (number : Nat) (status : JobStatus) (o : Outcome) (now : Nat) :
    Bool × JobTable :=
  match t.jobs.find? fun j => j.number = number with
  | some j =>
    if j.isRunning then
      let o := { o with job := some j.id, durationMs := now - j.startedAt }
      (true,
        { t with
          jobs := t.jobs.map fun j => if j.number = number then j.ended status o now else j
          cancelRequested :=
            if status = .cancelled then number :: t.cancelRequested else t.cancelRequested
          published := (number, o) :: t.published })
    else (false, t)
  | none => (false, t)

/-- Forgets the jobs that are over, and says how many. -/
def clear (t : JobTable) : Nat × JobTable :=
  let kept := t.jobs.filter Job.isRunning
  (t.jobs.length - kept.length, { t with jobs := kept })

/-- Forgets one job if it is over. -/
def evict (t : JobTable) (number : Nat) : JobTable :=
  { t with jobs := t.jobs.filter fun j => !(j.number = number && j.status.isTerminal) }

end JobTable

end CommandConsole
