import CommandConsole.Pipeline

/-!
# Work in the background

What the tasks of a job do: one runs the job's pipeline and ends the job, another
forgets the job once it has been over for a while.
-/

namespace CommandConsole.Background

/-- The status of a job whose pipeline came to an outcome. -/
def statusOf (o : Outcome) : JobStatus := if o.success then .completed else .failed

/-- Runs a line as the job with a number. A job that was cancelled before it began runs
nothing, and one that was cancelled while it ran is over already. -/
def runJob (setup : Setup) (number : Nat) (line : Line) (c : Context) : Activity Unit := do
  if ← Activity.cancelled then pure ()
  else
    let result ← (Pipeline.run setup line.stages c).attempt
    if ← Activity.cancelled then pure ()
    else
      match result with
      | .ok r =>
        let _ ← Activity.instant (.finishJob number (statusOf r.outcome) r.outcome)
      | .error message =>
        let _ ← Activity.instant
          (.finishJob number .failed (.failure 1 (Pipeline.panicText message)))

/-- Forgets a job that is over once its time is up. -/
def evictLater (setup : Setup) (number : Nat) : Activity Unit := do
  let _ ← Activity.query (.pause (some setup.settings.jobRetentionMs))
  Activity.instant (.evictJob number)

/-- Cancels jobs one after the other, and counts those that were running. -/
def cancelEach : List Job → Activity Nat
  | [] => pure 0
  | j :: rest => do
    let cancelled ← Activity.instant (.cancelJob j.id)
    let others ← cancelEach rest
    pure (if cancelled then others + 1 else others)

/-- Cancels every running job, and counts them. -/
def cancelAll : Activity Nat := do
  let jobs ← Activity.instant .listJobs
  cancelEach (jobs.filter Job.isRunning)

/-- Waits for a job to be over, and comes to its outcome. -/
def foreground (id : String) : Activity (Except Fault Outcome) := do
  match ← Activity.instant (.findJob id) with
  | none => pure (.error ⟨.jobNotFound, id⟩)
  | some j =>
    match ← Activity.query (.awaitJob j.number) with
    | some o => pure (.ok o)
    | none => pure (.error ⟨.jobNotFound, id⟩)

end CommandConsole.Background
