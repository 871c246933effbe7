import CommandConsole.History
import CommandConsole.JobTable
import CommandConsole.Line.Basic
import CommandConsole.SessionTable

/-!
# Activities

What a command, a pipeline or a background task does is an *activity*: a tree of the
questions it puts to its surroundings, each followed by what it does with the answer.
An activity is plain data. Nothing is said here on when a question is answered, or on
what happens in between; a schedule (`CommandConsole.Machine`) decides that.

Questions are of four kinds. Some are answered at once from the console's own tables
(`Instant`). The others may make the activity wait: for the host, for time to pass,
or for a job to end.
-/

namespace CommandConsole

/-- A question that is answered at once. -/
inductive Instant where
  /-- Whether the one who asks has been called off. -/
  | cancelled
  /-- The time, in milliseconds. -/
  | now
  /-- The tracked jobs, oldest first. -/
  | listJobs
  /-- The tracked job with an id. -/
  | findJob (id : String)
  /-- Starts a line in the background, and answers with the id of the job. -/
  | spawnJob (line : Line) (context : Context)
  /-- Ends a job, if it still runs. -/
  | finishJob (number : Nat) (status : JobStatus) (outcome : Outcome)
  /-- Cancels a job, if it still runs. -/
  | cancelJob (id : String)
  /-- Forgets the jobs that are over, and answers with their number. -/
  | clearJobs
  /-- Forgets one job that is over. -/
  | evictJob (number : Nat)
  /-- The tracked sessions, oldest first. -/
  | listSessions
  /-- The tracked session with an id. -/
  | findSession (id : String)
  /-- Begins a session, and answers with its number. -/
  | beginSession (command : String) (args : List String)
  /-- The session's process could not be started. -/
  | sessionFailed (number : Nat)
  /-- The session's process runs. -/
  | sessionRuns (number : Nat) (handle : Handle)
  /-- Starts to forward what the session's process reports. -/
  | forwardSession (number : Nat)
  /-- Takes a session out of the table. -/
  | removeSession (id : String)
  /-- The last entries of the history. -/
  | recentHistory (limit : Nat)
  | clearHistory
  | appendHistory (entry : HistoryEntry)
  deriving Inhabited

/-- The answer to a question that is answered at once. -/
@[reducible] def Instant.Answer : Instant → Type
  | cancelled => Bool
  | now => Nat
  | listJobs => List Job
  | findJob _ => Option Job
  | spawnJob .. => Except Fault String
  | finishJob .. => Bool
  | cancelJob _ => Bool
  | clearJobs => Nat
  | evictJob _ => Unit
  | listSessions => List Session
  | findSession _ => Option Session
  | beginSession .. => Nat
  | sessionFailed _ => Unit
  | sessionRuns .. => Unit
  | forwardSession _ => Unit
  | removeSession _ => Option Session
  | recentHistory _ => List HistoryEntry
  | clearHistory => Unit
  | appendHistory _ => Unit

/-- A question. -/
inductive Query where
  /-- Answered at once. -/
  | instant (q : Instant)
  /-- A call on the host. -/
  | host (call : HostCall)
  /-- Lets time pass, for ever if no span is given. The answer says whether the span
  is over, or the one who waits was called off before. -/
  | pause (ms : Option Nat)
  /-- Waits for a job to be over; no outcome if the one who waits was called off. -/
  | awaitJob (number : Nat)
  deriving Inhabited

/-- The answer to a question. -/
@[reducible] def Query.Answer : Query → Type
  | instant q => q.Answer
  | host call => call.Answer
  | pause _ => Bool
  | awaitJob _ => Option Outcome

/-- What is done, as a tree of questions. -/
inductive Activity (α : Type) : Type where
  /-- Nothing more; this is the result. -/
  | done (a : α)
  /-- Breaks off, with a message. -/
  | panic (message : String)
  /-- Asks, and goes on with the answer. -/
  | ask (q : Query) (next : q.Answer → Activity α)

namespace Activity

variable {α β : Type}

instance : Inhabited (Activity α) := ⟨panic ""⟩

/-- One activity after another. -/
def bind (a : Activity α) (f : α → Activity β) : Activity β :=
  match a with
  | done x => f x
  | panic message => panic message
  | ask q next => ask q fun answer => (next answer).bind f

instance : Monad Activity where
  pure := done
  bind := bind

/-- Just a question. -/
def query (q : Query) : Activity q.Answer := ask q done

/-- A question that is answered at once. -/
def instant (q : Instant) : Activity q.Answer := query (.instant q)

/-- A call on the host. -/
def host (call : HostCall) : Activity call.Answer := query (.host call)

/-- Whether the activity has been called off. -/
def cancelled : Activity Bool := instant .cancelled

/-- The time. -/
def now : Activity Nat := instant .now

/-- An activity whose breaking off is a result like any other. -/
def attempt : Activity α → Activity (Except String α)
  | done x => done (.ok x)
  | panic message => done (.error message)
  | ask q next => ask q fun answer => (next answer).attempt

@[simp] theorem done_bind (x : α) (f : α → Activity β) : (done x).bind f = f x := rfl

@[simp] theorem panic_bind (message : String) (f : α → Activity β) :
    (panic message : Activity α).bind f = panic message := rfl

@[simp] theorem ask_bind (q : Query) (next : q.Answer → Activity α) (f : α → Activity β) :
    (ask q next).bind f = ask q fun answer => (next answer).bind f := rfl

@[simp] theorem bind_done (a : Activity α) : a.bind done = a := by
  induction a with
  | done x => rfl
  | panic message => rfl
  | ask q next ih => exact congrArg (ask q) (funext ih)

theorem bind_assoc {γ : Type} (a : Activity α) (f : α → Activity β) (g : β → Activity γ) :
    (a.bind f).bind g = a.bind fun x => (f x).bind g := by
  induction a with
  | done x => rfl
  | panic message => rfl
  | ask q next ih => exact congrArg (ask q) (funext ih)

instance : LawfulMonad Activity :=
  LawfulMonad.mk' Activity (fun a => bind_done a) (fun _ _ => rfl) bind_assoc

end Activity

end CommandConsole
