import CommandConsole.Background
import CommandConsole.Line.Printer

/-!
# The tables of a console at work

`World` holds what activities share: the clock, the jobs, the sessions with their
channels, and the history. `World.answer` answers each question that is answered at
once, changes the tables accordingly, and says which tasks begin with it.
-/

namespace CommandConsole

/-- On whose behalf an activity goes on, which decides when it is called off. -/
inductive Owner where
  /-- Never called off. -/
  | nobody
  /-- Called off from the start. -/
  | calledOff
  /-- Called off when the job with this number is cancelled. -/
  | job (number : Nat)
  deriving DecidableEq, Repr, Inhabited

/-- What a task does. -/
inductive Duty where
  /-- Carries out an activity. -/
  | carryOut (owner : Owner) (a : Activity Unit)
  /-- Forwards what the process of a session reports. -/
  | forward (session : Nat)

/-- What activities share. -/
structure World where
  setup : Setup
  /-- The time, in milliseconds. -/
  clock : Nat
  jobs : JobTable
  sessions : SessionTable
  /-- The channels by the numbers of their sessions. -/
  channels : List (Nat × Channel)
  history : History

namespace World

/-- The world of a console that has done nothing yet. -/
def initial (setup : Setup) : World :=
  ⟨setup, 0, .empty, .empty, [], .withCapacity setup.settings.historyLimit⟩

/-- Whether an owner has been called off. -/
def isCalledOff (w : World) : Owner → Bool
  | .nobody => false
  | .calledOff => true
  | .job number => w.jobs.isCancelled number

/-- Changes the channel of a session. -/
def updateChannel (w : World) (number : Nat) (f : Channel → Channel) : World :=
  { w with channels := w.channels.map fun e => if e.1 = number then (e.1, f e.2) else e }

/-- The channel of a session. -/
def channel? (w : World) (number : Nat) : Option Channel := w.channels.lookup number

/-- A process reports. -/
def report (w : World) (number : Nat) (s : Signal) : World :=
  w.updateChannel number fun c => { c with inbox := c.inbox ++ [s] }

/-- Ends a job. If it was running, the task begins that will forget it. -/
def finishJob (w : World) (number : Nat) (status : JobStatus) (o : Outcome) :
    Bool × World × List Duty :=
  match w.jobs.finish number status o w.clock with
  | (true, jobs) =>
    (true, { w with jobs }, [.carryOut .nobody (Background.evictLater w.setup number)])
  | (false, _) => (false, w, [])

/-- Starts a line as a job, unless too many run. -/
def spawnJob (w : World) (l : Line) (c : Context) : Except Fault String × World × List Duty :=
  let (command, args) := (l.first?.map (Pipeline.resolveName w.setup.commands)).getD ("", [])
  match w.jobs.accept w.setup.settings.maxConcurrentJobs command args l.commandText w.clock with
  | .ok (number, jobs) =>
    (.ok (Job.idOf number), { w with jobs },
      [.carryOut (.job number) (Background.runJob w.setup number l c)])
  | .error f => (.error f, w, [])

/-- Answers a question that is answered at once. -/
def answer (w : World) (owner : Owner) : (q : Instant) → q.Answer × World × List Duty
  | .cancelled => (w.isCalledOff owner, w, [])
  | .now => (w.clock, w, [])
  | .listJobs => (w.jobs.jobs, w, [])
  | .findJob id => (w.jobs.find? id, w, [])
  | .spawnJob l c => w.spawnJob l c
  | .finishJob number status o => w.finishJob number status o
  | .cancelJob id =>
    match w.jobs.find? id with
    | some j => w.finishJob j.number .cancelled .cancelled
    | none => (false, w, [])
  | .clearJobs =>
    let (n, jobs) := w.jobs.clear
    (n, { w with jobs }, [])
  | .evictJob number => ((), { w with jobs := w.jobs.evict number }, [])
  | .listSessions => (w.sessions.sessions, w, [])
  | .findSession id => (w.sessions.find? id, w, [])
  | .beginSession command args =>
    let (number, sessions) := w.sessions.begin command args
    (number, { w with sessions, channels := w.channels ++ [(number, .fresh)] }, [])
  | .sessionFailed number =>
    ((), { w with sessions := w.sessions.update number Session.failed }, [])
  | .sessionRuns number handle =>
    ((), { w with sessions := w.sessions.update number fun s => s.runs handle }, [])
  | .forwardSession number => ((), w, [.forward number])
  | .removeSession id =>
    let (s, sessions) := w.sessions.remove id
    (s, { w with sessions }, [])
  | .recentHistory limit => (w.history.recent limit, w, [])
  | .clearHistory => ((), { w with history := w.history.clear }, [])
  | .appendHistory e => ((), { w with history := w.history.append e }, [])

/-- Forwards what waits in a session's channel. Once the process is closed the session
is forgotten; the answer says whether that happened. -/
def forward (w : World) (number : Nat) : Bool × World :=
  match w.channel? number with
  | none => (true, w)
  | some c =>
    let (closed, c) := c.forward
    let w := w.updateChannel number fun _ => c
    if closed then
      (true, { w with sessions := (w.sessions.remove (Session.idOf number)).2 })
    else (false, w)

/-- Reads a session's stream: the events that wait there, and whether more may come. -/
def readStream (w : World) (number : Nat) : (List SessionEvent × Bool) × World :=
  match w.channel? number with
  | none => (([], false), w)
  | some c => ((c.unread, c.isOpen), w.updateChannel number fun c => { c with unread := [] })

end World

end CommandConsole
