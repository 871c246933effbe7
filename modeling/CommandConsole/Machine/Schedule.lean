import CommandConsole.Machine.World

/-!
# One schedule

A machine carries out activities one at a time. A task goes on until it has to wait;
then the next one that can go on has its turn, in the order in which they came to be
able to. The one who calls the machine goes on only when no task can. Time is virtual:
it stands still while anyone can go on, and then jumps to the next moment that someone
waits for. What the host does is a parameter (`HostModel`).
-/

namespace CommandConsole

/-- How a host reacts to a call. -/
structure Reaction (α : Type) where
  answer : α
  /-- After how many milliseconds the answer comes, if it ever does. -/
  delayMs : Option Nat
  /-- The answer that comes instead if the caller is called off before. -/
  ifCancelled : Option α

/-- A reaction without delay. -/
def Reaction.now {α : Type} (answer : α) : Reaction α := ⟨answer, some 0, none⟩

/-- A host with states `σ`. What its processes report goes to channels, by number. -/
structure HostModel (σ : Type) where
  /-- Reacts to a call at a time. -/
  call : σ → Nat → (c : HostCall) → Reaction c.Answer × List (Nat × Signal) × σ
  /-- When something will happen in the host by itself. -/
  nextEvent : σ → Option Nat
  /-- Lets everything happen that is due at a time. -/
  elapse : σ → Nat → List (Nat × Signal) × σ

/-- An activity that waits: for a moment, to be called off, or for a job. -/
structure Waiting (β : Type) where
  /-- The moment at which it goes on. -/
  due : Option Nat
  /-- How it goes on then. -/
  onDue : Activity β
  /-- How it goes on if it is called off. -/
  onCancel : Option (Activity β)
  /-- The job whose outcome it takes, and how it goes on then. -/
  onJob : Option (Nat × (Outcome → Activity β))

/-- How an activity goes on that need not wait any longer. -/
def Waiting.resume? {β : Type} (b : Waiting β) (w : World) (owner : Owner) : Option (Activity β) :=
  let byJob : Option (Activity β) :=
    b.onJob.bind fun j => (w.jobs.outcome? j.1).map j.2
  let byTime : Option (Activity β) :=
    match b.due with
    | some t => if t ≤ w.clock then some b.onDue else none
    | none => none
  let byCancel : Option (Activity β) := if w.isCalledOff owner then b.onCancel else none
  byJob <|> byTime <|> byCancel

/-- Where an activity got to when it was last its turn. -/
inductive Progress (β : Type) where
  | finished (result : β)
  | broken (message : String)
  | waiting (b : Waiting β)

/-- A task and what it is at. -/
inductive TaskState where
  /-- Carries out an activity that has not begun. -/
  | fresh (owner : Owner) (a : Activity Unit)
  /-- Carries out an activity that waits. -/
  | waiting (owner : Owner) (b : Waiting Unit)
  /-- Forwards for a session. -/
  | forwarding (session : Nat)

/-- A machine. -/
structure Machine (σ : Type) where
  world : World
  host : σ
  /-- The tasks by number, in the order they began. -/
  tasks : List (Nat × TaskState)
  /-- The tasks that can go on, in order. -/
  queue : List Nat
  /-- The number of the next task. -/
  nextTask : Nat

namespace Machine

variable {σ : Type}

/-- A machine at rest. -/
def initial (setup : Setup) (host : σ) : Machine σ := ⟨.initial setup, host, [], [], 0⟩

/-- A task begins. -/
def begin (m : Machine σ) (d : Duty) : Machine σ :=
  let state : TaskState :=
    match d with
    | .carryOut owner a => .fresh owner a
    | .forward session => .forwarding session
  { m with
    tasks := m.tasks ++ [(m.nextTask, state)]
    queue := m.queue ++ [m.nextTask]
    nextTask := m.nextTask + 1 }

/-- Takes in what processes reported. -/
def takeIn (m : Machine σ) (signals : List (Nat × Signal)) : Machine σ :=
  { m with world := signals.foldl (fun w s => w.report s.1 s.2) m.world }

/-- Whether a task can go on. -/
def canGoOn (w : World) : TaskState → Bool
  | .fresh .. => true
  | .waiting owner b => (b.resume? w owner).isSome
  | .forwarding session => (w.channel? session).any fun c => !c.inbox.isEmpty

/-- Queues the tasks that have come to be able to go on. -/
def wake (m : Machine σ) : Machine σ :=
  let ready := m.tasks.filter fun t => !m.queue.contains t.1 && canGoOn m.world t.2
  { m with queue := m.queue ++ ready.map Prod.fst }

/-- Carries an activity on until it ends or has to wait. -/
def carryOn (hm : HostModel σ) {β : Type} (owner : Owner) :
    Activity β → Machine σ → Progress β × Machine σ
  | .done result, m => (.finished result, m)
  | .panic message, m => (.broken message, m)
  | .ask (.instant q) next, m =>
    let (a, world, duties) := m.world.answer owner q
    carryOn hm owner (next a) (duties.foldl begin { m with world })
  | .ask (.host c) next, m =>
    let (r, signals, host) := hm.call m.host m.world.clock c
    let m := takeIn { m with host } signals
    if r.delayMs = some 0 then carryOn hm owner (next r.answer) m
    else
      (.waiting ⟨r.delayMs.map (m.world.clock + ·), next r.answer, r.ifCancelled.map next, none⟩, m)
  | .ask (.pause ms) next, m =>
    if ms = some 0 then carryOn hm owner (next true) m
    else (.waiting ⟨ms.map (m.world.clock + ·), next true, some (next false), none⟩, m)
  | .ask (.awaitJob number) next, m =>
    match m.world.jobs.outcome? number with
    | some o => carryOn hm owner (next (some o)) m
    | none =>
      (.waiting ⟨none, next none, some (next none), some (number, fun o => next (some o))⟩, m)

/-- The state of a task after its turn; `none` once it is over. -/
def afterTurn (owner : Owner) : Progress Unit → Option TaskState
  | .waiting b => some (.waiting owner b)
  | _ => none

/-- Gives a task its turn. -/
def turn (hm : HostModel σ) (m : Machine σ) (number : Nat) : Machine σ :=
  match m.tasks.lookup number with
  | none => m
  | some state =>
    let (after, m) : Option TaskState × Machine σ :=
      match state with
      | .fresh owner a =>
        let (p, m) := carryOn hm owner a m
        (afterTurn owner p, m)
      | .waiting owner b =>
        match b.resume? m.world owner with
        | some a =>
          let (p, m) := carryOn hm owner a m
          (afterTurn owner p, m)
        | none => (some state, m)
      | .forwarding session =>
        let (closed, world) := m.world.forward session
        (if closed then none else some state, { m with world })
    { m with
      tasks :=
        match after with
        | some state => m.tasks.map fun t => if t.1 = number then (number, state) else t
        | none => m.tasks.filter fun t => t.1 ≠ number }

/-- Gives tasks their turns until all wait, but at most `n` turns. -/
def settle (hm : HostModel σ) : Nat → Machine σ → Machine σ
  | 0, m => m
  | n + 1, m =>
    match m.queue with
    | [] => m
    | number :: rest => settle hm n (wake (turn hm { m with queue := rest } number))

/-- The moments that tasks wait for. -/
def dueTimes (m : Machine σ) : List Nat :=
  m.tasks.filterMap fun t =>
    match t.2 with
    | .waiting _ b => b.due
    | _ => none

/-- The next moment at which something happens. -/
def nextMoment (hm : HostModel σ) (m : Machine σ) (own : Option Nat) : Option Nat :=
  (own.toList ++ (hm.nextEvent m.host).toList ++ m.dueTimes).min?

/-- Lets time jump to a moment. -/
def jumpTo (hm : HostModel σ) (m : Machine σ) (t : Nat) : Machine σ :=
  let (signals, host) := hm.elapse m.host t
  wake (takeIn { m with world := { m.world with clock := max m.world.clock t }, host } signals)

/-- How many turns a machine takes before it gives up. -/
def patience : Nat := 10000000

/-- Carries on a caller that waits, at most `n` times. -/
def attend (hm : HostModel σ) {β : Type} (owner : Owner) :
    Nat → Waiting β → Machine σ → Option (Except String β) × Machine σ
  | 0, _, m => (none, m)
  | n + 1, b, m =>
    let goOn (a : Activity β) (m : Machine σ) : Option (Except String β) × Machine σ :=
      let (p, m) := carryOn hm owner a m
      let m := wake m
      match p with
      | .finished result => (some (.ok result), m)
      | .broken message => (some (.error message), m)
      | .waiting b => attend hm owner n b m
    match b.resume? m.world owner with
    | some a => goOn a m
    | none =>
      let m := settle hm patience m
      match b.resume? m.world owner with
      | some a => goOn a m
      | none =>
        match nextMoment hm m b.due with
        | some t => attend hm owner n b (jumpTo hm m t)
        | none => (none, m)

/-- Carries out an activity for a caller. There is no result if it waits for ever. -/
def perform (hm : HostModel σ) {β : Type} (owner : Owner) (a : Activity β) (m : Machine σ) :
    Option (Except String β) × Machine σ :=
  let (p, m) := carryOn hm owner a m
  let m := wake m
  match p with
  | .finished result => (some (.ok result), m)
  | .broken message => (some (.error message), m)
  | .waiting b => attend hm owner patience b m

/-- Lets every task go on that can, without letting time pass. -/
def rest (hm : HostModel σ) (m : Machine σ) : Machine σ := settle hm patience (wake m)

end Machine

end CommandConsole
