import CommandConsole.Machine.Schedule

/-!
# Watching a host

A watch works with a host directly, without a console in between. It keeps the time and
what the host's processes have reported. Time passes only when that is asked for, and
then from one event of the host to the next.
-/

namespace CommandConsole

/-- A host, the time, and the reports that nobody has taken yet. -/
structure Watch (σ : Type) where
  host : σ
  clock : Nat
  reports : List (Nat × Signal)

namespace Watch

variable {σ : Type}

/-- A watch that begins. -/
def begin (host : σ) : Watch σ := ⟨host, 0, []⟩

/-- Calls the host. -/
def call (hm : HostModel σ) (w : Watch σ) (c : HostCall) : c.Answer × Watch σ :=
  let (reaction, signals, host) := hm.call w.host w.clock c
  (reaction.answer, { w with host, reports := w.reports ++ signals })

/-- Lets everything happen that is due at a moment. -/
def jumpTo (hm : HostModel σ) (w : Watch σ) (t : Nat) : Watch σ :=
  let (signals, host) := hm.elapse w.host t
  { host, clock := max w.clock t, reports := w.reports ++ signals }

/-- How many events are waited for before a watch gives up. -/
def patience : Nat := 1000000

/-- Lets time pass up to a moment, with at most `n` events on the way. -/
def passTo (hm : HostModel σ) (t : Nat) : Nat → Watch σ → Watch σ
  | 0, w => w
  | n + 1, w =>
    match (hm.nextEvent w.host).filter (· ≤ t) with
    | some next => passTo hm t n (w.jumpTo hm next)
    | none => { w with clock := max w.clock t }

/-- Lets some milliseconds pass. -/
def pass (hm : HostModel σ) (w : Watch σ) (ms : Nat) : Watch σ :=
  w.passTo hm (w.clock + ms) patience

/-- Lets time pass until enough was reported or nothing will happen any more, with at
most `n` events on the way. -/
def passUntil (hm : HostModel σ) (enough : List (Nat × Signal) → Bool) : Nat → Watch σ → Watch σ
  | 0, w => w
  | n + 1, w =>
    if enough w.reports then w
    else
      match hm.nextEvent w.host with
      | some next => passUntil hm enough n (w.jumpTo hm next)
      | none => w

/-- The events on a channel up to the one that closes it. -/
def eventsOn (channel : Nat) (reports : List (Nat × Signal)) : List SessionEvent :=
  reports.filterMap fun r =>
    match r with
    | (c, .event e) => if c = channel then some e else none
    | _ => none

/-- Waits for a number of events on a channel, or for all of them up to its end, and
takes them. -/
def receive (hm : HostModel σ) (w : Watch σ) (channel : Nat) (count : Option Nat) :
    List SessionEvent × Watch σ :=
  let enough (reports : List (Nat × Signal)) : Bool :=
    let events := eventsOn channel reports
    events.any (·.isClose) || count.any (· ≤ events.length)
  let w := w.passUntil hm enough patience
  let events := eventsOn channel w.reports
  let taken := events.take (count.getD events.length)
  let others := w.reports.filter fun r => r.1 ≠ channel
  (taken, { w with
    reports := others ++ (events.drop taken.length).map fun e => (channel, .event e) })

end Watch

end CommandConsole
