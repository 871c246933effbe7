import CommandConsole.Unix.Disk

/-!
# What processes do

The behaviour of a process, as a tree: it prints, reads its input, sleeps, works on the
disk, and ends. `Behaviour.advance` follows the tree for as long as the process does
not have to wait.
-/

namespace CommandConsole.Unix

/-- What a process asks of the disk. -/
inductive DiskCall where
  | read (path : String)
  | write (path : String) (bytes : List UInt8) (append : Bool)
  | look (path : String)
  deriving Inhabited

/-- What the disk answers. -/
@[reducible] def DiskCall.Answer : DiskCall → Type
  | read _ => Except DiskError (List UInt8)
  | write .. => Except DiskError Unit
  | look _ => Except DiskError Node

/-- Carries a call out. What is written to the null device is gone. -/
def Disk.serve (d : Disk) : (c : DiskCall) → c.Answer × Disk
  | .read path => (d.read path, d)
  | .write path bytes append =>
    if path = "/dev/null" then (.ok (), d)
    else
      match d.write path bytes append with
      | .ok d => (.ok (), d)
      | .error e => (.error e, d)
  | .look path => (d.find path, d)

/-- What a process does when it is asked to terminate. -/
inductive OnTerminate where
  | die
  | ignore
  /-- It takes note, and sees to it when it is done with what it is at. -/
  | note
  deriving DecidableEq, Repr, Inhabited

/-- What a process does. -/
inductive Behaviour where
  | exit (code : Nat)
  /-- Ends by a signal. -/
  | die (signal : Nat)
  | emit (toError : Bool) (bytes : List UInt8) (next : Unit → Behaviour)
  /-- Reads a line, or what there is; nothing is read at the end of the input. -/
  | receive (line : Bool) (next : List UInt8 → Behaviour)
  /-- Sleeps for some milliseconds, or for ever. -/
  | sleep (ms : Option Nat) (next : Unit → Behaviour)
  | disk (call : DiskCall) (next : call.Answer → Behaviour)
  | onTerminate (reaction : OnTerminate) (next : Unit → Behaviour)
  /-- Asks, once, whether the process noted that it is to terminate. -/
  | wasAsked (next : Bool → Behaviour)

/-- What a process stands in while it goes on. -/
structure Standing where
  disk : Disk
  /-- What it can read. -/
  input : List UInt8
  /-- Whether more input will never come. -/
  inputEnded : Bool
  reaction : OnTerminate
  /-- Whether it noted that it is to terminate. -/
  asked : Bool
  /-- What it printed, latest first. -/
  printed : List (Bool × List UInt8)
  /-- How long it slept. -/
  slept : Nat

/-- Where a process stops. -/
inductive Halt where
  | ended (status : Nat)
  | atInput (line : Bool) (next : List UInt8 → Behaviour)
  | asleep (ms : Option Nat) (next : Unit → Behaviour)

/-- The status of a process that a signal ended. -/
def signalStatus (signal : Nat) : Nat := 128 + signal

/-- Takes what is read off an input that has `ended` or not; `none` while it has to be
waited for. -/
def takeInput (line : Bool) (input : List UInt8) (ended : Bool) :
    Option (List UInt8 × List UInt8) :=
  if line then
    let front := input.takeWhile (· ≠ 10)
    match input.drop front.length with
    | _ :: rest => some (front ++ [10], rest)
    | [] => if ended then some (front, []) else none
  else if input.isEmpty && !ended then none
  else some (input, [])

namespace Behaviour

/-- Follows a behaviour until the process ends, has to wait for input, or would have
slept for longer than `budget` in all. -/
def advance (budget : Option Nat) : Behaviour → Standing → Halt × Standing
  | exit code, s => (.ended code, s)
  | die signal, s => (.ended (signalStatus signal), s)
  | emit toError bytes next, s =>
    advance budget (next ()) { s with printed := (toError, bytes) :: s.printed }
  | receive line next, s =>
    match takeInput line s.input s.inputEnded with
    | some (bytes, rest) => advance budget (next bytes) { s with input := rest }
    | none => (.atInput line next, s)
  | sleep ms next, s =>
    match ms with
    | none => (.asleep none next, s)
    | some t =>
      if budget.all (s.slept + t ≤ ·) then
        advance budget (next ()) { s with slept := s.slept + t }
      else (.asleep ms next, s)
  | disk call next, s =>
    let (answer, d) := s.disk.serve call
    advance budget (next answer) { s with disk := d }
  | onTerminate reaction next, s => advance budget (next ()) { s with reaction }
  | wasAsked next, s => advance budget (next s.asked) { s with asked := false }

end Behaviour

end CommandConsole.Unix
