import CommandConsole.Text.Utf8
import CommandConsole.Unix.Behaviour

/-!
# Processes

A process is a behaviour that has come to some point. It goes on whenever it is due:
because it slept long enough, because there is input for it, or because it was asked to
terminate. What it prints is cut into lines by a `LineFeed`.
-/

namespace CommandConsole.Unix

/-! ## Cutting output into lines -/

/-- One of the two outputs of a process on its way to whoever follows it line by line. -/
structure LineFeed where
  /-- What stands behind the last line end. -/
  rest : List UInt8
  /-- Whether it is still followed: a line that is no text ends that. -/
  followed : Bool
  deriving Inhabited

namespace LineFeed

/-- An output on which nothing was printed. -/
def fresh : LineFeed := ⟨[], true⟩

/-- A line without the carriage return at its end. -/
def withoutReturn (line : List UInt8) : List UInt8 :=
  if line.getLast? = some 13 then line.dropLast else line

/-- Hands on a line, unless it or one before it is no text. -/
def hand (f : LineFeed) (line : List UInt8) : List String × LineFeed :=
  if f.followed then
    match Text.decode? line with
    | some text => ([text], f)
    | none => ([], { f with followed := false })
  else ([], f)

/-- Takes printed bytes in, and hands on the lines that end in them. -/
def take (f : LineFeed) : List UInt8 → List String × LineFeed
  | [] => ([], f)
  | b :: bytes =>
    if b = 10 then
      let (line, f) := ({ f with rest := [] } : LineFeed).hand (withoutReturn f.rest)
      let (more, f) := take f bytes
      (line ++ more, f)
    else take { f with rest := f.rest ++ [b] } bytes

/-- Hands on what stands behind the last line end, as nothing more will come. -/
def finish (f : LineFeed) : List String := if f.rest.isEmpty then [] else (f.hand f.rest).1

end LineFeed

/-! ## Processes that go on -/

/-- A process. -/
structure Process where
  /-- Where it stopped. -/
  halt : Halt
  /-- What it can read. -/
  input : List UInt8
  /-- Whether more input will never come. -/
  inputEnded : Bool
  reaction : OnTerminate
  /-- Whether it noted that it is to terminate. -/
  asked : Bool
  /-- The moment at which it goes on, if that is known. -/
  due : Option Nat
  /-- The moment at which it is killed, if it is still there. -/
  deadline : Option Nat

namespace Process

/-- A process that begins at a moment. -/
def starting (b : Behaviour) (input : Option (List UInt8)) (due : Nat) : Process where
  halt := .asleep (some 0) fun _ => b
  input := input.getD []
  inputEnded := input.isSome
  reaction := .die
  asked := false
  due := some due
  deadline := none

/-- What the process does next, if it need not wait any longer. -/
def next? (p : Process) : Option (Behaviour × List UInt8) :=
  match p.halt with
  | .ended status => some (.exit status, p.input)
  | .asleep _ next => some (next (), p.input)
  | .atInput line next =>
    match takeInput line p.input p.inputEnded with
    | some (bytes, rest) => some (next bytes, rest)
    | none => if p.asked && line then some (next [], p.input) else none

/-- The status of a process that is over. -/
def status? (p : Process) : Option Nat :=
  match p.halt with
  | .ended status => some status
  | _ => none

/-- Lets a process go on at a moment. Comes to what it prints, in order. -/
def goOn (p : Process) (d : Disk) (now : Nat) : List (Bool × List UInt8) × Process × Disk :=
  if p.deadline.any (· ≤ now) && p.status?.isNone then
    ([], { p with halt := .ended (signalStatus 9), due := none }, d)
  else
    match p.next? with
    | none => ([], { p with due := none }, d)
    | some (b, input) =>
      let (halt, s) := b.advance (some 0) ⟨d, input, p.inputEnded, p.reaction, p.asked, [], 0⟩
      let due :=
        match halt with
        | .asleep ms _ => ms.map (now + ·)
        | _ => none
      (s.printed.reverse,
        { p with halt, input := s.input, reaction := s.reaction, asked := s.asked, due }, s.disk)

/-- More input for a process, which it looks at at a moment. -/
def receive (p : Process) (bytes : List UInt8) (moment : Nat) : Process :=
  let waits :=
    match p.halt with
    | .atInput .. => true
    | _ => false
  { p with input := p.input ++ bytes, due := if waits then some moment else p.due }

/-- How long a process is given to end once it was asked to, in milliseconds. -/
def graceMs : Nat := 2000

/-- Asks a process to terminate; it reacts at a moment. -/
def terminate (p : Process) (moment : Nat) : Process :=
  let p := { p with deadline := p.deadline <|> some (moment + graceMs) }
  match p.reaction with
  | .die => { p with halt := .ended (signalStatus 15), due := some moment }
  | .ignore => p
  | .note =>
    match p.halt with
    | .atInput .. => { p with asked := true, due := some moment }
    | _ => { p with asked := true }

/-- The moment at which something happens to a process by itself. -/
def nextMoment? (p : Process) : Option Nat := (p.due.toList ++ p.deadline.toList).min?

end Process

end CommandConsole.Unix
