import CommandConsole.Terminal

/-!
# The program

Reads lines from the standard input, and carries them out on a machine of its own. That
machine starts with a standard disk, on which the settings file is put if one is named.
-/

namespace CommandConsole

/-- Prints on the outputs of the program. -/
def Printed.show : Printed → IO Unit
  | .out text => do
    let stdout ← IO.getStdout
    stdout.putStr text
    stdout.flush
  | .err text => IO.eprint text

/-- The surroundings of the program. -/
def Surroundings.ofProgram : IO Surroundings := do
  let known ← ["HOME", "PATH"].filterMapM fun name => do
    return (← IO.getEnv name).map fun value => (name, value)
  return ⟨Dictionary.ofList known, (← IO.currentDir).toString⟩

/-- A disk with the settings file on it, if it can be read. -/
def Surroundings.disk (s : Surroundings) (args : List String) : IO Unix.Disk := do
  let d := Unix.Disk.standard s.directory
  match CommandLine.read args with
  | .ok ⟨some path, _⟩ =>
    try
      let bytes ← IO.FS.readBinFile path
      return d.place (Unix.Host.below s.directory path) (.file bytes.toList false)
    catch _ => return d
  | _ => return d

/-- Takes lines from the input until one ends the conversation. -/
partial def Terminal.attend (t : Terminal) (input : IO.FS.Stream) : IO Unit := do
  let line ← input.getLine
  let text := String.ofList ((Text.lines line.toList).headD [])
  if line.isEmpty || Terminal.isFarewell text then
    t.finish.1.forM Printed.show
  else
    let (printed, t) := t.submit text
    printed.forM Printed.show
    t.attend input

end CommandConsole

open CommandConsole in
/-- Opens the terminal that the arguments ask for. -/
def main (args : List String) : IO UInt32 := do
  let s ← Surroundings.ofProgram
  match Terminal.opened args s (← s.disk args) with
  | .error reason =>
    (Terminal.refusal reason).show
    return 1
  | .ok t =>
    (Printed.out Terminal.prompt).show
    t.attend (← IO.getStdin)
    return 0
