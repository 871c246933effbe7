import CommandConsole.Settings
import CommandConsole.Unix.Disk
import CommandConsole.Text.Utf8

/-!
# The command line

What the program can be told when it is started, and the settings file that it is told
to read.
-/

namespace CommandConsole

/-- Why the arguments of the program cannot be read. -/
inductive Misuse where
  | noConfigPath
  | noDirectory
  | unknown (arg : String)
  deriving DecidableEq, Repr

/-- The words for a misuse. -/
def Misuse.message : Misuse → String
  | noConfigPath => "--config requires a path"
  | noDirectory => "--cwd requires a directory"
  | unknown arg => "unknown argument: " ++ arg

/-- The arguments of the program. -/
structure CommandLine where
  /-- The settings file. -/
  config : Option String
  /-- The directory to start in. -/
  directory : Option String
  deriving DecidableEq, Repr, Inhabited

namespace CommandLine

/-- The arguments of a program that is told nothing. -/
def empty : CommandLine := ⟨none, none⟩

/-- Reads arguments on top of others; the last one of a kind counts. -/
def readOnto (c : CommandLine) : List String → Except Misuse CommandLine
  | [] => .ok c
  | "--config" :: path :: rest => readOnto { c with config := some path } rest
  | ["--config"] => .error .noConfigPath
  | "--cwd" :: directory :: rest => readOnto { c with directory := some directory } rest
  | ["--cwd"] => .error .noDirectory
  | arg :: _ => .error (.unknown arg)

/-- Reads the arguments of the program. -/
def read (args : List String) : Except Misuse CommandLine := readOnto empty args

end CommandLine

namespace Settings

/-- The fault of a settings file that cannot be read. -/
def fileFault (path reason : String) : Fault :=
  ⟨.config, "Failed to read config at " ++ path ++ ": " ++ reason⟩

/-- The settings in a file, given what reading it came to. -/
def ofFile (home path : String) (content : Except Unix.DiskError (List UInt8)) :
    Except Fault Settings :=
  match content with
  | .error e => .error (fileFault path e.message)
  | .ok bytes =>
    match Text.decode? bytes with
    | none => .error (fileFault path "stream did not contain valid UTF-8")
    | some document => (ofDocument home document).mapError Refusal.toFault

end Settings

end CommandConsole
