import CommandConsole.Dictionary
import CommandConsole.Path

/-!
# The files of a machine

A tree of directories, files and installed programs. Paths are walked step by step, so
that each failure is the one a machine reports: a step through something that is no
directory differs from a step to something that is not there.
-/

namespace CommandConsole.Unix

/-- What stands at a path. -/
inductive Node where
  | directory
  | file (content : List UInt8) (executable : Bool)
  /-- An installed program, by the name of what it does. -/
  | program (name : String)
  deriving Inhabited

/-- Why a path or a program cannot be used. -/
inductive DiskError where
  | noEntry
  | noAccess
  | notDirectory
  | isDirectory
  | noProgram
  deriving DecidableEq, Repr

/-- The machine's words for an error, without its number. -/
def DiskError.reason : DiskError → String
  | noEntry => "No such file or directory"
  | noAccess => "Permission denied"
  | notDirectory => "Not a directory"
  | isDirectory => "Is a directory"
  | noProgram => "Exec format error"

/-- The machine's number of an error. -/
def DiskError.number : DiskError → Nat
  | noEntry => 2
  | noAccess => 13
  | notDirectory => 20
  | isDirectory => 21
  | noProgram => 8

/-- The machine's words for an error. -/
def DiskError.message (e : DiskError) : String :=
  e.reason ++ " (os error " ++ toString e.number ++ ")"

/-- The files of a machine. -/
structure Disk where
  /-- What stands where, by absolute paths in normal form. -/
  nodes : Dictionary Node
  /-- Where relative paths start. -/
  home : String

namespace Disk

/-- What stands at an absolute path in normal form. -/
def node? (d : Disk) (steps : List String) : Option Node :=
  d.nodes.get? (Path.toText ⟨true, steps⟩)

/-- Walks down from a directory. Comes to the steps of the place, whether or not
something stands there. -/
def walk (d : Disk) : List String → List String → Except DiskError (List String)
  | taken, [] => .ok taken
  | taken, step :: rest =>
    match d.node? taken with
    | none => .error .noEntry
    | some .directory =>
      if step = "." then d.walk taken rest
      else if step = ".." then d.walk taken.dropLast rest
      else d.walk (taken ++ [step]) rest
    | some _ => .error .notDirectory

/-- The steps of a path; one that ends in a slash ends in a directory. -/
def stepsOf (path : String) : List String :=
  let parts := (path.toList.splitOn '/').map String.ofList
  let steps := parts.filter (· ≠ "")
  if path.toList.getLast? = some '/' then steps ++ ["."] else steps

/-- The place that a path names. -/
def locate (d : Disk) (path : String) : Except DiskError (List String) :=
  if path.isEmpty then .error .noEntry
  else d.walk (if Path.isAbsolute path then [] else (Path.ofText d.home).steps) (stepsOf path)

/-- What stands at the place that a path names. -/
def find (d : Disk) (path : String) : Except DiskError Node := do
  match d.node? (← d.locate path) with
  | some n => .ok n
  | none => .error .noEntry

/-- The bytes of an installed program, which nobody looks at. -/
def programBytes : List UInt8 := [0x7F]

/-- The bytes of a file. -/
def read (d : Disk) (path : String) : Except DiskError (List UInt8) := do
  match ← d.find path with
  | .directory => .error .isDirectory
  | .file content _ => .ok content
  | .program _ => .ok programBytes

/-- Writes a file, over or behind what it holds, and makes it if it is not there. -/
def write (d : Disk) (path : String) (bytes : List UInt8) (append : Bool) :
    Except DiskError Disk := do
  let steps ← d.locate path
  let put (content : List UInt8) (executable : Bool) : Disk :=
    { d with nodes := d.nodes.insert (Path.toText ⟨true, steps⟩) (.file content executable) }
  match d.node? steps with
  | some .directory => .error .isDirectory
  | some (.program _) => .error .noAccess
  | some (.file content executable) =>
    .ok (put (if append then content ++ bytes else bytes) executable)
  | none =>
    match d.node? steps.dropLast with
    | some .directory => .ok (put bytes false)
    | some _ => .error .notDirectory
    | none => .error .noEntry

/-- Whether a path names a directory. -/
def isDirectory (d : Disk) (path : String) : Bool :=
  match d.find path with
  | .ok .directory => true
  | _ => false

/-- Whether something stands at a path. -/
def isThere (d : Disk) (path : String) : Bool := (d.find path).isOk

/-- Whether a path names something that can be executed. -/
def isExecutable (d : Disk) (path : String) : Bool :=
  match d.find path with
  | .ok (.file _ executable) => executable
  | .ok (.program _) => true
  | _ => false

/-- Puts a node at an absolute path, and directories on the way to it. -/
def place (d : Disk) (path : String) (n : Node) : Disk :=
  let steps := (Path.ofText path).normalize.steps
  let above := (List.range steps.length).map fun k => Path.toText ⟨true, steps.take k⟩
  let nodes := above.foldl (fun m p => if m.contains p then m else m.insert p .directory) d.nodes
  { d with nodes := nodes.insert (Path.toText ⟨true, steps⟩) n }

/-- The directories that every machine has. -/
def commonDirectories : List String :=
  ["/", "/bin", "/dev", "/etc", "/home", "/lib", "/mnt", "/opt", "/proc", "/root", "/run", "/sbin",
    "/srv", "/sys", "/tmp", "/usr", "/usr/bin", "/usr/lib", "/usr/local", "/usr/local/bin",
    "/usr/sbin", "/usr/share", "/var", "/var/log", "/var/tmp"]

/-- The programs that every machine has. -/
def commonPrograms : List String :=
  ["cat", "echo", "env", "false", "head", "printf", "pwd", "seq", "sh", "sleep", "tail", "true",
    "wc"]

/-- The disk of a machine on which nobody has worked yet. -/
def standard (home : String) : Disk :=
  let empty : Disk := ⟨.empty, home⟩
  let withDirectories := commonDirectories.foldl (fun d p => d.place p .directory) empty
  let withPrograms := commonPrograms.foldl
    (fun d name => (d.place ("/usr/bin/" ++ name) (.program name)).place ("/bin/" ++ name)
      (.program name))
    withDirectories
  ((withPrograms.place "/dev/null" (.file [] false)).place home .directory)

end Disk

end CommandConsole.Unix
