import CommandConsole.AllowList
import CommandConsole.Command
import CommandConsole.Settings

/-!
# Pipelines

A pipeline runs its stages one after the other. A stage that names a registered
command is carried out by it, any other by a program on the host, if its name is on
the allow-list. What a stage prints goes where its redirects say, and what is left of
it is the input of the next stage. The first stage that fails ends the pipeline.
-/

namespace CommandConsole

/-- What a console runs lines with. It does not change. -/
structure Setup where
  commands : CommandSet
  /-- Which names are tried as programs. -/
  programs : AllowList
  settings : Settings

/-- What a pipeline came to. -/
structure PipelineResult where
  outcome : Outcome
  /-- The changes of a line with one stage. -/
  changes : List Change
  deriving DecidableEq, Repr

namespace Pipeline

/-- The text with a line end behind it, unless it is empty or has one, or none is wanted. -/
def terminated (text : String) (wanted : Bool) : String :=
  match text.toList.getLast? with
  | none => text
  | some c => if wanted && c ≠ '\n' then text ++ "\n" else text

/-- The text without the line ends behind it. -/
def withoutLineEnds (text : String) : String :=
  String.ofList (text.toList.reverse.dropWhile fun c => c == '\n' || c == '\r').reverse

/-- The name a stage is resolved under, and the words behind that name. -/
def resolveName (commands : CommandSet) (s : Stage) : String × List String :=
  match commands.resolve s.tokens with
  | some (_, n) => (" ".intercalate (s.tokens.take n), s.tokens.drop n)
  | none => (s.command, s.args)

/-- Whether a registered command carries the stage out. -/
def isBuiltin (commands : CommandSet) (s : Stage) : Bool := (commands.resolve s.tokens).isSome

/-- The printout of a name that is neither a command nor a program. -/
def notFound (command : String) : Printout := .failure 127 (Outcome.unknownCommand command)

/-- The printout of a program that ended. -/
def ofProgram (command : String) (o : ProgramOutput) : Printout :=
  let stdout := withoutLineEnds o.stdout
  let stderr := withoutLineEnds o.stderr
  if o.exitCode = 0 then
    { Printout.text stdout with error := if stderr.isEmpty then none else some stderr }
  else
    { Printout.text stdout with
      error := some (if stderr.isEmpty then command ++ " exited with code " ++ toString o.exitCode
        else stderr)
      exitCode := o.exitCode }

/-- The content of the last file that is redirected in, if it can be read. -/
def redirectedInput (s : Stage) (c : Context) : Activity (Option String) :=
  match (s.redirects.filter fun r => r.kind = .input).getLast? with
  | none => pure none
  | some r => do
    match ← Activity.host (.fetch (c.resolve r.target)) with
    | .ok text => pure (some text)
    | .error _ => pure none

/-- Carries out one stage. -/
def runStage (setup : Setup) (s : Stage) (input : Option String) (c : Context) :
    Activity Printout :=
  match setup.commands.resolve s.tokens with
  | some (command, n) => do
    let name := " ".intercalate (s.tokens.take n)
    match ← command.body ⟨name, s.tokens.drop n, input, c, setup.commands.descriptions⟩ with
    | .ok p => pure p
    | .error complaint => pure (complaint.printout name)
  | none =>
    if setup.programs.accepts s.command then do
      let request : Request :=
        { Request.inContext s.command s.args c with
          input := input.map (terminated · true)
          timeoutMs := setup.settings.commandTimeoutMs }
      match ← Activity.host (.run request) with
      | .ok o => pure (ofProgram s.command o)
      | .error f =>
        if f.kind = .commandNotFound then pure (notFound s.command)
        else pure (.failure f.exitCode f.message)
    else pure (notFound s.command)

/-- What goes to the file of a redirect. -/
def captured (kind : RedirectKind) (p : Printout) : String :=
  if kind.takesOutput then terminated p.output p.endsLine else terminated (p.error.getD "") true

/-- Writes a printout to the files it is redirected to, in order. Comes to whether the
output was written to one. -/
def writeRedirects (c : Context) (p : Printout) : List Redirect → Activity Bool
  | [] => pure false
  | r :: rest =>
    if r.kind = .input then writeRedirects c p rest
    else do
      let written ← Activity.host (.save (c.resolve r.target) (captured r.kind p) r.kind.appends)
      let later ← writeRedirects c p rest
      match written with
      | .ok () => pure (r.kind.takesOutput || later)
      | .error _ => pure later

/-- Redirects a printout: output that was written to a file is not shown. -/
def redirect (s : Stage) (c : Context) (p : Printout) : Activity Printout := do
  if ← writeRedirects c p s.redirects then pure { p with output := "" } else pure p

/-- The outcome of a printout. -/
def outcomeOf (p : Printout) : Outcome :=
  { Outcome.blank with
    success := p.isSuccess
    output := p.output
    error := p.error
    exitCode := p.exitCode }

/-- Runs stages; `index` is the number of the first of them, `piped` its input, and
`last` what the stage before printed. -/
def runFrom (setup : Setup) (c : Context) (single : Bool) :
    (index : Nat) → (piped : Option String) → (last : Printout) → List Stage →
      Activity PipelineResult
  | _, _, last, [] => pure ⟨outcomeOf last, if single then last.changes else []⟩
  | index, piped, _, s :: rest => do
    if ← Activity.cancelled then pure ⟨.cancelled, []⟩
    else
      let redirected ← redirectedInput s c
      let printed ← runStage setup s (redirected <|> piped) c
      let p ← redirect s c printed
      if p.isSuccess then
        runFrom setup c single (index + 1) (some (terminated p.output p.endsLine)) p rest
      else
        pure ⟨{ outcomeOf p with failedStage := if single then none else some index }, []⟩

/-- Runs the stages of a line in a context. -/
def run (setup : Setup) (stages : List Stage) (c : Context) : Activity PipelineResult := do
  let begun ← Activity.now
  let r ← runFrom setup c (stages.length = 1) 0 none .empty stages
  let ended ← Activity.now
  pure { r with outcome := r.outcome.lasting (ended - begun) }

/-- What is said of a command that broke off. -/
def panicText (message : String) : String := "panicked: " ++ message

/-- Runs a line; a command that breaks off is a failure like any other. -/
def runGuarded (setup : Setup) (line : Line) (c : Context) : Activity PipelineResult := do
  match ← (run setup line.stages c).attempt with
  | .ok r => pure r
  | .error message => pure ⟨.failure 1 (panicText message), []⟩

end Pipeline

end CommandConsole
