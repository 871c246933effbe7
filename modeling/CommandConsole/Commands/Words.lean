import CommandConsole.Command
import CommandConsole.Interval

/-!
# Commands without collaborators

`echo`, `sleep`, `true` and `false`, the history commands, and `help`.
-/

namespace CommandConsole.Commands

/-- `echo` prints its arguments; behind `-n` its output gets no line end. -/
def echo : Command Body where
  description := ⟨"echo", [], "Print arguments", "echo [-n] [text...]"⟩
  body i :=
    if i.first? = some "-n" then
      Work.print { Printout.text (" ".intercalate i.others) with endsLine := false }
    else Work.print (.text (" ".intercalate i.args))

/-- `sleep` waits; when it is called off it fails. -/
def sleep : Command Body where
  description := ⟨"sleep", [], "Pause for a number of seconds", "sleep <seconds>[s|m|h|d]"⟩
  body i := i.withFirst "operand" fun text =>
    match Interval.read? text with
    | none => Work.complain ("invalid time interval '" ++ text ++ "'")
    | some ms => do
      if ← Activity.query (.pause (Interval.span ms)) then Work.print .empty
      else Work.print (.failure 130 "interrupted")

/-- `true` succeeds. -/
def succeed : Command Body where
  description := ⟨"true", [], "Do nothing, successfully", "true"⟩
  body _ := Work.print .empty

/-- `false` fails without a word. -/
def fail : Command Body where
  description := ⟨"false", [], "Do nothing, unsuccessfully", "false"⟩
  body _ := Work.print { Printout.empty with exitCode := 1 }

/-- How many entries `history` shows unless it is told. -/
def shownEntries : Nat := 20

/-- A line of the history listing. -/
def historyLine (e : HistoryEntry) : String := Text.padStart 5 (toString e.id) ++ "  " ++ e.line

/-- `history` lists the last lines. -/
def history : Command Body where
  description := ⟨"history", [], "Show recent command lines", "history [n]"⟩
  body i :=
    let list (limit : Nat) : Work := do
      let entries ← Activity.instant (.recentHistory limit)
      Work.print (.lines (entries.map historyLine))
    match i.first? with
    | none => list shownEntries
    | some n =>
      match Text.count? n with
      | some limit => list limit
      | none => Work.complain (n ++ ": numeric argument required")

/-- `history clear` empties the history. -/
def historyClear : Command Body where
  description := ⟨"history clear", [], "Clear the command history", "history clear"⟩
  body _ := do
    Activity.instant .clearHistory
    Work.print .empty

/-- The list that `help` prints: names in a column as wide as the longest, summaries
behind them. -/
def helpList (ds : List Description) : List String :=
  let width := (ds.map fun d => d.name.utf8ByteSize).foldl max 0
  ds.map fun d => Text.padEnd width d.name ++ "  " ++ d.summary

/-- What `help` prints about one command. -/
def helpPage (d : Description) : String :=
  "usage: " ++ d.usage ++ "\n" ++ d.summary ++
    if d.aliases.isEmpty then "" else "\naliases: " ++ ", ".intercalate d.aliases

/-- `help` lists the commands, or describes the one that all its arguments name. -/
def help : Command Body where
  description := ⟨"help", [], "List built-in commands or describe one", "help [command]"⟩
  body i :=
    if i.args.isEmpty then
      Work.print (.lines (helpList (i.catalogue.primary.map (·.description))))
    else
      match i.catalogue.resolve i.args with
      | some (command, consumed) =>
        if consumed = i.args.length then Work.print (.text (helpPage command.description))
        else Work.complain (noTopic i.args)
      | none => Work.complain (noTopic i.args)
where
  /-- The complaint about arguments that name no command. -/
  noTopic (args : List String) : String := "no help topics match '" ++ " ".intercalate args ++ "'"

end CommandConsole.Commands
