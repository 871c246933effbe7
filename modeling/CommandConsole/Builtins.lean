import CommandConsole.Commands.Control
import CommandConsole.Commands.Surroundings
import CommandConsole.Commands.Words

/-!
# The built-in commands

All commands that a console knows from the start.
-/

namespace CommandConsole

/-- Every built-in command. -/
def builtins : List (Command Body) := [
  Commands.cd, Commands.pwd, Commands.exportVariables, Commands.setVariable,
  Commands.unsetVariables, Commands.defineAlias, Commands.removeAliases, Commands.jobs,
  Commands.jobsClear, Commands.fg, Commands.bg, Commands.kill, Commands.sessions, Commands.send,
  Commands.echo, Commands.sleep, Commands.help, Commands.history, Commands.historyClear,
  Commands.succeed, Commands.fail]

/-- The registry of the built-in commands. -/
def CommandSet.standard : CommandSet := Registry.ofCommands builtins

end CommandConsole
