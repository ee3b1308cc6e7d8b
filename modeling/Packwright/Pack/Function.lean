import Packwright.Command

/-!
# Functions

A function is a path and a list of commands. Its file has one line for each command.

## Main definitions

- `PackFunction` — a function of a pack
- `PackFunction.render` — the text of its file
-/

namespace Packwright

/-- A function of a pack. -/
structure PackFunction where
  path : FunctionPath
  commands : List Command := []
  deriving DecidableEq, Repr, Inhabited

namespace PackFunction

/-- Appends commands. -/
def extend (f : PackFunction) (commands : List Command) : PackFunction :=
  { f with commands := f.commands ++ commands }

/-- Takes the last command off. -/
def dropLast (f : PackFunction) : PackFunction := { f with commands := f.commands.dropLast }

/-- The text of commands, one line each. -/
def renderCommands (commands : List Command) : String :=
  String.join (commands.map fun c => c.render ++ "\n")

/-- The text of the function's file. -/
def render (f : PackFunction) : String := renderCommands f.commands

end PackFunction

end Packwright
