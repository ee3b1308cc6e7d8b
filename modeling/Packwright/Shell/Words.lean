import Packwright.Builtin.Table

/-!
# Words offered for completion

While a line is typed, the shell offers the reserved words of the source language, common commands,
its own requests, and the names of the built-in functions.
-/

namespace Packwright

/-- The words offered for completion. -/
def completionWords : List String :=
  ["if", "else", "while", "do", "for", "switch", "case", "break", "function", "let", "import",
    "class", "new", "execute", "say", "tellraw", "scoreboard", "compile", "config", "help",
    "exit"] ++ Builtin.all.map Builtin.name

end Packwright
