/-!
# Log records

Messages to the user have a level. A filter lets records through up to its own level; what is let
through is written one line each, behind a coloured tag.

## Main definitions

- `LogLevel`, `LogRecord` — levels, from the gravest on, and messages
- `LogRecord.render` — a message behind its tag
- `LogFilter`, `LogFilter.passes` — which records are let through
-/

namespace Packwright

/-- How grave a message is. -/
inductive LogLevel where
  | error
  | warn
  | info
  | debug
  | trace
  deriving DecidableEq, Repr, Inhabited

namespace LogLevel

/-- The rank of a level, the gravest first. -/
def rank : LogLevel → Nat
  | .error => 1
  | .warn => 2
  | .info => 3
  | .debug => 4
  | .trace => 5

/-- The coloured tag of a level. -/
def tag : LogLevel → String
  | .error => "\x1b[31merror\x1b[0m"
  | .warn => "\x1b[33mwarning\x1b[0m"
  | .info => "\x1b[32minfo\x1b[0m"
  | .debug => "\x1b[2mdebug\x1b[0m"
  | .trace => "\x1b[2mtrace\x1b[0m"

end LogLevel

/-- A message with its level. -/
structure LogRecord where
  level : LogLevel
  text : String
  deriving DecidableEq, Repr, Inhabited

/-- A message behind its tag. -/
def LogRecord.render (r : LogRecord) : String := r.level.tag ++ ": " ++ r.text

/-- Which records are let through. -/
inductive LogFilter where
  /-- None at all. -/
  | off
  /-- Those of a level and the graver ones. -/
  | upTo (level : LogLevel)
  deriving DecidableEq, Repr, Inhabited

namespace LogFilter

/-- Whether a filter lets a level through. -/
def passes : LogFilter → LogLevel → Bool
  | .off, _ => false
  | .upTo last, level => level.rank ≤ last.rank

/-- The filter of an ordinary or a verbose run. -/
def ofVerbose (verbose : Bool) : LogFilter := .upTo (if verbose then .debug else .info)

/-- The line of a record, if it is let through. -/
def line (filter : LogFilter) (r : LogRecord) : String :=
  if filter.passes r.level then r.render ++ "\n" else ""

end LogFilter

/-- The record of setting up a log that is set up already. -/
def logInstalled : LogRecord := ⟨.debug, "logger already installed"⟩

end Packwright
