import Packwright.Session.Source

/-!
# Work on a project

Work on a project reads and changes files and says what it does. What it says goes to the output, to
the error output, or to the log, and is kept in one list, so that the order of everything said is
known. Work may fail; what was done and said before that stays.

## Main definitions

- `Message` — something said
- `Message.output`, `Message.errorOutput` — what of it is seen on either side
- `Workspace`, `Work` — the files and the messages, and steps of work
- `Work.compile` — a compilation as a step of work
-/

namespace Packwright

/-- Something said to the user. -/
inductive Message where
  /-- A text for the output. -/
  | shown (text : String)
  /-- A text for the error output. -/
  | reported (text : String)
  /-- A record of the log, which goes to the error output if it is let through. -/
  | logged (r : LogRecord)
  deriving DecidableEq, Repr, Inhabited

namespace Message

/-- What of a message is seen on the output. -/
def toOutput : Message → String
  | .shown text => text
  | _ => ""

/-- What of a message is seen on the error output. -/
def toErrorOutput (filter : LogFilter) : Message → String
  | .shown _ => ""
  | .reported text => text
  | .logged r => filter.line r

/-- All that is seen on the output. -/
def output (messages : List Message) : String := String.join (messages.map toOutput)

/-- All that is seen on the error output. -/
def errorOutput (filter : LogFilter) (messages : List Message) : String :=
  String.join (messages.map (toErrorOutput filter))

/-- The report of an error, in red. -/
def error (text : String) : Message := .reported ("\x1b[31mError: " ++ text ++ "\x1b[0m\n")

end Message

/-- The files of a project and what was said so far. -/
structure Workspace where
  files : File.Tree := {}
  messages : List Message := []
  deriving DecidableEq, Repr, Inhabited

/-- Steps of work on a project. -/
abbrev Work := ExceptT Failure (StateM Workspace)

namespace Work

/-- Fails with a fault. -/
def fail {α : Type} (f : Fault) : Work α := throw (.fault f)

/-- A step that can only fail with a fault. -/
def ofExcept {α : Type} : Except Fault α → Work α
  | .ok a => pure a
  | .error f => fail f

/-- Says something. -/
def say (m : Message) : Work Unit := modify fun w => { w with messages := w.messages ++ [m] }

/-- Writes a record to the log. -/
def log (level : LogLevel) (text : String) : Work Unit := say (.logged ⟨level, text⟩)

/-- Changes the files, or fails with a fault that names the path. -/
def changeFiles (path : File.Path) (change : File.Tree → Except File.Problem File.Tree) :
    Work Unit := do
  let w ← get
  match change w.files with
  | .ok files => set { w with files }
  | .error problem => fail { cause := .fileFailure path.text problem }

/-- Makes a directory and those above it that are missing, or fails with a fault that names the
path. -/
def makeDirectories (path : File.Path) : Work Unit := do
  let w ← get
  let (files, problem) := w.files.makeDirectories path
  set { w with files }
  match problem with
  | none => pure ()
  | some problem => fail { cause := .fileFailure path.text problem }

/-- Runs a compilation from a new session and gives the session at its end. Its log is said even
when it fails. -/
def compile (settings : Settings) (steps : File.Tree → Compile Unit) : Work Session := do
  let w ← get
  let (result, s) := (steps w.files).run.run (Session.new settings)
  set { w with messages := w.messages ++ s.log.map Message.logged }
  match result with
  | .ok _ => return s
  | .error failure => throw failure

/-- What a step comes to, with the workspace after it. -/
def outcome {α : Type} (m : Work α) (w : Workspace) : Except Failure α × Workspace := m.run.run w

end Work

end Packwright
