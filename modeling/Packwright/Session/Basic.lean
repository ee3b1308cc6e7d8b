import Packwright.Condition.Parser
import Packwright.File.Tree
import Packwright.Log
import Packwright.Pack.Basic
import Packwright.Session.Settings

/-!
# Sessions

A session holds the pack that is being compiled and everything that a later step of the same
session can see: warnings, renamings, imported files, counters and flags. Steps of compilation may
fail; what they did to the session before that stays.

## Main definitions

- `Session`, `Session.new` — the state of a compilation
- `Compile` — steps of a compilation
- `Feature` — the families of generated functions
- `Compile.allocate`, `Compile.allocateNext`, `Compile.takeId` — generated functions and their
  numbers
- `Compile.condition` — the clauses of a condition in the scope of the session
- `Compile.inScope` — a step inside a scope of its own
-/

namespace Packwright

/-- The state of a compilation. -/
structure Session where
  settings : Settings
  pack : Pack
  warnings : List Warning := []
  /-- How many of the warnings are in the log. -/
  logged : Nat := 0
  scope : Scope := {}
  /-- The files that were begun. -/
  imported : List File.Place := []
  /-- Whether the user has defined the tick function. -/
  tickDefined : Bool := false
  /-- Whether the functions of the square root are in the pack. -/
  sqrtEmitted : Bool := false
  log : List LogRecord := []
  deriving Inhabited

/-- A session with an empty pack. -/
def Session.new (settings : Settings) : Session := { settings, pack := .empty settings.space }

/-- Steps of a compilation, which may fail and change the session. -/
abbrev Compile := ExceptT Failure (StateM Session)

/-- The families of generated functions, and the counter of flags. -/
inductive Feature where
  | ifElse
  | whileLoop
  | doWhileLoop
  | forLoop
  | switchCase
  | onEvent
  | mathSqrt
  | logic
  deriving DecidableEq, Repr, Inhabited

/-- The name of a family in paths. -/
def Feature.name : Feature → String
  | .ifElse => "if_else"
  | .whileLoop => "while_loop"
  | .doWhileLoop => "do_while_loop"
  | .forLoop => "for_loop"
  | .switchCase => "switch_case"
  | .onEvent => "on_event"
  | .mathSqrt => "math_sqrt"
  | .logic => "logic"

/-- The path of a generated function of a family. -/
def Feature.path (f : Feature) (name : String) : FunctionPath := .generated f.name name

namespace Compile

/-- Fails with a fault. -/
def fail {α : Type} (f : Fault) : Compile α := throw (.fault f)

/-- Fails at a token. -/
def failAt {α : Type} (t : Token) (cause : Cause) : Compile α := fail (t.fault cause)

/-- A step that can only fail with a fault. -/
def ofExcept {α : Type} : Except Fault α → Compile α
  | .ok a => pure a
  | .error f => fail f

/-- A step that can only fail with a cause, which has no place. -/
def ofCause {α : Type} : Except Cause α → Compile α
  | .ok a => pure a
  | .error cause => fail { cause }

/-- Writes a record to the log. -/
def logRecord (r : LogRecord) : Compile Unit := modify fun s => { s with log := s.log ++ [r] }

/-- Writes a message for debugging to the log. -/
def debug (text : String) : Compile Unit := logRecord ⟨.debug, text⟩

/-- Records a warning at a position. -/
def warn (notice : Notice) (p : Position) : Compile Unit :=
  modify fun s => { s with warnings := s.warnings ++ [⟨notice, some p.location⟩] }

/-- Changes the pack. -/
def modifyPack (f : Pack → Pack) : Compile Unit := modify fun s => { s with pack := f s.pack }

/-- Runs steps that note warnings; these go straight to the log. -/
def ofNoting {α : Type} (m : Noting α) : Compile α := do
  let (result, warnings) := m.run.run []
  modify fun s => { s with log := s.log ++ warnings.map fun w => ⟨.warn, w.render⟩ }
  match result with
  | .ok a => return a
  | .error failure => throw failure

/-- Reads the statements of a text and records the warnings. -/
def tokenize (terminator : Terminator) (start : Position) (source : String) :
    Compile (List Statement) := do
  let reading ← ofExcept (Packwright.tokenize terminator start source)
  modify fun s => { s with warnings := s.warnings ++ reading.warnings }
  return reading.statements

/-- Reads the statements inside a group and records the warnings. -/
def tokenizeInner (terminator : Terminator) (t : Token) : Compile (List Statement) := do
  match t.inner? with
  | some inner => tokenize terminator t.innerStart inner
  | none => failAt t (.notAGroup t.text)

/-- Takes the next number of a family; a family whose counter is spent stops the program. -/
def takeId (f : Feature) : Compile Nat := do
  let s ← get
  if s.pack.generated.isSpent f.name then throw .crash
  else
    let (id, r) := s.pack.generated.nextId f.name
    set { s with pack := { s.pack with generated := r } }
    return id

/-- Registers a generated function. -/
def register (f : Feature) (name : String) (commands : List Command) : Compile FunctionPath := do
  let s ← get
  let (path, r) ← ofCause (s.pack.generated.insert f.name name commands)
  set { s with pack := { s.pack with generated := r } }
  return path

/-- Registers a generated function and says so in the log. -/
def allocate (f : Feature) (name : String) (commands : List Command) : Compile FunctionPath := do
  let path ← register f name commands
  debug ("allocated " ++ path.text)
  return path

/-- Registers a generated function under the next number of its family. -/
def registerNext (f : Feature) (commands : List Command) : Compile FunctionPath := do
  let id ← takeId f
  register f (toString id) commands

/-- Registers a generated function under the next number of its family and says so in the log. -/
def allocateNext (f : Feature) (commands : List Command) : Compile FunctionPath := do
  let path ← registerNext f commands
  debug ("allocated " ++ path.text)
  return path

/-- The command that calls a function of the pack. -/
def call (path : FunctionPath) : Compile Command := do
  return .call (path.inSpace (← get).settings.space)

/-- The clauses of a condition, in the scope of the session and with flags of its own. -/
def render (c : Condition) : Compile Rendered := ExceptT.mk do
  let s ← get
  let r := s.pack.generated
  let (result, n) := (c.rendering s.scope).run.run (r.counter Feature.logic.name)
  set { s with pack := { s.pack with generated := r.setCounter Feature.logic.name n } }
  return result

/-- Reads and renders the condition in a round group. -/
def condition (group : Token) : Compile Rendered := do
  render (← ofNoting (Condition.parse group))

/-- Runs a step inside a scope of its own, which is closed even when the step fails. -/
def inScope {α : Type} (m : Compile α) : Compile α := ExceptT.mk do
  modify fun s => { s with scope := s.scope.push }
  let result ← m.run
  modify fun s => { s with scope := s.scope.pop }
  return result

/-- Renames a variable in the innermost scope. -/
def rename (name holder : String) : Compile Unit :=
  modify fun s => { s with scope := s.scope.bind name holder }

/-- Reads a score in the scope of the session. -/
def score? (text : String) : Compile (Option Score) := do
  return Score.parseIn? (← get).scope text

/-- How the statements of a body become commands. -/
abbrev Block := List Statement → Compile (List Command)

/-- The commands of a body in braces. -/
def body (block : Block) (t : Token) : Compile (List Command) := do
  if t.isGroup .curly then block (← tokenizeInner .required t)
  else failAt t (.expectedBody t.text)

end Compile

end Packwright
