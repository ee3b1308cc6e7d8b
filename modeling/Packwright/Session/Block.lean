import Packwright.Session.Construct
import Packwright.Session.Definition
import Packwright.Session.Flow
import Packwright.Session.Switch
import Packwright.Session.Variable

/-!
# Blocks of statements

Every construct of a block is compiled in turn, and the commands are put together. What is allowed
depends on the level of the block: the top level of a file, the inside of a class, or a body.

## Main definitions

- `Level` — where a block stands
- `Compile.statement`, `Compile.construct` — one statement, one construct
- `Compile.block` — the statements of a body, with a bound on the depth of nested bodies
- `Compile.classDefinition` — a class
-/

namespace Packwright

/-- Where a block of statements stands. -/
inductive Level where
  /-- The top level of a file. -/
  | top
  /-- The inside of a class, whose functions get its path in front. -/
  | inClass (path : FunctionPath)
  /-- The inside of a function, loop, arm, case or handler. -/
  | body
  deriving DecidableEq, Repr, Inhabited

/-- Whether functions may be defined at a level, and behind which path. -/
def Level.functions : Level → Except Cause FunctionPath
  | .top => .ok ⟨""⟩
  | .inClass path => .ok path
  | .body => .error .functionInBody

/-- Rejects a statement that may not stand at a level. -/
def Level.check (level : Level) (kind : StatementKind) (first : Token) : Except Fault Unit :=
  match level with
  | .top => .ok ()
  | .inClass _ =>
    if kind = .function then .ok () else .error (first.fault .onlyFunctionsInClass)
  | .body =>
    if kind = .classDefinition || kind = .importFile || kind = .newResource then
      .error (first.fault (.onlyAtTopLevel first.text))
    else .ok ()

namespace Compile

/-- Compiles the functions of a class. -/
def classFunctions (inner : Block) (path : FunctionPath) : List Statement → Compile Unit
  | [] => return
  | s :: rest => do
    match s.tokens with
    | [] => pure ()
    | first :: tokens =>
      ofExcept ((Level.inClass path).check s.kind first)
      functionDefinition inner (.ok path) first tokens
    classFunctions inner path rest

/-- Compiles a class. -/
def classDefinition (inner : Block) (keyword : Token) (rest : List Token) : Compile Unit := do
  let (path, braces) ← ofExcept (classHead keyword rest)
  classFunctions inner path (← tokenizeInner .required braces)

/-- Compiles one statement. Imports belong to the top level of a file and are not handled here. -/
def statement (inner : Block) (level : Level) (kind : StatementKind) (first : Token)
    (rest : List Token) : Compile (List Command) :=
  match kind with
  | .function => do
    functionDefinition inner level.functions first rest
    return []
  | .classDefinition => do
    classDefinition inner first rest
    return []
  | .importFile => failAt first (.onlyAtTopLevel first.text)
  | .newResource => do
    newResource first rest
    return []
  | .ifBranch => chain inner first rest []
  | .elseBranch => failAt first .elseWithoutIf
  | .whileLoop => whileLoop inner first rest
  | .doLoop => doWhile inner first rest none
  | .forLoop => forLoop inner first rest
  | .switch => switch inner first rest
  | .caseLabel => failAt first .caseOutsideSwitch
  | .breakCase => failAt first .breakOutsideSwitch
  | .variableChange => variableChange inner first rest
  | .builtin b => builtin inner b first rest none
  | .call => return [← functionCall first rest]
  | .vanilla => return [.written (joinTokens (first :: rest))]

/-- Compiles a statement that may stand at a level, given how. -/
def atLevel (level : Level) (s : Statement)
    (compile : Token → List Token → Compile (List Command)) : Compile (List Command) :=
  match s.tokens with
  | [] => return []
  | first :: rest => do
    ofExcept (level.check s.kind first)
    compile first rest

/-- Compiles a construct at a level. -/
def construct (inner : Block) (level : Level) : Construct → Compile (List Command)
  | .chain s elses => atLevel level s fun first rest => chain inner first rest elses
  | .doWhile s tail => atLevel level s fun first rest => doWhile inner first rest tail
  | .single s => atLevel level s (statement inner level s.kind)

/-- Compiles constructs one after the other and puts their commands together. -/
def bodyConstructs (inner : Block) : List Construct → Compile (List Command)
  | [] => return []
  | c :: rest => do
    let commands ← construct inner .body c
    return commands ++ (← bodyConstructs inner rest)

/-- Compiles the statements of a body, with at most `depth` bodies inside one another. -/
def block : Nat → Block
  | 0, _ => throw .exhausted
  | depth + 1, statements => bodyConstructs (block depth) (constructs statements)

end Compile

end Packwright
