import Packwright.Proofs.EnclosingLoops
import Packwright.Proofs.PrivateCalls

/-!
# Compilation with a trace

Here compilation is written once more, in two ways more openly. First, it is told which loops stand
around each part of a text, and keeps no renamings of its own: wherever a name is read, it is read with
the renamings of those loops. Second, it keeps a record of the loops that are begun, of the objectives
that are asked for, and of when the first constant is registered.

## Main definitions

- `Event` — what is recorded
- `Traced` — steps that also give the record of what they did
- `Traced.here` — a step of the compiler inside loops
- `Traced.forLoop` — the only place where a loop is put around parts of a text
- `Traced.block`, `Traced.source`, `Task.traced` — bodies, files and tasks
- `Session.trace` — the record of several tasks
-/

namespace Packwright

/-- What is recorded of a compilation. -/
inductive Event where
  /-- A `for` is begun. -/
  | loop (l : ForLoop)
  /-- An objective is to be added. -/
  | added (objective criteria : String)
  /-- An objective is needed for the handler of an event. -/
  | awaited (objective criteria : String)
  /-- The first constant is registered. -/
  | constants
  deriving DecidableEq, Repr

/-- The session with the renamings of the loops around a place. -/
def Session.inside (s : Session) (loops : List ForLoop) : Session := { s with scope := scopeOf loops }

/-- Steps of a compilation that also give the record of what they did. -/
def Traced (α : Type) : Type := Session → (Except Failure α × Session) × List Event

namespace Traced

variable {α β : Type}

/-- One step after another, and one record after the other. -/
protected def bind (t : Traced α) (f : α → Traced β) : Traced β := fun s =>
  match t s with
  | ((.ok a, s'), events) => ((f a s').1, events ++ (f a s').2)
  | ((.error e, s'), events) => ((.error e, s'), events)

instance : Monad Traced where
  pure a := fun s => ((.ok a, s), [])
  bind := Traced.bind

/-- The event that a constant is registered where there was none before. -/
def firstConstant (before after : Pack) : List Event :=
  if before.constants = [] ∧ after.constants ≠ [] then [.constants] else []

/-- A step of the compiler inside loops, with events of its own. -/
def noting (loops : List ForLoop) (events : List Event) (m : Compile α) : Traced α := fun s =>
  let (result, after) := m.outcome (s.inside loops)
  ((result, { after with scope := s.scope }), events ++ firstConstant s.pack after.pack)

/-- A step of the compiler inside loops. -/
def here (loops : List ForLoop) (m : Compile α) : Traced α := noting loops [] m

/-- How the statements of a body inside loops become commands. -/
abbrev Block := List ForLoop → List Statement → Traced (List Command)

section

variable (block : Block) (loops : List ForLoop)

/-- The commands of a body in braces. -/
def body (t : Token) : Traced (List Command) := do
  if t.isGroup .curly then block loops (← here loops (Compile.tokenizeInner .required t))
  else here loops (Compile.failAt t (.expectedBody t.text))

/-! ### Chains -/

/-- The arm of an `if`. -/
def ifBranch (keyword : Token) (rest : List Token) : Traced Branch := do
  let (head, braces) ← here loops (Compile.ofExcept (headAndBody keyword rest))
  let c ← here loops (Compile.condition head)
  return ⟨some c, ← body block loops braces⟩

/-- The arm of an `else`; `closed` tells whether the chain has its final `else` already. -/
def elseBranch (closed : Bool) (keyword : Token) (rest : List Token) : Traced Branch := do
  if closed then here loops (Compile.failAt keyword .elseAfterElse)
  else
    match rest with
    | [] => here loops (Compile.failAt keyword .elseShape)
    | next :: more =>
      if more.isEmpty && next.isGroup .curly then return ⟨none, ← body block loops next⟩
      else if next.isWord "if" then ifBranch block loops next more
      else here loops (Compile.failAt keyword .elseShape)

/-- The arms of the `else` statements of a chain, behind the arms read so far. -/
def elseBranches (arms : List Branch) : List Statement → Traced (List Branch)
  | [] => return arms
  | s :: rest => do
    match s.tokens with
    | [] => elseBranches arms rest
    | keyword :: tokens =>
      let closed := (arms.getLast?.map (·.condition.isNone)).getD false
      let arm ← elseBranch block loops closed keyword tokens
      elseBranches (arms ++ [arm]) rest

/-- An `if` with the `else` statements behind it. -/
def chain (keyword : Token) (rest : List Token) (elses : List Statement) :
    Traced (List Command) := do
  let first ← ifBranch block loops keyword rest
  let arms ← elseBranches block loops [first] elses
  here loops (Compile.chainCommands arms)

/-! ### Loops -/

/-- A `while`. -/
def whileLoop (keyword : Token) (rest : List Token) : Traced (List Command) := do
  let (head, braces) ← here loops (Compile.ofExcept (headAndBody keyword rest))
  let id ← here loops (Compile.takeId .whileLoop)
  let c ← here loops (Compile.condition head)
  let again ← here loops (Compile.call (Feature.whileLoop.path (toString id)))
  let commands ← body block loops braces
  let _ ← here loops
    (Compile.allocate .whileLoop (toString id) (commands ++ c.guardedCommands again))
  return c.guardedCommands again

/-- A `do` with the `while` behind it. -/
def doWhile (keyword : Token) (rest : List Token) (tail : Option Statement) :
    Traced (List Command) := do
  match rest with
  | [braces] =>
    let id ← here loops (Compile.takeId .doWhileLoop)
    let commands ← body block loops braces
    match tail.map Statement.tokens with
    | some (whileKeyword :: tokens) =>
      let head ← here loops (Compile.ofExcept (Compile.doWhileHead whileKeyword tokens))
      let c ← here loops (Compile.condition head)
      let again ← here loops (Compile.call (Feature.doWhileLoop.path (toString id)))
      let _ ← here loops
        (Compile.allocate .doWhileLoop (toString id) (commands ++ c.guardedCommands again))
      return [again]
    | _ => here loops (Compile.failAt keyword .doWithoutWhile)
  | _ => here loops (Compile.failAt keyword .doShape)

/-- Takes a number for a `for`, which is recorded. -/
def begin (header : List Token) : Traced ForLoop := fun s =>
  match (Compile.takeId .forLoop).outcome s with
  | (.ok id, s') => ((.ok ⟨id, header⟩, s'), [.loop ⟨id, header⟩])
  | (.error e, s') => ((.error e, s'), [])

/-- The message that a loop gives its variable a holder. -/
def announce (l : ForLoop) : Compile Unit :=
  match l.declared? with
  | some name =>
    Compile.debug ("for loop " ++ toString l.id ++ " binds " ++ name ++ " to " ++ l.holder name)
  | none => return

/-- The parts of a `for`, all of which are inside the loop. -/
def forParts (l : ForLoop) (init test step : Statement) (head braces : Token) :
    Traced (List Command) := do
  here (l :: loops) (announce l)
  let initCommands ← block (l :: loops) [init]
  let tree ← here (l :: loops) (Compile.ofNoting (Condition.parseTokens head.position test.tokens))
  let c ← here (l :: loops) (Compile.render tree)
  let stepCommands ← block (l :: loops) [step]
  let again ← here (l :: loops) (Compile.call (Feature.forLoop.path (toString l.id)))
  let commands ← body block (l :: loops) braces
  let _ ← here (l :: loops) (Compile.allocate .forLoop (toString l.id)
    (commands ++ stepCommands ++ c.guardedCommands again))
  return initCommands ++ c.guardedCommands again

/-- A `for`. -/
def forLoop (keyword : Token) (rest : List Token) : Traced (List Command) := do
  let (head, braces) ← here loops (Compile.ofExcept (headAndBody keyword rest))
  match ← here loops (Compile.tokenizeInner .optional head) with
  | [init, test, step] =>
    let l ← begin init.tokens
    forParts block loops l init test step head braces
  | _ => here loops (Compile.failAt head .forShape)

/-! ### Switches -/

/-- The bodies of the cases of a switch. -/
def registerCases (id : Nat) : List Case → Traced Unit
  | [] => return
  | c :: rest => do
    let commands ← block loops c.statements
    let _ ← here loops
      (Compile.register .switchCase (toString id ++ "/" ++ toString c.label) commands)
    registerCases id rest

/-- A switch. -/
def switch (keyword : Token) (rest : List Token) : Traced (List Command) := do
  match rest with
  | [head, braces] =>
    if !head.isGroup .round then here loops (Compile.failAt head (.expectedHead "switch"))
    else if !braces.isGroup .curly then here loops (Compile.failAt braces .expectedSwitchBody)
    else
      let score ← here loops (Compile.switchScore head)
      let statements ← here loops (Compile.tokenizeInner .required braces)
      let cases ← here loops (Compile.collectCases statements)
      match cases.head?, cases.getLast? with
      | some first, some last =>
        let id ← here loops (Compile.takeId .switchCase)
        here loops (Compile.debug ("switch " ++ toString id ++ " over " ++ score.render ++
          " with cases " ++ (ScoreRange.ofBounds first.label last.label).render))
        registerCases block loops id cases
        here loops (Compile.dispatch id score first.label last.label)
      | _, _ => here loops (Compile.failAt keyword .noCases)
  | _ => here loops (Compile.failAt keyword .switchShape)

/-! ### Built-in functions -/

/-- A request for a new objective, which is recorded. -/
def addObjective (args : Bindings) : Traced (List Command) := do
  let objective ← here loops (Compile.ofExcept (args.text "objective"))
  let criteria ← here loops (Compile.ofExcept (args.text "criteria"))
  noting loops [.added objective criteria] do
    if (← get).pack.isDeclared objective then
      Compile.warn (.objectiveDeclared objective) (args.position "objective")
    else Compile.modifyPack (·.declare objective criteria)
    return []

/-- A handler with its objective; that it needs the objective is recorded. -/
def onEvent (args : Bindings) : Traced (List Command) := do
  let objective ← here loops (Compile.ofExcept (args.text "objective"))
  let criteria ← here loops (Compile.ofExcept (args.text "criteria"))
  let handler ← here loops (Compile.ofExcept (args.arrow "handler"))
  noting loops [.awaited objective criteria] (Compile.modifyPack (·.declare objective criteria))
  let commands ← body block loops handler
  let path ← here loops (Compile.registerNext .onEvent (commands ++ [Command.reset ⟨"@s", objective⟩]))
  here loops (Compile.debug ("allocated " ++ path.text ++ " for '" ++ objective ++ "' events"))
  let hook ← here loops (Compile.call path)
  here loops (Compile.modifyPack (·.extendTick [.forPlayers objective hook]))
  return []

/-- The expansion of a call whose arguments are bound. -/
def expand (b : Builtin) (target : Option Score) (args : Bindings) : Traced (List Command) :=
  match b, target with
  | .mathSqrt, some target => here loops (Compile.sqrt args target)
  | .mathRandom, some target => here loops (Compile.random args target)
  | .scoreboardAdd, none => addObjective loops args
  | .playerOnEvent, none => onEvent block loops args
  | .particleCircle, none => here loops (Compile.circle args)
  | .textTellraw, none => here loops (Compile.tellraw args)
  | _, _ => here loops (Compile.fail { cause := .wrongArity b.name })

/-- A call of a built-in function; its arguments are read with the renamings of the loops. -/
def builtin (b : Builtin) (name : Token) (rest : List Token) (target : Option Score) :
    Traced (List Command) :=
  match rest with
  | [group] => do
    match b.returnsValue, target with
    | true, none => here loops (Compile.failAt name (.mustBeAssigned b.name b.signature))
    | false, some _ => here loops (Compile.failAt name (.returnsNothing b.name))
    | _, _ =>
      let arguments ← here loops (Compile.ofNoting (Arguments.parse group))
      let args ← here loops (Compile.ofExcept (b.bind (scopeOf loops) arguments))
      here loops (Compile.debug ("expanding " ++ b.name))
      expand block loops b target args
  | _ => here loops (Compile.failAt name (.builtinShape b.signature))

/-! ### Variable statements -/

/-- An assignment to a score. -/
def assignment (target : Score) (targetToken : Token) (right : List Token) :
    Traced (List Command) := do
  match right with
  | [] => here loops (Compile.failAt targetToken (.expectedValue Operator.assign.symbol))
  | first :: rest =>
    if Compile.isValueToken (scopeOf loops) first then
      match ← here loops (Compile.operand .assign targetToken right) with
      | (_, .int n) => return [.set target n]
      | (_, .score s) => return [.operate target .assign s]
    else
      match Compile.leadingOperator? first with
      | some o => here loops (Compile.secondOperator first [] o)
      | none =>
        match (Statement.mk right).kind with
        | .builtin b => builtin block loops b first rest (some target)
        | .call => return [.store target (← here loops (Compile.functionCall first rest))]
        | _ => return [.store target (.written (joinTokens right))]

/-- An operator and its right side. -/
def operation (a : Assignment) : Traced (List Command) := do
  let target ← here loops (Compile.score a.target.text a.target)
  match a.operator with
  | .increment | .decrement =>
    match a.right with
    | extra :: _ => here loops (Compile.failAt extra (.afterStep extra.text a.operator.symbol))
    | [] => return [if a.operator = .increment then .add target 1 else .remove target 1]
  | .assign => assignment block loops target a.target a.right
  | .copyTo =>
    match ← here loops (Compile.operand a.operator a.target a.right) with
    | (_, .score s) => return [.operate s .assign target]
    | (t, .int _) => here loops (Compile.failAt t (.needsScore a.operator.symbol))
  | .swap =>
    match ← here loops (Compile.operand a.operator a.target a.right) with
    | (_, .score s) => return [.operate target .swap s]
    | (t, .int _) => here loops (Compile.failAt t (.needsScore a.operator.symbol))
  | .add | .subtract =>
    let (_, value) ← here loops (Compile.operand a.operator a.target a.right)
    return [← here loops (Compile.addition target a.operator value)]
  | _ =>
    let (_, value) ← here loops (Compile.operand a.operator a.target a.right)
    return [.operate target a.operator.operation (← here loops (Compile.operandScore value))]

/-- The tokens of a variable statement, without a leading `let`. -/
def plainVariable (first : Token) (rest : List Token) : Traced (List Command) := do
  let other : Traced (List Command) :=
    match Assignment.ofTokens? (first :: rest) with
    | some a => operation block loops a
    | none => here loops (Compile.failAt first (.expectedOperator first.text))
  match rest with
  | [group] =>
    if group.isGroup .round then
      match Compile.getHolder? first with
      | some holder => here loops (Compile.getStatement holder first group)
      | none => other
    else other
  | _ => other

/-- A variable statement. -/
def variableChange (first : Token) (rest : List Token) : Traced (List Command) :=
  if first.isWord "let" then
    match rest with
    | [] => here loops (Compile.failAt first .variableAfterLet)
    | name :: rest => plainVariable block loops name rest
  else plainVariable block loops first rest

/-! ### Definitions -/

/-- A function definition. -/
def functionDefinition (level : Except Cause FunctionPath) (keyword : Token) (rest : List Token) :
    Traced Unit := do
  let head ← here loops (Compile.ofExcept (functionHead level keyword rest))
  here loops (Compile.checkPath head)
  here loops (Compile.debug ("defining function " ++ head.path.text))
  let commands ← body block loops head.body
  here loops do
    if head.path = tickPath then
      modify fun s => { s with tickDefined := true, pack := s.pack.extendTick commands }
    else
      match (← get).pack.addFunction head.path commands with
      | .ok pack => modify fun s => { s with pack }
      | .error cause => Compile.failAt head.name cause

/-- The functions of a class. -/
def classFunctions (path : FunctionPath) : List Statement → Traced Unit
  | [] => return
  | s :: rest => do
    match s.tokens with
    | [] => pure ()
    | first :: tokens =>
      here loops (Compile.ofExcept ((Level.inClass path).check s.kind first))
      functionDefinition block loops (.ok path) first tokens
    classFunctions path rest

/-- A class. -/
def classDefinition (keyword : Token) (rest : List Token) : Traced Unit := do
  let (path, braces) ← here loops (Compile.ofExcept (classHead keyword rest))
  let statements ← here loops (Compile.tokenizeInner .required braces)
  classFunctions block loops path statements

/-! ### Blocks -/

/-- One statement. -/
def statement (level : Level) (kind : StatementKind) (first : Token) (rest : List Token) :
    Traced (List Command) :=
  match kind with
  | .function => do
    functionDefinition block loops level.functions first rest
    return []
  | .classDefinition => do
    classDefinition block loops first rest
    return []
  | .importFile => here loops (Compile.failAt first (.onlyAtTopLevel first.text))
  | .newResource => do
    here loops (Compile.newResource first rest)
    return []
  | .ifBranch => chain block loops first rest []
  | .elseBranch => here loops (Compile.failAt first .elseWithoutIf)
  | .whileLoop => whileLoop block loops first rest
  | .doLoop => doWhile block loops first rest none
  | .forLoop => forLoop block loops first rest
  | .switch => switch block loops first rest
  | .caseLabel => here loops (Compile.failAt first .caseOutsideSwitch)
  | .breakCase => here loops (Compile.failAt first .breakOutsideSwitch)
  | .variableChange => variableChange block loops first rest
  | .builtin b => builtin block loops b first rest none
  | .call => do return [← here loops (Compile.functionCall first rest)]
  | .vanilla => return [.written (joinTokens (first :: rest))]

/-- A statement that may stand at a level, given how. -/
def atLevel (level : Level) (s : Statement)
    (compile : Token → List Token → Traced (List Command)) : Traced (List Command) :=
  match s.tokens with
  | [] => return []
  | first :: rest => do
    here loops (Compile.ofExcept (level.check s.kind first))
    compile first rest

/-- A construct at a level. -/
def construct (level : Level) : Construct → Traced (List Command)
  | .chain s elses => atLevel loops level s fun first rest => chain block loops first rest elses
  | .doWhile s tail => atLevel loops level s fun first rest => doWhile block loops first rest tail
  | .single s => atLevel loops level s (statement block loops level s.kind)

/-- Constructs one after the other. -/
def bodyConstructs : List Construct → Traced (List Command)
  | [] => return []
  | c :: rest => do
    let commands ← construct block loops .body c
    return commands ++ (← bodyConstructs rest)

end

/-- The statements of a body, with at most `depth` bodies inside one another. -/
def block : Nat → Block
  | 0, loops, _ => here loops (throw .exhausted)
  | depth + 1, loops, statements => bodyConstructs (block depth) loops (constructs statements)

/-! ### Files -/

/-- How a file is imported, given its path and where the import stands. -/
abbrev Importer := File.Path → Option Position → Traced Unit

/-- The constructs of the top level, around which there is no loop. -/
def topConstructs (inner : Block) (importer : Importer) (out : List Command) :
    List Construct → Traced (List Command)
  | [] => return out
  | c :: rest =>
    match c.import? with
    | some (keyword, tokens) => do
      let target ← here [] (Compile.ofExcept (importTarget keyword tokens))
      here [] (Compile.modifyPack (·.extendLoad out))
      let s ← here [] get
      importer (s.settings.importPath target.value) (some target.position)
      topConstructs inner importer [] rest
    | none => do
      let commands ← construct inner [] .top c
      topConstructs inner importer (out ++ commands) rest

/-- The text of a file. -/
def topLevel (importer : Importer) (text : String) : Traced Unit := do
  let statements ← here [] (Compile.tokenize .required Position.start text)
  let out ← topConstructs (block (Compile.maxNesting text)) importer [] (constructs statements)
  here [] (Compile.modifyPack (·.extendLoad out))

/-- A file, which is named in the warnings and the fault that come from it. -/
def source (importer : Importer) (name text : String) : Traced Unit := fun s =>
  let ((result, after), events) :=
    topLevel importer text { s with log := s.log ++ [⟨.debug, "compiling " ++ name⟩] }
  let known := s.warnings.length
  let warnings := after.warnings.take known ++ (after.warnings.drop known).map (·.inFile name text)
  ((result.mapError (Compile.inFile name text), { after with warnings }), events)

/-- A file by its path, given how to compile a text. -/
def importWith (files : File.Tree) (compile : String → String → Traced Unit) : Importer :=
  fun path position s =>
    match files.read path with
    | .error problem =>
      here [] (Compile.fail ⟨.unreadable path.text problem, position.map Position.location⟩) s
    | .ok (place, text) =>
      if s.imported.contains place then
        here [] (Compile.debug ("'" ++ path.text ++ "' already compiled, skipping")) s
      else
        compile (s.settings.displayName path) text { s with imported := s.imported ++ [place] }

/-- A file by its path, with at most `depth` files inside one another. -/
def importWithin (files : File.Tree) : Nat → Importer
  | 0 => importWith files fun _ _ => here [] (throw .exhausted)
  | depth + 1 => importWith files (source (importWithin files depth))

/-- A file by its path. -/
def importFile (files : File.Tree) : Importer := importWithin files (files.nodes.length + 1)

/-- A step of a session. -/
def step (t : Traced Unit) : Traced Unit := fun s =>
  match validateSpace s.settings.space with
  | .ok _ => (((t s).1.1, Compile.flushWarnings (t s).1.2), (t s).2)
  | .error f => ((.error (.fault f), s), [])

end Traced

/-- The step of the task, with a record of it. -/
def Task.traced : Task → Traced Unit
  | .text files name source => Traced.step (Traced.source (Traced.importFile files) name source)
  | .file files path => Traced.step (Traced.importFile files path none)
  | .entry files => fun s => Traced.step (Traced.importFile files s.settings.entryPath none) s

/-- The record of tasks, each of which may fail. -/
def Session.trace (s : Session) : List Task → List Event
  | [] => []
  | t :: rest => (t.traced s).2 ++ (s.next t).trace rest

end Packwright
