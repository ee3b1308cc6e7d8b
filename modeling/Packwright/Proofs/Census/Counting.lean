import Mathlib.Algebra.BigOperators.Group.Multiset.Basic
import Packwright.Proofs.PrivateCalls
import Packwright.Proofs.Session.Cases

/-!
# Counting what a source generates

How many commands a part of a source becomes, and what it asks to be generated, can be told from its
text. Only statements are read here, nothing is compiled: a loop, a handler and each arm of a chain ask
for a function, a switch asks for those of its cases and of the ranges above them, and a square root for
its two functions, whoever asks first. What cannot be read counts for nothing.

## Main definitions

- `Item`, `Item.names` — what is asked for, and the names it gets with a number
- `Item.generated` — the names of a family, from the number on that is free
- `Census` — the commands of a part of a source, and the items in the order of their numbers
- `Census.ofArms` — a chain of `if` and `else`, from what its arms become
- `Census.block`, `Census.importWithin` — bodies and files
- `Task.census`, `Task.items` — all that a task asks for
-/

namespace Packwright

/-! ### Items -/

/-- What a source asks to be generated. -/
inductive Item where
  | arm
  | whileLoop
  | doWhile
  | forLoop
  | handler
  /-- A switch over so many labels, from the given one on. -/
  | switch (low : Int) (count : Nat)
  | root
  deriving DecidableEq, Repr, Inhabited

/-- The ranges of more than one label in a tree, each behind those inside it. -/
def Dispatch.nodes : Dispatch → List Dispatch
  | .leaf _ => []
  | .node low high left right => left.nodes ++ right.nodes ++ [.node low high left right]

/-- The names that a switch registers under its number: those of its cases, then those of the ranges
below the whole one. -/
def switchNames (id : Nat) (low : Int) (count : Nat) : List String :=
  (labelsFrom low count).map (fun label => toString id ++ "/" ++ toString label) ++
    ((dispatchTree low count).parts.flatMap Dispatch.nodes).map fun d => toString id ++ "/" ++ d.name

/-- Families whose functions are named by numbers, that is all but those without any numbers or
without functions. -/
def Feature.isNumbered : Feature → Bool
  | .mathSqrt | .logic => false
  | _ => true

namespace Item

/-- The family that the item belongs to. -/
def feature : Item → Feature
  | arm => .ifElse
  | whileLoop => .whileLoop
  | doWhile => .doWhileLoop
  | forLoop => .forLoop
  | handler => .onEvent
  | switch .. => .switchCase
  | root => .mathSqrt

/-- The names that are registered for the item under its number. -/
def names (id : Nat) : Item → Multiset String
  | switch low count => switchNames id low count
  | root => 0
  | _ => {toString id}

/-- The items of a family. -/
def ofFamily (f : Feature) (items : List Item) : List Item := items.filter fun i => i.feature = f

/-- The names of a family, when the items get their numbers in order from the given one on. -/
def generated (f : Feature) (items : List Item) (first : Nat) : Multiset String :=
  (((ofFamily f items).zipIdx first).map fun numbered => numbered.1.names numbered.2).sum

end Item

/-! ### Commands of conditions -/

namespace Condition

mutual

/-- How many commands prepare the flags of a condition: one for each disjunction, and one for each
part of it. -/
def preparations : Condition → Nat
  | .leaf _ => 0
  | .all body => preparationsAll body
  | .not body => preparations body
  | .any body => preparationsAny body + 1

/-- Those of the parts of a conjunction. -/
def preparationsAll : List Condition → Nat
  | [] => 0
  | c :: rest => preparations c + preparationsAll rest

/-- Those of the parts of a disjunction. -/
def preparationsAny : List Condition → Nat
  | [] => 0
  | c :: rest => preparations c + 1 + preparationsAny rest

end

end Condition

/-! ### Statements -/

/-- What a part of a source becomes: how many commands, and what is generated for it. -/
structure Census where
  commands : Nat := 0
  items : List Item := []
  deriving DecidableEq, Repr, Inhabited

/-- An arm of a chain: how many commands prepare its condition, if it has one, and how many its body
has. -/
structure Arm where
  preparations : Option Nat := none
  commands : Nat := 0
  deriving DecidableEq, Repr, Inhabited

namespace Census

/-- Goes on with what was read. -/
def reading {ε α β : Type} [Inhabited β] (x : Except ε α) (count : α → β) : β :=
  match x with
  | .ok a => count a
  | .error _ => default

/-- Goes on with what a reader gives, whatever it warns about. -/
def noting {α β : Type} [Inhabited β] (m : Noting α) (count : α → β) : β :=
  reading (m.run.run []).1 count

/-- How the statements of a body are counted. -/
abbrev Counter := List Statement → Census

/-- A body in braces. -/
def body (block : Counter) (t : Token) : Census :=
  reading (t.tokenizeInner .required) fun r => block r.statements

/-- The commands that prepare the condition in a round group. -/
def preparations (group : Token) : Nat := noting (Condition.parse group) Condition.preparations

/-! Chains of `if` and `else`. -/

/-- The arm of an `if`, with what its body asks for. -/
def ifArm (block : Counter) (keyword : Token) (rest : List Token) : Arm × List Item :=
  reading (headAndBody keyword rest) fun parts =>
    (⟨some (preparations parts.1), (body block parts.2).commands⟩, (body block parts.2).items)

/-- The arm of an `else`. -/
def elseArm (block : Counter) : List Token → Arm × List Item
  | [] => default
  | next :: more =>
    if more.isEmpty && next.isGroup .curly then
      (⟨none, (body block next).commands⟩, (body block next).items)
    else ifArm block next more

/-- The arms of the `else` statements of a chain. -/
def elseArms (block : Counter) : List Statement → List (Arm × List Item)
  | [] => []
  | s :: rest =>
    match s.tokens with
    | [] => elseArms block rest
    | _ :: tokens => elseArm block tokens :: elseArms block rest

/-- Drops a final `else` without commands. -/
def dropEmptyElse (arms : List Arm) : List Arm :=
  match arms.getLast? with
  | some ⟨none, 0⟩ => if 1 < arms.length then arms.dropLast else arms
  | _ => arms

/-- A single arm needs a function for a body of more than one command. -/
def singleArm (preparations : Nat) : Nat → Census
  | 0 => {}
  | 1 => ⟨preparations + 1, []⟩
  | _ => ⟨preparations + 1, [.arm]⟩

/-- What a chain adds to the bodies of its arms. Without an empty final `else`, a single arm that is
left may need a function; of several arms each one does. -/
def ofArms (arms : List Arm) : Census :=
  match dropEmptyElse arms with
  | [⟨some preparations, commands⟩] => singleArm preparations commands
  | arms => ⟨(arms.map fun arm => arm.preparations.getD 0 + 1).sum + 1,
      List.replicate arms.length .arm⟩

/-- An `if` with the `else` statements behind it. -/
def chain (block : Counter) (keyword : Token) (rest : List Token) (elses : List Statement) : Census :=
  let arms := ifArm block keyword rest :: elseArms block elses
  ⟨(ofArms (arms.map Prod.fst)).commands, arms.flatMap Prod.snd ++ (ofArms (arms.map Prod.fst)).items⟩

/-! Loops and switches. -/

def whileLoop (block : Counter) (keyword : Token) (rest : List Token) : Census :=
  reading (headAndBody keyword rest) fun parts =>
    ⟨preparations parts.1 + 1, .whileLoop :: (body block parts.2).items⟩

/-- The `while` behind a `do` is no loop of its own. -/
def doWhile (block : Counter) : List Token → Census
  | [braces] => ⟨1, .doWhile :: (body block braces).items⟩
  | _ => {}

/-- The parts of a `for`. -/
def forParts (block : Counter) (init test step : Statement) (head braces : Token) : Census :=
  ⟨(block [init]).commands +
      (noting (Condition.parseTokens head.position test.tokens) Condition.preparations + 1),
    .forLoop :: ((block [init]).items ++ ((block [step]).items ++ (body block braces).items))⟩

def forLoop (block : Counter) (keyword : Token) (rest : List Token) : Census :=
  reading (headAndBody keyword rest) fun parts =>
    reading (parts.1.tokenizeInner .optional) fun r =>
      match r.statements with
      | [init, test, step] => forParts block init test step parts.1 parts.2
      | _ => {}

/-- The cases of a switch have labels that follow one another. The tests for the whole range stand
where the switch stands: one for a single case, and else one for each half. -/
def ofCases (block : Counter) (cases : List Case) : Census :=
  match cases.head? with
  | none => {}
  | some first =>
    ⟨min cases.length 2, .switch first.label cases.length ::
      cases.flatMap fun c => (block c.withoutBreaks.statements).items⟩

def switch (block : Counter) : List Token → Census
  | [_, braces] =>
    reading (braces.tokenizeInner .required) fun r =>
      reading (r.statements.foldlM addCaseStatement []) (ofCases block)
  | _ => {}

/-! Calls and variables. -/

/-- Goes on with the values of a call that takes no scores. -/
def binding (b : Builtin) (rest : List Token) (count : Bindings → Census) : Census :=
  match rest with
  | [group] => noting (Arguments.parse group) fun args => reading (b.bind {} args) count
  | _ => {}

/-- A call of a built-in function. -/
def builtin (block : Counter) (b : Builtin) (rest : List Token) : Census :=
  match b with
  | .mathSqrt => ⟨5, [.root]⟩
  | .mathRandom | .textTellraw => ⟨1, []⟩
  | .scoreboardAdd => {}
  | .playerOnEvent => binding b rest fun args => reading (args.arrow "handler") fun handler =>
      ⟨0, (body block handler).items ++ [.handler]⟩
  | .particleCircle => binding b rest fun args => reading (args.int "spread") fun spread =>
      ⟨spread.toNat, []⟩

/-- The right side of an assignment: only a call of a built-in function is more than one command. -/
def assignment (block : Counter) (right : List Token) : Census :=
  match right with
  | [] => {}
  | first :: rest =>
    if Compile.isValueToken {} first then ⟨1, []⟩
    else
      match (Statement.mk right).kind with
      | .builtin b => builtin block b rest
      | _ => ⟨1, []⟩

/-- An operator and its right side. -/
def operation (block : Counter) (a : Assignment) : Census :=
  match a.operator with
  | .assign => assignment block a.right
  | _ => ⟨1, []⟩

/-- Whether the tokens are `score.get()`. -/
def isGet (first : Token) : List Token → Bool
  | [group] => group.isGroup .round && (Compile.getHolder? first).isSome
  | _ => false

def plainVariable (block : Counter) (first : Token) (rest : List Token) : Census :=
  if isGet first rest then ⟨1, []⟩
  else
    match Assignment.ofTokens? (first :: rest) with
    | some a => operation block a
    | none => {}

/-- A variable statement. -/
def variableChange (block : Counter) (first : Token) (rest : List Token) : Census :=
  if first.isWord "let" then
    match rest with
    | [] => {}
    | name :: rest => plainVariable block name rest
  else plainVariable block first rest

/-! Definitions and blocks. -/

def functionDefinition (block : Counter) (level : Except Cause FunctionPath) (keyword : Token)
    (rest : List Token) : List Item :=
  reading (functionHead level keyword rest) fun head => (body block head.body).items

/-- The functions of a class. -/
def classFunctions (block : Counter) (path : FunctionPath) : List Statement → List Item
  | [] => []
  | s :: rest =>
    match s.tokens with
    | [] => classFunctions block path rest
    | first :: tokens =>
      functionDefinition block (.ok path) first tokens ++ classFunctions block path rest

def classDefinition (block : Counter) (keyword : Token) (rest : List Token) : List Item :=
  reading (classHead keyword rest) fun parts =>
    reading (parts.2.tokenizeInner .required) fun r => classFunctions block parts.1 r.statements

/-- One statement. -/
def statement (block : Counter) (level : Level) (kind : StatementKind) (first : Token)
    (rest : List Token) : Census :=
  match kind with
  | .function => ⟨0, functionDefinition block level.functions first rest⟩
  | .classDefinition => ⟨0, classDefinition block first rest⟩
  | .ifBranch => chain block first rest []
  | .whileLoop => whileLoop block first rest
  | .doLoop => doWhile block rest
  | .forLoop => forLoop block first rest
  | .switch => switch block rest
  | .variableChange => variableChange block first rest
  | .builtin b => builtin block b rest
  | .call | .vanilla => ⟨1, []⟩
  | _ => {}

/-- The tokens of a statement, given how. -/
def ofTokens (s : Statement) (count : Token → List Token → Census) : Census :=
  match s.tokens with
  | [] => {}
  | first :: rest => count first rest

/-- A construct at a level. -/
def construct (block : Counter) (level : Level) : Construct → Census
  | .chain s elses => ofTokens s fun first rest => chain block first rest elses
  | .doWhile s _ => ofTokens s fun _ rest => doWhile block rest
  | .single s => ofTokens s (statement block level s.kind)

/-- Constructs one after the other. -/
def constructs (block : Counter) : List Construct → Census
  | [] => {}
  | c :: rest =>
    ⟨(construct block .body c).commands + (constructs block rest).commands,
      (construct block .body c).items ++ (constructs block rest).items⟩

/-- The statements of a body, with at most so many bodies inside one another. -/
def block : Nat → Counter
  | 0, _ => {}
  | depth + 1, statements => constructs (block depth) (Packwright.constructs statements)

/-! Files. -/

/-- What is asked for behind some files, and the files that were begun then. -/
abbrev Files := List File.Place → List Item × List File.Place

/-- Items that are asked for without any file. -/
def Files.only (items : List Item) : Files := fun begun => (items, begun)

/-- One part behind another, which finds the files of that one begun. -/
def Files.append (first second : Files) : Files := fun begun =>
  ((first begun).1 ++ (second (first begun).2).1, (second (first begun).2).2)

/-- The constructs of the top level. -/
def topConstructs (settings : Settings) (block : Counter) (importer : File.Path → Files) :
    List Construct → Files
  | [] => .only []
  | c :: rest =>
    let later := topConstructs settings block importer rest
    match c.import? with
    | some (keyword, tokens) =>
      reading (importTarget keyword tokens) fun target =>
        .append (importer (settings.importPath target.value)) later
    | none => .append (.only (construct block .top c).items) later

/-- The text of a file. -/
def topLevel (settings : Settings) (importer : File.Path → Files) (text : String) : Files :=
  reading (tokenize .required Position.start text) fun r =>
    topConstructs settings (block (Compile.maxNesting text)) importer
      (Packwright.constructs r.statements)

/-- A file by its path, given how to count a text. A file that was begun before is left out. -/
def importWith (files : File.Tree) (count : String → Files) (path : File.Path) : Files :=
  reading (files.read path) fun found begun =>
    if begun.contains found.1 then ([], begun) else count found.2 (begun ++ [found.1])

/-- A file by its path, with at most so many files inside one another. -/
def importWithin (settings : Settings) (files : File.Tree) : Nat → File.Path → Files
  | 0 => importWith files fun _ => .only []
  | depth + 1 => importWith files (topLevel settings (importWithin settings files depth))

end Census

namespace Task

/-- What a task asks for, in the order of the numbers, and the files that it begins. -/
def census (settings : Settings) (t : Task) : Census.Files :=
  let importer := Census.importWithin settings t.files (t.files.nodes.length + 1)
  match t with
  | .text _ _ source => Census.topLevel settings importer source
  | .file _ path => importer path
  | .entry _ => importer settings.entryPath

/-- What a task asks for when no file was begun before. -/
def items (settings : Settings) (t : Task) : List Item := (t.census settings []).1

end Task

end Packwright
