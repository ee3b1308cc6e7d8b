import Packwright.Session.Basic
import Packwright.Token.Classification

/-!
# Definitions

Functions, classes and JSON resources. A class only puts its name in front of the names of its
functions.

## Main definitions

- `FunctionHead`, `functionHead` — the parts of a function definition
- `Compile.functionDefinition` — a function
- `Resource`, `resourceHead` — the parts of a resource
- `Compile.newResource` — a resource
- `classHead` — the name and body of a class
-/

namespace Packwright

/-- The parts of a function definition. -/
structure FunctionHead where
  name : Token
  path : FunctionPath
  body : Token
  deriving DecidableEq, Repr, Inhabited

/-- A dotted name at a token. -/
def functionName? (t : Token) : Option String := t.word?.filter isFunctionName

/-- Reads `function name() { ... }`; `level` says whether a function may be defined here, and
behind which path. -/
def functionHead (level : Except Cause FunctionPath) (keyword : Token) (rest : List Token) :
    Except Fault FunctionHead :=
  match rest with
  | [name, params, body] =>
    match level with
    | .error cause => .error (keyword.fault cause)
    | .ok above =>
      match functionName? name with
      | none => .error (name.fault (.invalidFunctionName name.text))
      | some text =>
        if !params.isGroup .round then .error (params.fault .expectedParameters)
        else if !params.innerBlank then .error (params.fault .functionParameters)
        else if !body.isGroup .curly then .error (body.fault .expectedFunctionBody)
        else .ok ⟨name, above.under (.ofName text), body⟩
  | _ => .error (keyword.fault .functionShape)

/-- The name and the body of `class name { ... }`. -/
def classHead (keyword : Token) (rest : List Token) : Except Fault (FunctionPath × Token) :=
  match rest with
  | [name, body] =>
    match functionName? name with
    | none => .error (name.fault (.invalidClassName name.text))
    | some text =>
      if !body.isGroup .curly then .error (body.fault .expectedClassBody)
      else .ok (.ofName text, body)
  | _ => .error (keyword.fault .classShape)

/-- The parts of a resource. -/
structure ResourceHead where
  kind : String
  path : String
  pathToken : Token
  body : Token
  deriving DecidableEq, Repr, Inhabited

/-- Characters of the kind of a resource. -/
def isResourceKindChar (c : Char) : Bool := c.isLower || c = '_' || c = '/'

/-- The path of a resource: what stands in the round group, without blanks and quotes around it, in
lower case. -/
def resourcePath? (t : Token) : Option String :=
  if t.isGroup .round then
    let isQuote := fun c : Char => decide (c = '"')
    let cs := (Text.trimList (t.inner?.getD "").toList).dropWhile isQuote
    let cs := Text.lowercase (cs.reverse.dropWhile isQuote).reverse
    if cs.isEmpty then none else some (String.ofList cs)
  else none

/-- Reads `new kind(path) { json }`. -/
def resourceHead (keyword : Token) (rest : List Token) : Except Fault ResourceHead :=
  match rest with
  | [kind, path, body] =>
    match kind.word?.filter fun k => k.toList.all isResourceKindChar with
    | none => .error (kind.fault (.invalidResourceKind kind.text))
    | some kindText =>
      match resourcePath? path with
      | none => .error (path.fault .expectedResourcePath)
      | some pathText =>
        if !body.isGroup .curly then .error (body.fault .expectedJson)
        else .ok ⟨kindText, pathText, path, body⟩
  | _ => .error (keyword.fault .resourceShape)

/-- Where a mistake in the JSON text of a token is reported: its line and its byte column, counted
from the token. -/
def jsonPosition (body : Token) (r : Json.Report) : Position :=
  let line := max r.line 1
  let column := max r.column 1
  if line = 1 then body.position.right (column - 1)
  else ⟨body.position.line + (line - 1).toUInt32, column.toUInt32⟩

namespace Compile

/-- Checks that the path of a new function is free, with a warning for a path among the generated
functions. -/
def checkPath (head : FunctionHead) : Compile Unit := do
  let s ← get
  if head.path = loadPath then failAt head.name (.reservedLoad loadPath.text)
  else
    let taken := if head.path = tickPath then s.tickDefined else s.pack.hasFunction head.path
    if taken then failAt head.name (.functionDefined head.path.text)
    else if head.path.isPrivate then
      warn (.privateFunction head.path.text) head.name.position

/-- Compiles a function definition. -/
def functionDefinition (block : Block) (level : Except Cause FunctionPath) (keyword : Token)
    (rest : List Token) : Compile Unit := do
  let head ← ofExcept (functionHead level keyword rest)
  checkPath head
  debug ("defining function " ++ head.path.text)
  let commands ← body block head.body
  if head.path = tickPath then
    modify fun s => { s with tickDefined := true, pack := s.pack.extendTick commands }
  else
    match (← get).pack.addFunction head.path commands with
    | .ok pack => modify fun s => { s with pack }
    | .error cause => failAt head.name cause

/-- Compiles a JSON resource. -/
def newResource (keyword : Token) (rest : List Token) : Compile Unit := do
  let head ← ofExcept (resourceHead keyword rest)
  let s ← get
  match s.settings.codec.decode head.body.text with
  | .error r =>
    fail (.located (.invalidJson head.kind head.path r.text) (jsonPosition head.body r))
  | .ok value =>
    match (← get).pack.addResource head.kind head.path (s.settings.codec.pretty value) with
    | .ok pack => modify fun s => { s with pack }
    | .error cause => failAt head.pathToken cause

end Compile

end Packwright
