import Packwright.Pack.Registry

/-!
# Packs

A pack is everything one compilation produces: objectives and constants that the load function sets
up, the user's functions, the generated functions, and JSON resources.

## Main definitions

- `Pack`, `Pack.empty` — a pack, and the one a compilation starts from
- `Pack.declare`, `Pack.registerConstant` — objectives and constants
- `Pack.addFunction`, `Pack.extendLoad`, `Pack.extendTick` — functions
- `Pack.addResource` — JSON resources
- `Pack.loadCommands` — the whole load function: set-up, then the user's commands
-/

namespace Packwright

/-- The path of the function run at load. -/
def loadPath : FunctionPath := ⟨"__load__"⟩

/-- The path of the function run every tick. -/
def tickPath : FunctionPath := ⟨"__tick__"⟩

/-- A declared objective. -/
structure Objective where
  name : String
  criteria : String
  deriving DecidableEq, Repr, Inhabited

/-- Kind and path of a JSON resource. -/
structure ResourceKey where
  kind : String
  path : String
  deriving DecidableEq, Repr, Inhabited

/-- Everything one compilation produces. Functions, constants and resources are kept in the order in
which they were added. -/
structure Pack where
  space : String
  objectives : List Objective := []
  constants : List Int := []
  functions : List PackFunction := []
  generated : Registry := {}
  resources : List (ResourceKey × String) := []
  deriving DecidableEq, Repr, Inhabited

namespace Pack

/-- Whether an objective is declared. -/
def isDeclared (p : Pack) (name : String) : Bool := p.objectives.any (·.name = name)

/-- Declares an objective unless one of that name is declared. -/
def declare (p : Pack) (name criteria : String) : Pack :=
  if p.isDeclared name then p else { p with objectives := p.objectives ++ [⟨name, criteria⟩] }

/-- A pack with the variable objective and an empty load function. -/
def empty (space : String) : Pack :=
  ({ space, functions := [⟨loadPath, []⟩] } : Pack).declare variableObjective "dummy"

/-- Registers an integer that needs a constant score. The first one declares the objective of
constants. -/
def registerConstant (p : Pack) (n : Int) : Pack :=
  let p := if p.constants.isEmpty then p.declare constantObjective "dummy" else p
  if p.constants.contains n then p else { p with constants := p.constants ++ [n] }

/-- Looks up a user function. -/
def function? (p : Pack) (path : FunctionPath) : Option PackFunction :=
  p.functions.find? (·.path = path)

/-- Whether there is a user function at a path. -/
def hasFunction (p : Pack) (path : FunctionPath) : Bool := (p.function? path).isSome

/-- Adds a user function at a path that is free. -/
def addFunction (p : Pack) (path : FunctionPath) (commands : List Command) : Except Cause Pack :=
  if p.hasFunction path then .error (.functionDefined path.text)
  else .ok { p with functions := p.functions ++ [⟨path, commands⟩] }

/-- Changes the user function at a path. -/
def updateFunction (p : Pack) (path : FunctionPath) (f : PackFunction → PackFunction) : Pack :=
  { p with functions := p.functions.map fun fn => if fn.path = path then f fn else fn }

/-- Appends commands to the function at a path, which is made if it is not there. -/
def extendFunction (p : Pack) (path : FunctionPath) (commands : List Command) : Pack :=
  if p.hasFunction path then p.updateFunction path (·.extend commands)
  else { p with functions := p.functions ++ [⟨path, commands⟩] }

/-- Appends commands to the load function. -/
def extendLoad (p : Pack) (commands : List Command) : Pack := p.extendFunction loadPath commands

/-- Appends commands to the tick function. -/
def extendTick (p : Pack) (commands : List Command) : Pack := p.extendFunction tickPath commands

/-- The function run every tick. -/
def tick? (p : Pack) : Option PackFunction := p.function? tickPath

/-- Adds a JSON resource under a key that is free. -/
def addResource (p : Pack) (kind path json : String) : Except Cause Pack :=
  let key : ResourceKey := ⟨kind, path⟩
  if p.resources.any (·.1 = key) then .error (.resourceDefined kind path)
  else .ok { p with resources := p.resources ++ [(key, json)] }

/-- The constants in ascending order. -/
def sortedConstants (p : Pack) : List Int := p.constants.mergeSort (· ≤ ·)

/-- The user functions in the order of their paths. -/
def sortedFunctions (p : Pack) : List PackFunction :=
  p.functions.mergeSort fun f g => !(g.path.text < f.path.text)

/-- The resources in the order of their kinds, then paths. -/
def sortedResources (p : Pack) : List (ResourceKey × String) :=
  p.resources.mergeSort fun a b => Registry.keyLe (a.1.kind, a.1.path) (b.1.kind, b.1.path)

/-- The commands that set up objectives and constants. -/
def setupCommands (p : Pack) : List Command :=
  p.objectives.map (fun o => Command.declare o.name o.criteria) ++
    p.sortedConstants.map fun n => Command.set (.ofConstant n) n

/-- The user's part of the load function. -/
def userLoad (p : Pack) : List Command := ((p.function? loadPath).map PackFunction.commands).getD []

/-- The whole load function: set-up, then the user's commands. -/
def loadCommands (p : Pack) : List Command := p.setupCommands ++ p.userLoad

/-- Number of set-up lines at the top of the load function. -/
def setupLength (p : Pack) : Nat := p.objectives.length + p.constants.length

/-- Every function that is written, the generated ones last. -/
def allFunctions (p : Pack) : List PackFunction := p.sortedFunctions ++ p.generated.inOrder

/-- The command that calls a function of this pack. -/
def call (p : Pack) (path : FunctionPath) : Command := .call (path.inSpace p.space)

end Pack

end Packwright
