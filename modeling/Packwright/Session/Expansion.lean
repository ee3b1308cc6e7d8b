import Packwright.Builtin.Binding
import Packwright.Builtin.Circle
import Packwright.Session.Basic

/-!
# Expansion of built-in functions

Each call of a built-in function becomes commands, and some also declare objectives or register
functions. The square root runs Newton's method from above until the estimate no longer falls.

## Main definitions

- `Compile.sqrt`, `Compile.random`, `Compile.addObjective`, `Compile.onEvent`, `Compile.circle`,
  `Compile.tellraw` — the expansions
- `Compile.builtin` — checks a call, binds its arguments and expands it
-/

namespace Packwright

namespace Sqrt

/-- The number whose root is sought. -/
def number : Score := .ofVariable "__math__.N"

/-- The new estimate. -/
def estimate : Score := .ofVariable "__math__.x"

/-- The last estimate. -/
def previous : Score := .ofVariable "__math__.x_n"

/-- The name of the function that begins a round. -/
def mainName : String := "main"

/-- The name of the function that computes a new estimate. -/
def stepName : String := "newton_raphson"

/-- The commands that begin a round: the estimate becomes the last one. -/
def mainBody (callStep : Command) : List Command :=
  [.operate previous .assign estimate, callStep]

/-- The commands that compute a new estimate, and begin another round while it falls. -/
def stepBody (callMain : Command) : List Command :=
  [.operate estimate .assign number, .operate estimate .divide previous,
    .operate estimate .add previous, .operate estimate .divide (.ofConstant 2),
    .guarded [⟨false, .compare estimate .lt previous⟩] callMain]

/-- The commands of one call: they set the number, run the rounds and keep the result. -/
def useBody (setNumber : Command) (target : Score) (callMain : Command) : List Command :=
  [setNumber, .operate estimate .assign number, .operate previous .assign number,
    .guarded [⟨false, .inRange number (.atLeast 2)⟩] callMain, .operate target .assign previous]

end Sqrt

namespace Compile

/-- Puts the functions of the square root into the pack, once. -/
def emitSqrt (callMain callStep : Command) : Compile Unit := do
  if !(← get).sqrtEmitted then
    modifyPack (·.registerConstant 2)
    let _ ← register .mathSqrt Sqrt.mainName (Sqrt.mainBody callStep)
    let _ ← register .mathSqrt Sqrt.stepName (Sqrt.stepBody callMain)
    modify fun s => { s with sqrtEmitted := true }
    debug "emitted square root helpers"

/-- The square root of a score or an integer. -/
def sqrt (args : Bindings) (target : Score) : Compile (List Command) := do
  let callMain ← call (Feature.mathSqrt.path Sqrt.mainName)
  let callStep ← call (Feature.mathSqrt.path Sqrt.stepName)
  emitSqrt callMain callStep
  match ← ofExcept (args.get "value") with
  | .int n => return Sqrt.useBody (.set Sqrt.number n) target callMain
  | .score s => return Sqrt.useBody (.operate Sqrt.number .assign s) target callMain
  | _ => ofExcept (args.mismatch "value")

/-- A random integer between two bounds. -/
def random (args : Bindings) (target : Score) : Compile (List Command) := do
  let min ← ofExcept (args.int "min")
  let max ← ofExcept (args.int "max")
  if min > max then fail (.located (.minAboveMax min max) (args.position "min"))
  else return [.store target (.random min max)]

/-- Declares an objective, with a warning if it is declared already. -/
def addObjective (args : Bindings) : Compile (List Command) := do
  let objective ← ofExcept (args.text "objective")
  let criteria ← ofExcept (args.text "criteria")
  if (← get).pack.isDeclared objective then
    warn (.objectiveDeclared objective) (args.position "objective")
  else modifyPack (·.declare objective criteria)
  return []

/-- Runs a handler from the tick function for every player with a positive score, which is then
forgotten. -/
def onEvent (block : Block) (args : Bindings) : Compile (List Command) := do
  let objective ← ofExcept (args.text "objective")
  let criteria ← ofExcept (args.text "criteria")
  let handler ← ofExcept (args.arrow "handler")
  modifyPack (·.declare objective criteria)
  let commands ← body block handler
  let path ← registerNext .onEvent (commands ++ [Command.reset ⟨"@s", objective⟩])
  debug ("allocated " ++ path.text ++ " for '" ++ objective ++ "' events")
  let hook ← call path
  modifyPack (·.extendTick [.forPlayers objective hook])
  return []

/-- Particles on a circle. -/
def circle (args : Bindings) : Compile (List Command) := do
  let particle ← ofExcept (args.text "particle")
  let radius ← ofExcept (args.number "radius")
  let spread ← ofExcept (args.int "spread")
  if 1 ≤ spread && spread ≤ Circle.maxSpread then
    return (Circle.points radius.toFloat spread.toNat).map fun (x, z) =>
      .written ("particle " ++ particle ++ " ^" ++ x ++ " ^ ^" ++ z)
  else fail (.located (.spreadOutOfRange Circle.maxSpread spread) (args.position "spread"))

/-- A message to players. -/
def tellraw (args : Bindings) : Compile (List Command) := do
  let selector ← ofExcept (args.text "selector")
  let message ← ofExcept (args.text "message")
  return [.written ("tellraw " ++ selector ++ " " ++ (← get).settings.codec.quote message)]

/-- Expands a call whose arguments are bound. -/
def expand (block : Block) (b : Builtin) (target : Option Score) (args : Bindings) :
    Compile (List Command) :=
  match b, target with
  | .mathSqrt, some target => sqrt args target
  | .mathRandom, some target => random args target
  | .scoreboardAdd, none => addObjective args
  | .playerOnEvent, none => onEvent block args
  | .particleCircle, none => circle args
  | .textTellraw, none => tellraw args
  | _, _ => fail { cause := .wrongArity b.name }

/-- Compiles a call of a built-in function; `target` is the score that gets its value. -/
def builtin (block : Block) (b : Builtin) (name : Token) (rest : List Token)
    (target : Option Score) : Compile (List Command) :=
  match rest with
  | [group] => do
    match b.returnsValue, target with
    | true, none => failAt name (.mustBeAssigned b.name b.signature)
    | false, some _ => failAt name (.returnsNothing b.name)
    | _, _ =>
      let arguments ← ofNoting (Arguments.parse group)
      let args ← ofExcept (b.bind (← get).scope arguments)
      debug ("expanding " ++ b.name)
      expand block b target args
  | _ => failAt name (.builtinShape b.signature)

end Compile

end Packwright
