import Packwright.Text.Search

/-!
# Built-in functions

The closed table of built-in functions with their declared parameters.

## Main definitions

- `Builtin`, `Builtin.ofName?` — the functions and their names
- `Param`, `ParamKind` — what a parameter is called and accepts
- `Builtin.params`, `Builtin.signature` — the declaration of a function
-/

namespace Packwright

/-- The built-in functions. -/
inductive Builtin where
  | mathSqrt
  | mathRandom
  | scoreboardAdd
  | playerOnEvent
  | particleCircle
  | textTellraw
  deriving DecidableEq, Repr, Inhabited

/-- What a parameter accepts. -/
inductive ParamKind where
  | integer
  | number
  | score
  | scoreOrInteger
  | text
  | selector
  | objective
  | arrow
  deriving DecidableEq, Repr, Inhabited

/-- What a parameter accepts, in words. -/
def ParamKind.describe : ParamKind → String
  | .integer => "an integer"
  | .number => "a number"
  | .score => "a score"
  | .scoreOrInteger => "a score or integer"
  | .text => "text"
  | .selector => "a selector"
  | .objective => "an objective name"
  | .arrow => "an arrow function"

/-- A declared parameter; the default is given as source text. -/
structure Param where
  name : String
  kind : ParamKind
  default? : Option String := none
  deriving DecidableEq, Repr, Inhabited

/-- A parameter as signatures write it. -/
def Param.render (p : Param) : String :=
  match p.default? with
  | none => p.name
  | some d => if p.kind = .text then p.name ++ "=\"" ++ d ++ "\"" else p.name ++ "=" ++ d

namespace Builtin

/-- Every built-in function, in table order. -/
def all : List Builtin :=
  [.mathSqrt, .mathRandom, .scoreboardAdd, .playerOnEvent, .particleCircle, .textTellraw]

/-- The dotted name of a function. -/
def name : Builtin → String
  | .mathSqrt => "Math.sqrt"
  | .mathRandom => "Math.random"
  | .scoreboardAdd => "Scoreboard.add"
  | .playerOnEvent => "Player.onEvent"
  | .particleCircle => "Particle.circle"
  | .textTellraw => "Text.tellraw"

/-- The function with a dotted name. -/
def ofName? (s : String) : Option Builtin := all.find? fun b => b.name = s

@[simp] theorem ofName?_name (b : Builtin) : ofName? b.name = some b := by
  cases b <;> decide

/-- The parameters of a function in positional order. -/
def params : Builtin → List Param
  | .mathSqrt => [⟨"value", .scoreOrInteger, none⟩]
  | .mathRandom => [⟨"min", .integer, some "1"⟩, ⟨"max", .integer, some "2147483647"⟩]
  | .scoreboardAdd => [⟨"objective", .objective, none⟩, ⟨"criteria", .text, some "dummy"⟩]
  | .playerOnEvent =>
    [⟨"objective", .objective, none⟩, ⟨"handler", .arrow, none⟩, ⟨"criteria", .text, some "dummy"⟩]
  | .particleCircle =>
    [⟨"particle", .text, none⟩, ⟨"radius", .number, some "1"⟩, ⟨"spread", .integer, some "8"⟩]
  | .textTellraw => [⟨"selector", .selector, none⟩, ⟨"message", .text, none⟩]

/-- Whether a call has a value and so must be assigned. -/
def returnsValue : Builtin → Bool
  | .mathSqrt | .mathRandom => true
  | _ => false

/-- The declaration of a function as messages write it. -/
def signature (b : Builtin) : String :=
  b.name ++ "(" ++ Text.joinWith ", " (b.params.map Param.render) ++ ")"

end Builtin

end Packwright
