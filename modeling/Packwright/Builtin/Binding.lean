import Packwright.Argument
import Packwright.Builtin.Table
import Packwright.Decimal.Literal

/-!
# Binding arguments

The arguments of a call are bound to the declared parameters of a built-in function, positional ones
first, then by keyword, then by default.

## Main definitions

- `Value` — what a parameter is bound to
- `ParamKind.convert?` — the value of an argument for a kind of parameter
- `Builtin.bind` — all values of a call, in the order of the parameters
- `Bindings` — the values by name
-/

namespace Packwright

/-- What a parameter is bound to. -/
inductive Value where
  | int (n : Int)
  | number (d : Decimal)
  | score (s : Score)
  | text (s : String)
  | arrow (body : Token)
  deriving DecidableEq, Repr, Inhabited

/-- Whether a text is a target selector or the name of a player. -/
def isSelector (s : String) : Bool :=
  (Text.startsWith "@" s && !s.toList.any Text.isBlank) || isIdentifier s

/-- A finite decimal literal. -/
def finiteDecimal? (s : String) : Option Decimal := (Decimal.parse? s).filter Decimal.isFinite

namespace ParamKind

/-- The value an argument has for a kind of parameter, if it fits. -/
def convert? (scope : Scope) (a : Argument) : ParamKind → Option Value
  | .integer => a.int?.map .int
  | .number => (a.word?.bind finiteDecimal?).map .number
  | .score => (a.word?.bind (Score.parseIn? scope)).map .score
  | .scoreOrInteger =>
    (a.int?.map .int).or ((a.word?.bind (Score.parseIn? scope)).map .score)
  | .text =>
    match a with
    | .arrow _ => none
    | .plain _ => some (.text (a.string?.getD a.text))
  | .selector => (a.word?.filter isSelector).map .text
  | .objective => ((a.string?.or a.word?).filter isObjectiveName).map .text
  | .arrow => a.arrow?.map .arrow

/-- The value of a default. -/
def default? (s : String) : ParamKind → Option Value
  | .integer => if isIntegerText s then some (.int (integerValue s)) else none
  | .number => (Decimal.parse? s).map .number
  | .text | .selector | .objective => some (.text s)
  | .score | .scoreOrInteger | .arrow => none

end ParamKind

/-- A value with the name of its parameter and the place where it was written; the place of a
default is that of the call. -/
structure Bound where
  name : String
  value : Value
  position : Position
  deriving DecidableEq, Repr, Inhabited

/-- The values of a call. -/
structure Bindings where
  builtin : Builtin
  values : List Bound
  deriving DecidableEq, Repr, Inhabited

namespace Builtin

/-- Rejects positional arguments that have no parameter. -/
def checkCount (b : Builtin) (args : Arguments) : Except Fault Unit :=
  match args.positional[b.params.length]? with
  | some extra =>
    .error (.located (.tooManyArguments b.name b.params.length args.positional.length)
      extra.position)
  | none => .ok ()

/-- Rejects a keyword without a parameter, or with one that a positional argument has already. -/
def checkKeyword (b : Builtin) (args : Arguments) (keyword : String × Argument) :
    Except Fault Unit :=
  let (name, value) := keyword
  match b.params.findIdx? (·.name = name) with
  | none => .error (.located (.unknownParameter b.name name b.signature) value.position)
  | some index =>
    if index < args.positional.length then
      .error (.located (.givenTwice b.name name) value.position)
    else .ok ()

/-- The value of the parameter with a position in the declaration. -/
def bindParam (b : Builtin) (scope : Scope) (args : Arguments) (indexed : Param × Nat) :
    Except Fault Bound :=
  let (p, index) := indexed
  match (args.positional[index]?).or (args.keyword? p.name) with
  | some a =>
    match p.kind.convert? scope a with
    | some v => .ok ⟨p.name, v, a.position⟩
    | none =>
      .error (.located (.wrongArgument b.name p.name p.kind.describe a.describe a.raw) a.position)
  | none =>
    match p.default? with
    | none => .error (.located (.missingArgument p.name b.signature) args.position)
    | some d =>
      match p.kind.default? d with
      | some v => .ok ⟨p.name, v, args.position⟩
      | none => .error { cause := .badDefault b.name d }

/-- Binds the arguments of a call to the parameters of a function. -/
def bind (b : Builtin) (scope : Scope) (args : Arguments) : Except Fault Bindings := do
  b.checkCount args
  args.keywords.forM (b.checkKeyword args)
  return ⟨b, ← b.params.zipIdx.mapM (b.bindParam scope args)⟩

end Builtin

namespace Bindings

/-- The value of a parameter by its name. -/
def get (bs : Bindings) (name : String) : Except Fault Value :=
  match bs.values.find? (·.name = name) with
  | some v => .ok v.value
  | none => .error { cause := .missingParameter bs.builtin.name name }

/-- Where the value of a parameter was written. -/
def position (bs : Bindings) (name : String) : Position :=
  ((bs.values.find? (·.name = name)).map Bound.position).getD ⟨0, 0⟩

/-- A value of a kind the parameter does not declare. -/
def mismatch {α : Type} (bs : Bindings) (name : String) : Except Fault α :=
  .error { cause := .wrongBinding bs.builtin.name name }

/-- The value of an integer parameter. -/
def int (bs : Bindings) (name : String) : Except Fault Int := do
  match ← bs.get name with
  | .int n => return n
  | _ => bs.mismatch name

/-- The value of a number parameter. -/
def number (bs : Bindings) (name : String) : Except Fault Decimal := do
  match ← bs.get name with
  | .number d => return d
  | _ => bs.mismatch name

/-- The value of a text parameter. -/
def text (bs : Bindings) (name : String) : Except Fault String := do
  match ← bs.get name with
  | .text s => return s
  | _ => bs.mismatch name

/-- The body of an arrow parameter. -/
def arrow (bs : Bindings) (name : String) : Except Fault Token := do
  match ← bs.get name with
  | .arrow body => return body
  | _ => bs.mismatch name

end Bindings

end Packwright
