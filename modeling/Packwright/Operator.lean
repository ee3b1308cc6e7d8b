import Packwright.Command
import Packwright.Text.Outside
import Packwright.Token.Basic

/-!
# Operators of variable statements

A variable statement is a score, an operator and what stands on its right. The operator may be glued
to either side; it is searched outside brackets and strings.

## Main definitions

- `Operator`, `Operator.find` — the operators and the first one of a text
- `Assignment`, `Assignment.ofTokens?` — a statement split around its operator
- `isVariableHead`, `leadingVariable?` — words that begin variable statements
-/

namespace Packwright

/-- The operators of variable statements. -/
inductive Operator where
  | swap
  | copyTo
  | atMost
  | atLeast
  | increment
  | decrement
  | add
  | subtract
  | multiply
  | divide
  | modulo
  | assign
  | min
  | max
  deriving DecidableEq, Repr, Inhabited

namespace Operator

/-- The source form of an operator. -/
def symbol : Operator → String
  | .swap => "><"
  | .copyTo => "->"
  | .atMost => "<="
  | .atLeast => ">="
  | .increment => "++"
  | .decrement => "--"
  | .add => "+="
  | .subtract => "-="
  | .multiply => "*="
  | .divide => "/="
  | .modulo => "%="
  | .assign => "="
  | .min => "<"
  | .max => ">"

/-- All operators, those of two characters first. -/
def all : List Operator :=
  [.swap, .copyTo, .atMost, .atLeast, .increment, .decrement, .add, .subtract, .multiply, .divide,
    .modulo, .assign, .min, .max]

/-- The operator a text starts with. -/
def leading? (cs : List Char) : Option Operator :=
  all.find? fun o => o.symbol.toList.isPrefixOf cs

/-- The first operator outside brackets and strings, with the text before it. -/
def find (cs : List Char) : Option (List Char × Operator) :=
  Text.firstOutside leading? {} cs

/-- The text before the first operator, or the whole text. -/
def head (cs : List Char) : List Char :=
  match find cs with
  | some (before, _) => before
  | none => cs

end Operator

/-- Whether a statement that begins with this word is a variable statement. -/
def isVariableHead (w : String) : Bool :=
  if Text.startsWith "$" w then true
  else
    let head := Operator.head w.toList
    head.contains ':' && (Score.parse? (String.ofList head)).isSome

/-- The `$name` a text starts with. -/
def leadingVariable? (s : String) : Option String :=
  match s.toList with
  | '$' :: rest =>
    match rest.takeWhile isVariableChar with
    | [] => none
    | name => some (String.ofList ('$' :: name))
  | _ => none

/-- A variable statement split around its operator. -/
structure Assignment where
  target : Token
  operator : Operator
  right : List Token
  deriving DecidableEq, Repr, Inhabited

/-- Splits `target operator right`, where the operator may be glued to either side. -/
def Assignment.ofTokens? : List Token → Option Assignment
  | [] => none
  | first :: rest =>
    match Operator.find first.text.toList with
    | some (before, operator) =>
      (first.splitAt? (Text.byteLength before)).map fun (target, tail) =>
        ⟨target, operator, tail.tailFrom operator.symbol.toList.length ++ rest⟩
    | none =>
      match rest with
      | [] => none
      | next :: rest =>
        (next.word?.bind fun w => Operator.leading? w.toList).map fun operator =>
          ⟨first, operator, next.tailFrom operator.symbol.toList.length ++ rest⟩

end Packwright
