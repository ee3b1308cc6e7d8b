import Packwright.Session.Expansion
import Packwright.Token.Classification

/-!
# Variable statements

A variable statement becomes one scoreboard command, unless a built-in function stands on its right.

## Main definitions

- `Operand`, `Compile.operand` — the integer or score on the right of an operator
- `Operator.operation` — the arithmetic behind an operator
- `Compile.functionCall` — a call of a user function
- `Compile.assignment`, `Compile.variableChange` — the statements
-/

namespace Packwright

/-- What stands on the right of an operator. -/
inductive Operand where
  | int (n : Int)
  | score (s : Score)
  deriving DecidableEq, Repr, Inhabited

/-- The arithmetic behind an operator between two scores. -/
def Operator.operation : Operator → Operation
  | .swap => .swap
  | .copyTo | .assign => .assign
  | .atMost | .min => .min
  | .atLeast | .max => .max
  | .add | .increment => .add
  | .subtract | .decrement => .subtract
  | .multiply => .multiply
  | .divide => .divide
  | .modulo => .modulo

namespace Compile

/-- Fails at a second operator that stands behind some characters of a token. -/
def secondOperator {α : Type} (t : Token) (before : List Char) (o : Operator) : Compile α :=
  fail (.located (.secondOperator o.symbol) (t.position.right before.length))

/-- The operator a bare word starts with. -/
def leadingOperator? (t : Token) : Option Operator :=
  t.word?.bind fun w => Operator.leading? w.toList

/-- Reads a score at a token. -/
def score (text : String) (t : Token) : Compile Score := do
  match ← score? text with
  | some s => return s
  | none => failAt t (.invalidScore text)

/-- Rejects a second operator in the value or behind it, and anything else behind it. -/
def checkSingle (value : Token) (rest : List Token) : Compile Unit := do
  match value.word?.bind fun w => Operator.find w.toList with
  | some (before, o) => secondOperator value before o
  | none =>
    match rest with
    | [] => return
    | extra :: _ =>
      match leadingOperator? extra with
      | some o => secondOperator extra [] o
      | none => failAt extra (.afterValue extra.text)

/-- Reads the single integer or score on the right of an operator. -/
def operand (o : Operator) (target : Token) (right : List Token) : Compile (Token × Operand) := do
  match right with
  | [] => failAt target (.expectedValue o.symbol)
  | value :: rest =>
    checkSingle value rest
    match ← ofExcept value.scoreValue with
    | some n => return (value, .int n)
    | none =>
      match value.word?.bind (Score.parseIn? (← get).scope) with
      | some s => return (value, .score s)
      | none => failAt value (.notAnOperand o.symbol value.text)

/-- The score of an operand; an integer becomes a registered constant. -/
def operandScore : Operand → Compile Score
  | .score s => return s
  | .int n => do
    modifyPack (·.registerConstant n)
    return .ofConstant n

/-- Adds to a score or takes away from it. An amount that is no score itself goes through a
constant. -/
def addition (target : Score) (o : Operator) (value : Operand) : Compile Command := do
  match value with
  | .int n =>
    if (n.natAbs : Int) > maxScore then
      return .operate target o.operation (← operandScore value)
    else if decide (o = .add) = decide (0 ≤ n) then return .add target n.natAbs
    else return .remove target n.natAbs
  | .score s => return .operate target o.operation s

/-- Whether a token begins with an integer or a score. -/
def isValueToken (scope : Scope) (t : Token) : Bool :=
  let head := String.ofList (Operator.head t.text.toList)
  t.kind = .word && (isIntegerText head || (Score.parseIn? scope head).isSome)

/-- A call of a user function, which takes no arguments. -/
def functionCall (name : Token) (rest : List Token) : Compile Command :=
  match rest with
  | [group] =>
    if group.inner?.isSome && !group.innerBlank then failAt group .callArguments
    else call (.ofName name.text)
  | _ => failAt name .callShape

/-- Assigns to a score: a value, the result of a function, or that of any other command. -/
def assignment (block : Block) (target : Score) (targetToken : Token) (right : List Token) :
    Compile (List Command) := do
  match right with
  | [] => failAt targetToken (.expectedValue Operator.assign.symbol)
  | first :: rest =>
    if isValueToken (← get).scope first then
      match ← operand .assign targetToken right with
      | (_, .int n) => return [.set target n]
      | (_, .score s) => return [.operate target .assign s]
    else
      match leadingOperator? first with
      | some o => secondOperator first [] o
      | none =>
        match (Statement.mk right).kind with
        | .builtin b => builtin block b first rest (some target)
        | .call => return [.store target (← functionCall first rest)]
        | _ => return [.store target (.written (joinTokens right))]

/-- Compiles `score.get()`. -/
def getStatement (holder : String) (name group : Token) : Compile (List Command) := do
  if group.inner?.isSome && !group.innerBlank then failAt group .getArguments
  else return [.get (← score holder name)]

/-- The text before a final `.get`. -/
def getHolder? (t : Token) : Option String :=
  if Text.endsWith ".get" t.text then some (String.ofList (t.text.toList.take (t.length - 4)))
  else none

/-- Compiles an operator and its right side. -/
def operation (block : Block) (a : Assignment) : Compile (List Command) := do
  let target ← score a.target.text a.target
  match a.operator with
  | .increment | .decrement =>
    match a.right with
    | extra :: _ => failAt extra (.afterStep extra.text a.operator.symbol)
    | [] => return [if a.operator = .increment then .add target 1 else .remove target 1]
  | .assign => assignment block target a.target a.right
  | .copyTo =>
    match ← operand a.operator a.target a.right with
    | (_, .score s) => return [.operate s .assign target]
    | (t, .int _) => failAt t (.needsScore a.operator.symbol)
  | .swap =>
    match ← operand a.operator a.target a.right with
    | (_, .score s) => return [.operate target .swap s]
    | (t, .int _) => failAt t (.needsScore a.operator.symbol)
  | .add | .subtract =>
    let (_, value) ← operand a.operator a.target a.right
    return [← addition target a.operator value]
  | _ =>
    let (_, value) ← operand a.operator a.target a.right
    return [.operate target a.operator.operation (← operandScore value)]

/-- Compiles the tokens of a variable statement, without a leading `let`. -/
def plainVariable (block : Block) (first : Token) (rest : List Token) : Compile (List Command) := do
  let other : Compile (List Command) :=
    match Assignment.ofTokens? (first :: rest) with
    | some a => operation block a
    | none => failAt first (.expectedOperator first.text)
  match rest with
  | [group] =>
    if group.isGroup .round then
      match getHolder? first with
      | some holder => getStatement holder first group
      | none => other
    else other
  | _ => other

/-- Compiles a variable statement. -/
def variableChange (block : Block) (first : Token) (rest : List Token) : Compile (List Command) :=
  if first.isWord "let" then
    match rest with
    | [] => failAt first .variableAfterLet
    | name :: rest => plainVariable block name rest
  else plainVariable block first rest

end Compile

end Packwright
