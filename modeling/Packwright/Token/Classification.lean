import Packwright.Builtin.Table
import Packwright.Operator

/-!
# Kinds of statements

A statement is classified by its first token. Reserved words have fixed kinds; the rest are variable
statements, calls of built-in or user functions, and commands taken as written.

## Main definitions

- `StatementKind`, `StatementKind.ofWord?` — the kinds and the reserved words
- `isFunctionName` — dotted names
- `Statement.kind` — the kind of a statement
-/

namespace Packwright

/-- What a statement is. -/
inductive StatementKind where
  | function
  | classDefinition
  | importFile
  | newResource
  | ifBranch
  | elseBranch
  | whileLoop
  | doLoop
  | forLoop
  | switch
  | caseLabel
  | breakCase
  | variableChange
  | builtin (b : Builtin)
  | call
  | vanilla
  deriving DecidableEq, Repr, Inhabited

/-- The kind of statements that begin with a reserved word. -/
def StatementKind.ofWord? : String → Option StatementKind
  | "function" => some .function
  | "class" => some .classDefinition
  | "import" => some .importFile
  | "new" => some .newResource
  | "if" => some .ifBranch
  | "else" => some .elseBranch
  | "while" => some .whileLoop
  | "do" => some .doLoop
  | "for" => some .forLoop
  | "switch" => some .switch
  | "case" => some .caseLabel
  | "break" => some .breakCase
  | "let" => some .variableChange
  | _ => none

/-- Characters of function names. -/
def isFunctionChar (c : Char) : Bool := c.isAlphanum || c = '_' || c = '.' || c = '/'

/-- Whether a text is a dotted name, with no dot at either end. -/
def isFunctionName (s : String) : Bool :=
  let cs := s.toList
  !cs.isEmpty && cs.head? ≠ some '.' && cs.getLast? ≠ some '.' && cs.all isFunctionChar

/-- Whether tokens are a dotted name with a round group directly behind it. -/
def isCallShape : List Token → Bool
  | [name, group] =>
    group.isGroup .round && name.adjacent group && (name.word?.map isFunctionName).getD false
  | _ => false

/-- The kind of a statement. -/
def Statement.kind (s : Statement) : StatementKind :=
  match s.keyword? with
  | none => .vanilla
  | some w =>
    match StatementKind.ofWord? w with
    | some k => k
    | none =>
      if isVariableHead w then .variableChange
      else if isCallShape s.tokens then
        match Builtin.ofName? w with
        | some b => .builtin b
        | none => .call
      else .vanilla

end Packwright
