import Packwright.File.Problem

/-!
# Causes of failure

Everything that can go wrong while a pack is read, compiled and written, as one inductive type.
A cause says what happened; its `kind` and its `message` are functions of it, so the wording of the
program stands in one place.

## Main definitions

- `Kind` — the five families of failures
- `Cause` — what went wrong
- `Cause.kind`, `Cause.message` — its family and its wording
- `Notice` — what is only worth a warning
-/

namespace Packwright

/-- The family a failure belongs to. -/
inductive Kind where
  /-- Malformed source text. -/
  | syntactic
  /-- Well-formed text that means nothing: duplicates, reserved names, wrong arguments. -/
  | semantic
  /-- A source or data file that cannot be used. -/
  | resource
  /-- Failure of the file system. -/
  | system
  /-- A broken promise inside the program. -/
  | internal
  deriving DecidableEq, Repr, Inhabited

/-- The word for a family of failures. -/
def Kind.name : Kind → String
  | .syntactic => "syntax"
  | .semantic => "semantic"
  | .resource => "resource"
  | .system => "io"
  | .internal => "internal"

/-- Where in a clause a logical connective stands that should not stand there. -/
inductive Misplaced where
  | atStart
  | afterAnother
  | atEnd
  | inMiddle
  deriving DecidableEq, Repr, Inhabited

/-- The wording of a misplaced connective. -/
def Misplaced.phrase : Misplaced → String
  | .atStart => "at start of clause"
  | .afterAnother => "directly after another operator"
  | .atEnd => "at end of clause"
  | .inMiddle => "in the middle of a clause"

/-- What went wrong. -/
inductive Cause where
  /-- A failure given by its family and its wording. -/
  | other (kind : Kind) (text : String)
  -- Reading tokens
  | strayBracket (found : Char)
  | mismatchedBracket (expected found : Char)
  | lineBreakInString
  | unterminatedString
  | neverClosed (opening : Char)
  | missingSemicolon
  | notAGroup (found : String)
  | scoreOutOfRange (literal : String)
  -- Argument lists
  | expectedArguments (found : String)
  | semicolonInArguments
  | emptyArgument
  | duplicateKeyword (name : String)
  | positionalAfterKeyword
  -- Conditions
  | expectedCondition (found : String)
  | semicolonInCondition
  | emptyParentheses
  | emptyCondition
  | misplacedConnective (symbol : String) (place : Misplaced)
  | parenthesesInComparison
  | neverTrue (text : String)
  -- Blocks and control flow
  | expectedBody (found : String)
  | expectedHead (keyword : String)
  | expectedBlockAfterCondition
  | afterBlock (found : String)
  | elseWithoutIf
  | elseAfterElse
  | elseShape
  | doWithoutWhile
  | doShape
  | doWhileTail
  | forShape
  | chainWithoutCondition
  | onlyFunctionsInClass
  | onlyAtTopLevel (word : String)
  | caseOutsideSwitch
  | breakOutsideSwitch
  -- Switches
  | switchShape
  | expectedSwitchBody
  | expectedSwitchScore (found : String)
  | noCases
  | labelOutOfRange
  | labelNotInteger (found : String)
  | labelNotConsecutive (expected found : Int)
  | beforeFirstCase
  | missingLabel
  | missingColon
  -- Definitions
  | functionShape
  | functionInBody
  | invalidFunctionName (found : String)
  | expectedParameters
  | functionParameters
  | expectedFunctionBody
  | reservedLoad (name : String)
  | functionDefined (path : String)
  | privateDefined (path : String)
  | classShape
  | invalidClassName (found : String)
  | expectedClassBody
  | importShape
  | importNotString
  | unreadable (path : String) (problem : File.Problem)
  | resourceShape
  | invalidResourceKind (found : String)
  | expectedResourcePath
  | expectedJson
  | invalidJson (kind path detail : String)
  | resourceDefined (kind path : String)
  | callShape
  | callArguments
  -- Scores and variables
  | variableAfterLet
  | getArguments
  | expectedOperator (after : String)
  | afterStep (found operator : String)
  | needsScore (operator : String)
  | expectedValue (operator : String)
  | secondOperator (operator : String)
  | afterValue (found : String)
  | notAnOperand (operator found : String)
  | invalidScore (found : String)
  -- Built-in functions
  | builtinShape (signature : String)
  | mustBeAssigned (builtin signature : String)
  | returnsNothing (builtin : String)
  | tooManyArguments (builtin : String) (limit given : Nat)
  | unknownParameter (builtin name signature : String)
  | givenTwice (builtin name : String)
  | wrongArgument (builtin name expected described raw : String)
  | missingArgument (name signature : String)
  | badDefault (builtin text : String)
  | missingParameter (builtin name : String)
  | wrongBinding (builtin name : String)
  | minAboveMax (min max : Int)
  | spreadOutOfRange (limit : Nat) (given : Int)
  | wrongArity (builtin : String)
  -- Configuration and files
  | emptyNamespace
  | invalidNamespace (found : Char) (name : String)
  | packFormatZero
  | invalidConfiguration (detail : String)
  | fileFailure (path : String) (problem : File.Problem)
  -- The shell
  | terminalFailure
  | endInsideInput
  deriving DecidableEq, Repr, Inhabited

namespace Cause

/-- Puts a text between single quotes. -/
def quoted (s : String) : String := "'" ++ s ++ "'"

/-- The family a cause belongs to. -/
def kind : Cause → Kind
  | .other kind _ => kind
  | .chainWithoutCondition | .badDefault .. | .missingParameter .. | .wrongBinding ..
  | .wrongArity .. | .terminalFailure | .endInsideInput => .internal
  | .reservedLoad _ | .functionDefined _ | .privateDefined _ | .resourceDefined ..
  | .mustBeAssigned .. | .returnsNothing _ | .tooManyArguments .. | .unknownParameter ..
  | .givenTwice .. | .wrongArgument .. | .missingArgument .. | .minAboveMax ..
  | .spreadOutOfRange .. | .emptyNamespace | .invalidNamespace .. | .packFormatZero => .semantic
  | .unreadable .. | .invalidJson .. | .invalidConfiguration _ => .resource
  | .fileFailure .. => .system
  | _ => .syntactic

/-- The wording of a cause, without its family. -/
def message : Cause → String
  | .other _ text => text
  | .strayBracket c => "unexpected " ++ quoted (String.singleton c)
  | .mismatchedBracket expected found =>
    "mismatched bracket: expected " ++ quoted (String.singleton expected) ++ ", found " ++
      quoted (String.singleton found)
  | .lineBreakInString => "string literal contains a line break"
  | .unterminatedString => "unterminated string literal"
  | .neverClosed c => quoted (String.singleton c) ++ " is never closed"
  | .missingSemicolon => "expected ';' at end of statement"
  | .notAGroup found => "expected a bracket group, found " ++ quoted found
  | .scoreOutOfRange literal =>
    "integer " ++ literal ++ " is out of range for a score (-2147483648..2147483647)"
  | .expectedArguments found => "expected '(', found " ++ quoted found
  | .semicolonInArguments => "unexpected ';' in argument list"
  | .emptyArgument => "empty argument"
  | .duplicateKeyword name => "duplicate keyword argument " ++ quoted name
  | .positionalAfterKeyword => "positional argument follows keyword argument"
  | .expectedCondition found => "expected '(' before condition, found " ++ quoted found
  | .semicolonInCondition => "unexpected ';' in condition"
  | .emptyParentheses => "empty parentheses in condition"
  | .emptyCondition => "empty condition"
  | .misplacedConnective symbol place => "unexpected " ++ quoted symbol ++ " " ++ place.phrase
  | .parenthesesInComparison => "unexpected parentheses in comparison"
  | .neverTrue text => quoted text ++ " can never be true"
  | .expectedBody found => "expected '\x7b', found " ++ quoted found
  | .expectedHead keyword => "expected '(' after " ++ quoted keyword
  | .expectedBlockAfterCondition => "expected '\x7b' after condition"
  | .afterBlock found => "unexpected " ++ quoted found ++ " after block"
  | .elseWithoutIf => "'else' without a preceding 'if'"
  | .elseAfterElse => "'else' after the final 'else' of this chain"
  | .elseShape => "expected '\x7b' or 'if' after 'else'"
  | .doWithoutWhile => "expected 'while (condition);' after 'do' body"
  | .doShape => "expected 'do \x7b ... \x7d while (condition);'"
  | .doWhileTail => "expected ';' after do-while condition"
  | .forShape => "expected 'for (init; condition; step)'"
  | .chainWithoutCondition => "if/else chain without a leading condition"
  | .onlyFunctionsInClass => "only function definitions may appear in a class"
  | .onlyAtTopLevel word => quoted word ++ " is only allowed at top level"
  | .caseOutsideSwitch => "'case' outside of a switch"
  | .breakOutsideSwitch => "'break' outside of a switch"
  | .switchShape => "expected 'switch (score) \x7b case 1: ... \x7d'"
  | .expectedSwitchBody => "expected '\x7b' after switch head"
  | .expectedSwitchScore found => "expected a score to switch on, found " ++ quoted found
  | .noCases => "switch has no cases"
  | .labelOutOfRange => "case label is out of range for a score"
  | .labelNotInteger found => "case label must be an integer or '_', found " ++ quoted found
  | .labelNotConsecutive expected found =>
    "case labels must be consecutive: expected " ++ toString expected ++ ", found " ++
      toString found
  | .beforeFirstCase => "statement before the first 'case'"
  | .missingLabel => "expected a label after 'case'"
  | .missingColon => "expected ':' after case label"
  | .functionShape => "expected 'function name() \x7b ... \x7d'"
  | .functionInBody => "function definitions are only allowed at top level or inside a class"
  | .invalidFunctionName found => "invalid function name " ++ quoted found
  | .expectedParameters => "expected '()' after function name"
  | .functionParameters => "functions take no parameters"
  | .expectedFunctionBody => "expected '\x7b' after function head"
  | .reservedLoad name => quoted name ++ " is reserved for the load function"
  | .functionDefined path => "function " ++ quoted path ++ " is already defined"
  | .privateDefined path => "private function " ++ path ++ " is already defined"
  | .classShape => "expected 'class name \x7b ... \x7d'"
  | .invalidClassName found => "invalid class name " ++ quoted found
  | .expectedClassBody => "expected '\x7b' after class name"
  | .importShape => "expected 'import \"path\";'"
  | .importNotString => "import path must be a string"
  | .unreadable path problem => "cannot read " ++ quoted path ++ ": " ++ problem.message
  | .resourceShape => "expected 'new kind(path) \x7b json \x7d'"
  | .invalidResourceKind found => "invalid resource kind " ++ quoted found
  | .expectedResourcePath => "expected '(path)' after resource kind"
  | .expectedJson => "expected '\x7b' with JSON content"
  | .invalidJson kind path detail =>
    "invalid JSON in " ++ kind ++ " " ++ quoted path ++ ": " ++ detail
  | .resourceDefined kind path => kind ++ " " ++ quoted path ++ " is already defined"
  | .callShape => "expected 'name()'"
  | .callArguments => "functions take no arguments"
  | .variableAfterLet => "expected a variable after 'let'"
  | .getArguments => "'.get()' takes no arguments"
  | .expectedOperator after => "expected an operator after " ++ quoted after
  | .afterStep found operator => "unexpected " ++ quoted found ++ " after " ++ quoted operator
  | .needsScore operator => quoted operator ++ " needs a score on the right"
  | .expectedValue operator => "expected a value after " ++ quoted operator
  | .secondOperator operator => "unexpected second operator " ++ quoted operator
  | .afterValue found => "unexpected " ++ quoted found ++ " after value"
  | .notAnOperand operator found =>
    "expected an integer or score after " ++ quoted operator ++ ", found " ++ quoted found
  | .invalidScore found => "invalid score reference " ++ quoted found
  | .builtinShape signature => "expected " ++ quoted signature
  | .mustBeAssigned builtin signature =>
    builtin ++ " returns a value; assign it, e.g. '$x = " ++ signature ++ "'"
  | .returnsNothing builtin => builtin ++ " does not return a value"
  | .tooManyArguments builtin limit given =>
    builtin ++ " takes at most " ++ toString limit ++ " arguments, got " ++ toString given
  | .unknownParameter builtin name signature =>
    builtin ++ " has no parameter " ++ quoted name ++ " (expected " ++ signature ++ ")"
  | .givenTwice builtin name => "argument " ++ quoted name ++ " of " ++ builtin ++ " given twice"
  | .wrongArgument builtin name expected described raw =>
    "argument " ++ quoted name ++ " of " ++ builtin ++ " expects " ++ expected ++ ", found " ++
      described ++ " " ++ quoted raw
  | .missingArgument name signature => "missing argument " ++ quoted name ++ " for " ++ signature
  | .badDefault builtin text => "bad default " ++ quoted text ++ " for " ++ builtin
  | .missingParameter builtin name => builtin ++ " has no parameter " ++ quoted name
  | .wrongBinding builtin name => builtin ++ " bound " ++ quoted name ++ " to the wrong kind"
  | .minAboveMax min max =>
    "Math.random: min (" ++ toString min ++ ") is greater than max (" ++ toString max ++ ")"
  | .spreadOutOfRange limit given =>
    "Particle.circle: spread must be between 1 and " ++ toString limit ++ ", got " ++
      toString given
  | .wrongArity builtin => builtin ++ " dispatched with the wrong arity"
  | .emptyNamespace => "namespace must not be empty"
  | .invalidNamespace found name =>
    "invalid character " ++ quoted (String.singleton found) ++ " in namespace " ++ quoted name ++
      " (allowed: a-z 0-9 _ . -)"
  | .packFormatZero => "pack_format must be positive"
  | .invalidConfiguration detail => "invalid configuration: " ++ detail
  | .fileFailure path problem => path ++ ": " ++ problem.message
  | .terminalFailure => "terminal failure"
  | .endInsideInput => "unexpected EOF in multi-line input"

end Cause

/-- What is worth a warning but does not stop the work. -/
inductive Notice where
  /-- A semicolon that ends nothing. -/
  | emptyStatement
  /-- A user function whose path lies among the generated functions. -/
  | privateFunction (path : String)
  /-- A second declaration of an objective. -/
  | objectiveDeclared (name : String)
  /-- A `break` that is not the last statement of its case. -/
  | ignoredBreak
  /-- A warning given by its wording. -/
  | other (text : String)
  deriving DecidableEq, Repr, Inhabited

/-- The wording of a warning. -/
def Notice.message : Notice → String
  | .emptyStatement => "empty statement (redundant ';')"
  | .privateFunction path =>
    "function " ++ Cause.quoted path ++ " is inside the private namespace and may be overwritten"
  | .objectiveDeclared name => "objective " ++ Cause.quoted name ++ " is already declared"
  | .ignoredBreak => "'break' before the end of a case is ignored"
  | .other text => text

end Packwright
