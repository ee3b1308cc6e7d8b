import Packwright.Diagnostic.Failure
import Packwright.Text.Blank
import Packwright.Text.Search

/-!
# Scores

A score belongs to a holder within an objective and is a 32-bit signed integer. `$name` names a
holder of the variable objective; `objective:target` names any other score.

## Main definitions

- `Score`, `Score.parse?` — a score and its source form
- `Scope` — the renamings of variables in force, innermost first
- `isIntegerText`, `scoreValue` — integer literals and their values
- `isRangeText` — ranges such as `1..5`
-/

namespace Packwright

/-- The objective of `$name` variables. -/
def variableObjective : String := "__variable__"

/-- The objective of integer constants. -/
def constantObjective : String := "__int__"

/-- A score holder within an objective. -/
structure Score where
  holder : String
  objective : String
  deriving DecidableEq, Repr, Inhabited

/-- Renamings of variables in force: one frame per open scope, innermost first, and in each frame
the newest renaming first. -/
structure Scope where
  frames : List (List (String × String)) := []
  deriving DecidableEq, Repr, Inhabited

namespace Scope

/-- Opens a scope. -/
def push (s : Scope) : Scope := ⟨[] :: s.frames⟩

/-- Closes the innermost scope. -/
def pop (s : Scope) : Scope := ⟨s.frames.tail⟩

/-- Renames a variable in the innermost scope; without an open scope nothing happens. -/
def bind (name holder : String) (s : Scope) : Scope :=
  match s.frames with
  | [] => s
  | frame :: rest => ⟨((name, holder) :: frame) :: rest⟩

/-- The holder a variable is renamed to. -/
def resolve? (s : Scope) (name : String) : Option String :=
  s.frames.flatten.lookup name

/-- Number of open scopes. -/
def depth (s : Scope) : Nat := s.frames.length

@[simp] theorem pop_push (s : Scope) : s.push.pop = s := rfl

end Scope

/-- Characters of a variable name. -/
def isVariableChar (c : Char) : Bool := c.isAlphanum || c = '_' || c = '.'

/-- Characters of an objective name. -/
def isObjectiveChar (c : Char) : Bool := c.isAlphanum || c = '_' || c = '.' || c = '-' || c = '+'

/-- A name of an objective. -/
def isObjectiveName (s : String) : Bool := s ≠ "" && s.toList.all isObjectiveChar

namespace Score

/-- A holder of the variable objective. -/
def ofVariable (holder : String) : Score := ⟨holder, variableObjective⟩

/-- The score that holds an integer constant. -/
def ofConstant (n : Int) : Score := ⟨toString n, constantObjective⟩

/-- Reads the part of `objective:target` behind the colon. -/
def isTarget (cs : List Char) : Bool :=
  (cs.head? = some '@' || cs.head? = some '$') && !cs.any Text.isBlank

/-- Reads `$name` or `objective:target`, with blanks around it. -/
def parse? (source : String) : Option Score :=
  match Text.trimList source.toList with
  | '$' :: name =>
    if !name.isEmpty && name.all isVariableChar then
      some (.ofVariable (String.ofList ('$' :: name)))
    else none
  | cs => do
    let (objective, target) ← Text.splitOnce [':'] cs
    if !objective.isEmpty && objective.all isObjectiveChar && isTarget target then
      return ⟨String.ofList target, String.ofList objective⟩
    else none

/-- Whether this is a `$name` holder of the variable objective. -/
def isVariable (s : Score) : Bool :=
  s.objective = variableObjective && Text.startsWith "$" s.holder

/-- Applies the renamings of a scope to a variable. -/
def resolveIn (scope : Scope) (s : Score) : Score :=
  if s.isVariable then { s with holder := (scope.resolve? s.holder).getD s.holder } else s

/-- Reads a score and applies the renamings of a scope. -/
def parseIn? (scope : Scope) (source : String) : Option Score :=
  (parse? source).map (resolveIn scope)

/-- The score as commands write it. -/
def render (s : Score) : String := s.holder ++ " " ++ s.objective

end Score

/-- The least score. -/
def minScore : Int := -2147483648

/-- The greatest score. -/
def maxScore : Int := 2147483647

/-- Whether an integer is a score. -/
def inScoreRange (n : Int) : Bool := minScore ≤ n && n ≤ maxScore

theorem inScoreRange_iff {n : Int} : inScoreRange n = true ↔ minScore ≤ n ∧ n ≤ maxScore := by
  simp [inScoreRange]

/-- The number that a list of decimal digits stands for. -/
def digitsValue (cs : List Char) : Nat :=
  cs.foldl (fun n c => 10 * n + (c.toNat - '0'.toNat)) 0

/-- A non-empty list of decimal digits. -/
def isDigits (cs : List Char) : Bool := !cs.isEmpty && cs.all Char.isDigit

/-- Whether a text is an integer literal: digits with an optional minus. -/
def isIntegerText (s : String) : Bool :=
  match s.toList with
  | '-' :: digits => isDigits digits
  | digits => isDigits digits

/-- The value of an integer literal. -/
def integerValue (s : String) : Int :=
  match s.toList with
  | '-' :: digits => -(digitsValue digits : Int)
  | digits => digitsValue digits

/-- The value of an integer literal that is a score; nothing for other text, and a cause of failure
for an integer that is no score. -/
def scoreValue (s : String) : Except Cause (Option Int) :=
  if isIntegerText s then
    if inScoreRange (integerValue s) then .ok (some (integerValue s))
    else .error (.scoreOutOfRange s)
  else .ok none

/-- A bound of a range: digits that fit a score, with an optional sign. -/
def isBoundText (cs : List Char) : Bool :=
  match cs with
  | '+' :: digits => isDigits digits && inScoreRange (digitsValue digits)
  | _ => isIntegerText (String.ofList cs) && inScoreRange (integerValue (String.ofList cs))

/-- Whether a text is a range: two bounds around `..`, of which one may be missing. -/
def isRangeText (s : String) : Bool :=
  match Text.splitOnce ['.', '.'] s.toList with
  | none => false
  | some (low, high) =>
    (!low.isEmpty || !high.isEmpty) && (low.isEmpty || isBoundText low) &&
      (high.isEmpty || isBoundText high)

end Packwright
