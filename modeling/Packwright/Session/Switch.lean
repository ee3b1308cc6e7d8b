import Packwright.Session.Basic

/-!
# Switches

The cases of a switch have consecutive integer labels. They are reached through a balanced tree of
range tests: a range of more than one case is halved, and each half of more than one case is a
function with tests of its own.

## Main definitions

- `Case`, `Compile.collectCases` — the cases of a body
- `Dispatch`, `dispatchTree` — the tree of ranges
- `Compile.dispatch` — the tests of a tree, and the functions they call
- `Compile.switch` — the statement
-/

namespace Packwright

/-- A case: its label and its statements. -/
structure Case where
  label : Int
  statements : List Statement
  deriving DecidableEq, Repr, Inhabited

/-- Whether a statement is a lone `break`. -/
def isBreak (s : Statement) : Bool :=
  match s.tokens with
  | [t] => t.isWord "break"
  | _ => false

/-- The label of a case: its token, its text, and the tokens behind its colon. -/
structure CaseHead where
  token : Token
  label : String
  rest : List Token
  deriving DecidableEq, Repr, Inhabited

/-- Splits `case label: rest`; the colon may be glued to either side. -/
def splitCase (keyword : Token) : List Token → Except Fault CaseHead
  | [] => .error (keyword.fault .missingLabel)
  | label :: rest =>
    match Text.splitOnce [':'] label.text.toList with
    | some (before, _) =>
      .ok ⟨label, String.ofList before, label.tailFrom (Text.byteLength before + 1) ++ rest⟩
    | none =>
      match rest with
      | [] => .error (label.fault .missingColon)
      | next :: rest =>
        if Text.startsWith ":" next.text then .ok ⟨label, label.text, next.tailFrom 1 ++ rest⟩
        else .error (label.fault .missingColon)

/-- The label a case must have behind those read so far. -/
def expectedLabel (cases : List Case) : Option Int :=
  match cases.getLast? with
  | none => some 1
  | some c => if c.label + 1 ≤ maxScore then some (c.label + 1) else none

/-- The value of a label: the expected one for `_`; the first label is free, and the others must be
as expected. -/
def labelValue (cases : List Case) (head : CaseHead) : Except Fault Int :=
  match expectedLabel cases with
  | none => .error (head.token.fault .labelOutOfRange)
  | some expected =>
    if head.label = "_" then .ok expected
    else
      match scoreValue head.label with
      | .error cause => .error (head.token.fault cause)
      | .ok none => .error (head.token.fault (.labelNotInteger head.label))
      | .ok (some n) =>
        if !cases.isEmpty && n ≠ expected then
          .error (head.token.fault (.labelNotConsecutive expected n))
        else .ok n

/-- Adds a statement to the last case. -/
def addToLast (s : Statement) (cases : List Case) : List Case :=
  match cases.getLast? with
  | none => []
  | some c => cases.dropLast ++ [{ c with statements := c.statements ++ [s] }]

/-- Adds a statement of the body: a label opens a case, any other statement belongs to the last
one. -/
def addCaseStatement (cases : List Case) (s : Statement) : Except Fault (List Case) :=
  match s.tokens with
  | [] => .ok cases
  | first :: rest =>
    if first.isWord "case" then do
      let head ← splitCase first rest
      let label ← labelValue cases head
      return cases ++ [⟨label, if head.rest.isEmpty then [] else [⟨head.rest⟩]⟩]
    else if cases.isEmpty then .error (first.fault .beforeFirstCase)
    else .ok (addToLast s cases)

/-- The statements of a case without a final `break`. -/
def dropFinalBreak (statements : List Statement) : List Statement :=
  match statements.getLast? with
  | some s => if isBreak s then statements.dropLast else statements
  | none => statements

/-- A range of labels: a single case, or two halves with the range they cover together. -/
inductive Dispatch where
  | leaf (label : Int)
  | node (low high : Int) (left right : Dispatch)
  deriving DecidableEq, Repr, Inhabited

namespace Dispatch

/-- The least label of a range. -/
def low : Dispatch → Int
  | .leaf label => label
  | .node low _ _ _ => low

/-- The greatest label of a range. -/
def high : Dispatch → Int
  | .leaf label => label
  | .node _ high _ _ => high

/-- The name of a range in paths. -/
def name (d : Dispatch) : String :=
  if d.low = d.high then toString d.low else toString d.low ++ "-" ++ toString d.high

end Dispatch

/-- The balanced tree over `count` labels from `low` on, at most `depth` deep. -/
def dispatchWithin : Nat → Int → Nat → Dispatch
  | 0, low, _ => .leaf low
  | depth + 1, low, count =>
    if count ≤ 1 then .leaf low
    else
      let half := count / 2
      .node low (low + count - 1) (dispatchWithin depth low half)
        (dispatchWithin depth (low + half) (count - half))

/-- The balanced tree over `count` labels from `low` on. -/
def dispatchTree (low : Int) (count : Nat) : Dispatch := dispatchWithin count low count

namespace Compile

/-- Removes the `break` statements of a case, with a warning for each one that is not the last
statement. -/
def dropBreaks (c : Case) : Compile Case := do
  let statements := dropFinalBreak c.statements
  (statements.filter isBreak).forM fun s => warn .ignoredBreak s.span.position
  return { c with statements := statements.filter fun s => !isBreak s }

/-- The cases of a body. -/
def collectCases (statements : List Statement) : Compile (List Case) := do
  let cases ← ofExcept (statements.foldlM addCaseStatement [])
  cases.mapM dropBreaks

/-- The path of the function for a range of a switch. -/
def rangePath (id : Nat) (d : Dispatch) : FunctionPath :=
  Feature.switchCase.path (toString id ++ "/" ++ d.name)

/-- The test that calls the function of a range when the score lies in it. -/
def rangeTest (id : Nat) (score : Score) (d : Dispatch) : Compile Command := do
  return .guarded [⟨false, .inRange score (.ofBounds d.low d.high)⟩] (← call (rangePath id d))

/-- Registers the tests inside a range of more than one case. -/
def registerRange (id : Nat) (d : Dispatch) (inner : Compile (List Command)) : Compile Unit :=
  match d with
  | .leaf _ => return
  | .node .. => do
    let _ ← register .switchCase (toString id ++ "/" ++ d.name) (← inner)

/-- The tests of the two halves of a range; halves of more than one case are registered with their
own tests. -/
def rangeTests (id : Nat) (score : Score) : Dispatch → Compile (List Command)
  | .leaf label => return [← rangeTest id score (.leaf label)]
  | .node _ _ left right => do
    registerRange id left (rangeTests id score left)
    let testLeft ← rangeTest id score left
    registerRange id right (rangeTests id score right)
    let testRight ← rangeTest id score right
    return [testLeft, testRight]

/-- The tests that choose among the cases from `low` to `high`. -/
def dispatch (id : Nat) (score : Score) (low high : Int) : Compile (List Command) :=
  rangeTests id score (dispatchTree low (high - low + 1).toNat)

/-- Registers the body of each case under its label. -/
def registerCases (block : Block) (id : Nat) : List Case → Compile Unit
  | [] => return
  | c :: rest => do
    let commands ← block c.statements
    let _ ← register .switchCase (toString id ++ "/" ++ toString c.label) commands
    registerCases block id rest

/-- The score in the head of a switch. -/
def switchScore (head : Token) : Compile Score := do
  let text := Text.trim (head.inner?.getD "")
  match ← score? text with
  | some s => return s
  | none => failAt head (.expectedSwitchScore text)

/-- Compiles a switch. -/
def switch (block : Block) (keyword : Token) (rest : List Token) : Compile (List Command) := do
  match rest with
  | [head, braces] =>
    if !head.isGroup .round then failAt head (.expectedHead "switch")
    else if !braces.isGroup .curly then failAt braces .expectedSwitchBody
    else
      let score ← switchScore head
      let cases ← collectCases (← tokenizeInner .required braces)
      match cases.head?, cases.getLast? with
      | some first, some last =>
        let id ← takeId .switchCase
        debug ("switch " ++ toString id ++ " over " ++ score.render ++ " with cases " ++
          (ScoreRange.ofBounds first.label last.label).render)
        registerCases block id cases
        dispatch id score first.label last.label
      | _, _ => failAt keyword .noCases
  | _ => failAt keyword .switchShape

end Compile

end Packwright
