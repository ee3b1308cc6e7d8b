import Packwright.Operator
import Packwright.Session.Basic

/-!
# Control flow

The target has no jumps, only guarded commands and calls of functions. The body of a loop becomes a
function that ends with a guarded call of itself. The arms of an `if`/`else` chain become functions,
and a flag records whether an earlier arm ran.

## Main definitions

- `headAndBody` — the two groups of `keyword (...) { ... }`
- `Branch`, `Compile.chainCommands` — the arms of a chain and the commands they become
- `Compile.ifBranch`, `Compile.elseBranch`, `Compile.chain` — reading the arms
- `Compile.whileLoop`, `Compile.doWhile`, `Compile.forLoop` — loops
-/

namespace Packwright

/-- The flag that records whether an earlier arm of a chain ran. -/
def ifElseFlag : Score := .ofVariable "__if_else__"

/-- The two groups of `keyword (...) { ... }`. -/
def headAndBody (keyword : Token) (rest : List Token) : Except Fault (Token × Token) :=
  match rest with
  | [] => .error (keyword.fault (.expectedHead keyword.text))
  | head :: rest =>
    if !head.isGroup .round then .error (head.fault (.expectedHead keyword.text))
    else
      match rest with
      | [] => .error (head.fault .expectedBlockAfterCondition)
      | body :: rest =>
        if !body.isGroup .curly then .error (body.fault .expectedBlockAfterCondition)
        else
          match rest with
          | [] => .ok (head, body)
          | extra :: _ => .error (extra.fault (.afterBlock extra.text))

/-- An arm of a chain; a final `else` has no condition. -/
structure Branch where
  condition : Option Rendered
  body : List Command
  deriving DecidableEq, Repr, Inhabited

namespace Compile

/-! ### Chains of `if` and `else` -/

/-- The arm of an `if`. -/
def ifBranch (block : Block) (keyword : Token) (rest : List Token) : Compile Branch := do
  let (head, braces) ← ofExcept (headAndBody keyword rest)
  let c ← condition head
  return ⟨some c, ← body block braces⟩

/-- The arm of an `else`; `closed` tells whether the chain has its final `else` already. -/
def elseBranch (block : Block) (closed : Bool) (keyword : Token) (rest : List Token) :
    Compile Branch := do
  if closed then failAt keyword .elseAfterElse
  else
    match rest with
    | [] => failAt keyword .elseShape
    | next :: more =>
      if more.isEmpty && next.isGroup .curly then return ⟨none, ← body block next⟩
      else if next.isWord "if" then ifBranch block next more
      else failAt keyword .elseShape

/-- The arms of the `else` statements of a chain, behind the arms read so far. -/
def elseBranches (block : Block) (arms : List Branch) : List Statement → Compile (List Branch)
  | [] => return arms
  | s :: rest => do
    match s.tokens with
    | [] => elseBranches block arms rest
    | keyword :: tokens =>
      let closed := (arms.getLast?.map (·.condition.isNone)).getD false
      let arm ← elseBranch block closed keyword tokens
      elseBranches block (arms ++ [arm]) rest

/-- The command that runs an arm unless an earlier one ran. -/
def armCommands (first : Bool) (condition : Option Rendered) (callArm : Command) : List Command :=
  let notTaken : Clause := ⟨false, .inRange ifElseFlag (.exactly 0)⟩
  match condition with
  | none => [.guarded [notTaken] callArm]
  | some c =>
    if first then c.guardedCommands callArm
    else c.before ++ [.guarded (notTaken :: c.clauses) callArm]

/-- The commands of several arms; all arms but the last raise the flag. -/
def armsCommands (first : Bool) : List Branch → Compile (List Command)
  | [] => return []
  | arm :: rest => do
    let raise : List Command := if rest.isEmpty then [] else [.set ifElseFlag 1]
    let path ← allocateNext .ifElse (arm.body ++ raise)
    let callArm ← call path
    return armCommands first arm.condition callArm ++ (← armsCommands false rest)

/-- The commands of a single arm: nothing for an empty body, the command itself for a body of one,
a function for a longer one. -/
def singleArm (c : Rendered) : List Command → Compile (List Command)
  | [] => return []
  | [only] => return c.guardedCommands only
  | commands => do
    let path ← allocateNext .ifElse commands
    return c.guardedCommands (← call path)

/-- Drops a final `else` without commands. -/
def dropEmptyElse (arms : List Branch) : List Branch :=
  match arms.getLast? with
  | some ⟨none, []⟩ => if 1 < arms.length then arms.dropLast else arms
  | _ => arms

/-- The commands of a whole chain. -/
def chainCommands (arms : List Branch) : Compile (List Command) := do
  match dropEmptyElse arms with
  | [⟨some c, commands⟩] => singleArm c commands
  | [⟨none, _⟩] => fail { cause := .chainWithoutCondition }
  | arms => return .set ifElseFlag 0 :: (← armsCommands true arms)

/-- Compiles an `if` with the `else` statements behind it. -/
def chain (block : Block) (keyword : Token) (rest : List Token) (elses : List Statement) :
    Compile (List Command) := do
  let first ← ifBranch block keyword rest
  chainCommands (← elseBranches block [first] elses)

/-! ### Loops -/

/-- Compiles a `while`. -/
def whileLoop (block : Block) (keyword : Token) (rest : List Token) : Compile (List Command) := do
  let (head, braces) ← ofExcept (headAndBody keyword rest)
  let name := toString (← takeId .whileLoop)
  let c ← condition head
  let again ← call (Feature.whileLoop.path name)
  let commands ← body block braces
  let _ ← allocate .whileLoop name (commands ++ c.guardedCommands again)
  return c.guardedCommands again

/-- The condition behind the `while` of a `do`. -/
def doWhileHead (keyword : Token) : List Token → Except Fault Token
  | [] => .error (keyword.fault (.expectedHead "while"))
  | head :: rest =>
    if head.isGroup .round then
      match rest with
      | [] => .ok head
      | extra :: _ => .error (extra.fault .doWhileTail)
    else .error (keyword.fault (.expectedHead "while"))

/-- Compiles a `do` with the `while` behind it. -/
def doWhile (block : Block) (keyword : Token) (rest : List Token) (tail : Option Statement) :
    Compile (List Command) := do
  match rest with
  | [braces] =>
    let name := toString (← takeId .doWhileLoop)
    let commands ← body block braces
    match tail.map Statement.tokens with
    | some (whileKeyword :: tokens) =>
      let head ← ofExcept (doWhileHead whileKeyword tokens)
      let c ← condition head
      let again ← call (Feature.doWhileLoop.path name)
      let _ ← allocate .doWhileLoop name (commands ++ c.guardedCommands again)
      return [again]
    | _ => failAt keyword .doWithoutWhile
  | _ => failAt keyword .doShape

/-- Gives the variable that a `for` declares a holder of its own. -/
def bindLoopVariable (id : Nat) : List Token → Compile Unit
  | first :: second :: _ =>
    if first.isWord "let" then
      match leadingVariable? second.text with
      | some name => do
        let holder := "$__for_" ++ toString id ++ "__" ++ String.ofList (name.toList.drop 1)
        debug ("for loop " ++ toString id ++ " binds " ++ name ++ " to " ++ holder)
        rename name holder
      | none => return
    else return
  | _ => return

/-- The parts of a `for`, inside the scope of the loop. -/
def forParts (block : Block) (id : Nat) (init test step : Statement) (head braces : Token) :
    Compile (List Command) := do
  bindLoopVariable id init.tokens
  let initCommands ← block [init]
  let c ← render (← ofNoting (Condition.parseTokens head.position test.tokens))
  let stepCommands ← block [step]
  let again ← call (Feature.forLoop.path (toString id))
  let commands ← body block braces
  let _ ← allocate .forLoop (toString id) (commands ++ stepCommands ++ c.guardedCommands again)
  return initCommands ++ c.guardedCommands again

/-- Compiles a `for`. -/
def forLoop (block : Block) (keyword : Token) (rest : List Token) : Compile (List Command) := do
  let (head, braces) ← ofExcept (headAndBody keyword rest)
  match ← tokenizeInner .optional head with
  | [init, test, step] =>
    let id ← takeId .forLoop
    inScope (forParts block id init test step head braces)
  | _ => failAt head .forShape

end Compile

end Packwright
