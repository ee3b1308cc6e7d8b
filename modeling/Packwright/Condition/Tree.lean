import Packwright.Condition.Leaf
import Packwright.Token.Basic

/-!
# Conditions

A condition is a tree of connectives over comparisons. Rendering turns it into the clauses of a
guarded command. A disjunction has no clause of its own: it is computed beforehand into a flag, one
flag for each disjunction, by commands that run first.

The flags are numbered by a counter of 32 bits. Rendering stops the program when the counter would
overflow, and when the search for a comparison sign in a leaf does.

## Main definitions

- `Condition` — the tree
- `Rendered` — clauses, and the commands that must run before they are tested
- `Flagging`, `Flagging.next` — steps that take numbers of flags
- `Condition.rendering` — a tree to clauses, as a step that takes the numbers of its flags
- `Condition.render` — the clauses of a tree for which numbers are left, given the number of the next
  free flag
-/

namespace Packwright

/-- A condition. -/
inductive Condition where
  /-- A single comparison or raw test. -/
  | leaf (tokens : List Token)
  /-- All parts hold. -/
  | all (body : List Condition)
  /-- Some part holds. -/
  | any (body : List Condition)
  /-- The part does not hold. -/
  | not (body : Condition)
  deriving Repr, Inhabited

/-- Clauses that must all hold, and the commands that compute the flags they read. -/
structure Rendered where
  before : List Command := []
  clauses : List Clause := []
  deriving DecidableEq, Repr, Inhabited

namespace Rendered

/-- The clauses as text. -/
def inline (r : Rendered) : String := renderClauses r.clauses

/-- The command run when the clauses hold. -/
def guard (r : Rendered) (c : Command) : Command := .guarded r.clauses c

/-- The preparing commands and then the guarded command. -/
def guardedCommands (r : Rendered) (c : Command) : List Command := r.before ++ [r.guard c]

/-- Both conditions, one after the other. -/
def and (r s : Rendered) : Rendered := ⟨r.before ++ s.before, r.clauses ++ s.clauses⟩

/-- Every clause turned into its opposite. -/
def negate (r : Rendered) : Rendered := { r with clauses := r.clauses.map Clause.negate }

end Rendered

/-- The flag with a number. -/
def logicFlag (n : Nat) : Score := .ofVariable ("__logic__" ++ toString n)

/-- Steps that take numbers of flags; the state is the number of the next one. -/
abbrev Flagging := ExceptT Failure (StateM UInt32)

/-- Takes the next number. -/
def Flagging.next : Flagging Nat := do
  let n ← get
  if UInt32.size ≤ n.toNat + 1 then throw .crash
  else
    set (n + 1)
    return n.toNat

namespace Condition

/-- The text of a leaf. -/
def leafText (tokens : List Token) : String := joinTokens tokens

/-- The clause of a leaf. -/
def leafClause (scope : Scope) (tokens : List Token) : Except Failure Clause :=
  Clause.read scope (leafText tokens)

mutual

/-- Renders a condition with flags of its own. -/
def rendering (scope : Scope) : Condition → Flagging Rendered
  | .leaf tokens => do return ⟨[], [← leafClause scope tokens]⟩
  | .all body => renderingAll scope body
  | .not body => do return (← rendering scope body).negate
  | .any body => do
    let flag := logicFlag (← Flagging.next)
    let setting ← renderingAny scope flag body
    return ⟨.set flag 0 :: setting, [⟨false, .inRange flag (.exactly 1)⟩]⟩

/-- Renders the parts of a conjunction. -/
def renderingAll (scope : Scope) : List Condition → Flagging Rendered
  | [] => return {}
  | c :: rest => do
    let r ← rendering scope c
    let s ← renderingAll scope rest
    return r.and s

/-- Commands that raise a flag if some part of a disjunction holds. -/
def renderingAny (scope : Scope) (flag : Score) : List Condition → Flagging (List Command)
  | [] => return []
  | c :: rest => do
    let r ← rendering scope c
    let more ← renderingAny scope flag rest
    return r.guardedCommands (.set flag 1) ++ more

end

mutual

/-- Renders a condition; the flags used are numbered from the given number on, and the next free
number is returned. -/
def render (scope : Scope) : Condition → Nat → Rendered × Nat
  | .leaf tokens, n => (⟨[], [Clause.ofText scope (leafText tokens)]⟩, n)
  | .all body, n => renderAll scope body n
  | .not body, n =>
    let (r, n) := render scope body n
    (r.negate, n)
  | .any body, n =>
    let flag := logicFlag n
    let (setting, n) := renderAny scope flag body (n + 1)
    (⟨.set flag 0 :: setting, [⟨false, .inRange flag (.exactly 1)⟩]⟩, n)

/-- Renders the parts of a conjunction. -/
def renderAll (scope : Scope) : List Condition → Nat → Rendered × Nat
  | [], n => ({}, n)
  | c :: rest, n =>
    let (r, n) := render scope c n
    let (s, n) := renderAll scope rest n
    (r.and s, n)

/-- Commands that raise a flag if some part of a disjunction holds. -/
def renderAny (scope : Scope) (flag : Score) : List Condition → Nat → List Command × Nat
  | [], n => ([], n)
  | c :: rest, n =>
    let (r, n) := render scope c n
    let (more, n) := renderAny scope flag rest n
    (r.guardedCommands (.set flag 1) ++ more, n)

end

end Condition

end Packwright
