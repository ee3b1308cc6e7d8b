import Packwright.Diagnostic.Fault

/-!
# Outcomes of a step that does not succeed

Besides a reported fault there are two outcomes without a report: the program stops at once, because
it would cut a text inside a character or a counter has no number left to give, and a bounded recursion
reaches its bound.

## Main definitions

- `Failure` — why a step gave no result
- `Noting` — steps that may fail and that note warnings, which stay noted when they fail
-/

namespace Packwright

/-- Why a step gave no result. -/
inductive Failure where
  /-- A fault to report. -/
  | fault (f : Fault)
  /-- The program stops at once. -/
  | crash
  /-- The bound on nested steps was reached. -/
  | exhausted
  deriving DecidableEq, Repr, Inhabited

/-- Steps that may fail and that note warnings on the way. -/
abbrev Noting := ExceptT Failure (StateM (List Warning))

namespace Noting

/-- Fails with a fault. -/
def fail {α : Type} (f : Fault) : Noting α := throw (.fault f)

/-- Notes more warnings. -/
def note (ws : List Warning) : Noting Unit := modify (· ++ ws)

/-- A step that can only fail with a fault. -/
def ofExcept {α : Type} : Except Fault α → Noting α
  | .ok a => pure a
  | .error f => fail f

end Noting

end Packwright
