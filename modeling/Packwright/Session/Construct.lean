import Packwright.Token.Classification

/-!
# Constructs

Some constructs span several statements: an `if` goes on in the `else` statements directly behind
it, and a `do` needs the `while` directly behind it. A list of statements is split into such
constructs before any of them is compiled.

## Main definitions

- `Construct`, `Construct.statements` — a construct and the statements it is made of
- `constructs` — the constructs of a list of statements
-/

namespace Packwright

/-- Statements that belong together. -/
inductive Construct where
  /-- An `if` and the `else` statements behind it. -/
  | chain (first : Statement) (elses : List Statement)
  /-- A `do` and the `while` behind it, if there is one. -/
  | doWhile (first : Statement) (tail : Option Statement)
  /-- Any other statement. -/
  | single (s : Statement)
  deriving DecidableEq, Repr, Inhabited

/-- The statements of a construct in order. -/
def Construct.statements : Construct → List Statement
  | .chain first elses => first :: elses
  | .doWhile first tail => first :: tail.toList
  | .single s => [s]

/-- Puts a statement in front of constructs, joining it to the first one where it belongs there. An
`else` alone at the front waits for what stands before it. -/
def addStatement (s : Statement) (elses : List Statement) (rest : List Construct) :
    List Construct :=
  match s.kind with
  | .ifBranch => .chain s elses :: rest
  | .doLoop =>
    match elses, rest with
    | [], .single w :: rest' =>
      if w.kind = .whileLoop then .doWhile s (some w) :: rest' else .doWhile s none :: rest
    | _, _ => .doWhile s none :: (elses.map .single ++ rest)
  | _ => .single s :: (elses.map .single ++ rest)

/-- The `else` statements at the front of a list and the constructs behind them. -/
def splitElses : List Statement → List Statement × List Construct
  | [] => ([], [])
  | s :: rest =>
    let (elses, later) := splitElses rest
    if s.kind = .elseBranch then (s :: elses, later) else ([], addStatement s elses later)

/-- The constructs of a list of statements. -/
def constructs (statements : List Statement) : List Construct :=
  let (elses, later) := splitElses statements
  elses.map .single ++ later

theorem statements_singles (l : List Statement) :
    (l.map Construct.single).flatMap Construct.statements = l := by
  induction l with
  | nil => rfl
  | cons a l ih => simp [Construct.statements, ih]

theorem statements_addStatement (s : Statement) (elses : List Statement)
    (rest : List Construct) :
    (addStatement s elses rest).flatMap Construct.statements =
      s :: (elses ++ rest.flatMap Construct.statements) := by
  unfold addStatement
  split
  · simp [Construct.statements]
  · split
    · split <;> simp [Construct.statements]
    · simp [Construct.statements, statements_singles]
  · simp [Construct.statements, statements_singles]

theorem statements_splitElses (l : List Statement) :
    (splitElses l).1 ++ (splitElses l).2.flatMap Construct.statements = l := by
  induction l with
  | nil => rfl
  | cons s rest ih =>
    unfold splitElses
    simp only
    split
    · simp [ih]
    · simp [statements_addStatement, ih]

/-- Splitting into constructs loses nothing and keeps the order. -/
theorem statements_constructs (l : List Statement) :
    (constructs l).flatMap Construct.statements = l := by
  simp [constructs, statements_singles, statements_splitElses]

end Packwright
