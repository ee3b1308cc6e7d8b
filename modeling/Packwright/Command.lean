import Packwright.Pack.Path
import Packwright.Score

/-!
# Commands

The commands of a pack as data. What the compiler itself emits is structured: scoreboard commands,
function calls and guarded commands. Commands written by the user are kept as text. `Command.render`
gives the line that is written to a function file.

## Main definitions

- `Comparison`, `ScoreRange`, `Test`, `Clause` — what a guarded command tests
- `Operation` — arithmetic between two scores
- `Command`, `Command.render` — a command and its text
-/

namespace Packwright

/-- Comparisons of two values. -/
inductive Comparison where
  | eq
  | ne
  | ge
  | le
  | gt
  | lt
  deriving DecidableEq, Repr, Inhabited

namespace Comparison

/-- The source form of a comparison. -/
def symbol : Comparison → String
  | .eq => "=="
  | .ne => "!="
  | .ge => ">="
  | .le => "<="
  | .gt => ">"
  | .lt => "<"

/-- The form of a comparison between two scores in a command. -/
def native : Comparison → String
  | .eq | .ne => "="
  | c => c.symbol

/-- All comparisons, each before those its symbol starts with. -/
def all : List Comparison := [.eq, .ne, .ge, .le, .gt, .lt]

end Comparison

/-- The values a score is tested against. -/
inductive ScoreRange where
  | exactly (n : Int)
  | atLeast (n : Int)
  | atMost (n : Int)
  | between (low high : Int)
  /-- A range taken as the user wrote it. -/
  | written (text : String)
  deriving DecidableEq, Repr, Inhabited

namespace ScoreRange

/-- The range from `low` to `high`. -/
def ofBounds (low high : Int) : ScoreRange :=
  if low = high then .exactly low else .between low high

/-- The text of a range. -/
def render : ScoreRange → String
  | .exactly n => toString n
  | .atLeast n => toString n ++ ".."
  | .atMost n => ".." ++ toString n
  | .between low high => toString low ++ ".." ++ toString high
  | .written text => text

end ScoreRange

/-- What a clause tests. -/
inductive Test where
  /-- A score lies in a range. -/
  | inRange (score : Score) (range : ScoreRange)
  /-- Two scores compare. -/
  | compare (score : Score) (relation : Comparison) (other : Score)
  /-- A test taken as the user wrote it. -/
  | written (text : String)
  deriving DecidableEq, Repr, Inhabited

/-- The text of a test. -/
def Test.render : Test → String
  | .inRange score range => "score " ++ score.render ++ " matches " ++ range.render
  | .compare score relation other =>
    "score " ++ score.render ++ " " ++ relation.native ++ " " ++ other.render
  | .written text => text

/-- One `if` or `unless` part of a guarded command. -/
structure Clause where
  negated : Bool := false
  test : Test
  deriving DecidableEq, Repr, Inhabited

namespace Clause

/-- The opposite clause. -/
def negate (c : Clause) : Clause := { c with negated := !c.negated }

/-- The text of a clause. -/
def render (c : Clause) : String :=
  (if c.negated then "unless " else "if ") ++ c.test.render

end Clause

/-- Arithmetic that changes one score by another. -/
inductive Operation where
  | assign
  | add
  | subtract
  | multiply
  | divide
  | modulo
  | min
  | max
  | swap
  deriving DecidableEq, Repr, Inhabited

/-- The code of an operation in a command. -/
def Operation.code : Operation → String
  | .assign => "="
  | .add => "+="
  | .subtract => "-="
  | .multiply => "*="
  | .divide => "/="
  | .modulo => "%="
  | .min => "<"
  | .max => ">"
  | .swap => "><"

/-- A single command of a pack. -/
inductive Command where
  /-- A command taken as the user wrote it. -/
  | written (line : String)
  /-- Declares an objective. -/
  | declare (objective criteria : String)
  /-- Sets a score. -/
  | set (score : Score) (value : Int)
  /-- Adds to a score. -/
  | add (score : Score) (amount : Nat)
  /-- Takes away from a score. -/
  | remove (score : Score) (amount : Nat)
  /-- Reports a score. -/
  | get (score : Score)
  /-- Forgets a score. -/
  | reset (score : Score)
  /-- Changes one score by another. -/
  | operate (target : Score) (operation : Operation) (source : Score)
  /-- Draws a random value. -/
  | random (low high : Int)
  /-- Runs a function. -/
  | call (target : ResourceLocation)
  /-- Runs a command when all clauses hold. -/
  | guarded (clauses : List Clause) (body : Command)
  /-- Runs a command and keeps its result in a score. -/
  | store (target : Score) (body : Command)
  /-- Runs a command as and at every player with a positive score in an objective. -/
  | forPlayers (objective : String) (body : Command)
  deriving DecidableEq, Repr, Inhabited

/-- The clauses of a guarded command, separated by spaces. -/
def renderClauses (clauses : List Clause) : String :=
  Text.joinWith " " (clauses.map Clause.render)

namespace Command

/-- The line of a command. -/
def render : Command → String
  | .written line => line
  | .declare objective criteria => "scoreboard objectives add " ++ objective ++ " " ++ criteria
  | .set score value => "scoreboard players set " ++ score.render ++ " " ++ toString value
  | .add score amount => "scoreboard players add " ++ score.render ++ " " ++ toString amount
  | .remove score amount => "scoreboard players remove " ++ score.render ++ " " ++ toString amount
  | .get score => "scoreboard players get " ++ score.render
  | .reset score => "scoreboard players reset " ++ score.render
  | .operate target operation source =>
    "scoreboard players operation " ++ target.render ++ " " ++ operation.code ++ " " ++
      source.render
  | .random low high => "random value " ++ toString low ++ ".." ++ toString high
  | .call target => "function " ++ target.render
  | .guarded clauses body => "execute " ++ renderClauses clauses ++ " run " ++ body.render
  | .store target body => "execute store result score " ++ target.render ++ " run " ++ body.render
  | .forPlayers objective body =>
    "execute as @a[scores=\x7b" ++ objective ++ "=1..\x7d] at @s run " ++ body.render

/-- Whether a line calls a function, directly or behind a guard. -/
def isCall (c : Command) : Bool :=
  let line := c.render.toList
  "function ".toList.isPrefixOf line || Text.occurs " run function ".toList line

end Command

end Packwright
