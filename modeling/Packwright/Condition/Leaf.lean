import Packwright.Command
import Packwright.Text.Outside

/-!
# Comparisons inside conditions

The text of a single comparison, and the clause it becomes. The search for a comparison sign looks
only outside brackets and strings, and it stops the program when it meets a character outside ASCII
there before it has found a sign.

## Main definitions

- `Comparison.find` — the first comparison sign of a text
- `Comparison.range?` — the values that satisfy a comparison with an integer
- `Clause.read`, `Clause.ofText` — the clause of a comparison, with and without the outcome that stops
  the program
-/

namespace Packwright

namespace Comparison

/-- The comparison a text starts with. -/
def leading? (cs : List Char) : Option Comparison :=
  all.find? fun c => c.symbol.toList.isPrefixOf cs

/-- What the search for a comparison sign does at one place: it goes on, finds a sign, or stops the
program, the last at a character outside ASCII. -/
def probe (cs : List Char) : Option (Except Failure Comparison) :=
  match cs with
  | [] => none
  | c :: _ => if c.toNat < 128 then (leading? cs).map .ok else some (.error .crash)

/-- The first comparison sign outside brackets and strings, with the text before and after it. -/
def find (cs : List Char) : Except Failure (Option (List Char × Comparison × List Char)) :=
  match Text.firstOutside probe {} cs with
  | none => .ok none
  | some (_, .error failure) => .error failure
  | some (before, .ok c) =>
    .ok (some (before, c, cs.drop (before.length + c.symbol.toList.length)))

/-- The range of scores that compare with `n`, and whether it is to be negated; none when the bound
is no score. -/
def range? (c : Comparison) (n : Int) : Option (Bool × ScoreRange) :=
  match c with
  | .eq => some (false, .exactly n)
  | .ne => some (true, .exactly n)
  | .ge => some (false, .atLeast n)
  | .le => some (false, .atMost n)
  | .gt => if n + 1 ≤ maxScore then some (false, .atLeast (n + 1)) else none
  | .lt => if minScore ≤ n - 1 then some (false, .atMost (n - 1)) else none

end Comparison

namespace Clause

/-- The clause of a score compared with the text on the right, if that is an integer, a range or
another score. -/
def ofComparison? (scope : Scope) (score : Score) (c : Comparison) (right : String) :
    Option Clause :=
  let value := match scoreValue right with
    | .ok v => v
    | .error _ => none
  match value.bind c.range? with
  | some (negated, range) => some ⟨negated, .inRange score range⟩
  | none =>
    if isRangeText right && (c = Comparison.eq || c = Comparison.ne) then
      some ⟨c = .ne, .inRange score (.written right)⟩
    else (Score.parseIn? scope right).map fun other => ⟨c = .ne, .compare score c other⟩

/-- The clause of a score matched against a range, written `score matches range`. -/
def ofMatches? (scope : Scope) (text : String) : Option Clause := do
  let (left, right) ← Text.splitOnce " matches ".toList text.toList
  let score ← Score.parseIn? scope (String.ofList left)
  return ⟨false, .inRange score (.written (String.ofList (Text.trimList right)))⟩

/-- The clause of the texts on the two sides of a comparison sign, if they can be compared. -/
def ofSides? (scope : Scope) (left : List Char) (c : Comparison) (right : List Char) :
    Option Clause := do
  let score ← Score.parseIn? scope (String.ofList left)
  ofComparison? scope score c (String.ofList (Text.trimList right))

/-- The clause of a text with or without a comparison sign. A score alone holds when positive, and
what is no comparison of scores is passed on as written. The search for the sign may stop the
program. -/
def readPlain (scope : Scope) (text : String) : Except Failure Clause := do
  match ← Comparison.find text.toList with
  | some (left, c, right) => return (ofSides? scope left c right).getD ⟨false, .written text⟩
  | none =>
    match Score.parseIn? scope text with
    | some score => return ⟨false, .inRange score (.atLeast 1)⟩
    | none => return ⟨false, .written text⟩

/-- The clause of one comparison or raw test. -/
def read (scope : Scope) (text : String) : Except Failure Clause :=
  match Text.after? "if " text with
  | some body => .ok ⟨false, .written (Text.trim body)⟩
  | none =>
    match Text.after? "unless " text with
    | some body => .ok ⟨true, .written (Text.trim body)⟩
    | none =>
      match ofMatches? scope text with
      | some clause => .ok clause
      | none => readPlain scope text

/-- The clause of a text that does not stop the program. -/
def ofText (scope : Scope) (text : String) : Clause :=
  match read scope text with
  | .ok clause => clause
  | .error _ => ⟨false, .written text⟩

end Clause

end Packwright
