/-!
# Open brackets

How many brackets of a text are still open at its end. Brackets in strings and in comments do not
count, and the kinds of brackets are not told apart. More brackets may be closed than were opened.

## Main definitions

- `Text.Region` — whether a character stands in code, in a string or in a comment
- `Text.openBrackets` — brackets opened less brackets closed
-/

namespace Packwright.Text

/-- What a character of a text belongs to. -/
inductive Region where
  | code
  | string
  /-- Directly behind a backslash in a string. -/
  | escape
  | comment
  deriving DecidableEq, Repr, Inhabited

namespace Region

/-- The region of the next character, given this one and what follows it. -/
def step (c : Char) (rest : List Char) : Region → Region
  | .code =>
    if c = '"' then .string
    else if c = '/' && rest.head? = some '/' then .comment
    else .code
  | .string => if c = '\\' then .escape else if c = '"' then .code else .string
  | .escape => .string
  | .comment => if c = '\n' then .code else .comment

/-- What a character adds to the number of open brackets. -/
def weight (c : Char) : Region → Int
  | .code =>
    if c = '(' || c = '[' || c = '\x7b' then 1
    else if c = ')' || c = ']' || c = '\x7d' then -1
    else 0
  | _ => 0

end Region

/-- Brackets opened less brackets closed, from a region on. -/
def openBracketsFrom (region : Region) : List Char → Int
  | [] => 0
  | c :: rest => region.weight c + openBracketsFrom (region.step c rest) rest

/-- Brackets opened less brackets closed. -/
def openBrackets (cs : List Char) : Int := openBracketsFrom .code cs

/-- Whether no bracket of a text is still open. -/
def isComplete (s : String) : Bool := openBrackets s.toList ≤ 0

end Packwright.Text
