import Packwright.Text.Alphanumeric
import Packwright.Token.Classification

/-!
# Coloured source lines

A line of source text is cut into stretches, some of which have a colour: strings, comments,
variables, selectors, numbers, brackets, reserved words and names of built-in functions. Colours are
written as terminal sequences around the text of their stretch, which itself is not changed.

## Main definitions

- `Colour`, `Stretch` — what a colour stands for, and a stretch of a line
- `stretches` — a line cut into stretches
- `highlight` — a line with its colours
-/

namespace Packwright

/-- What a colour stands for. -/
inductive Colour where
  | comment
  | string
  | scoreVariable
  | selector
  | number
  | bracket
  | reserved
  | builtin
  deriving DecidableEq, Repr, Inhabited

/-- The terminal sequence that turns a colour on. -/
def Colour.code : Colour → String
  | .comment => "\x1b[2;3m"
  | .string => "\x1b[33m"
  | .scoreVariable => "\x1b[34m"
  | .selector => "\x1b[36m"
  | .number => "\x1b[35m"
  | .bracket => "\x1b[1m"
  | .reserved => "\x1b[32m"
  | .builtin => "\x1b[1;32m"

/-- The terminal sequence that turns a colour off. -/
def Colour.reset : String := "\x1b[0m"

/-- A stretch of a line with its colour. -/
structure Stretch where
  colour : Option Colour
  text : List Char
  deriving DecidableEq, Repr, Inhabited

/-- A stretch of a line between the sequences of its colour. -/
def Stretch.render (s : Stretch) : String :=
  match s.colour with
  | some colour => colour.code ++ String.ofList s.text ++ Colour.reset
  | none => String.ofList s.text

/-- The rest of a string behind its opening quote, up to and with the closing one. -/
def stringTail : List Char → List Char
  | [] => []
  | '"' :: _ => ['"']
  | '\\' :: c :: rest => '\\' :: c :: stringTail rest
  | c :: rest => c :: stringTail rest

/-- The characters of variables behind the dollar sign. -/
def isVariableTail (c : Char) : Bool := Text.isAlphanumeric c || c = '_'

/-- The characters of words behind the first one. -/
def isWordTail (c : Char) : Bool := Text.isAlphanumeric c || c = '_' || c = '.'

/-- The colour of a word. -/
def wordColour? (word : String) : Option Colour :=
  if (StatementKind.ofWord? word).isSome then some .reserved
  else if (Builtin.ofName? word).isSome then some .builtin
  else none

/-- The colour of the stretch that begins with a character, and what follows the character in it. -/
def stretchAt (c : Char) (rest : List Char) : Option Colour × List Char :=
  if c = '/' && rest.head? = some '/' then (some .comment, rest)
  else if c = '"' then (some .string, stringTail rest)
  else if c = '$' then (some .scoreVariable, rest.takeWhile isVariableTail)
  else if c = '@' then (some .selector, rest.takeWhile Text.isAlphabetic)
  else if c.isDigit then (some .number, rest.takeWhile fun d => d.isDigit || d = '.')
  else if c ∈ ['(', ')', '[', ']', '\x7b', '\x7d'] then (some .bracket, [])
  else if Text.isAlphabetic c || c = '_' then
    let tail := rest.takeWhile isWordTail
    (wordColour? (String.ofList (c :: tail)), tail)
  else (none, [])

/-- A line cut into stretches. -/
def stretches : List Char → List Stretch
  | [] => []
  | c :: rest =>
    let (colour, tail) := stretchAt c rest
    ⟨colour, c :: tail⟩ :: stretches (rest.drop tail.length)
  termination_by cs => cs.length
  decreasing_by simp only [List.length_drop, List.length_cons]; omega

/-- A line with its colours. -/
def highlight (line : String) : String := String.join ((stretches line.toList).map Stretch.render)

end Packwright
