/-!
# Lines of a text

A line ends at a line feed, which is not part of it; a carriage return directly before that line
feed is not part of it either. What follows the last line feed is a line only when it is not empty.

## Main definitions

- `Text.lines` — the lines of a text in order
- `Text.lineAt` — the line with a given number, counted from one
- `Text.fullLines`, `Text.splitLineEnd` — lines with their line ends
-/

namespace Packwright.Text

/-- A finished line, given backwards, without the carriage return of a two-character line end. -/
def dropReturn : List Char → List Char
  | '\r' :: rest => rest
  | cs => cs

/-- The lines of a text, given the characters of the first one that were read already, backwards. -/
def linesFrom (current : List Char) : List Char → List (List Char)
  | [] => if current.isEmpty then [] else [current.reverse]
  | c :: rest =>
    if c = '\n' then (dropReturn current).reverse :: linesFrom [] rest
    else linesFrom (c :: current) rest

/-- The lines of a text in order. -/
def lines (cs : List Char) : List (List Char) :=
  linesFrom [] cs

/-- The line numbered from one; line zero is read as line one, and a line past the end is empty. -/
def lineAt (source : String) (line : Nat) : String :=
  String.ofList (((lines source.toList)[line - 1]?).getD [])

/-- The lines of a text with their line ends, given the characters of the first one that were read
already, backwards. -/
def fullLinesFrom (current : List Char) : List Char → List (List Char)
  | [] => if current.isEmpty then [] else [current.reverse]
  | c :: rest =>
    if c = '\n' then (c :: current).reverse :: fullLinesFrom [] rest
    else fullLinesFrom (c :: current) rest

/-- The lines of a text with their line ends. -/
def fullLines (cs : List Char) : List (List Char) := fullLinesFrom [] cs

/-- A line without its line end, and the line end. -/
def splitLineEnd (line : List Char) : List Char × List Char :=
  match line.reverse with
  | '\n' :: '\r' :: rest => (rest.reverse, ['\r', '\n'])
  | '\n' :: rest => (rest.reverse, ['\n'])
  | _ => (line, [])

end Packwright.Text
