/-!
# Searching outside brackets and strings

A search through a text that looks only at characters outside brackets and string literals. The
bracket count never goes below zero, and the kinds of brackets are not told apart.

## Main definitions

- `Text.Outside` — how deep in brackets, and whether in a string, the search stands
- `Text.firstOutside` — the first place outside where a test succeeds, with the text before it
-/

namespace Packwright.Text

/-- How many brackets are open, and whether a string is. -/
structure Outside where
  depth : Nat := 0
  quoted : Bool := false
  escaped : Bool := false
  deriving DecidableEq, Repr, Inhabited

namespace Outside

/-- Reads one character. -/
def step (o : Outside) (c : Char) : Outside :=
  if o.quoted then
    if o.escaped then { o with escaped := false }
    else if c = '\\' then { o with escaped := true }
    else if c = '"' then { o with quoted := false }
    else o
  else if c = '"' then { o with quoted := true }
  else if c = '(' || c = '[' || c = '\x7b' then { o with depth := o.depth + 1 }
  else if c = ')' || c = ']' || c = '\x7d' then { o with depth := o.depth - 1 }
  else o

/-- Whether a character met in this state is looked at: it is outside everything and is itself
neither a quote nor a bracket. -/
def sees (o : Outside) (c : Char) : Bool :=
  !o.quoted && o.depth = 0 &&
    !(c = '"' || c = '(' || c = '[' || c = '\x7b' || c = ')' || c = ']' || c = '\x7d')

end Outside

/-- The first place outside brackets and strings where `test` succeeds on the text from there on,
together with the text before it. -/
def firstOutside {α : Type} (test : List Char → Option α) (o : Outside) :
    List Char → Option (List Char × α)
  | [] => none
  | c :: rest =>
    match if o.sees c then test (c :: rest) else none with
    | some found => some ([], found)
    | none => (firstOutside test (o.step c) rest).map fun (before, found) => (c :: before, found)

end Packwright.Text
