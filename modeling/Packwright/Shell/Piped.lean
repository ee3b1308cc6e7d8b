import Packwright.Shell.Dialogue
import Packwright.Text.Backspace
import Packwright.Text.Lines

/-!
# Input that is not typed

A text that does not come from a terminal is read line by line. Backspaces in it take back what is
before them, also across a line end. A line goes on in the next one as long as brackets are open.

## Main definitions

- `Piped`, `pipeLine` — what one more line comes to
- `Script`, `Script.ofText` — the events of a text
- `Dialogue.runScript` — a whole dialogue over a text
-/

namespace Packwright

/-- What a line comes to that is not typed. -/
inductive Piped where
  /-- An input without open brackets. -/
  | complete (input : String)
  /-- An input that goes on in the next line. -/
  | held (input : List Char)
  /-- A backspace that cuts a character. -/
  | broken
  deriving DecidableEq, Repr, Inhabited

/-- The input with one more line. An input that goes on keeps the line end. -/
def pipeLine (held line : List Char) : Piped :=
  let (body, ending) := Text.splitLineEnd line
  match Text.applyBackspaces (held ++ body) with
  | none => .broken
  | some input =>
    if Text.openBrackets input ≤ 0 then .complete (String.ofList input)
    else .held (input ++ ending)

/-- The events of a text, and whether reading breaks off after them. -/
structure Script where
  events : List LineEvent := []
  breaks : Bool := false
  deriving DecidableEq, Repr, Inhabited

namespace Script

/-- The events of some lines, given the input that goes on in them. What is held at the end is
lost. -/
def ofLines (held : List Char) : List (List Char) → Script
  | [] => {}
  | line :: rest =>
    match pipeLine held line with
    | .complete input =>
      let script := ofLines [] rest
      { script with events := .line input :: script.events }
    | .held held => ofLines held rest
    | .broken => { breaks := true }

/-- The events of a text. -/
def ofText (text : String) : Script := ofLines [] (Text.fullLines text.toList)

end Script

/-- A whole dialogue over a script. -/
def Dialogue.runScript (d : Dialogue) (script : Script) : Work Dialogue :=
  d.runTo (if script.breaks then fun _ => throw .crash else finish) script.events

end Packwright
