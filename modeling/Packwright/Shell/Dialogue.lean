import Packwright.Shell.Basic
import Packwright.Text.Brackets

/-!
# Dialogue with the shell

A dialogue reads lines until the brackets of an input are closed, evaluates the input, shows the
answer or reports the error, and goes on until the input ends or the user leaves.

## Main definitions

- `LineEvent` — what comes of reading a line
- `Dialogue` — the shell, the input so far, and what was asked and evaluated
- `Dialogue.step`, `Dialogue.run` — one event, and all of them
-/

namespace Packwright

/-- What comes of reading a line. -/
inductive LineEvent where
  | line (text : String)
  /-- The user cancels the input. -/
  | interrupted
  /-- There is no more to read. -/
  | ended
  /-- Reading does not work. -/
  | failed
  deriving DecidableEq, Repr, Inhabited

/-- A dialogue with the shell. -/
structure Dialogue where
  shell : Shell
  /-- The lines of an input with brackets still open. -/
  held : Option String := none
  /-- Every prompt so far. -/
  prompts : List String := []
  /-- Every input evaluated so far. -/
  history : List String := []
  deriving DecidableEq, Repr, Inhabited

namespace Dialogue

/-- The prompt for the next line. -/
def prompt (d : Dialogue) : String := if d.held.isNone then "quill> " else "...... "

/-- The dialogue after asking for a line. -/
def ask (d : Dialogue) : Dialogue := { d with prompts := d.prompts ++ [d.prompt] }

/-- The input with one more line. -/
def extend (held : Option String) (line : String) : String :=
  match held with
  | none => line
  | some text => text ++ "\n" ++ line

/-- Runs a step and hands on its fault, if there is one, as a value. -/
def attempt {α : Type} (m : Work α) : Work (Except Fault α) := ExceptT.mk do
  match ← m.run with
  | .ok a => return .ok (.ok a)
  | .error (.fault f) => return .ok (.error f)
  | .error failure => return .error failure

/-- Reports a fault. -/
def report (f : Fault) : Work Unit := Work.say (.error f.render)

/-- Evaluates an input; tells whether the dialogue goes on. Blank inputs are passed over. -/
def evaluate (d : Dialogue) (input : String) : Work (Dialogue × Bool) := do
  if Text.allBlank input then return (d, true)
  let d := { d with history := d.history ++ [input] }
  match ← attempt (d.shell.eval input) with
  | .error f =>
    report f
    return (d, true)
  | .ok (none, shell) => return ({ d with shell }, false)
  | .ok (some answer, shell) =>
    Work.say (.shown (answer ++ "\n"))
    return ({ d with shell }, true)

/-- Takes an event; tells whether the dialogue goes on. -/
def take (d : Dialogue) : LineEvent → Work (Dialogue × Bool)
  | .line text =>
    let input := extend d.held text
    if Text.isComplete input then { d with held := none }.evaluate input
    else return ({ d with held := some input }, true)
  | .interrupted => do
    if d.held.isSome then Work.say (.shown "\nInput cancelled.\n")
    return ({ d with held := none }, true)
  | .ended => do
    if d.held.isNone then return (d, false)
    report { cause := .endInsideInput }
    return ({ d with held := none }, true)
  | .failed => do
    report { cause := .terminalFailure }
    return ({ d with held := none }, true)

/-- Asks for a line and takes what comes of it. -/
def step (d : Dialogue) (r : LineEvent) : Work (Dialogue × Bool) := d.ask.take r

/-- The last events, once there is no more to read. An input that is cut off is reported, and a
second reading ends the dialogue. -/
def finish (d : Dialogue) : Work Dialogue := do
  let (d, more) ← d.step .ended
  if more then
    let (d, _) ← d.step .ended
    return d
  else return d

/-- Takes events until the dialogue is over; `last` is what happens once there are no more. -/
def takeAll (last : Dialogue → Work Dialogue) (d : Dialogue) : List LineEvent → Work Dialogue
  | [] => last d
  | r :: rest => do
    let (d, more) ← d.step r
    if more then takeAll last d rest else return d

/-- The greeting of a dialogue. -/
def banner (sh : Shell) : Message :=
  .shown ("\x1b[1;36mQuill\x1b[0m v0.1.0\n" ++ "Project '" ++ sh.config.space ++ "' from " ++
    sh.configPath.text ++ ". Type 'help' for commands, Ctrl+D to exit.\n\n")

/-- What is said at the end of a dialogue. -/
def farewell : Message := .shown "\nGoodbye!\n"

/-- A whole dialogue over some events; `last` is what happens once there are no more. -/
def runTo (last : Dialogue → Work Dialogue) (d : Dialogue) (events : List LineEvent) :
    Work Dialogue := do
  let d ← d.takeAll last events
  Work.say farewell
  return d

/-- A whole dialogue over some events, after which there is no more to read. -/
def run (d : Dialogue) (events : List LineEvent) : Work Dialogue := d.runTo finish events

end Dialogue

end Packwright
