import Packwright.Diagnostic.Cause
import Packwright.Diagnostic.Location

/-!
# Faults and warnings

A `Fault` is a cause together with the place where it was found, a `Warning` is a notice together
with its place. Positions are known first; file name and line text are added by `inFile`.

## Main definitions

- `Fault`, `Fault.render` — a failure and its full text
- `Warning`, `Warning.render` — a warning and its text
-/

namespace Packwright

/-- A failure: what went wrong and, when known, where. -/
structure Fault where
  cause : Cause
  location : Option Location := none
  deriving DecidableEq, Repr, Inhabited

namespace Fault

/-- A failure at a position of a file that is not named yet. -/
def located (cause : Cause) (p : Position) : Fault := ⟨cause, some p.location⟩

/-- Attaches a location, replacing an earlier one. -/
def withLocation (l : Location) (f : Fault) : Fault := { f with location := some l }

/-- Attaches a location unless there is one already. -/
def orLocation (l : Location) (f : Fault) : Fault := { f with location := f.location.or (some l) }

/-- Names the file of the location and adds the line text, where these are still missing. -/
def inFile (file source : String) (f : Fault) : Fault :=
  { f with location := f.location.map (·.fill file source) }

/-- The family of a failure. -/
def kind (f : Fault) : Kind := f.cause.kind

/-- The full text of a failure: family, wording, place and offending line. -/
def render (f : Fault) : String :=
  f.kind.name ++ " error: " ++ f.cause.message ++ (f.location.map Location.arrow).getD ""

end Fault

/-- A warning: what was noticed and, when known, where. -/
structure Warning where
  notice : Notice
  location : Option Location := none
  deriving DecidableEq, Repr, Inhabited

namespace Warning

/-- Names the file of the location and adds the line text, where these are still missing. -/
def inFile (file source : String) (w : Warning) : Warning :=
  { w with location := w.location.map (·.fill file source) }

/-- The text of a warning, behind its place. -/
def render (w : Warning) : String :=
  match w.location with
  | some l => l.render ++ ": " ++ w.notice.message
  | none => w.notice.message

end Warning

end Packwright
