import Packwright.Text.Lowercase
import Packwright.Text.Search

/-!
# Function paths

A function is named by a lower-case path with slashes, relative to the namespace of its pack.
Generated functions live under one reserved first part.

## Main definitions

- `FunctionPath`, `FunctionPath.ofName` — a path and the dotted source name it comes from
- `FunctionPath.generated`, `FunctionPath.isPrivate` — paths of generated functions
- `ResourceLocation` — a path in a namespace
-/

namespace Packwright

/-- The first part of the paths of generated functions. -/
def privateSegment : String := "__private__"

/-- The path of a function inside its namespace. -/
structure FunctionPath where
  text : String
  deriving DecidableEq, Repr, Inhabited

/-- A path in a namespace. -/
structure ResourceLocation where
  space : String
  path : FunctionPath
  deriving DecidableEq, Repr, Inhabited

/-- `namespace:path`. -/
def ResourceLocation.render (l : ResourceLocation) : String := l.space ++ ":" ++ l.path.text

namespace FunctionPath

/-- The path of a dotted source name: lower case, with slashes for dots. -/
def ofName (name : String) : FunctionPath :=
  ⟨String.ofList (Text.replaceChar '.' ['/'] (Text.lowercase name.toList))⟩

/-- The path of a generated function. -/
def generated (feature name : String) : FunctionPath :=
  ⟨privateSegment ++ "/" ++ feature ++ "/" ++ name⟩

/-- Whether the path lies among those of generated functions. -/
def isPrivate (p : FunctionPath) : Bool :=
  p.text = privateSegment || Text.startsWith (privateSegment ++ "/") p.text

/-- The path behind another one, which may be empty. -/
def under (parent : FunctionPath) (p : FunctionPath) : FunctionPath :=
  if parent.text = "" then p else ⟨parent.text ++ "/" ++ p.text⟩

/-- The path in a namespace. -/
def inSpace (space : String) (p : FunctionPath) : ResourceLocation := ⟨space, p⟩

end FunctionPath

end Packwright
