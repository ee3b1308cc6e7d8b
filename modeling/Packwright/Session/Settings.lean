import Packwright.Diagnostic.Fault
import Packwright.File.Path
import Packwright.Json.Codec

/-!
# Settings of a compilation

The namespace of the pack, the entry file, the directory that source paths are relative to, and what
reads and writes JSON text.

## Main definitions

- `Settings` — the settings
- `Settings.entryPath`, `Settings.importPath`, `Settings.displayName` — paths of source files
- `validateSpace` — which namespaces are allowed
-/

namespace Packwright

/-- The ending of source files. -/
def sourceEnding : String := "quill"

/-- The settings of one compilation. -/
structure Settings where
  space : String := "quill"
  entry : File.Path := ⟨"main.quill"⟩
  base : File.Path := ⟨"."⟩
  codec : Json.Codec := .standard
  deriving Inhabited

/-- Characters of a namespace. -/
def isSpaceChar (c : Char) : Bool :=
  c.isLower || c.isDigit || c = '_' || c = '.' || c = '-'

/-- Rejects an empty namespace and one with a character that is not allowed. -/
def validateSpace (space : String) : Except Fault Unit :=
  if space = "" then .error { cause := .emptyNamespace }
  else
    match space.toList.find? fun c => !isSpaceChar c with
    | some c => .error { cause := .invalidNamespace c space }
    | none => .ok ()

namespace Settings

/-- The path of the entry file. -/
def entryPath (s : Settings) : File.Path := s.base.join s.entry

/-- The path of an imported file; without an ending it gets that of source files. -/
def importPath (s : Settings) (name : String) : File.Path :=
  (s.base.joinText name).withExtension sourceEnding

/-- The name of a source file in messages: its path from the base directory. -/
def displayName (s : Settings) (path : File.Path) : String :=
  ((File.Path.relativeTo? s.base path).getD path).text

end Settings

end Packwright
