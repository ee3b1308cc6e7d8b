import Packwright.Json.Record
import Packwright.Project.Workspace

/-!
# Configuration of a project

A project is described by a JSON file. Paths in it are relative to the directory that holds it.
Without the file, or for fields that it leaves out, there are defaults.

## Main definitions

- `Config`, `Config.render` — a configuration and its JSON text
- `Config.Codec`, `Config.Codec.standard` — what writes a configuration as text and reads it
- `Config.load`, `Config.save` — reading and writing the file
- `Config.validate` — whether a pack can be built with it
- `Config.outputPath`, `Config.settings` — what it says about output and compilation
-/

namespace Packwright

/-- The usual name of the configuration file. -/
def Config.fileName : String := "quill.json"

/-- The configuration of a project. -/
structure Config where
  space : String := "quill"
  description : String := "Compiled with Quill"
  packFormat : UInt32 := 26
  /-- The entry file. -/
  target : File.Path := ⟨"main.quill"⟩
  /-- The directory the pack is written to. -/
  output : File.Path := ⟨"build"⟩
  /-- Whether the log is detailed. -/
  verbose : Bool := false
  /-- The directory that the paths are relative to. -/
  root : File.Path := ⟨"."⟩
  deriving DecidableEq, Repr, Inhabited

namespace Config

/-- The fields of the file, in their order. -/
def fields : List (Json.RecordField Config) := [
  ⟨"namespace", fun c => do return { c with space := ← Json.readText "a string" }⟩,
  ⟨"description", fun c => do return { c with description := ← Json.readText "a string" }⟩,
  ⟨"pack_format", fun c => do return { c with packFormat := ← Json.readWord32 }⟩,
  ⟨"target", fun c => do return { c with target := ⟨← Json.readText "path string"⟩ }⟩,
  ⟨"output", fun c => do return { c with output := ⟨← Json.readText "path string"⟩ }⟩,
  ⟨"verbose", fun c => do return { c with verbose := ← Json.readBool }⟩]

/-- The fields of a configuration in their order. -/
def members (c : Config) : List (String × Json) := [
  ("namespace", .string c.space),
  ("description", .string c.description),
  ("pack_format", .number (.natural c.packFormat.toNat)),
  ("target", .string c.target.text),
  ("output", .string c.output.text),
  ("verbose", .bool c.verbose)]

/-- The JSON text of a configuration. -/
def render (c : Config) : String := Json.pretty (.object c.members)

/-- Reads a configuration from its JSON text. -/
def parse (text : String) : Except Json.Mistake Config :=
  Json.run (Json.readRecord "struct PackConfig" fields {}) text

/-- What writes a configuration as text and reads it. The directory is not part of the text. -/
structure Codec where
  encode : Config → String
  /-- The configuration of a text, or what is told of the first mistake in it. -/
  decode : String → Except Json.Report Config

/-- The codec of the program. -/
def Codec.standard : Codec where
  encode := render
  decode text := (parse text).mapError Json.Mistake.report

/-- The directory that holds a configuration file. -/
def rootOf (path : File.Path) : File.Path :=
  match path.parent? with
  | some parent => if parent.text = "" then ⟨"."⟩ else parent
  | none => ⟨"."⟩

/-- The fault of a configuration file with a mistake in it. -/
def mistakeFault (path : File.Path) (text : String) (r : Json.Report) : Fault :=
  { cause := .invalidConfiguration r.text,
    location := some (.inSource path.text text r.line.toUInt32 r.column.toUInt32) }

/-- Reads a configuration file; the defaults if there is none. -/
def load (path : File.Path) (codec : Codec := .standard) : Work Config := do
  match (← get).files.read path with
  | .error .notFound =>
    Work.log .debug ("'" ++ path.text ++ "' not found, using default configuration")
    return { root := rootOf path }
  | .error problem => Work.fail { cause := .fileFailure path.text problem }
  | .ok (_, text) =>
    match codec.decode text with
    | .ok c => return { c with root := rootOf path }
    | .error r => Work.fail (mistakeFault path text r)

/-- Writes a configuration file. -/
def save (c : Config) (path : File.Path) (codec : Codec := .standard) : Work Unit :=
  Work.changeFiles path (·.write path (codec.encode c ++ "\n"))

/-- Rejects a namespace that is not allowed and the pack format zero. -/
def validate (c : Config) : Except Fault Unit := do
  validateSpace c.space
  if c.packFormat = 0 then throw { cause := .packFormatZero }

/-- The directory the pack is written to. -/
def outputPath (c : Config) : File.Path := c.root.join c.output

/-- The settings of a compilation of the project. -/
def settings (c : Config) : Settings := { space := c.space, entry := c.target, base := c.root }

end Config

end Packwright
