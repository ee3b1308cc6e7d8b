import Packwright.Project.Config

/-!
# Files of a pack

Below the output directory a pack has a description, a file for each function and each resource, and
tags that name the functions run at load and every tick. Writing a pack replaces all data of an
earlier one.

## Main definitions

- `Artifact`, `Pack.artifacts` — the files of a pack in the order of their writing
- `Artifact.write` — writes one file, with the directories above it
- `Pack.write` — writes a pack
- `Summary` — how many functions and resources were written
-/

namespace Packwright

/-- A file of a pack. -/
structure Artifact where
  path : File.Path
  text : String
  deriving DecidableEq, Repr, Inhabited

namespace Artifact

/-- The description of a pack. -/
def description (root : File.Path) (config : Config) : Artifact where
  path := root.joinText "pack.mcmeta"
  text := Json.Codec.standard.pretty (.object [("pack", .object [
    ("description", .string config.description),
    ("pack_format", .number (.natural config.packFormat.toNat))])])

/-- The file of a function. -/
def ofFunction (data : File.Path) (space : String) (f : PackFunction) : Artifact where
  path := ((data.joinText space).joinText "functions").joinText (f.path.text ++ ".mcfunction")
  text := f.render

/-- The file of a resource. -/
def ofResource (data : File.Path) (space : String) (key : ResourceKey) (json : String) :
    Artifact where
  path := ((data.joinText space).joinText (key.kind ++ "s")).joinText (key.path ++ ".json")
  text := json

/-- The tag that names the one function run on an occasion. -/
def tag (data : File.Path) (occasion : String) (f : ResourceLocation) : Artifact where
  path := (((data.joinText "minecraft").joinText "tags").joinText "functions").joinText
    (occasion ++ ".json")
  text := Json.Codec.standard.pretty (.object [("values", .array [.string f.render])])

/-- Writes a file, with the directories above it. -/
def write (a : Artifact) : Work Unit := do
  match a.path.parent? with
  | some parent => Work.makeDirectories parent
  | none => pure ()
  Work.changeFiles a.path (·.write a.path a.text)
  Work.log .debug ("wrote " ++ a.path.text)

end Artifact

/-- How many functions and resources were written. -/
structure Summary where
  functions : Nat
  resources : Nat
  deriving DecidableEq, Repr, Inhabited

/-- A summary in words. -/
def Summary.render (s : Summary) (root : File.Path) : String :=
  "wrote " ++ toString s.functions ++ " functions and " ++ toString s.resources ++
    " resources to " ++ root.text

namespace Pack

/-- The functions of a pack as they are written, the load function with its set-up first. -/
def writtenFunctions (p : Pack) : List PackFunction :=
  ⟨loadPath, p.loadCommands⟩ :: p.allFunctions.filter (·.path ≠ loadPath)

/-- The tags of a pack. -/
def tags (p : Pack) (data : File.Path) : List Artifact :=
  Artifact.tag data "load" (loadPath.inSpace p.space) ::
    if p.tick?.isSome then [Artifact.tag data "tick" (tickPath.inSpace p.space)] else []

/-- The files of a pack below its data directory. -/
def artifacts (p : Pack) (data : File.Path) : List Artifact :=
  p.writtenFunctions.map (Artifact.ofFunction data p.space) ++
    p.sortedResources.map (fun (key, json) => Artifact.ofResource data p.space key json) ++
    p.tags data

/-- How many functions and resources a pack has. -/
def summary (p : Pack) : Summary := ⟨p.writtenFunctions.length, p.resources.length⟩

/-- The directory of the data of a pack. -/
def dataPath (root : File.Path) : File.Path := root.joinText "data"

/-- Writes a pack to the output directory, in place of earlier data there. -/
def write (p : Pack) (config : Config) : Work Summary := do
  let root := config.outputPath
  let data := dataPath root
  if (← get).files.contains data then Work.changeFiles data (·.removeDirectory data)
  Work.makeDirectories root
  (Artifact.description root config).write
  (p.artifacts data).forM Artifact.write
  Work.log .info (p.summary.render root)
  return p.summary

end Pack

/-- Compiles the entry file of a project and writes the pack. -/
def Config.build (c : Config) : Work Summary := do
  Work.ofExcept c.validate
  let s ← Work.compile c.settings Session.compileEntry
  let summary ← s.pack.write c
  if s.warnings.length > 0 then
    Work.log .info ("finished with " ++ toString s.warnings.length ++ " warning(s)")
  return summary

end Packwright
