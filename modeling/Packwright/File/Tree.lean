import Packwright.File.Path
import Packwright.File.Problem

/-!
# File trees

The files that a program can see, as a value. A place is named from the working directory, from a
directory above it, or from the root; where the working directory lies is not known, and what lies
outside of it is empty to begin with. Operations walk a path part by part, as an operating system
does, so that two dots lead to the directory above. The lengths of paths and of names are limited.

## Main definitions

- `File.Content`, `File.Node` — files and directories
- `File.Place`, `File.Tree` — where something lies, and everything that lies somewhere
- `File.Path.checkLimits`, `File.isLongName` — the limits of paths and of names
- `File.Tree.find` — the place a path leads to
- `File.Tree.read` — the text of a file
- `File.Tree.write`, `File.Tree.makeDirectories`, `File.Tree.removeDirectory` — changes
-/

namespace Packwright.File

/-- The content of a file: text, or bytes that are no text. -/
inductive Content where
  | text (s : String)
  | binary (bytes : List UInt8)
  deriving DecidableEq, Repr, Inhabited

/-- A file or a directory. -/
inductive Node where
  | file (content : Content)
  | directory
  deriving DecidableEq, Repr, Inhabited

/-- Whether a name has more than 255 bytes, which no file or directory can have. -/
def isLongName (name : List Char) : Bool := Text.byteLength name > 255

/-- Rejects a path that nothing can be found at, whatever files there are: one with the character
zero in it, or of more than 4095 bytes. -/
def Path.checkLimits (p : Path) : Except Problem Unit :=
  if p.text.toList.any fun c => c.toNat = 0 then .error .zeroInName
  else if Text.byteLength p.text.toList > 4095 then .error .nameTooLong
  else .ok ()

/-- The directory that the names of a place start from. -/
inductive Anchor where
  /-- The working directory. -/
  | working
  /-- The directory so many levels above the parent of the working directory. -/
  | above (levels : Nat)
  /-- The root. -/
  | root
  deriving DecidableEq, Repr, Inhabited

/-- Where something lies: a directory to start from and the names from there. -/
structure Place where
  anchor : Anchor := .working
  names : List (List Char) := []
  deriving DecidableEq, Repr, Inhabited

namespace Anchor

/-- The directory above. The root is above itself. -/
def parent : Anchor → Anchor
  | .working => .above 0
  | .above levels => .above (levels + 1)
  | .root => .root

end Anchor

namespace Place

/-- The directory above. -/
def parent (p : Place) : Place :=
  if p.names = [] then ⟨p.anchor.parent, []⟩ else ⟨p.anchor, p.names.dropLast⟩

/-- The place one part of a path further on, whether or not there is anything. -/
def enter (p : Place) (part : List Char) : Place :=
  if isSilent part then p
  else if part = ['.', '.'] then p.parent
  else ⟨p.anchor, p.names ++ [part]⟩

/-- Whether the name of a place is too long for something to be made there. -/
def hasLongName (p : Place) : Bool := (p.names.getLast?.map isLongName).getD false

/-- Whether a place is another one or lies inside it. -/
def within (outer p : Place) : Bool :=
  outer.anchor = p.anchor && outer.names.isPrefixOf p.names

/-- Where a path starts. -/
def origin (path : Path) : Place := { anchor := if path.isAbsolute then .root else .working }

/-- The place that the parts of a path lead to, whether or not there is anything. -/
def ofPath (path : Path) : Place := (splitSlashes path.text.toList).foldl enter (origin path)

/-- A path that leads to a place. -/
def toPath (p : Place) : Path :=
  let names := joinSlashes p.names
  match p.anchor with
  | .working => ⟨String.ofList (['.', '/'] ++ names)⟩
  | .above levels =>
    ⟨String.ofList ((List.replicate (levels + 1) ['.', '.', '/']).flatten ++ names)⟩
  | .root => ⟨String.ofList ('/' :: names)⟩

end Place

/-- The files and directories, by their places. The directories that places start from are always
there. -/
structure Tree where
  nodes : List (Place × Node) := []
  deriving DecidableEq, Repr, Inhabited

namespace Tree

/-- What there is at a place. -/
def node? (t : Tree) (p : Place) : Option Node :=
  if p.names = [] then some .directory else t.nodes.lookup p

/-- Whether there is a directory at a place. -/
def isDirectory (t : Tree) (p : Place) : Bool := t.node? p = some .directory

/-- Follows the parts of a path from a place; every part is looked up in a directory. -/
def follow (t : Tree) (p : Place) : List (List Char) → Except Problem Place
  | [] => .ok p
  | part :: parts =>
    match t.node? p with
    | none => .error .notFound
    | some (.file _) => .error .notDirectory
    | some .directory =>
      if isLongName part then .error .nameTooLong
      else if (t.node? (p.enter part)).isSome then follow t (p.enter part) parts
      else .error .notFound

/-- The place a path leads to, where there must be something. -/
def find (t : Tree) (path : Path) : Except Problem Place := do
  path.checkLimits
  if path.text = "" then throw .notFound
  t.follow (.origin path) (splitSlashes path.text.toList)

/-- Whether there is something at a path. -/
def contains (t : Tree) (path : Path) : Bool :=
  match t.find path with
  | .ok _ => true
  | .error _ => false

/-- Whether there is a directory at a path. -/
def hasDirectory (t : Tree) (path : Path) : Bool :=
  match t.find path with
  | .ok p => t.isDirectory p
  | .error _ => false

/-- The text of the file at a path, and its place. -/
def read (t : Tree) (path : Path) : Except Problem (Place × String) := do
  let p ← t.find path
  match t.node? p with
  | some (.file (.text s)) => return (p, s)
  | some (.file (.binary _)) => throw .notText
  | some .directory => throw .isDirectory
  | none => throw .notFound

/-- Puts a node at a place, replacing what was there. -/
def put (t : Tree) (p : Place) (n : Node) : Tree :=
  ⟨t.nodes.filter (·.1 ≠ p) ++ [(p, n)]⟩

/-- The last part of a path, silent parts at the end apart, and the parts before it. -/
def lastPart (parts : List (List Char)) : Option (List (List Char) × List Char) :=
  let parts := (parts.reverse.dropWhile (· = [])).reverse
  parts.getLast?.map fun part => (parts.dropLast, part)

/-- The place for something new at a path: its directory must be there. -/
def newPlace (t : Tree) (path : Path) : Except Problem Place := do
  path.checkLimits
  match lastPart (splitSlashes path.text.toList) with
  | none => if path.isAbsolute then return ⟨.root, []⟩ else throw .notFound
  | some (before, part) =>
    let parent ← t.follow (.origin path) before
    if !t.isDirectory parent then throw .notDirectory
    return parent.enter part

/-- Writes the file at a path. -/
def write (t : Tree) (path : Path) (s : String) : Except Problem Tree := do
  let p ← t.newPlace path
  if t.isDirectory p || path.text.toList.getLast? = some '/' then throw .isDirectory
  if p.hasLongName then throw .nameTooLong
  return t.put p (.file (.text s))

/-- Makes one directory. -/
def makeDirectory (t : Tree) (path : Path) : Except Problem Tree := do
  if path.text = "" then throw .notFound
  let p ← t.newPlace path
  if p.hasLongName then throw .nameTooLong
  if (t.node? p).isSome then throw .alreadyExists
  return t.put p .directory

/-- Makes one directory, unless it is there. -/
def ensureDirectory (t : Tree) (path : Path) : Tree × Option Problem :=
  match t.makeDirectory path with
  | .ok t => (t, none)
  | .error problem => (t, if t.hasDirectory path then none else some problem)

/-- Makes a directory and those above it that are missing, at most `depth` of them. -/
def makeDirectoriesWithin : Nat → Tree → Path → Tree × Option Problem
  | depth, t, path =>
    if path.text = "" then (t, none)
    else
      match t.ensureDirectory path with
      | (t, some .notFound) =>
        match depth, path.parent? with
        | depth + 1, some parent =>
          match makeDirectoriesWithin depth t parent with
          | (t, none) => t.ensureDirectory path
          | failed => failed
        | _, _ => (t, some .notFound)
      | done => done

/-- Makes a directory and those above it that are missing. Those that were made stay when one
further down cannot be made. -/
def makeDirectories (t : Tree) (path : Path) : Tree × Option Problem :=
  makeDirectoriesWithin path.components.length t path

/-- Removes a directory with all that is in it. -/
def removeDirectory (t : Tree) (path : Path) : Except Problem Tree := do
  let p ← t.find path
  if !t.isDirectory p then throw .notDirectory
  return ⟨t.nodes.filter fun (q, _) => !p.within q⟩

/-- Removes the file at a path. -/
def removeFile (t : Tree) (path : Path) : Tree :=
  match t.find path with
  | .ok p => ⟨t.nodes.filter (·.1 ≠ p)⟩
  | .error _ => t

/-- The files with their places, in the order of their making. -/
def files (t : Tree) : List (Place × Content) :=
  t.nodes.filterMap fun (p, n) =>
    match n with
    | .file c => some (p, c)
    | .directory => none

end Tree

end Packwright.File
