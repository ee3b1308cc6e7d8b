import Packwright.Text.Search

/-!
# Paths

A path is a text with slashes. Its parts are what lies between the slashes; empty parts and single
dots say nothing, except for a dot at the very start, and two dots name the directory above. A path
that starts with a slash is absolute.

## Main definitions

- `File.Path` — a path as written
- `File.Path.components` — the parts that say something
- `File.Path.join`, `File.Path.parent?`, `File.Path.relativeTo?` — paths from paths
- `File.Path.extension?`, `File.Path.withExtension` — the ending of the last name
-/

namespace Packwright.File

/-- A part of a path that says something. -/
inductive Component where
  | root
  | here
  | above
  | name (s : List Char)
  deriving DecidableEq, Repr, Inhabited

/-- A path as written. -/
structure Path where
  text : String
  deriving DecidableEq, Repr, Inhabited

/-- Splits a text at slashes. -/
def splitSlashes : List Char → List (List Char)
  | [] => [[]]
  | c :: rest =>
    if c = '/' then [] :: splitSlashes rest
    else
      match splitSlashes rest with
      | part :: parts => (c :: part) :: parts
      | [] => [[c]]

/-- Joins parts with slashes. -/
def joinSlashes : List (List Char) → List Char
  | [] => []
  | [part] => part
  | part :: parts => part ++ '/' :: joinSlashes parts

/-- Whether a part says nothing: it is empty or a single dot. -/
def isSilent (part : List Char) : Bool := part = [] || part = ['.']

/-- Drops the silent parts at the end. -/
def trimParts (parts : List (List Char)) : List (List Char) :=
  (parts.reverse.dropWhile isSilent).reverse

/-- Drops parts up to and including the `n`-th one that says something. -/
def dropParts : Nat → List (List Char) → List (List Char)
  | 0, parts => parts
  | _ + 1, [] => []
  | n + 1, part :: parts => if isSilent part then dropParts (n + 1) parts else dropParts n parts
  termination_by structural _ parts => parts

namespace Path

/-- A path cut into its lead, which is a slash, a dot or nothing, and the parts behind it. -/
def cut (p : Path) : List Char × List (List Char) :=
  match p.text.toList with
  | '/' :: rest => (['/'], splitSlashes rest)
  | ['.'] => (['.'], [[]])
  | '.' :: '/' :: rest => (['.'], [] :: splitSlashes rest)
  | cs => ([], splitSlashes cs)

/-- The component a lead stands for. -/
def leadComponents (lead : List Char) : List Component :=
  if lead = ['/'] then [.root] else if lead = ['.'] then [.here] else []

/-- The component a part stands for. -/
def partComponent (part : List Char) : Component :=
  if part = ['.', '.'] then .above else .name part

/-- The parts of a path that say something. -/
def components (p : Path) : List Component :=
  let (lead, parts) := p.cut
  leadComponents lead ++ (parts.filter (!isSilent ·)).map partComponent

/-- A path from its lead and the parts behind it. -/
def ofCut (lead : List Char) (parts : List (List Char)) : Path :=
  ⟨String.ofList (lead ++ joinSlashes parts)⟩

/-- Whether a path starts at the root. -/
def isAbsolute (p : Path) : Bool := p.text.toList.head? = some '/'

/-- A path behind another; an absolute one replaces it. -/
def join (p q : Path) : Path :=
  if q.isAbsolute || p.text = "" then q
  else if p.text.toList.getLast? = some '/' then ⟨p.text ++ q.text⟩
  else ⟨p.text ++ "/" ++ q.text⟩

/-- A path behind another, given as text. -/
def joinText (p : Path) (s : String) : Path := p.join ⟨s⟩

/-- The path without its last part; none for the root and the empty path. -/
def parent? (p : Path) : Option Path :=
  let (lead, parts) := p.cut
  match trimParts parts with
  | [] => if lead = ['.'] then some ⟨""⟩ else none
  | parts => some (ofCut lead (trimParts parts.dropLast))

/-- The path as seen from another one that it begins with. -/
def relativeTo? (base p : Path) : Option Path :=
  let (lead, parts) := p.cut
  if base.components.isPrefixOf p.components then
    let count := base.components.length
    if count = 0 then some (ofCut lead (trimParts parts))
    else
      let parts := dropParts (count - (leadComponents lead).length) parts
      some (ofCut [] (trimParts (parts.dropWhile isSilent)))
  else none

/-- The last part, when it is a name. -/
def fileName? (p : Path) : Option (List Char) :=
  match p.components.getLast? with
  | some (.name s) => some s
  | _ => none

/-- The part of a name behind its last dot; none without a dot or with only a leading one. -/
def extensionOf? (name : List Char) : Option (List Char) :=
  let after := name.reverse.takeWhile (· ≠ '.')
  let before := (name.reverse.drop after.length).drop 1
  if before.isEmpty then none else some after.reverse

/-- The ending of the last name. -/
def extension? (p : Path) : Option (List Char) := p.fileName?.bind extensionOf?

/-- Adds an ending to a path whose last part is a name without one. -/
def withExtension (p : Path) (ending : String) : Path :=
  if p.fileName?.isSome && p.extension?.isNone then
    let (lead, parts) := p.cut
    ofCut lead (trimParts parts) |>.text ++ "." ++ ending |> Path.mk
  else p

end Path

end Packwright.File
