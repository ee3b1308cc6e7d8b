import Packwright.Text.Cluster
import Packwright.Text.Search

/-!
# Backspaces

A backspace in a text takes back the cluster before it; with nothing before it, it does nothing. How
much a cluster takes is kept in one byte, so of a cluster of 256 bytes or more only the remainder is
taken back, and the text breaks where that would cut a character.

## Main definitions

- `Text.Typed` — a text with the sizes of its clusters
- `Text.applyBackspaces` — a text after its backspaces
-/

namespace Packwright.Text

/-- A text, backwards, with the sizes of its clusters, the last one first. -/
structure Typed where
  text : List Char := []
  sizes : List UInt8 := []
  deriving DecidableEq, Repr, Inhabited

namespace Typed

/-- The text with one more cluster. -/
def add (t : Typed) (cluster : List Char) : Typed :=
  ⟨cluster.reverse ++ t.text, (byteLength cluster).toUInt8 :: t.sizes⟩

/-- The text without its last cluster; none if a character would be cut. -/
def takeBack (t : Typed) : Option Typed :=
  match t.sizes with
  | [] => some t
  | size :: sizes => (splitBytes size.toNat t.text).map fun (_, text) => ⟨text, sizes⟩

/-- The text after one more cluster, which may be a backspace. -/
def type (t : Typed) (cluster : List Char) : Option Typed :=
  if cluster = ['\x08'] then t.takeBack else some (t.add cluster)

end Typed

/-- A text after its backspaces; none if one of them would cut a character. -/
def applyBackspaces (cs : List Char) : Option (List Char) :=
  ((clusters cs).foldlM Typed.type {}).map fun t => t.text.reverse

end Packwright.Text
