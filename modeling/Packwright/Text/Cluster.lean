import Packwright.Text.ClusterTable
import Packwright.Text.Ranges

/-!
# Clusters

A cluster is a run of characters that a reader sees as one: a letter with its marks, a syllable, a
flag, a picture made of several. Texts are cut into clusters by the default rules of Unicode for
extended grapheme clusters, which look at the next character and at the cluster before it.

## Main definitions

- `Text.JoinClass`, `Text.joinClass` — how characters behave at the edge of a cluster
- `Text.joins` — whether a character goes on with a cluster
- `Text.clusters` — a text cut into clusters
-/

namespace Packwright.Text

/-- How a character behaves at the edge of a cluster. -/
inductive JoinClass where
  /-- A carriage return, which is one with the line feed behind it. -/
  | carriageReturn
  | lineFeed
  /-- Any other character that stands alone. -/
  | control
  /-- A mark that joins what is before it. -/
  | extend
  /-- The zero-width joiner. -/
  | joiner
  /-- A mark with a width of its own, which joins what is before it. -/
  | spacing
  /-- A sign that joins what is behind it. -/
  | prepend
  /-- A consonant that a Hangul syllable begins with. -/
  | leading
  /-- A vowel of a Hangul syllable. -/
  | vowel
  /-- A consonant that a Hangul syllable ends with. -/
  | trailing
  /-- A Hangul syllable that ends with its vowel. -/
  | openSyllable
  /-- A Hangul syllable that ends with a consonant. -/
  | closedSyllable
  /-- One of the two letters of a flag. -/
  | regional
  | pictograph
  /-- A consonant of conjuncts. -/
  | consonant
  | plain
  deriving DecidableEq, Repr, Inhabited

/-- The class of a code point outside ASCII that is no Hangul syllable. -/
def tableClass (n : Nat) : JoinClass :=
  if inRanges extendRanges n then .extend
  else if inRanges spacingRanges n then .spacing
  else if inRanges consonantRanges n then .consonant
  else if inRanges pictographRanges n then .pictograph
  else if inRanges controlRanges n then .control
  else if inRanges prependRanges n then .prepend
  else if inRanges leadingRanges n then .leading
  else if inRanges vowelRanges n then .vowel
  else if inRanges trailingRanges n then .trailing
  else .plain

/-- The class of a character. -/
def joinClass (c : Char) : JoinClass :=
  let n := c.toNat
  if n = 0x0D then .carriageReturn
  else if n = 0x0A then .lineFeed
  else if n < 0x20 then .control
  else if n < 0x7F then .plain
  else if n = 0x200D then .joiner
  else if 0x1F1E6 ≤ n && n ≤ 0x1F1FF then .regional
  else if 0xAC00 ≤ n && n ≤ 0xD7A3 then
    if (n - 0xAC00) % 28 = 0 then .openSyllable else .closedSyllable
  else tableClass n

/-- Whether a character always ends the cluster before it and its own. -/
def JoinClass.standsAlone : JoinClass → Bool
  | .carriageReturn | .lineFeed | .control => true
  | _ => false

/-- Whether a character links the consonants of a conjunct. -/
def isLinker (c : Char) : Bool := inRanges linkerRanges c.toNat

/-- Whether a character may stand between the consonants of a conjunct: a linker, a joiner, or a
mark other than the zero-width non-joiner. -/
def isConjunctPart (c : Char) : Bool :=
  joinClass c = .joiner || joinClass c = .extend && c.toNat ≠ 0x200C

/-- Whether a cluster, given backwards, is the first part of a conjunct: a consonant and a linker
with nothing but conjunct parts around it. -/
def awaitsConsonant (cluster : List Char) : Bool :=
  (cluster.takeWhile isConjunctPart).any isLinker &&
    (cluster.dropWhile isConjunctPart).head?.map joinClass = some .consonant

/-- Whether a cluster, given backwards, is a pictograph with marks and a joiner behind it. -/
def awaitsPictograph : List Char → Bool
  | [] => false
  | c :: rest =>
    joinClass c = .joiner &&
      (rest.dropWhile (joinClass · = .extend)).head?.map joinClass = some .pictograph

/-- Whether a cluster, given backwards, ends with an odd number of letters of flags. -/
def awaitsRegional (cluster : List Char) : Bool :=
  (cluster.takeWhile (joinClass · = .regional)).length % 2 = 1

/-- Whether two neighbours belong to one Hangul syllable. -/
def formsSyllable (last next : JoinClass) : Bool :=
  match last, next with
  | .leading, .leading | .leading, .vowel | .leading, .openSyllable | .leading, .closedSyllable =>
    true
  | .openSyllable, .vowel | .openSyllable, .trailing | .vowel, .vowel | .vowel, .trailing => true
  | .closedSyllable, .trailing | .trailing, .trailing => true
  | _, _ => false

/-- Whether a character goes on with a cluster that ends in `last` and has `before`, given
backwards, in front of that. -/
def joins (last : Char) (before : List Char) (next : Char) : Bool :=
  match joinClass last, joinClass next with
  | .carriageReturn, .lineFeed => true
  | a, b =>
    if a.standsAlone || b.standsAlone then false
    else if b = .extend || b = .joiner || b = .spacing || a = .prepend then true
    else if b = .consonant then awaitsConsonant (last :: before)
    else if b = .pictograph then awaitsPictograph (last :: before)
    else if b = .regional then awaitsRegional (last :: before)
    else formsSyllable a b

/-- The clusters of a text, given the cluster that was begun: its last character and, backwards,
those before it. -/
def clustersFrom (last : Char) (before : List Char) : List Char → List (List Char)
  | [] => [(last :: before).reverse]
  | c :: rest =>
    if joins last before c then clustersFrom c (last :: before) rest
    else (last :: before).reverse :: clustersFrom c [] rest

/-- A text cut into clusters. -/
def clusters : List Char → List (List Char)
  | [] => []
  | c :: rest => clustersFrom c [] rest

end Packwright.Text
