import Packwright.Text.CaseTable
import Packwright.Text.Ranges

/-!
# Lower case

The lower-case form of a text by the default rules of Unicode. Two characters do not map to one
character alone: a capital I with a dot keeps its dot as a combining mark, and a capital sigma has
a form of its own at the end of a word.

## Main definitions

- `Text.lowercase` — the lower-case form of a text
- `Text.endsWord` — whether a sigma between two texts stands at the end of a word
-/

namespace Packwright.Text

/-- Whether a character is a cased letter. -/
def isCased (c : Char) : Bool := inRanges casedRanges c.toNat

/-- Whether a character is passed over in the search for a cased letter. -/
def isCaseIgnorable (c : Char) : Bool := inRanges caseIgnorableRanges c.toNat

/-- Whether a cased letter comes first once the ignorable characters are passed over. -/
def reachesCased (cs : List Char) : Bool :=
  match cs.dropWhile isCaseIgnorable with
  | c :: _ => isCased c
  | [] => false

/-- Whether a letter stands at the end of a word, given what is before it, backwards, and what is
after it. -/
def endsWord (before after : List Char) : Bool := reachesCased before && !reachesCased after

/-- The lower-case form of a single character outside ASCII. -/
def lowerOne (c : Char) : Char :=
  match lowerRanges.findSome? (·.lower? c.toNat) with
  | some n => Char.ofNat n
  | none => c

/-- The lower-case form of a text, given what was before it, backwards. -/
def lowercaseAfter (before : List Char) : List Char → List Char
  | [] => []
  | c :: rest =>
    let low :=
      if c.toNat < 128 then [c.toLower]
      else if c = 'Σ' then [if endsWord before rest then 'ς' else 'σ']
      else if c = 'İ' then ['i', Char.ofNat 0x307]
      else [lowerOne c]
    low ++ lowercaseAfter (c :: before) rest

/-- The lower-case form of a text. -/
def lowercase (cs : List Char) : List Char := lowercaseAfter [] cs

end Packwright.Text
