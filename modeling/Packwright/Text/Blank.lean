/-!
# Blank characters

White space in source text is the Unicode property `White_Space`: the ASCII blanks, the next-line
and no-break characters, and the typographic spaces and separators.

## Main definitions

- `Text.isBlank` — the property as a test on characters
- `Text.trimList`, `Text.trim` — a text without the blanks at its two ends
-/

namespace Packwright.Text

/-- The twenty-five characters with the Unicode property `White_Space`. -/
def isBlank (c : Char) : Bool :=
  let n := c.toNat
  (0x09 ≤ n && n ≤ 0x0D) || n == 0x20 || n == 0x85 || n == 0xA0 || n == 0x1680 ||
    (0x2000 ≤ n && n ≤ 0x200A) || n == 0x2028 || n == 0x2029 || n == 0x202F || n == 0x205F ||
    n == 0x3000

/-- Drops the blanks at the end of a list of characters. -/
def trimRight (cs : List Char) : List Char :=
  (cs.reverse.dropWhile isBlank).reverse

/-- Drops the blanks at both ends of a list of characters. -/
def trimList (cs : List Char) : List Char :=
  trimRight (cs.dropWhile isBlank)

/-- Drops the blanks at both ends of a text. -/
def trim (s : String) : String :=
  String.ofList (trimList s.toList)

/-- A text that holds nothing but blanks. -/
def allBlank (s : String) : Bool :=
  s.toList.all isBlank

end Packwright.Text
