/-!
# Searching and cutting text

Operations on lists of characters that find a fixed piece of text, and their forms on strings.

## Main definitions

- `Text.splitOnce` — the parts before and after the first occurrence of a mark
- `Text.occurs` — whether a mark occurs at all
- `Text.replaceChar` — every occurrence of one character replaced by a text
- `Text.byteLength`, `Text.splitBytes` — lengths and cuts in UTF-8 bytes
-/

namespace Packwright.Text

/-- The parts before and after the first occurrence of `mark`. -/
def splitOnce (mark : List Char) : List Char → Option (List Char × List Char)
  | [] => if mark.isEmpty then some ([], []) else none
  | c :: rest =>
    match mark.isPrefixOf? (c :: rest) with
    | some after => some ([], after)
    | none => (splitOnce mark rest).map fun (before, after) => (c :: before, after)

/-- Whether `mark` occurs in the text. -/
def occurs (mark text : List Char) : Bool :=
  (splitOnce mark text).isSome

/-- The text after a leading `mark`, when the text starts with it. -/
def after? (mark text : String) : Option String :=
  (mark.toList.isPrefixOf? text.toList).map String.ofList

/-- Whether the text starts with `mark`. -/
def startsWith (mark text : String) : Bool :=
  mark.toList.isPrefixOf text.toList

/-- Whether the text ends with `mark`. -/
def endsWith (mark text : String) : Bool :=
  mark.toList.isSuffixOf text.toList

/-- Replaces every occurrence of one character by a piece of text. -/
def replaceChar (old : Char) (new : List Char) (cs : List Char) : List Char :=
  cs.flatMap fun c => if c = old then new else [c]

/-- Length in UTF-8 bytes. -/
def byteLength (cs : List Char) : Nat :=
  cs.foldr (fun c n => c.utf8Size + n) 0

/-- Cuts a text after the given number of UTF-8 bytes; there is no cut inside a character or past
the end. -/
def splitBytes : Nat → List Char → Option (List Char × List Char)
  | 0, cs => some ([], cs)
  | _ + 1, [] => none
  | n + 1, c :: rest =>
    if c.utf8Size ≤ n + 1 then
      (splitBytes (n + 1 - c.utf8Size) rest).map fun (before, after) => (c :: before, after)
    else none
  termination_by structural _ cs => cs

/-- Joins texts with a separator between neighbours. -/
def joinWith (separator : String) : List String → String
  | [] => ""
  | [s] => s
  | s :: rest => s ++ separator ++ joinWith separator rest

end Packwright.Text
