import Packwright.Text.Lines

/-!
# Source locations

A `Position` is a line and a column, both counted from one and in characters. The counts are words
of 32 bits and start again at zero past the largest one. A `Location` adds the name of the file and
the text of the line, which are filled in once the file is known.

## Main definitions

- `Position`, `Location` — where something was written
- `Location.fill` — adds file name and line text where they are still missing
- `Location.pointer` — the offending line with a caret under the column
-/

namespace Packwright

/-- A line and a column of a source text, counted from one. -/
structure Position where
  line : UInt32
  column : UInt32
  deriving DecidableEq, Repr, Inhabited

namespace Position

/-- The position after one more character. -/
def advance (p : Position) (c : Char) : Position :=
  if c = '\n' then ⟨p.line + 1, 1⟩ else ⟨p.line, p.column + 1⟩

/-- The position after a run of characters. -/
def walk (p : Position) (cs : List Char) : Position :=
  cs.foldl advance p

@[simp] theorem walk_nil (p : Position) : p.walk [] = p := rfl

@[simp] theorem walk_cons (p : Position) (c : Char) (cs : List Char) :
    p.walk (c :: cs) = (p.advance c).walk cs := rfl

theorem walk_append (p : Position) (xs ys : List Char) :
    p.walk (xs ++ ys) = (p.walk xs).walk ys :=
  List.foldl_append

/-- The position so many characters further on in the same line. -/
def right (p : Position) (count : Nat) : Position := ⟨p.line, p.column + count.toUInt32⟩

/-- Characters that end no line lead to the right. -/
theorem walk_eq_right {cs : List Char} (h : '\n' ∉ cs) (p : Position) :
    p.walk cs = p.right cs.length := by
  induction cs generalizing p with
  | nil => simp [right]
  | cons c cs ih =>
    have hc : c ≠ '\n' := fun e => h (by simp [e])
    have hcs : '\n' ∉ cs := fun e => h (by simp [e])
    rw [walk_cons, ih hcs]
    simp only [advance, hc, if_false, right, List.length_cons, Nat.toUInt32_eq, UInt32.ofNat_add]
    rw [UInt32.add_assoc, UInt32.add_comm (UInt32.ofNat cs.length)]
    rfl

/-- Where a text begins unless something else is said. -/
def start : Position := ⟨1, 1⟩

end Position

/-- Where in which file something was written; the file name and the line text may be missing. -/
structure Location where
  file : String
  line : UInt32
  column : UInt32
  lineText : String
  deriving DecidableEq, Repr, Inhabited

/-- A location that knows neither its file nor its line text yet. -/
def Position.location (p : Position) : Location := ⟨"", p.line, p.column, ""⟩

namespace Location

/-- A location in a known source text. -/
def inSource (file source : String) (line column : UInt32) : Location :=
  ⟨file, line, column, Text.lineAt source line.toNat⟩

/-- Sets the file name and the line text where they are still empty. -/
def fill (file source : String) (l : Location) : Location :=
  { l with
    file := if l.file = "" then file else l.file
    lineText := if l.lineText = "" then Text.lineAt source l.line.toNat else l.lineText }

/-- `file:line:column`, or `line:column` without a file. -/
def render (l : Location) : String :=
  let place := toString l.line.toNat ++ ":" ++ toString l.column.toNat
  if l.file = "" then place else l.file ++ ":" ++ place

/-- The blank under one character of the line above a caret; a tab keeps its width. -/
def caretPad (c : Char) : Char := if c = '\t' then '\t' else ' '

/-- The offending line behind its number, with a caret under the column; nothing for an empty
line. -/
def pointer (l : Location) : String :=
  if l.lineText = "" then ""
  else
    let gutter := toString l.line.toNat
    let pad := String.ofList (List.replicate gutter.length ' ')
    let caret := String.ofList ((l.lineText.toList.take (l.column.toNat - 1)).map caretPad)
    pad ++ " |\n" ++ gutter ++ " | " ++ l.lineText ++ "\n" ++ pad ++ " | " ++ caret ++ "^"

/-- The arrow line of a message, with the pointer below it when the line is known. -/
def arrow (l : Location) : String :=
  let pointer := l.pointer
  "\n --> " ++ l.render ++ (if pointer = "" then "" else "\n" ++ pointer)

end Location

end Packwright
