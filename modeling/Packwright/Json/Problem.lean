import Packwright.Json.Value
import Packwright.Text.Escaped

/-!
# Mistakes in JSON text

What can be wrong with a JSON text, be it that it does not follow the grammar or that a value does
not fit what is wanted, and where.

## Main definitions

- `Json.Found` — what was found in place of the value wanted
- `Json.Problem`, `Json.Problem.message` — what is wrong, and its wording
- `Json.Mistake` — a problem with its place
- `Json.Place`, `Json.Place.behind` — places in a text by lines and bytes
- `Json.Report`, `Json.Report.LiesIn` — what is told of a mistake, and whether its place is in the text
-/

namespace Packwright.Json

/-- What was found in place of the value wanted. -/
inductive Found where
  | null
  | bool (b : Bool)
  | number (n : Number)
  | string (s : String)
  | list
  | object
  deriving DecidableEq, Repr, Inhabited

/-- What was found, in words. -/
def Found.describe : Found → String
  | .null => "null"
  | .bool b => if b then "boolean `true`" else "boolean `false`"
  | .number n@(.double _) => "floating point `" ++ n.render ++ "`"
  | .number n => "integer `" ++ n.render ++ "`"
  | .string s => "string " ++ Text.quoted s
  | .list => "sequence"
  | .object => "map"

/-- What is wrong with a JSON text. -/
inductive Problem where
  | endInList
  | endInObject
  | endInString
  | endInValue
  | expectedColon
  | expectedListEnd
  | expectedObjectEnd
  | expectedIdent
  | expectedValue
  | invalidEscape
  | invalidNumber
  | numberOutOfRange
  | controlCharacter
  | keyNotString
  | loneSurrogate
  | trailingComma
  | trailingCharacters
  | endInEscape
  | tooDeep
  /-- A value of another kind than the one wanted. -/
  | wrongKind (found : Found) (wanted : String)
  /-- An integer that is too small or too great. -/
  | wrongInteger (n : Int) (wanted : String)
  | unknownField (name : String) (known : List String)
  | repeatedField (name : String)
  deriving DecidableEq, Repr, Inhabited

/-- The wording of a problem. -/
def Problem.message : Problem → String
  | .endInList => "EOF while parsing a list"
  | .endInObject => "EOF while parsing an object"
  | .endInString => "EOF while parsing a string"
  | .endInValue => "EOF while parsing a value"
  | .expectedColon => "expected `:`"
  | .expectedListEnd => "expected `,` or `]`"
  | .expectedObjectEnd => "expected `,` or `\x7d`"
  | .expectedIdent => "expected ident"
  | .expectedValue => "expected value"
  | .invalidEscape => "invalid escape"
  | .invalidNumber => "invalid number"
  | .numberOutOfRange => "number out of range"
  | .controlCharacter => "control character (\\u0000-\\u001F) found while parsing a string"
  | .keyNotString => "key must be a string"
  | .loneSurrogate => "lone leading surrogate in hex escape"
  | .trailingComma => "trailing comma"
  | .trailingCharacters => "trailing characters"
  | .endInEscape => "unexpected end of hex escape"
  | .tooDeep => "recursion limit exceeded"
  | .wrongKind found wanted => "invalid type: " ++ found.describe ++ ", expected " ++ wanted
  | .wrongInteger n wanted => "invalid value: integer `" ++ toString n ++ "`, expected " ++ wanted
  | .unknownField name known =>
    "unknown field `" ++ name ++ "`, expected one of " ++
      ", ".intercalate (known.map fun k => "`" ++ k ++ "`")
  | .repeatedField name => "duplicate field `" ++ name ++ "`"

/-- A problem with its line, counted from one, and its column, counted in bytes. -/
structure Mistake where
  problem : Problem
  line : Nat
  column : Nat
  deriving DecidableEq, Repr, Inhabited

/-- The full text of a mistake. -/
def Mistake.render (m : Mistake) : String :=
  m.problem.message ++ " at line " ++ toString m.line ++ " column " ++ toString m.column

/-- A place in a text: its line, counted from one, and how many bytes of the line are before it. -/
structure Place where
  line : Nat := 1
  column : Nat := 0
  deriving DecidableEq, Repr, Inhabited

/-- The place behind one character more. -/
def Place.advance (p : Place) (c : Char) : Place :=
  if c = '\n' then ⟨p.line + 1, 0⟩ else ⟨p.line, p.column + c.utf8Size⟩

/-- The place behind a text. -/
def Place.behind (cs : List Char) : Place := cs.foldl Place.advance {}

/-- What is told of a mistake: its place and the words for it. -/
structure Report extends Place where
  text : String
  deriving DecidableEq, Repr, Inhabited

/-- The place is behind some of the text, or inside of the character that follows. -/
def Report.LiesIn (r : Report) (text : String) : Prop :=
  ∃ front back more, text.toList = front ++ back ∧ (more = 0 ∨ ∃ c ∈ back.head?, more < c.utf8Size) ∧
    r.line = (Place.behind front).line ∧ r.column = (Place.behind front).column + more

/-- What is told of a mistake. -/
def Mistake.report (m : Mistake) : Report := { line := m.line, column := m.column, text := m.render }

end Packwright.Json
