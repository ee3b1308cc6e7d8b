import Packwright.Token.Lexer

/-!
# Statements of a text

Lexemes are grouped into statements at semicolons. Where every statement has to be terminated, the
closing brace of a block statement ends it as well, and tokens after the last terminator are an
error; otherwise they form a last statement.

## Main definitions

- `Terminator` — whether statements must be terminated
- `opensBlock` — whether a closing brace ends the statement
- `groupLexemes` — lexemes to statements
- `tokenize`, `Token.tokenizeInner` — a text, or the inside of a group, to statements
-/

namespace Packwright

/-- Whether every statement has to end in a semicolon or a block. -/
inductive Terminator where
  | required
  | optional
  deriving DecidableEq, Repr, Inhabited

/-- Statements together with the warnings found while reading them. -/
structure Reading where
  statements : List Statement := []
  warnings : List Warning := []
  deriving DecidableEq, Repr, Inhabited

/-- The first words of statements that a closing brace ends. -/
def blockKeywords : List String :=
  ["function", "class", "if", "else", "while", "do", "for", "switch", "new"]

/-- Whether a token is the first word of a block statement. -/
def isBlockKeyword (t : Token) : Bool :=
  match t.word? with
  | some w => blockKeywords.contains w
  | none => false

/-- Whether a closing brace ends the statement with these tokens: it begins with the word of a block
statement, or with a case label that has one behind it. -/
def opensBlock : List Token → Bool
  | [] => false
  | first :: rest => if first.isWord "case" then rest.any isBlockKeyword else isBlockKeyword first

/-- Whether a statement with these tokens ends at its last one, a closing brace. -/
def endsAtBrace (terminator : Terminator) (tokens : List Token) : Bool :=
  terminator = .required && (tokens.getLast?.map (·.isGroup .curly)).getD false && opensBlock tokens

/-- Where a semicolon is missing after a token: directly behind it, or at its start when it spans
lines. -/
def missingSemicolonAt (last : Token) : Position :=
  if last.text.toList.contains '\n' then last.position
  else last.position.right last.length

/-- Groups lexemes into statements; `current` holds the tokens of the statement being read. -/
def groupLexemes (terminator : Terminator) (current : List Token) :
    List Lexeme → Except Fault Reading
  | [] =>
    match current.getLast? with
    | none => .ok {}
    | some last =>
      match terminator with
      | .required => .error (.located .missingSemicolon (missingSemicolonAt last))
      | .optional => .ok { statements := [⟨current⟩] }
  | .token t :: rest =>
    if endsAtBrace terminator (current ++ [t]) then
      (groupLexemes terminator [] rest).map fun r =>
        { r with statements := ⟨current ++ [t]⟩ :: r.statements }
    else groupLexemes terminator (current ++ [t]) rest
  | .semicolon p :: rest =>
    if current.isEmpty then
      (groupLexemes terminator [] rest).map fun r =>
        { r with warnings := ⟨.emptyStatement, some p.location⟩ :: r.warnings }
    else
      (groupLexemes terminator [] rest).map fun r =>
        { r with statements := ⟨current⟩ :: r.statements }

/-- The statements of a text that begins at a position. -/
def tokenize (terminator : Terminator) (start : Position) (source : String) :
    Except Fault Reading := do
  groupLexemes terminator [] (← lexemes start source.toList)

/-- The statements inside a bracket group. -/
def Token.tokenizeInner (terminator : Terminator) (t : Token) : Except Fault Reading :=
  match t.inner? with
  | some inner => tokenize terminator t.innerStart inner
  | none => .error (t.fault (.notAGroup t.text))

end Packwright
