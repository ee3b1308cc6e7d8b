import Packwright.Token.Basic

/-!
# Reading tokens

The lexer is a machine that reads one character at a time and looks at the one after it. Its output
is a list of lexemes: tokens and semicolons. Grouping them into statements is a separate matter, so
the lexemes of a text do not depend on how statements end.

Inside brackets and strings nothing is a comment; a `#` begins one only in the first column.

## Main definitions

- `Cursor` — byte offset and position of the next character
- `Nest` — the open brackets and the open string inside a group
- `Lexer.Mode`, `Lexer.step`, `Lexer.finish`, `Lexer.run` — the machine
- `Lexer.unescape` — the value of a string literal
- `lexemes` — all lexemes of a text
-/

namespace Packwright

/-- Where the next character stands: its byte offset and its position. -/
structure Cursor where
  offset : Nat
  position : Position
  deriving DecidableEq, Repr, Inhabited

namespace Cursor

/-- The cursor after one more character. -/
def advance (k : Cursor) (c : Char) : Cursor := ⟨k.offset + c.utf8Size, k.position.advance c⟩

/-- The cursor after a run of characters. -/
def walk (k : Cursor) (cs : List Char) : Cursor := cs.foldl advance k

@[simp] theorem walk_nil (k : Cursor) : k.walk [] = k := rfl

@[simp] theorem walk_cons (k : Cursor) (c : Char) (cs : List Char) :
    k.walk (c :: cs) = (k.advance c).walk cs := rfl

theorem walk_append (k : Cursor) (xs ys : List Char) :
    k.walk (xs ++ ys) = (k.walk xs).walk ys :=
  List.foldl_append

end Cursor

/-- What the lexer emits: a token, or the semicolon at a position. -/
inductive Lexeme where
  | token (t : Token)
  | semicolon (p : Position)
  deriving DecidableEq, Repr, Inhabited

/-- The brackets that are open, innermost first, and whether a string is open inside them. -/
structure Nest where
  opened : List Bracket
  quoted : Bool := false
  escaped : Bool := false
  deriving DecidableEq, Repr, Inhabited

namespace Nest

/-- Whether every bracket is closed. -/
def closed (n : Nest) : Bool := n.opened.isEmpty

/-- Reads one character inside brackets. -/
def step (n : Nest) (p : Position) (c : Char) : Except Fault Nest :=
  if n.quoted then
    if n.escaped then .ok { n with escaped := false }
    else if c = '\\' then .ok { n with escaped := true }
    else if c = '"' then .ok { n with quoted := false }
    else if c = '\n' then .error (.located .lineBreakInString p)
    else .ok n
  else if c = '"' then .ok { n with quoted := true }
  else
    match Bracket.ofOpening? c with
    | some b => .ok { n with opened := b :: n.opened }
    | none =>
      if Bracket.isClosing c then
        match n.opened with
        | [] => .error (.located (.strayBracket c) p)
        | b :: rest =>
          if b.closing = c then .ok { n with opened := rest }
          else .error (.located (.mismatchedBracket b.closing c) p)
      else .ok n

end Nest

namespace Lexer

/-- The value of a string literal, given the text between its quotes. An escape other than those
for line feed, tab, backslash and quote stands for itself, and an escaped line break for nothing. -/
def unescape : List Char → List Char
  | [] => []
  | ['\\'] => ['\\']
  | '\\' :: 'n' :: rest => '\n' :: unescape rest
  | '\\' :: 't' :: rest => '\t' :: unescape rest
  | '\\' :: '\\' :: rest => '\\' :: unescape rest
  | '\\' :: '"' :: rest => '"' :: unescape rest
  | '\\' :: '\n' :: rest => unescape rest
  | '\\' :: c :: rest => '\\' :: c :: unescape rest
  | c :: rest => c :: unescape rest

/-- What the machine is in the middle of. The text of an unfinished token is kept backwards. -/
inductive Mode where
  /-- Between tokens. -/
  | seeking
  /-- In a comment, up to the end of the line. -/
  | comment
  /-- Before the second character of `&&` or `||`. -/
  | doubled
  /-- In a bare word, possibly inside the brackets of a selector. -/
  | word (start : Cursor) (text : List Char) (nest : Nest)
  /-- In a string literal. -/
  | string (start : Cursor) (text : List Char) (escaped : Bool)
  /-- In a bracket group. -/
  | group (start : Cursor) (bracket : Bracket) (text : List Char) (nest : Nest)
  deriving DecidableEq, Repr, Inhabited

/-- The token whose text, given backwards, began at `start` and ended before byte `stop`. -/
def finished (kind : TokenKind) (start : Cursor) (stop : Nat) (text : List Char) : Token :=
  ⟨kind, ⟨start.offset, stop, start.position⟩, String.ofList text.reverse⟩

/-- The bare word that ends before byte `stop`. -/
def wordToken (start : Cursor) (stop : Nat) (text : List Char) : Lexeme :=
  .token (finished .word start stop text)

/-- The string literal whose text, given backwards, includes both quotes. -/
def stringToken (start : Cursor) (stop : Nat) (text : List Char) : Lexeme :=
  let value := unescape (text.reverse.drop 1).dropLast
  .token (finished (.string (String.ofList value)) start stop text)

/-- Reads one character between tokens. Words already finished are in `before`. -/
def seek (before : List Lexeme) (k : Cursor) (c : Char) (next : Option Char) :
    Except Fault (List Lexeme × Mode) :=
  if Text.isBlank c then .ok (before, .seeking)
  else if c = ';' then .ok (before ++ [.semicolon k.position], .seeking)
  else if c = '"' then .ok (before, .string k [c] false)
  else if c = ',' then
    .ok (before ++ [.token (finished .comma k (k.offset + 1) [c])], .seeking)
  else if c = '/' && next = some '/' then .ok (before, .comment)
  else if (c = '&' || c = '|') && next = some c then
    .ok (before ++ [wordToken k (k.offset + 2) [c, c]], .doubled)
  else if Bracket.isClosing c then .error (.located (.strayBracket c) k.position)
  else
    match Bracket.ofOpening? c with
    | some b => .ok (before, .group k b [c] { opened := [b] })
    | none => .ok (before, .word k [c] { opened := [] })

/-- Whether a bare word goes on at this character. -/
def continuesWord (c : Char) (next : Option Char) : Bool :=
  !(Text.isBlank c || c = ';' || c = '"' || c = ',' || c = '(' || c = '\x7b' ||
    c = '/' && next = some '/' || (c = '&' || c = '|') && next = some c ||
    Bracket.isClosing c)

/-- Reads one character. -/
def step (k : Cursor) (c : Char) (next : Option Char) : Mode → Except Fault (List Lexeme × Mode)
  | .seeking =>
    if c = '#' && k.position.column = 1 then .ok ([], .comment) else seek [] k c next
  | .comment => .ok ([], if c = '\n' then .seeking else .comment)
  | .doubled => .ok ([], .seeking)
  | .word start text nest =>
    if !nest.closed then do
      let nest ← nest.step k.position c
      return ([], .word start (c :: text) nest)
    else if c = '[' then .ok ([], .word start (c :: text) { opened := [.square] })
    else if continuesWord c next then .ok ([], .word start (c :: text) nest)
    else seek [wordToken start k.offset text] k c next
  | .string start text escaped =>
    if escaped then .ok ([], .string start (c :: text) false)
    else if c = '\\' then .ok ([], .string start (c :: text) true)
    else if c = '\n' then .error (.located .lineBreakInString start.position)
    else if c = '"' then
      .ok ([stringToken start (k.offset + c.utf8Size) (c :: text)], .seeking)
    else .ok ([], .string start (c :: text) false)
  | .group start bracket text nest => do
    let nest ← nest.step k.position c
    if nest.closed then
      return ([.token (finished (.group bracket) start (k.offset + c.utf8Size) (c :: text))],
        .seeking)
    else
      return ([], .group start bracket (c :: text) nest)

/-- What is left to emit at the end of the text. -/
def finish (k : Cursor) : Mode → Except Fault (List Lexeme)
  | .seeking | .comment | .doubled => .ok []
  | .word start text nest =>
    if nest.closed then .ok [wordToken start k.offset text]
    else .error (.located (.neverClosed '[') start.position)
  | .string start _ _ => .error (.located .unterminatedString start.position)
  | .group start bracket _ _ => .error (.located (.neverClosed bracket.opening) start.position)

/-- Reads a text to its end. -/
def run (mode : Mode) (k : Cursor) : List Char → Except Fault (List Lexeme)
  | [] => finish k mode
  | c :: rest => do
    let (now, mode) ← step k c rest.head? mode
    let later ← run mode (k.advance c) rest
    return now ++ later

end Lexer

/-- The lexemes of a text that begins at a position. -/
def lexemes (start : Position) (source : List Char) : Except Fault (List Lexeme) :=
  Lexer.run .seeking ⟨0, start⟩ source

end Packwright
