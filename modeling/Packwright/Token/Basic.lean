import Packwright.Diagnostic.Fault
import Packwright.Text.Blank
import Packwright.Text.Search

/-!
# Tokens and statements

A token is a bare word, a string literal, a whole bracket group or a comma. Bracket groups keep
their raw text; whoever needs the inside reads it again from `Token.innerStart`. A statement is a
run of tokens.

## Main definitions

- `Bracket`, `TokenKind`, `Span`, `Token`, `Statement`
- `Token.inner?` — the text between the brackets of a group
- `Token.splitAt?` — cuts a word in two at a byte offset
-/

namespace Packwright

/-- The three pairs of brackets. -/
inductive Bracket where
  | round
  | curly
  | square
  deriving DecidableEq, Repr, Inhabited

namespace Bracket

/-- The opening character. -/
def opening : Bracket → Char
  | .round => '('
  | .curly => '\x7b'
  | .square => '['

/-- The closing character. -/
def closing : Bracket → Char
  | .round => ')'
  | .curly => '\x7d'
  | .square => ']'

/-- The bracket a character opens. -/
def ofOpening? (c : Char) : Option Bracket :=
  if c = '(' then some .round
  else if c = '\x7b' then some .curly
  else if c = '[' then some .square
  else none

/-- Whether a character closes some bracket. -/
def isClosing (c : Char) : Bool :=
  c = ')' || c = '\x7d' || c = ']'

@[simp] theorem ofOpening?_opening (b : Bracket) : ofOpening? b.opening = some b := by
  cases b <;> rfl

@[simp] theorem isClosing_closing (b : Bracket) : isClosing b.closing = true := by
  cases b <;> rfl

end Bracket

/-- What a token is. -/
inductive TokenKind where
  /-- A keyword, identifier, number, operator or selector: any bare word. -/
  | word
  /-- A string literal with its value. -/
  | string (value : String)
  /-- A bracket group. -/
  | group (bracket : Bracket)
  /-- A comma. -/
  | comma
  deriving DecidableEq, Repr, Inhabited

/-- The name of a token kind in messages. -/
def TokenKind.name : TokenKind → String
  | .word => "keyword"
  | .string _ => "string"
  | .group .round => "'(...)'"
  | .group .curly => "'\x7b...\x7d'"
  | .group .square => "'[...]'"
  | .comma => "','"

/-- The bytes a piece of text covers, and the position of its first character. Byte offsets count
from the start of the text that was read; the position is that in the whole file. -/
structure Span where
  start : Nat
  stop : Nat
  position : Position
  deriving DecidableEq, Repr, Inhabited

namespace Span

/-- The span at the start of a text. -/
def empty : Span := ⟨0, 0, Position.start⟩

/-- From the start of one span to the end of another. -/
def cover (a b : Span) : Span := ⟨a.start, b.stop, a.position⟩

/-- The text a span covers in the source it was read from. -/
def slice (s : Span) (source : String) : String :=
  let covered := do
    let (_, rest) ← Text.splitBytes s.start source.toList
    let (text, _) ← Text.splitBytes (s.stop - s.start) rest
    return String.ofList text
  covered.getD ""

/-- Whether the second span begins where the first one ends. -/
def touches (a b : Span) : Bool := a.stop == b.start

end Span

/-- A token: its kind, where it stands and its text as written. -/
structure Token where
  kind : TokenKind
  span : Span
  text : String
  deriving DecidableEq, Repr, Inhabited

namespace Token

/-- Where the token begins. -/
def position (t : Token) : Position := t.span.position

/-- The location of the token in a file that is not named yet. -/
def location (t : Token) : Location := t.position.location

/-- A failure located at this token. -/
def fault (t : Token) (cause : Cause) : Fault := .located cause t.position

/-- Number of characters of the text. -/
def length (t : Token) : Nat := t.text.toList.length

/-- The text of a bare word. -/
def word? (t : Token) : Option String :=
  match t.kind with
  | .word => some t.text
  | _ => none

theorem word?_eq_some_iff {t : Token} {w : String} :
    t.word? = some w ↔ t.kind = .word ∧ t.text = w := by
  unfold word?
  split
  · next hkind => simp [hkind]
  · next hkind =>
    rw [iff_false_left (by simp)]
    exact fun h => hkind h.1

/-- Whether this is exactly the bare word `w`. -/
def isWord (w : String) (t : Token) : Bool := t.kind = .word && t.text = w

/-- Whether this is a group in the given brackets. -/
def isGroup (b : Bracket) (t : Token) : Bool := t.kind = .group b

/-- Whether this is a string literal. -/
def isString (t : Token) : Bool :=
  match t.kind with
  | .string _ => true
  | _ => false

/-- The text between the brackets of a group. -/
def inner? (t : Token) : Option String :=
  match t.kind, t.text.toList with
  | .group _, _ :: c :: rest => some (String.ofList (c :: rest).dropLast)
  | _, _ => none

/-- Where the text between the brackets begins. -/
def innerStart (t : Token) : Position := t.position.right 1

/-- Whether there is nothing but blanks between the brackets. -/
def innerBlank (t : Token) : Bool := (t.inner?.map Text.allBlank).getD false

/-- The value of a string literal, the text of any other token. -/
def value (t : Token) : String :=
  match t.kind with
  | .string value => value
  | _ => t.text

/-- Whether `next` was written directly after this token. -/
def adjacent (t next : Token) : Bool := t.span.touches next.span

/-- Cuts a word in two after `n` bytes. There is no cut at either end, inside a character, or in
a token that is not a word. The second half is on the line of the first, as far to the right as the
first has characters. -/
def splitAt? (n : Nat) (t : Token) : Option (Token × Token) :=
  match t.kind, Text.splitBytes n t.text.toList with
  | .word, some (head@(_ :: _), tail@(_ :: _)) =>
    let cut := t.span.start + n
    let p := t.position
    some (⟨.word, ⟨t.span.start, cut, p⟩, String.ofList head⟩,
      ⟨.word, ⟨cut, t.span.stop, p.right head.length⟩, String.ofList tail⟩)
  | _, _ => none

/-- The second half of a word cut after `n` bytes, as a list without elements when there is none. -/
def tailFrom (n : Nat) (t : Token) : List Token :=
  match t.splitAt? n with
  | some (_, tail) => [tail]
  | none => []

end Token

/-- A run of tokens that ends at a statement boundary. -/
structure Statement where
  tokens : List Token
  deriving DecidableEq, Repr, Inhabited

namespace Statement

/-- The first word of a statement that begins with a bare word. -/
def keyword? (s : Statement) : Option String := s.tokens.head?.bind Token.word?

/-- From the first to the last token. -/
def span (s : Statement) : Span :=
  match s.tokens.head?, s.tokens.getLast? with
  | some first, some last => first.span.cover last.span
  | _, _ => .empty

end Statement

/-- Joins texts of tokens with one space, and none where the tokens were written adjacent. -/
def joinBy (text : Token → List Char) : List Token → List Char
  | [] => []
  | [t] => text t
  | t :: next :: rest =>
    text t ++ (if t.adjacent next then [] else [' ']) ++ joinBy text (next :: rest)

/-- Command text of tokens: strings give their values, and a line feed is written as `\n`. -/
def joinTokens (tokens : List Token) : String :=
  String.ofList (joinBy (fun t => Text.replaceChar '\n' ['\\', 'n'] t.value.toList) tokens)

/-- Text of tokens as written, with strings in their quotes. -/
def joinRaw (tokens : List Token) : String :=
  String.ofList (joinBy (fun t => t.text.toList) tokens)

end Packwright
