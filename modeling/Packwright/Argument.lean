import Packwright.Token.Statements
import Packwright.Token.Value

/-!
# Argument lists

The inside of a round group, split at its commas into positional and keyword arguments. An argument
is a run of tokens or an arrow function `() => { ... }`.

## Main definitions

- `Argument` — one argument
- `Arguments`, `Arguments.parse` — an argument list and how it is read
-/

namespace Packwright

/-- One argument of a call. -/
inductive Argument where
  /-- The tokens between two commas. -/
  | plain (tokens : List Token)
  /-- An arrow function, given by its body. -/
  | arrow (body : Token)
  deriving DecidableEq, Repr, Inhabited

namespace Argument

/-- The tokens of an argument; an arrow function gives its body. -/
def tokens : Argument → List Token
  | .plain tokens => tokens
  | .arrow body => [body]

/-- Command text of the argument, with strings unquoted. -/
def text (a : Argument) : String := joinTokens a.tokens

/-- Text of the argument as written. -/
def raw (a : Argument) : String := joinRaw a.tokens

/-- The value of an argument that is one integer. -/
def int? (a : Argument) : Option Int :=
  match a.tokens with
  | [t] => t.int?
  | _ => none

/-- The value of an argument that is one string literal. -/
def string? (a : Argument) : Option String :=
  match a.tokens with
  | [t] => if t.isString then some t.value else none
  | _ => none

/-- The text of an argument that is one bare word. -/
def word? (a : Argument) : Option String :=
  match a.tokens with
  | [t] => t.word?
  | _ => none

/-- The body of an arrow function. -/
def arrow? : Argument → Option Token
  | .arrow body => some body
  | .plain _ => none

/-- What an argument is called in messages. -/
def describe : Argument → String
  | .arrow _ => "arrow function"
  | .plain [t] => if t.int?.isSome then "integer" else t.kind.name
  | .plain _ => "expression"

/-- Where the argument begins. -/
def position (a : Argument) : Position :=
  match a.tokens with
  | t :: _ => t.position
  | [] => ⟨0, 0⟩

/-- An argument from its tokens: an arrow function or plain tokens. -/
def ofTokens : List Token → Argument
  | [params, sign, body] =>
    if params.isGroup .round && params.innerBlank && sign.isWord "=>" && body.isGroup .curly then
      .arrow body
    else .plain [params, sign, body]
  | tokens => .plain tokens

end Argument

/-- An argument list: positional arguments, then keyword arguments in source order. -/
structure Arguments where
  positional : List Argument := []
  keywords : List (String × Argument) := []
  position : Position
  deriving DecidableEq, Repr, Inhabited

namespace Arguments

/-- Looks up a keyword argument. -/
def keyword? (a : Arguments) (name : String) : Option Argument := a.keywords.lookup name

/-- Total number of arguments. -/
def length (a : Arguments) : Nat := a.positional.length + a.keywords.length

/-- A segment between commas, with the position of the comma that ends it. -/
structure Segment where
  tokens : List Token
  comma : Option Position
  deriving DecidableEq, Repr, Inhabited

/-- Splits tokens at commas; `current` holds those of the segment being read. -/
def segments (current : List Token) : List Token → List Segment
  | [] => [⟨current, none⟩]
  | t :: rest =>
    if t.kind = .comma then ⟨current, some t.position⟩ :: segments [] rest
    else segments (current ++ [t]) rest

/-- Whether the text behind an equals sign makes it an assignment, not `==` or `=>`. -/
def assigns (rest : List Char) : Bool := rest.head? ≠ some '=' && rest.head? ≠ some '>'

/-- Takes `name=` or `name =` off the front of a segment. -/
def splitKeyword (first : Token) (rest : List Token) : Option String × List Token :=
  match first.word? with
  | none => (none, first :: rest)
  | some w =>
    match Text.splitOnce ['='] w.toList with
    | some (key, value) =>
      if isIdentifierList key && assigns value then
        (some (String.ofList key), first.tailFrom (key.length + 1) ++ rest)
      else (none, first :: rest)
    | none =>
      match rest with
      | [] => (none, [first])
      | op :: rest' =>
        match op.word?.map String.toList with
        | some ('=' :: value) =>
          if isIdentifier w && assigns value then (some w, op.tailFrom 1 ++ rest')
          else (none, first :: rest)
        | _ => (none, first :: rest)

/-- Where an empty segment is reported: at the comma that ends it, else at the last comma, else at
the bracket. -/
def emptyAt (list : Position) (lastComma : Option Position) (s : Segment) : Position :=
  (s.comma.or lastComma).getD list

/-- Adds the argument of one segment to the list. -/
def addSegment (lastComma : Option Position) (list : Arguments) (s : Segment) :
    Except Fault Arguments :=
  match s.tokens with
  | [] => .error (.located .emptyArgument (emptyAt list.position lastComma s))
  | first :: rest =>
    match splitKeyword first rest with
    | (_, []) => .error (first.fault .emptyArgument)
    | (some name, tokens) =>
      if (list.keyword? name).isSome then .error (first.fault (.duplicateKeyword name))
      else .ok { list with keywords := list.keywords ++ [(name, .ofTokens tokens)] }
    | (none, tokens) =>
      if list.keywords.isEmpty then
        .ok { list with positional := list.positional ++ [.ofTokens tokens] }
      else .error (first.fault .positionalAfterKeyword)

/-- The argument list of the tokens inside a bracket at `position`. -/
def ofTokens (position : Position) (tokens : List Token) : Except Fault Arguments :=
  let parts := segments [] tokens
  let lastComma := (parts.filterMap Segment.comma).getLast?
  parts.foldlM (addSegment lastComma) { position }

/-- Where the second statement begins in a text that may hold only one. -/
def secondStatement (group : Token) (s : Statement) : Position :=
  (s.tokens.head?.map Token.position).getD group.position

/-- Reads the argument list in a round group. -/
def parse (group : Token) : Noting Arguments :=
  if group.isGroup .round then do
    let reading ← .ofExcept (group.tokenizeInner .optional)
    .note reading.warnings
    match reading.statements with
    | [] => return { position := group.position }
    | [s] => .ofExcept (ofTokens group.position s.tokens)
    | _ :: s :: _ => .fail (.located .semicolonInArguments (secondStatement group s))
  else .fail (group.fault (.expectedArguments group.text))

end Arguments

end Packwright
