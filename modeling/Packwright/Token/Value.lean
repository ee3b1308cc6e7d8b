import Packwright.Score
import Packwright.Token.Basic

/-!
# Values of tokens

A bare word may stand for a score value or an integer.

## Main definitions

- `Token.scoreValue` — the value of a word that is an integer literal
- `Token.int?` — the same where a literal out of range counts as no value
- `isIdentifier` — names of keyword arguments and players
-/

namespace Packwright

/-- The value of a bare word that is an integer literal; a fault at the token when it does not fit
a score. -/
def Token.scoreValue (t : Token) : Except Fault (Option Int) :=
  match t.word? with
  | none => .ok none
  | some w =>
    match Packwright.scoreValue w with
    | .ok v => .ok v
    | .error cause => .error (t.fault cause)

/-- The value of a bare word that is an integer literal within the range of scores. -/
def Token.int? (t : Token) : Option Int :=
  match t.scoreValue with
  | .ok v => v
  | .error _ => none

/-- Letters and the underscore. -/
def isIdentifierStart (c : Char) : Bool := c.isAlpha || c = '_'

/-- Letters, digits and the underscore. -/
def isIdentifierChar (c : Char) : Bool := c.isAlphanum || c = '_'

/-- Whether a list of characters is an identifier: ASCII letters, digits and underscores, not
starting with a digit. -/
def isIdentifierList : List Char → Bool
  | [] => false
  | c :: rest => isIdentifierStart c && rest.all isIdentifierChar

/-- Whether a text is an identifier. -/
def isIdentifier (s : String) : Bool := isIdentifierList s.toList

end Packwright
