import Packwright.Score

/-!
# Decimal literals

A decimal literal is a sign, an integer and a power of ten. Whether it lies within the range of
double-precision numbers is decided exactly, on integers.

## Main definitions

- `Decimal`, `Decimal.parse?` — a decimal number and its source form
- `Decimal.isFinite` — whether it rounds to a finite double-precision number
- `Decimal.toFloat` — that number
-/

namespace Packwright

/-- The number `± digits · 10 ^ exponent`. -/
structure Decimal where
  negative : Bool
  digits : Nat
  exponent : Int
  deriving DecidableEq, Repr, Inhabited

namespace Decimal

/-- Takes a leading sign off a text. -/
def takeSign : List Char → Bool × List Char
  | '-' :: rest => (true, rest)
  | '+' :: rest => (false, rest)
  | cs => (false, cs)

/-- The exponent part of a literal: empty, or `e` with an integer. -/
def exponent? : List Char → Option Int
  | [] => some 0
  | c :: rest =>
    if c = 'e' || c = 'E' then
      let (negative, digits) := takeSign rest
      if isDigits digits then
        some (if negative then -(digitsValue digits : Int) else digitsValue digits)
      else none
    else none

/-- Reads digits with an optional point among them and an optional exponent behind them. -/
def parseUnsigned? (negative : Bool) (cs : List Char) : Option Decimal :=
  let whole := cs.takeWhile Char.isDigit
  let rest := cs.dropWhile Char.isDigit
  let (fraction, rest) := match rest with
    | '.' :: rest => (rest.takeWhile Char.isDigit, rest.dropWhile Char.isDigit)
    | rest => ([], rest)
  if whole.isEmpty && fraction.isEmpty then none
  else (exponent? rest).map fun e =>
    ⟨negative, digitsValue (whole ++ fraction), e - fraction.length⟩

/-- Reads a decimal literal with an optional sign. -/
def parse? (s : String) : Option Decimal :=
  let (negative, cs) := takeSign s.toList
  parseUnsigned? negative cs

/-- The least magnitude that rounds to infinity: halfway between the greatest double-precision
number and the next power of two. -/
def overflowBound : Nat := Nat.pow 2 1024 - Nat.pow 2 970

/-- The number of decimal digits of a natural number, at least one. -/
def digitCount (n : Nat) : Nat := (Nat.toDigits 10 n).length

/-- Whether the number rounds to a finite double-precision number. Exponents far outside the range
decide without computing the power. -/
def isFinite (d : Decimal) : Bool :=
  if d.digits = 0 then true
  else if d.exponent > 400 then false
  else if d.exponent + digitCount d.digits < 300 then true
  else if d.exponent ≥ 0 then d.digits * Nat.pow 10 d.exponent.toNat < overflowBound
  else d.digits < overflowBound * Nat.pow 10 (-d.exponent).toNat

/-- The nearest double-precision number. -/
def toFloat (d : Decimal) : Float :=
  let magnitude :=
    if d.digits = 0 || d.exponent + digitCount d.digits < -400 then 0.0
    else if d.exponent > 400 then 1.0 / 0.0
    else if d.exponent ≥ 0 then Float.ofScientific d.digits false d.exponent.toNat
    else Float.ofScientific d.digits true (-d.exponent).toNat
  if d.negative then -magnitude else magnitude

end Decimal

end Packwright
