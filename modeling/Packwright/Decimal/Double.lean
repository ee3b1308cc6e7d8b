import Packwright.Decimal.Literal

/-!
# Double-precision numbers in decimal

A finite double-precision number is an integer times a power of two, read off its bits, so its
decimal forms are found in exact arithmetic.

## Main definitions

- `Double` — sign, integer and binary exponent of a finite number
- `Double.shortest` — the fewest decimal digits that still round to the number
- `Double.fixed` — the number with a fixed count of decimal places, ties to the even digit
-/

namespace Packwright

/-- The number `± significand · 2 ^ exponent`. -/
structure Double where
  negative : Bool
  significand : Nat
  exponent : Int
  /-- Whether the next smaller number is only half as far away as the next greater one. -/
  narrow : Bool
  deriving DecidableEq, Repr, Inhabited

namespace Double

/-- The number of fractions that the bits of a number can hold. -/
def fractionSize : Nat := Nat.pow 2 52

/-- Reads the bits of a finite number: a sign, an exponent of eleven bits and a fraction. -/
def ofBits (bits : UInt64) : Double :=
  let n := bits.toNat
  let fraction : Nat := n % fractionSize
  let field : Nat := (n / fractionSize) % 2048
  let negative := 2048 * fractionSize ≤ n
  if field = 0 then ⟨negative, fraction, -1074, false⟩
  else ⟨negative, fractionSize + fraction, (field : Int) - 1075, fraction = 0 && 1 < field⟩

/-- A quotient rounded to the nearest integer, a tie to the even one. -/
def roundDiv (n d : Nat) : Nat :=
  let q := n / d
  let r := n % d
  if 2 * r < d || (2 * r = d && q % 2 = 0) then q else q + 1

/-- The fraction `numerator / denominator` of `k` quarters of the last binary place. -/
def quarters (d : Double) (k : Nat) : Nat × Nat :=
  if d.exponent ≥ 2 then (k * Nat.pow 2 (d.exponent - 2).toNat, 1)
  else (k, Nat.pow 2 (2 - d.exponent).toNat)

/-- The magnitude as a fraction. -/
def magnitude (d : Double) : Nat × Nat := d.quarters (4 * d.significand)

/-- The least fraction that rounds to the number or to its lower neighbour. -/
def lower (d : Double) : Nat × Nat :=
  d.quarters (if d.narrow then 4 * d.significand - 1 else 4 * d.significand - 2)

/-- The greatest fraction that rounds to the number or to its upper neighbour. -/
def upper (d : Double) : Nat × Nat := d.quarters (4 * d.significand + 2)

/-- Whether one fraction is less than another, or at most equal when `closed`. -/
def before (closed : Bool) (a b : Nat × Nat) : Bool :=
  if closed then a.1 * b.2 ≤ b.1 * a.2 else a.1 * b.2 < b.1 * a.2

/-- Whether a fraction rounds to the number; the two bounds do so exactly when the significand is
even. -/
def roundsTo (d : Double) (f : Nat × Nat) : Bool :=
  let closed := d.significand % 2 = 0
  before closed d.lower f && before closed f d.upper

/-- The fraction `n · 10 ^ e`. -/
def scaled (n : Nat) (e : Int) : Nat × Nat :=
  if e ≥ 0 then (n * Nat.pow 10 e.toNat, 1) else (n, Nat.pow 10 (-e).toNat)

/-- The count of decimal digits before the point: `10 ^ (k - 1) ≤ magnitude < 10 ^ k`. -/
def pointPlace (d : Double) : Int :=
  let (n, m) := d.magnitude
  (Decimal.digitCount (n * Nat.pow 10 400 / m) : Int) - 400

/-- The nearer of the two neighbours on the grid of multiples of `10 ^ e` that rounds to the number,
if one does. -/
def onGrid? (d : Double) (e : Int) : Option Nat :=
  let (n, m) := d.magnitude
  let (n, m) := if e ≥ 0 then (n, m * Nat.pow 10 e.toNat) else (n * Nat.pow 10 (-e).toNat, m)
  let low := n / m
  match d.roundsTo (scaled low e), d.roundsTo (scaled (low + 1) e) with
  | true, true => some (roundDiv n m)
  | true, false => some low
  | false, true => some (low + 1)
  | false, false => none

/-- Searches for a hit on finer and finer grids, starting with `count` digits. -/
def shortestFrom (d : Double) (place : Int) (count : Nat) : Nat → Nat × Int
  | 0 => (d.significand, 0)
  | fuel + 1 =>
    match d.onGrid? (place - count) with
    | some n => (n, place - count)
    | none => shortestFrom d place (count + 1) fuel

/-- Takes zeros off the end of the digits, at most `fuel` of them. -/
def dropZeros : Nat → Nat × Int → Nat × Int
  | 0, r => r
  | fuel + 1, (n, e) => if n ≠ 0 && n % 10 = 0 then dropZeros fuel (n / 10, e + 1) else (n, e)

/-- Digits and decimal exponent of the shortest decimal that rounds to a number other than zero. -/
def shortest (d : Double) : Nat × Int :=
  dropZeros 20 (shortestFrom d d.pointPlace 1 17)

/-- The magnitude times `10 ^ places`, rounded to an integer. -/
def fixedDigits (d : Double) (places : Nat) : Nat :=
  let (n, m) := d.magnitude
  roundDiv (n * Nat.pow 10 places) m

/-- A text of digits filled up with zeros on the left. -/
def padLeft (width : Nat) (cs : List Char) : List Char :=
  List.replicate (width - cs.length) '0' ++ cs

/-- The number with exactly `places` decimal places, at least one. -/
def fixed (d : Double) (places : Nat) : List Char :=
  let digits := padLeft (places + 1) (Nat.toDigits 10 (d.fixedDigits places))
  let whole := digits.take (digits.length - places)
  let fraction := digits.drop (digits.length - places)
  (if d.negative then ['-'] else []) ++ whole ++ '.' :: fraction

end Double

end Packwright
