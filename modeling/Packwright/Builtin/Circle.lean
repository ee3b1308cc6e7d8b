import Packwright.Decimal.Double

/-!
# Points of a circle

The points of a circle around the origin, written as local coordinates with at most three decimal
places.

## Main definitions

- `Circle.coordinate` — a coordinate as text; zero is empty
- `Circle.points` — the coordinates of evenly spread points
-/

namespace Packwright.Circle

/-- The greatest number of points of one circle. -/
def maxSpread : Nat := 360

/-- The full turn in radians. -/
def fullTurn : Float := 6.283185307179586

/-- A coordinate with at most three decimal places; zeros at the end are dropped, and zero is
empty. -/
def coordinate (f : Float) : String :=
  let digits := (Double.ofBits f.toBits).fixed 3
  let digits := (digits.reverse.dropWhile (· = '0')).dropWhile (· = '.') |>.reverse
  let text := String.ofList digits
  if text = "0" || text = "-0" then "" else text

/-- The two coordinates of the point with a number. -/
def point (radius : Float) (count index : Nat) : String × String :=
  let angle := fullTurn * index.toFloat / count.toFloat
  (coordinate (radius * angle.cos), coordinate (radius * angle.sin))

/-- The coordinates of `count` evenly spread points. -/
def points (radius : Float) (count : Nat) : List (String × String) :=
  (List.range count).map (point radius count)

end Packwright.Circle
