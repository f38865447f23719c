import Mathlib
import SolidModel.Point.Direction
import SolidModel.Proofs.Plane.QuarterTurn

/-!
# Rational turns

The tangent of half an angle gives a rational point of the unit circle. Below it is a polynomial
in the share that the angle has of a quarter turn: close to the real tangent, and equal to it at
whole quarter turns. So whatever is turned stays on its circle, and constructions that need other
angles than quarter turns can be run over the rationals as well. Roots are rounded down at the
sixth digit.
-/

namespace SolidModel

namespace RationalTurn

open QuarterTurn (sine quarters)

/-- The tangent of half the share `x` of a quarter turn. -/
def halfTangent (x : ℚ) : ℚ := x * (11 + 3 * x * x) / 14

/-- The unit vector at what an angle has beyond whole quarter turns. -/
def withinQuarter (degrees : ℚ) : Point2 ℚ :=
  let t := halfTangent (degrees / 90 - quarters degrees)
  ⟨(1 - t * t) / (1 + t * t), 2 * t / (1 + t * t)⟩

/-- The unit vector at an angle. -/
def unit (degrees : ℚ) : Point2 ℚ :=
  (withinQuarter degrees).turned ⟨sine (quarters degrees + 1), sine (quarters degrees)⟩

/-- The root to six digits. -/
def root (x : ℚ) : ℚ := ((x.num.toNat * x.den * 10 ^ 12).sqrt : ℚ) / (x.den * 10 ^ 6)

scoped instance roundedTrig : Trig ℚ where
  sqrt := root
  sin x := (unit x).y
  cos x := (unit x).x
  tan x := (unit x).y / (unit x).x
  withinTurn x := x - 360 * ⌊x / 360⌋

/-- A quotient as it is written. -/
scoped instance quotientText : NumberText ℚ := ⟨fun x ↦ toString x⟩

end RationalTurn

end SolidModel
