import SolidModel.Fault
import SolidModel.Index

/-!
# Lengths, directions and turns of points

The operations on points that can be refused: a quotient by zero, the direction of a vector too
short to have one, a turn by an infinite angle, the place of a homogeneous point at infinity.
-/

namespace SolidModel

variable {K : Type} [Scalar K]

/-! ## Angles -/

namespace Angle

variable [Trig K]

/-- A function of an angle, which an infinite angle does not have. -/
def apply (f : K → K) (degrees : K) : Except (Fault K) K :=
  if Scalar.isInfinite degrees then .error .infiniteAngle else .ok (f degrees)

/-- The sine of an angle in degrees. -/
def sin (degrees : K) : Except (Fault K) K := apply Trig.sin degrees

/-- The cosine of an angle in degrees. -/
def cos (degrees : K) : Except (Fault K) K := apply Trig.cos degrees

/-- The tangent of an angle in degrees. -/
def tan (degrees : K) : Except (Fault K) K := apply Trig.tan degrees

/-- The unit vector at an angle: its cosine and its sine. -/
def direction (degrees : K) : Except (Fault K) (Point2 K) := do
  return ⟨← cos degrees, ← sin degrees⟩

end Angle

/-- The integer part of a number, toward zero, if it is finite. -/
def Scalar.toInt (x : K) : Except (Fault K) Int :=
  if Scalar.isNaN x then .error .integerOfNaN
  else if Scalar.isInfinite x then .error .integerOfInfinity
  else .ok (Scalar.truncate x)

/-- The number nearest to an integer, unless that is out of range. -/
def Scalar.ofInt? (n : Int) : Except (Fault K) K :=
  let x : K := Scalar.ofInt n
  if Scalar.isInfinite x then .error .integerTooLarge else .ok x

/-! ## Any dimension -/

namespace VectorOps

variable {P : Type} [VectorOps K P]

/-- The square of the length. -/
def squaredLength (p : P) : K := dot p p

/-- The length. -/
def length [Trig K] (p : P) : K := Trig.sqrt (squaredLength p)

/-- The vector of length one in the same direction. -/
def normalized [Trig K] (p : P) : Except (Fault K) P :=
  if length p < Scalar.epsilon then .error (.zeroLength (position p)) else .ok (p / length p)

/-- The point a share `t` of the way from `p` to `q`. -/
def lerp (p q : P) (t : K) : P := p + (q - p) * t

/-- The vector with each coordinate divided by `s`. -/
def quotient (p : P) (s : K) : Except (Fault K) P :=
  if s == 0.0 then .error .divisionByZero else .ok (p / s)

end VectorOps

/-- The coordinate at a position counted from either end. -/
def coordinate (coordinates : List K) (i : Int) : Except (Fault K) K :=
  match (position? coordinates.length i).bind (coordinates[·]?) with
  | some x => .ok x
  | none => .error .noCoordinate

/-! ## Turns -/

/-- Turned about the origin by the angle whose unit vector is `d`, counter-clockwise. -/
def Point2.turned (p d : Point2 K) : Point2 K :=
  ⟨p.x * d.x - p.y * d.y, p.x * d.y + p.y * d.x⟩

variable [Trig K]

/-- Turned about the origin, counter-clockwise for positive angles. -/
def Point2.rotated (p : Point2 K) (degrees : K) : Except (Fault K) (Point2 K) :=
  return p.turned (← Angle.direction degrees)

/-- The coordinate axes. -/
inductive Axis where
  | x
  | y
  | z
  deriving DecidableEq

/-- Turned about an axis by the angle whose unit vector is `d`, by the right-hand rule. -/
def Point3.turned (p : Point3 K) (axis : Axis) (d : Point2 K) : Point3 K :=
  match axis with
  | .x => ⟨p.x, p.y * d.x - p.z * d.y, p.y * d.y + p.z * d.x⟩
  | .y => ⟨p.x * d.x + p.z * d.y, p.y, -p.x * d.y + p.z * d.x⟩
  | .z => ⟨p.x * d.x - p.y * d.y, p.x * d.y + p.y * d.x, p.z⟩

/-- Turned about an axis, by the right-hand rule for positive angles. -/
def Point3.rotated (p : Point3 K) (axis : Axis) (degrees : K) : Except (Fault K) (Point3 K) :=
  return p.turned axis (← Angle.direction degrees)

omit [Trig K] in
/-- The place that a homogeneous point stands for. -/
def Point4.place (p : Point4 K) : Except (Fault K) (Point3 K) :=
  if Scalar.magnitude p.w < Scalar.epsilon then .error .projectedDirection
  else .ok ⟨p.x / p.w, p.y / p.w, p.z / p.w⟩

end SolidModel
