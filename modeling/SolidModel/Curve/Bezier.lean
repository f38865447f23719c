import SolidModel.Point.Direction

/-!
# Bezier curves

Quadratic and cubic curves in any dimension, sampled at equal steps of their parameter. With `n`
segments there are `n + 1` samples, both ends included.
-/

namespace SolidModel

/-- A curve that leaves `start` and reaches `finish` toward one control point. -/
structure QuadraticBezier (P : Type) where
  start : P
  control : P
  finish : P
  segments : Int
  deriving DecidableEq

/-- A curve that leaves `start` toward one control point and reaches `finish` from another. -/
structure CubicBezier (P : Type) where
  start : P
  control1 : P
  control2 : P
  finish : P
  segments : Int
  deriving DecidableEq

variable {K P : Type} [Scalar K] [VectorOps K P]

namespace Bezier

/-- A curve has at least one segment. -/
def checkSegments (segments : Int) : Except (Fault K) Unit :=
  if segments < 1 then .error (.curveSegments segments) else .ok ()

omit [Scalar K] in
theorem checkSegments_eq_ok_iff {segments : Int} :
    (checkSegments segments : Except (Fault K) Unit) = .ok () ↔ 1 ≤ segments := by
  rw [checkSegments]
  split
  next h => exact iff_of_false (fun hcheck => nomatch hcheck) (by omega)
  next h => exact iff_of_true rfl (by omega)

/-- The parameters of the samples, from zero to one. -/
def parameters (segments : Int) : List K :=
  let step : K := 1.0 / Scalar.ofInt segments
  (List.range (segments.toNat + 1)).map fun i => Scalar.ofNat i * step

end Bezier

namespace QuadraticBezier

/-- The point at parameter `t`. -/
def pointAt (b : QuadraticBezier P) (t : K) : P :=
  let u := 1.0 - t
  b.start * (u * u) + b.control * (2.0 * t * u) + b.finish * (t * t)

/-- The samples of the curve. -/
def points (b : QuadraticBezier P) : Except (Fault K) (List P) := do
  Bezier.checkSegments b.segments
  return (Bezier.parameters b.segments).map b.pointAt

end QuadraticBezier

namespace CubicBezier

/-- The point at parameter `t`. -/
def pointAt (b : CubicBezier P) (t : K) : P :=
  let u := 1.0 - t
  b.start * (u * u * u) + b.control1 * (3.0 * t * u * u) + b.control2 * (3.0 * t * t * u)
    + b.finish * (t * t * t)

/-- The samples of the curve. -/
def points (b : CubicBezier P) : Except (Fault K) (List P) := do
  Bezier.checkSegments b.segments
  return (Bezier.parameters b.segments).map b.pointAt

end CubicBezier

end SolidModel
