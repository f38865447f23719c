import SolidModel.Curve.Chain
import SolidModel.Point.Polyline

/-!
# Profiles

A profile is a closed loop of points of the plane, wound clockwise; the edge from the last point
back to the first is understood. The generators therefore step through negative angles.
-/

namespace SolidModel

namespace Profile

variable {K : Type} [Scalar K] [Trig K]

/-! ## Round profiles -/

/-- The points passed by `start` on its way clockwise about the origin. The last point of a full
turn would be the first again and is left out. -/
def arc (start : Point2 K) (degrees : K) (segments : Int) :
    Except (Fault K) (List (Point2 K)) := do
  if ¬(0.0 < degrees ∧ degrees ≤ 360.0) then throw (.arcDegrees degrees)
  if segments < 1 then throw (.arcSegments segments)
  let count := if degrees == 360.0 then segments.toNat else segments.toNat + 1
  let step := -degrees / Scalar.ofInt segments
  (List.range count).mapM fun i => start.rotated (Scalar.ofNat i * step)

/-- A full circle about the origin. -/
def circle (radius : K) (segments : Int) : Except (Fault K) (List (Point2 K)) := do
  if radius ≤ 0.0 then throw (.circleRadius radius)
  if segments < 3 then throw (.circleSegments segments)
  arc ⟨radius, 0.0⟩ 360.0 segments

/-- The regular polygon with its corners on a circle. -/
def inscribedPolygon (sides : Int) (radius : K) : Except (Fault K) (List (Point2 K)) :=
  circle radius sides

/-- The regular polygon whose sides touch a circle. -/
def circumscribedPolygon (sides : Int) (radius : K) : Except (Fault K) (List (Point2 K)) := do
  if sides < 3 then throw (.polygonSides sides)
  inscribedPolygon sides (radius / (← Angle.cos (180.0 / Scalar.ofInt sides)))

/-! ## Rectangles and chamfers -/

/-- A rectangle with round corners, its lower left corner at the origin unless it is centred. -/
def roundedRect (width height radius : K) (segments : Int) (center : Bool := false) :
    Except (Fault K) (List (Point2 K)) := do
  if width ≤ 0.0 ∨ height ≤ 0.0 then throw .rectangleSides
  if radius ≤ 0.0 ∨ Scalar.least width height < 2.0 * radius then
    throw (.rectangleRadius radius width height)
  let corner (start offset : Point2 K) : Except (Fault K) (List (Point2 K)) := do
    return Polyline.shifted (← arc start 90.0 segments) offset
  let upperRight ← corner ⟨0.0, radius⟩ ⟨width - radius, height - radius⟩
  let lowerRight ← corner ⟨radius, 0.0⟩ ⟨width - radius, radius⟩
  let lowerLeft ← corner ⟨0.0, -radius⟩ ⟨radius, radius⟩
  let upperLeft ← corner ⟨-radius, 0.0⟩ ⟨radius, height - radius⟩
  let points := upperRight ++ lowerRight ++ lowerLeft ++ upperLeft
  return if center then Polyline.shifted points ⟨-width / 2.0, -height / 2.0⟩ else points

omit [Trig K] in
/-- The section of a cutter for a chamfer at 45 degrees, grown by `oversize` past the surfaces
that it meets. -/
def chamfer (size oversize : K) : List (Point2 K) :=
  [⟨0.0, size + oversize⟩, ⟨oversize, size + oversize⟩, ⟨oversize, size⟩, ⟨size, oversize⟩,
    ⟨size + oversize, oversize⟩, ⟨size + oversize, 0.0⟩, ⟨0.0, 0.0⟩]

/-! ## Stars -/

/-- The point at an angle and a distance from the origin. -/
def polar (degrees radius : K) : Except (Fault K) (Point2 K) := do
  let d ← Angle.direction degrees
  return ⟨d.x * radius, d.y * radius⟩

/-- The points of a star in order: at each of the `count` rays one at distance `onRay`, and
half way to the next ray one at distance `between`. -/
def starPoints (count : Int) (onRay between : K) : Except (Fault K) (List (Point2 K)) := do
  let angle : K := -360.0 / Scalar.ofInt count
  let pairs ← (List.range count.toNat).mapM fun i => do
    let p ← polar (angle * Scalar.ofNat i) onRay
    let q ← polar (angle * (Scalar.ofNat i + 0.5)) between
    return [p, q]
  return pairs.flatten

/-- A star with straight sides. -/
def star (count : Int) (innerRadius outerRadius : K) : Except (Fault K) (List (Point2 K)) := do
  if count < 2 then throw (.starPoints count)
  starPoints count innerRadius outerRadius

/-- A star with smooth arms. -/
structure BezierStar (K : Type) where
  count : Int
  innerRadius : K
  innerHandle : K
  outerRadius : K
  outerHandle : K
  segments : Int

namespace BezierStar

/-- The length of the handles at a knot: the knots are outer and inner in turn. -/
def handleAt (s : BezierStar K) (knot : Nat) : K :=
  if knot % 2 = 0 then s.outerHandle else s.innerHandle

/-- For each knot but the first, and at last the first again, the control point before it: it
lies behind the knot, parallel to the line that joins the neighbours of the knot. -/
def controls (s : BezierStar K) (knots : List (Point2 K)) : Except (Fault K) (List (Point2 K)) :=
  let around := (knots.zip ((knots.rotateLeft 1).zip (knots.rotateLeft 2))).zipIdx
  around.mapM fun ((before, knot, after), i) => do
    return knot - (← VectorOps.normalized (after - before)) * s.handleAt (i + 1)

/-- Adds one curve after another, up to the knots given. -/
def grow (s : BezierStar K) (chain : Chain (Point2 K)) (knot : Nat) :
    List (Point2 K × Point2 K) → Except (Fault K) (Chain (Point2 K))
  | [] => .ok chain
  | (control, target) :: rest => do
    let next := chain.add (s.handleAt knot) control target s.segments
    match next.fault with
    | some fault => .error fault
    | none => s.grow next.state (knot + 1) rest

/-- The points of the star. -/
def points (s : BezierStar K) : Except (Fault K) (List (Point2 K)) := do
  if s.count < 2 then throw (.curvedStarPoints s.count)
  let knots ← starPoints s.count s.outerRadius s.innerRadius
  let controls ← s.controls knots
  match knots, controls with
  | first :: second :: others, control :: laterControls =>
    let start ← Chain.start ⟨first, control, control, second, s.segments⟩
    let chain ← s.grow start 1 (laterControls.zip others)
    let closed := chain.close s.innerHandle (laterControls.getLastD control) s.outerHandle
      s.segments
    match closed.fault with
    | some fault => .error fault
    | none => closed.state.points
  | _, _ => return []

end BezierStar

end Profile

end SolidModel
