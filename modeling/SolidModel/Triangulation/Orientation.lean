import SolidModel.Point.Polyline

/-!
# Orientation in the plane

Signed areas of triangles and loops, positive when they run counter-clockwise, and the closed
containment test of a triangle. A triangle whose doubled area is below `Scalar.areaEpsilon` is a
sliver, and every point counts as inside one.
-/

namespace SolidModel

variable {K : Type} [Scalar K]

namespace Point2

/-- Twice the signed area of a triangle, positive if it runs counter-clockwise. -/
def doubleArea (a b c : Point2 K) : K :=
  (b.x - a.x) * (c.y - a.y) - (c.x - a.x) * (b.y - a.y)

/-- Does the triangle run counter-clockwise? -/
def isCounterClockwise (a b c : Point2 K) : Bool := decide (0.0 < doubleArea a b c)

/-- Is the triangle too thin to have a reliable direction? -/
def isSliver (a b c : Point2 K) : Bool :=
  decide (Scalar.magnitude (doubleArea a b c) < Scalar.areaEpsilon)

/-- Is `p` in the triangle, its edges included? Decided by barycentric coordinates, which a
triangle without area does not have. -/
def inTriangle (p a b c : Point2 K) : Bool :=
  let area := (b.y - c.y) * (a.x - c.x) + (c.x - b.x) * (a.y - c.y)
  if Scalar.magnitude area < Scalar.areaEpsilon then true
  else
    let share := 1.0 / area
    let alpha := share * ((b.y - c.y) * (p.x - c.x) + (c.x - b.x) * (p.y - c.y))
    if alpha < 0.0 then false
    else
      let beta := share * ((c.y - a.y) * (p.x - c.x) + (a.x - c.x) * (p.y - c.y))
      if beta < 0.0 then false
      else decide (0.0 ≤ 1.0 - alpha - beta)

end Point2

namespace Polyline

/-- What the edge from `p` to `q` adds to the doubled area of a loop. -/
def edgeArea (p q : Point2 K) : K := p.x * q.y - q.x * p.y

/-- The area of a loop, positive if it runs counter-clockwise. -/
def signedArea (loop : List (Point2 K)) : K :=
  (cyclicPairs loop).foldl (fun total (p, q) => total + edgeArea p q) 0.0 * 0.5

/-- Does the loop run clockwise, by more than the tolerance? -/
def isClockwise (loop : List (Point2 K)) : Bool := decide (signedArea loop < -Scalar.epsilon)

end Polyline

end SolidModel
