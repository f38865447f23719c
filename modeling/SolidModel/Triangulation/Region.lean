import SolidModel.Triangulation.Bridge

/-!
# Outlines with holes

A region is an outline with holes cut out of it. How it is cut into triangles is left to a
`RegionCutter`, any function from the loops to triangles over their points in a row; what is
checked of the loops, and that every triangle of the result runs clockwise, does not depend on
it. The cutter in use joins the holes to the outline by bridges and clips ears.
-/

namespace SolidModel

variable {K : Type}

/-- A way to cut loops, the outline and then the holes, into triangles. Positions count through
all loops in a row. -/
abbrev RegionCutter (K : Type) := List (List (Point2 K)) → List Triangle

namespace Region

variable [Scalar K]

/-- The loops with their points numbered in a row, from `start`. -/
def numbered : (start : Nat) → List (List (Point2 K)) → List (List (Vertex K))
  | _, [] => []
  | start, loop :: rest =>
    Vertex.numbered loop start :: numbered (start + loop.length) rest

/-- The cutter that joins holes to the outline by bridges. -/
def bridgeCutter : RegionCutter K := fun loops =>
  match numbered 0 loops with
  | [] => []
  | outline :: holes =>
    let ring := Bridge.merged outline holes
    Bridge.clip ring.length ring

/-- A triangle over a sequence of points, run clockwise. -/
def clockwise (points : Array (Point2 K)) (t : Triangle) : Triangle :=
  match points[t.a]?, points[t.b]?, points[t.c]? with
  | some a, some b, some c => if Point2.isCounterClockwise a b c then t.reversed else t
  | _, _, _ => t

/-- Every loop has at least three points. -/
def checkLoops (loops : List (List (Point2 K))) : Except (Fault K) Unit :=
  loops.forM fun loop =>
    if loop.length < 3 then .error (.tooFewLoopPoints loop.length) else .ok ()

/-- The triangles of a clockwise outline less its holes, which may run either way. -/
def triangulate (cut : RegionCutter K) (outline : List (Point2 K))
    (holes : List (List (Point2 K))) : Except (Fault K) (List Triangle) := do
  checkLoops (outline :: holes)
  if 0.0 < Polyline.signedArea outline then throw .notClockwise
  let points := (outline ++ holes.flatten).toArray
  let triangles := (cut (outline :: holes)).map (clockwise points)
  if triangles.isEmpty then throw .noTriangles
  return triangles

end Region

end SolidModel
