import SolidModel.Triangulation.EarClipping

/-!
# Planar loops in space

A planar loop is triangulated in the coordinate plane that its normal is best aligned with; of
equal components the first decides. Of the two ways to lay a loop into a coordinate plane the one
is taken that keeps it clockwise if it is clockwise seen from the side of the normal.
-/

namespace SolidModel

variable {K : Type} [Scalar K]

/-- A point laid into the coordinate plane that suits a normal. -/
def Point3.projected (normal p : Point3 K) : Point2 K :=
  let ax := Scalar.magnitude normal.x
  let ay := Scalar.magnitude normal.y
  let az := Scalar.magnitude normal.z
  if ay ≤ ax ∧ az ≤ ax then
    if 0.0 ≤ normal.x then ⟨p.y, p.z⟩ else ⟨-p.y, p.z⟩
  else if az ≤ ay then
    if 0.0 ≤ normal.y then ⟨-p.x, p.z⟩ else ⟨p.x, p.z⟩
  else if 0.0 ≤ normal.z then ⟨p.x, p.y⟩
  else ⟨-p.x, p.y⟩

/-- A loop laid into the coordinate plane that suits a normal. -/
def Polyline.projected (loop : List (Point3 K)) (normal : Point3 K) : List (Point2 K) :=
  loop.map (Point3.projected normal)

/-- The triangles of a planar loop that is clockwise seen from the side of the normal. -/
def Triangulation.ofPlanarLoop (loop : List (Point3 K)) (normal : Point3 K) :
    Except (Fault K) Triangulation :=
  Triangulation.ofLoop (Polyline.projected loop normal)

end SolidModel
