import SolidModel.Fastener.Basic
import SolidModel.Polyhedron.Sweep

/-!
# A demonstration scene

A bolt, a nut of the same size beside it, and a ring with the section of a star, twisted once
around. The report says of each polyhedron whether its surface is closed.
-/

namespace SolidModel

namespace Demo

variable {K : Type} [Scalar K] [Trig K]

/-- The scene for a metric size, a bolt length and a number of segments per turn. -/
def scene (m : Int) (length : K) (segments : Int) : Except (Fault K) (Noted (Combination K)) := do
  let size : K ← Scalar.ofInt? m
  let bolt ← Fastener.hexBolt m length (size * 0.7) segments 90.0 true
  let nut ← Fastener.hexNut m (size * 0.8) segments true
  let nutBeside := nut.value.shifted ⟨3.0 * size, 0.0, 0.0⟩
  let path := Polyline.atHeight (← Profile.circle (4.0 * size) segments) 0.0
  let star : Profile.BezierStar K := ⟨5, 1.0, 0.3, 2.0, 0.3, 4⟩
  let ring ← Polyhedron.sweep (← star.points) path 360.0 true
  let ringBeside := ring.value.shifted ⟨-6.0 * size, 0.0, 0.0⟩
  let parts := [bolt.value.toSolid, nutBeside.toSolid, .polyhedron ringBeside]
  return ⟨(Combination.ofParts .union parts).finalize.state,
    bolt.notices ++ nut.notices ++ ring.notices⟩

omit [Scalar K] [Trig K] in
/-- One line of the report. -/
def line [NumberText K] (p : Polyhedron K) : String :=
  p.text ++ ": watertight=" ++ flagText p.watertight.ok ++ " oriented=" ++ flagText p.oriented.ok

omit [Scalar K] [Trig K] in
/-- The report on all polyhedra of a combination, from left to right. -/
def report [NumberText K] (c : Combination K) : List String := c.leaves.map line

end Demo

end SolidModel
