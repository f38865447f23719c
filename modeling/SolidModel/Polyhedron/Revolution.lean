import SolidModel.Polyhedron.Basic
import SolidModel.Triangulation.Plane

/-!
# Solids of revolution

A profile is set upright and revolved counter-clockwise about the vertical axis: its first
coordinate becomes the radius and its second the height. A full turn closes on itself, anything
less is closed by a cap at either end.
-/

namespace SolidModel

namespace Polyhedron

variable {K : Type} [Scalar K] [Trig K]

/-- The direction that the first cap faces. -/
def startNormal : Point3 K := ⟨0.0, -1.0, 0.0⟩

/-- The faces between consecutive rings of `n` points. -/
def revolvedStrips (n rings : Nat) : List Face :=
  (List.range (rings - 1)).flatMap fun k => revolvedWalls (k * n) ((k + 1) * n) n

/-- The profile set upright and turned by 0, 1, 2, … times `step`. -/
def revolvedRings (profile : List (Point2 K)) (step : K) (count : Nat) :
    Except (Fault K) (List (List (Point3 K))) :=
  (List.range count).mapM fun k =>
    Polyline.rotatedAbout (Polyline.upright profile) .z (step * Scalar.ofNat k)

/-- A clockwise profile revolved about the vertical axis. -/
def rotateExtrude (profile : List (Point2 K)) (degrees : K) (segments : Int) :
    Except (Fault K) (Noted (Polyhedron K)) := do
  let n := profile.length
  if n < 3 then throw (.revolutionPoints n)
  if ¬(0.0 < degrees ∧ degrees ≤ 360.0) then throw (.revolutionDegrees degrees)
  if segments < 3 then throw (.revolutionSegments segments)
  match profile.find? fun p => decide (p.x < -Scalar.epsilon) with
  | some p => throw (.revolutionCrossesAxis p)
  | none => pure ()
  let full := degrees == 360.0
  let ringCount := if full then segments.toNat else segments.toNat + 1
  let step := degrees / Scalar.ofInt segments
  let rings ← revolvedRings profile step ringCount
  let lastStart := (ringCount - 1) * n
  let strips := revolvedStrips n ringCount
  let (closing, notices) ←
    if full then pure (revolvedWalls lastStart 0 n, [])
    else do
      let first ← Triangulation.ofPlanarLoop (rings.headD []) startNormal
      let endNormal ← (startNormal : Point3 K).rotated .z degrees
      let last ← Triangulation.ofPlanarLoop (rings.getLastD []) endNormal
      pure (cap 0 first ++ cap lastStart last.reversed, first.notices ++ last.notices)
  return {
    value := {
      points := rings.flatten
      faces := strips ++ closing
      procedure := some (.revolution degrees segments) }
    notices }

end Polyhedron

end SolidModel
