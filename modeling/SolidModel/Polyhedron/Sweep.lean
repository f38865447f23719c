import SolidModel.Matrix4.Placement
import SolidModel.Polyhedron.Basic
import SolidModel.Triangulation.Plane

/-!
# Sweeps

A profile is carried along a path, one ring of points for each point of the path. A ring is the
profile turned by its share of the twist, placed by the frame that looks from the point before
to the point after, and moved to its own point. An open sweep has a cap at either end, where the
missing neighbour is replaced by the end point itself; a closed one joins the last ring to the
first.
-/

namespace SolidModel

namespace Polyhedron

variable {K : Type} [Scalar K] [Trig K]

/-- A point of the path between the points that its ring is aligned by. -/
structure Station (K : Type) where
  before : Point3 K
  place : Point3 K
  after : Point3 K

/-- The stations of a path; around a closed path the ends are neighbours. -/
def stations (path : List (Point3 K)) (closed : Bool) : List (Station K) :=
  let before := if closed then path.rotateRight 1 else path.take 1 ++ path.dropLast
  let after := if closed then path.rotateLeft 1 else path.tail ++ path.getLast?.toList
  List.zipWith (fun b (p, a) => ⟨b, p, a⟩) before (path.zip after)

/-- The profile turned by an angle and placed at a station. -/
def Station.ring (s : Station K) (profile : List (Point2 K)) (degrees : K) :
    Except (Fault K) (List (Point3 K)) := do
  let frame ← Matrix4.placement s.before s.after
  let turned ← Polyline.rotated profile degrees
  return turned.map fun p => (frame.apply ((p.atHeight 0.0).withW 0.0)).dropW + s.place

/-- The profile placed at every station, at each turned by one `step` more. -/
def sweptRings (profile : List (Point2 K)) (stations : List (Station K)) (step : K) :
    Except (Fault K) (List (List (Point3 K))) :=
  stations.zipIdx.mapM fun (s, k) => s.ring profile (step * Scalar.ofNat k)

/-- Are two points of a path too close to tell a direction? -/
def coincide (p q : Point3 K) : Bool := decide (VectorOps.length (q - p) < Scalar.epsilon)

/-- A path of enough points, no two neighbours of which coincide. -/
def checkPath (path : List (Point3 K)) (closed : Bool) : Except (Fault K) Unit := do
  if path.length < (if closed then 3 else 2) then throw (.sweepPathPoints path.length)
  match (path.zip path.tail).findIdx? fun (p, q) => coincide p q with
  | some k => throw (.sweepRepeatedPoint k)
  | none => pure ()
  match path.head?, path.getLast? with
  | some first, some last =>
    if closed && coincide last first then throw .sweepRepeatedEnd
  | _, _ => pure ()

/-- The direction in which a path starts. -/
def startDirection : List (Point3 K) → Point3 K
  | p :: q :: _ => q - p
  | _ => Matrix4.noShift

/-- The direction in which a path ends. -/
def endDirection (path : List (Point3 K)) : Point3 K :=
  match path.reverse with
  | q :: p :: _ => q - p
  | _ => Matrix4.noShift

/-- A clockwise profile carried along a path. -/
def sweep (profile : List (Point2 K)) (path : List (Point3 K)) (twist : K := 0.0)
    (closed : Bool := false) : Except (Fault K) (Noted (Polyhedron K)) := do
  let n := profile.length
  let count := path.length
  if n < 3 then throw (.sweepPoints n)
  checkPath path closed
  let step := twist / Scalar.ofNat (if closed then count else count - 1)
  let rings ← sweptRings profile (stations path closed) step
  let lastStart := (count - 1) * n
  let strips := (List.range (count - 1)).flatMap fun k => walls (k * n) ((k + 1) * n) n
  let (faces, notices) ←
    if closed then pure (strips ++ walls lastStart 0 n, [])
    else do
      let first ← Triangulation.ofPlanarLoop (rings.headD []) (startDirection path)
      let last ← Triangulation.ofPlanarLoop (rings.getLastD []) (endDirection path)
      pure (cap 0 first.reversed ++ strips ++ cap lastStart last, first.notices ++ last.notices)
  return {
    value := { points := rings.flatten, faces, procedure := some (.sweep twist closed) }
    notices }

end Polyhedron

end SolidModel
