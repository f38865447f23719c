import SolidModel.Polyhedron.Basic
import SolidModel.Profile
import SolidModel.Triangulation.Region

/-!
# Prisms and lofts

A profile at height zero is joined to one at a positive height by a wall of quads and closed by
two caps. The caps are triangulated on their own; the lower one is reversed, since it is seen
from below. A prism may have holes: every loop then has a lower and an upper ring of its own,
one behind the other, and positions in the outline followed by the holes become positions in the
rings.
-/

namespace SolidModel

namespace Polyhedron

variable {K : Type} [Scalar K]

/-- Two rings of equal length with caps between which a wall stands. -/
def capped (lower upper : List (Point2 K)) (height : K) (procedure : Procedure K) :
    Except (Fault K) (Noted (Polyhedron K)) := do
  let bottom ← Triangulation.ofLoop lower
  let top ← Triangulation.ofLoop upper
  let n := lower.length
  return {
    value := {
      points := Polyline.atHeight lower 0.0 ++ Polyline.atHeight upper height
      faces := cap 0 bottom.reversed ++ cap n top ++ walls 0 n n
      procedure := some procedure }
    notices := bottom.notices ++ top.notices }

/-! ## Holes -/

/-- Where the rings of a loop start, and how many points each has. -/
structure RingPlace where
  start : Nat
  count : Nat

namespace RingPlace

/-- The places of loops whose rings follow one another from `start`. -/
def inRow : (start : Nat) → List (List (Point2 K)) → List RingPlace
  | _, [] => []
  | start, loop :: rest => ⟨start, loop.length⟩ :: inRow (start + 2 * loop.length) rest

/-- The positions of the lower ring. -/
def lower (r : RingPlace) : List Nat := List.range' r.start r.count

/-- The positions of the upper ring. -/
def upper (r : RingPlace) : List Nat := List.range' (r.start + r.count) r.count

end RingPlace

/-- A triangle over all loops in a row as a face over their rings. -/
def ringFace (positions : Array Nat) (t : Triangle) : Face :=
  let place (i : Nat) : Int := (positions.getD i 0 : Nat)
  [place t.a, place t.b, place t.c]

/-- A hole run counter-clockwise, so that its wall faces into it. -/
def holeLoop (hole : List (Point2 K)) : Except (Fault K) (List (Point2 K)) :=
  if hole.length < 3 then .error (.tooFewHolePoints hole.length)
  else if Polyline.signedArea hole < 0.0 then .ok hole.reverse
  else .ok hole

/-- The prism over an outline with holes. -/
def holedPrism (cut : RegionCutter K) (outline : List (Point2 K))
    (holes : List (List (Point2 K))) (height : K) : Except (Fault K) (Polyhedron K) := do
  let loops ← holes.mapM holeLoop
  let triangles ← Region.triangulate cut outline loops
  let places := RingPlace.inRow 0 (outline :: loops)
  let lower := (places.flatMap RingPlace.lower).toArray
  let upper := (places.flatMap RingPlace.upper).toArray
  return {
    points := (outline :: loops).flatMap fun loop =>
      Polyline.atHeight loop 0.0 ++ Polyline.atHeight loop height
    faces := triangles.map (fun t => ringFace lower t.reversed) ++
      triangles.map (ringFace upper) ++
      places.flatMap fun r => walls r.start (r.start + r.count) r.count
    procedure := some (.holedExtrusion height loops.length) }

/-! ## The constructions -/

/-- A clockwise profile extruded to a positive height, around holes if there are any, which are
cut out by `cut`. -/
def linearExtrudeBy (cut : RegionCutter K) (profile : List (Point2 K)) (height : K)
    (holes : List (List (Point2 K)) := []) : Except (Fault K) (Noted (Polyhedron K)) := do
  if profile.length < 3 then throw (.extrusionPoints profile.length)
  if height ≤ 0.0 then throw (.extrusionHeight height)
  match holes with
  | [] => capped profile profile height (.extrusion height)
  | _ => return ⟨← holedPrism cut profile holes height, []⟩

/-- A clockwise profile extruded to a positive height, around holes if there are any. -/
def linearExtrude (profile : List (Point2 K)) (height : K)
    (holes : List (List (Point2 K)) := []) : Except (Fault K) (Noted (Polyhedron K)) :=
  linearExtrudeBy Region.bridgeCutter profile height holes

/-- Two clockwise profiles of equally many points, the second at a positive height, joined point
by point. -/
def loft (lower upper : List (Point2 K)) (height : K) :
    Except (Fault K) (Noted (Polyhedron K)) := do
  if lower.length < 3 then throw (.loftPoints lower.length)
  if upper.length ≠ lower.length then throw (.loftLengths lower.length upper.length)
  if height ≤ 0.0 then throw (.loftHeight height)
  capped lower upper height (.loft height)

/-- An extruded circle. -/
def cylinder [Trig K] (radius height : K) (segments : Int) :
    Except (Fault K) (Noted (Polyhedron K)) := do
  let made ← linearExtrude (← Profile.circle radius segments) height
  return { made with
    value := { made.value with procedure := some (.cylinder radius height segments) } }

end Polyhedron

end SolidModel
