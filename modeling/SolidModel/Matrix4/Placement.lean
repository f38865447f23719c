import SolidModel.Matrix4.Basic

/-!
# Matrices that place things

Turns about an axis, shifts, scalings, and the frames that look from one point to another. The
rotation block of a frame is built from vector products of unit vectors, so it keeps lengths;
where the viewing direction is along the vertical there is no product to build it from, and a
fixed turn takes its place.
-/

namespace SolidModel

namespace Matrix4

variable {K : Type} [Scalar K]

/-- The block of three columns in front of a shift. -/
def ofColumns (x y z shift : Point3 K) : Matrix4 K :=
  ofRows ⟨x.x, y.x, z.x, shift.x⟩ ⟨x.y, y.y, z.y, shift.y⟩ ⟨x.z, y.z, z.z, shift.z⟩
    ⟨0.0, 0.0, 0.0, 1.0⟩

/-- The block of three rows in front of a shift. -/
def ofBlockRows (x y z shift : Point3 K) : Matrix4 K :=
  ofRows (x.withW shift.x) (y.withW shift.y) (z.withW shift.z) ⟨0.0, 0.0, 0.0, 1.0⟩

/-- The vector without extent. -/
def noShift : Point3 K := ⟨0.0, 0.0, 0.0⟩

/-- The vertical direction. -/
def vertical : Point3 K := ⟨0.0, 0.0, 1.0⟩

/-! ## Shifts and scalings -/

/-- The shift by a vector. -/
def shift (delta : Point3 K) (inverse : Bool := false) : Matrix4 K :=
  let delta := if inverse then -delta else delta
  ofBlockRows ⟨1.0, 0.0, 0.0⟩ ⟨0.0, 1.0, 0.0⟩ ⟨0.0, 0.0, 1.0⟩ delta

/-- The scaling by three numbers. -/
def scalingBy (s : Point3 K) : Matrix4 K :=
  ofBlockRows ⟨s.x, 0.0, 0.0⟩ ⟨0.0, s.y, 0.0⟩ ⟨0.0, 0.0, s.z⟩ noShift

/-- The three numbers that a scaling is given by: a point of space, three numbers, or one
number for all three. -/
def scalingNumbers : Factor K → Raw K → Raw K → Except (Fault K) (Point3 K)
  | .point (.space p), _, _ => .ok p
  | .value (.number x), .number y, .number z => .ok ⟨x, y, z⟩
  | .value (.number x), _, _ => .ok ⟨x, x, x⟩
  | _, _, _ => .error .notScaling

/-- A scaling, or the one that undoes it. -/
def scaling (x : Factor K) (y z : Raw K := .nothing) (inverse : Bool := false) :
    Except (Fault K) (Matrix4 K) := do
  let s ← scalingNumbers x y z
  if inverse then
    if Scalar.magnitude s.x < Scalar.epsilon ∨ Scalar.magnitude s.y < Scalar.epsilon ∨
        Scalar.magnitude s.z < Scalar.epsilon then
      throw .zeroScaling
    else return scalingBy ⟨1.0 / s.x, 1.0 / s.y, 1.0 / s.z⟩
  else return scalingBy s

/-! ## Turns -/

variable [Trig K]

/-- The turn about the unit vector `u` by the angle whose unit vector is `d`. -/
def turn (u : Point3 K) (d : Point2 K) : Matrix4 K :=
  let c := d.x
  let s := d.y
  let r := 1.0 - c
  ofBlockRows
    ⟨c + u.x * u.x * r, u.x * u.y * r - u.z * s, u.x * u.z * r + u.y * s⟩
    ⟨u.y * u.x * r + u.z * s, c + u.y * u.y * r, u.y * u.z * r - u.x * s⟩
    ⟨u.z * u.x * r - u.y * s, u.z * u.y * r + u.x * s, c + u.z * u.z * r⟩
    noShift

/-- The turn about an axis by an angle, by the right-hand rule. An axis of length close to one
is taken as it is. -/
def rotation (axis : Point3 K) (degrees : K) (inverse : Bool := false) :
    Except (Fault K) (Matrix4 K) := do
  let length := VectorOps.length axis
  if length < Scalar.epsilon then throw .zeroAxis
  let u := if Scalar.close length 1.0 then axis else axis / length
  let degrees := if inverse then degrees * -1.0 else degrees
  return turn u (← Angle.direction (Trig.withinTurn degrees))

omit [Trig K] in
/-- The unit vector along an axis. -/
def unit : Axis → Point3 K
  | .x => ⟨1.0, 0.0, 0.0⟩
  | .y => ⟨0.0, 1.0, 0.0⟩
  | .z => ⟨0.0, 0.0, 1.0⟩

/-- The turn about a coordinate axis. -/
def axisRotation (axis : Axis) (degrees : K) : Except (Fault K) (Matrix4 K) :=
  rotation (unit axis) degrees

/-! ## Frames -/

/-- The unit vector from one point to another. -/
def forward (eye center : Point3 K) : Except (Fault K) (Point3 K) :=
  let f := center - eye
  if VectorOps.length f < Scalar.epsilon then .error (.eyeAtCenter eye)
  else VectorOps.normalized f

/-- The placement whose origin is `eye` and whose local vertical points to `center`. Along the
vertical it is not turned at all, against it by half a turn about the first axis. -/
def placement (eye center : Point3 K) (up : Point3 K := vertical) :
    Except (Fault K) (Matrix4 K) := do
  let f ← forward eye center
  let s := up.cross f
  let frame ←
    if VectorOps.length s < Scalar.epsilon then
      if VectorOps.dot up f < 0.0 then axisRotation .x 180.0 else pure identity
    else do
      let s ← VectorOps.normalized s
      pure (ofColumns s (f.cross s) f noShift)
  return frame.shiftedTo (eye.withW 1.0)

/-- The view from `eye`, in which `center` lies on the negative local vertical. -/
def view (eye center : Point3 K) (up : Point3 K := vertical) :
    Except (Fault K) (Matrix4 K) := do
  let f ← forward eye center
  let s := f.cross up
  if VectorOps.length s < Scalar.epsilon then
    if VectorOps.dot up f < 0.0 then
      return (← axisRotation .x 180.0) * shift eye true
    else return shift eye true
  else
    let s ← VectorOps.normalized s
    let u := s.cross f
    return ofBlockRows s u (-f)
      ⟨-VectorOps.dot s eye, -VectorOps.dot u eye, VectorOps.dot f eye⟩

/-- The turn that brings a direction onto the second axis; its rows are the direction in the
middle of two vectors perpendicular to it. -/
def alignment (direction : Point3 K) (up : Option (Point3 K) := none) :
    Except (Fault K) (Matrix4 K) := do
  let d ← VectorOps.normalized direction
  let x := (up.getD vertical).cross d
  if VectorOps.length x < Scalar.epsilon then throw (.directionAlongUp direction up)
  let x ← VectorOps.normalized x
  let z ← VectorOps.normalized (d.cross x)
  return ofBlockRows x d z noShift

end Matrix4

end SolidModel
