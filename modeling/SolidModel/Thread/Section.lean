import SolidModel.Point.Direction

/-!
# The section of a thread

A thread is a section of four points carried up a helix. Two of its points, the roots, lie on the
minor diameter; the other two, the crests, on the major diameter or, where the thread runs in or
out, nearer to the roots.
-/

namespace SolidModel

/-- The four points of a thread's section. -/
structure ThreadSection (K : Type) where
  rootTop : Point3 K
  crestTop : Point3 K
  rootBottom : Point3 K
  crestBottom : Point3 K
  deriving DecidableEq

namespace ThreadSection

variable {K : Type}

/-- The four points in order. -/
def points (s : ThreadSection K) : List (Point3 K) :=
  [s.rootTop, s.crestTop, s.rootBottom, s.crestBottom]

/-- The section with other crests. -/
def withCrest (s : ThreadSection K) (top bottom : Point3 K) : ThreadSection K :=
  { s with crestTop := top, crestBottom := bottom }

variable [Scalar K]

/-- The points at the angle whose unit vector is `d`, shifted up by `z`. -/
def placedAt (s : ThreadSection K) (d : Point2 K) (z : K) : List (Point3 K) :=
  s.points.map fun p => ⟨d.x * p.x, d.y * p.x, z + p.z⟩

/-- The points at an angle about the axis, shifted up by `z`. -/
def placed [Trig K] (s : ThreadSection K) (degrees z : K) : Except (Fault K) (List (Point3 K)) :=
  return s.placedAt (← Angle.direction degrees) z

/-- The full section of a thread with the given diameters. -/
def full (minor major pitch : K) : ThreadSection K where
  rootTop := ⟨minor / 2.0, 0.0, 3.0 / 4.0 * pitch⟩
  crestTop := ⟨major / 2.0, 0.0, 7.0 / 16.0 * pitch⟩
  rootBottom := ⟨minor / 2.0, 0.0, 0.0⟩
  crestBottom := ⟨major / 2.0, 0.0, 5.0 / 16.0 * pitch⟩

/-- The upper crest of a section without any height. -/
def flushTop (minor pitch : K) : Point3 K := ⟨minor / 2.0, 0.0, 7.0 / 16.0 * pitch⟩

/-- The lower crest of a section without any height. -/
def flushBottom (minor pitch : K) : Point3 K := ⟨minor / 2.0, 0.0, 5.0 / 16.0 * pitch⟩

end ThreadSection

/-- The point reached after `step` of `steps` equal steps from one point to another. -/
def stepped {K : Type} [Scalar K] (start finish : Point3 K) (steps step : Int) : Point3 K :=
  start + (finish - start) / (Scalar.ofInt steps : K) * (Scalar.ofInt step : K)

end SolidModel
