import SolidModel.Matrix4.Basic

/-!
# Sequences of points

A profile is a sequence of points of the plane, a path and the vertices of a solid are sequences
of points of space. What is done to every point at once stands here.
-/

namespace SolidModel

namespace Polyline

variable {K : Type} [Scalar K]

/-- Every point shifted by a vector. -/
def shifted {P : Type} [VectorOps K P] (points : List P) (delta : P) : List P :=
  points.map (· + delta)

/-- Every point of the plane turned about the origin. -/
def rotated [Trig K] (points : List (Point2 K)) (degrees : K) :
    Except (Fault K) (List (Point2 K)) :=
  points.mapM (·.rotated degrees)

/-- Every point of space turned about an axis. -/
def rotatedAbout [Trig K] (points : List (Point3 K)) (axis : Axis) (degrees : K) :
    Except (Fault K) (List (Point3 K)) :=
  points.mapM (·.rotated axis degrees)

/-- Every place of space moved by a matrix. -/
def moved (points : List (Point3 K)) (m : Matrix4 K) : List (Point3 K) :=
  points.map m.applyPlace

/-- The points of the plane at one height. -/
def atHeight (points : List (Point2 K)) (z : K) : List (Point3 K) :=
  points.map (·.atHeight z)

/-- The points of the plane set upright. -/
def upright (points : List (Point2 K)) : List (Point3 K) := points.map (·.upright)

/-- The pairs of neighbours around a closed loop, the last point paired with the first. -/
def cyclicPairs {α : Type} (loop : List α) : List (α × α) := loop.zip (loop.rotateLeft 1)

@[simp] theorem length_rotateLeft {α : Type} (loop : List α) (n : Nat) :
    (loop.rotateLeft n).length = loop.length := by
  simp only [List.rotateLeft]
  split
  · rfl
  · have := Nat.mod_lt n (show 0 < loop.length by omega)
    simp only [List.length_append, List.length_drop, List.length_take]
    omega

@[simp] theorem length_rotateRight {α : Type} (loop : List α) (n : Nat) :
    (loop.rotateRight n).length = loop.length := by
  simp only [List.rotateRight]
  split
  · rfl
  · simp only [List.length_append, List.length_drop, List.length_take]
    omega

/-- A loop has as many edges as points. -/
@[simp] theorem length_cyclicPairs {α : Type} (loop : List α) :
    (cyclicPairs loop).length = loop.length := by
  simp [cyclicPairs]

end Polyline

end SolidModel
