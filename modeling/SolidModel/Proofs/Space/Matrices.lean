import Mathlib
import SolidModel.Matrix4.Placement
import SolidModel.Proofs.Matrix4.Table
import SolidModel.Proofs.Space.Frames

/-!
# What matrices do to points

Over a field, the table of a product of matrices is the product of their tables, so a product acts as
one factor after the other on homogeneous points. Places of space are homogeneous points with a last
coordinate of one, which is dropped from the result. So a product acts on places as its factors do if
the one that acts first keeps that coordinate, as every matrix with the last row 0, 0, 0, 1 does.
Nothing is asked of the other factor, nor of the flags, since a matrix is read by its entries only.
-/

namespace SolidModel

open VectorOps (dot)

variable {K : Type} [Field K] [LinearOrder K] [FloorRing K]

namespace Point3

/-- Turned about the unit vector `u` by the angle whose unit vector is `d`: what lies across the
axis turns, what lies along it stays. -/
def turnedAbout (p u : Point3 K) (d : Point2 K) : Point3 K :=
  p * d.x + u.cross p * d.y + u * (dot u p * (1 - d.x))

theorem turnedAbout_unit (p : Point3 K) (axis : Axis) (d : Point2 K) :
    p.turnedAbout (Matrix4.unit axis) d = p.turned axis d := by
  cases axis <;>
  · simp only [turnedAbout, Matrix4.unit, turned, ext_iff', dot_eq, add_x, add_y, add_z, mul_x,
      mul_y, mul_z, cross_x, cross_y, cross_z, Scalar.one_eq, Scalar.zero_eq]
    refine ⟨?_, ?_, ?_⟩ <;> ring

end Point3

namespace Matrix4

variable (m n : Matrix4 K)

/-! ## Products -/

private theorem summedProducts_eq_dotProduct (u v : Fin 4 → K) : summedProducts u v = u ⬝ᵥ v := by
  rw [summedProducts, dotProduct, Fin.sum_univ_four]

theorem table_mul_eq_mul : (m * n).table = m.table * n.table := by
  rw [table_mul]
  ext i j
  rw [Matrix.of_apply, summedProducts_eq_dotProduct, Matrix.mul_apply']
  rfl

theorem get_apply_eq_mulVec (p : Point4 K) : (m.apply p).get = m.table.mulVec p.get := by
  funext i
  rw [apply_eq_ofGet, Point4.get_ofGet, summedProducts_eq_dotProduct, Matrix.mulVec, Matrix.row]

/-- **A product acts as its factors do, the second before the first.** -/
theorem apply_mul (p : Point4 K) : (m * n).apply p = m.apply (n.apply p) := by
  refine Point4.eq_of_get fun i ↦ ?_
  rw [get_apply_eq_mulVec, get_apply_eq_mulVec, get_apply_eq_mulVec, table_mul_eq_mul,
    Matrix.mulVec_mulVec]

private theorem dot_withW (r : Point4 K) (p : Point3 K) (w : K) :
    dot r (p.withW w) = r.x * p.x + r.y * p.y + r.z * p.z + r.w * w := rfl

theorem applyDirection_scaled (p : Point3 K) (t : K) :
    m.applyDirection (p * t) = m.applyDirection p * t := by
  simp only [applyDirection, apply, Point4.dropW, dot_withW, Scalar.zero_eq, Point3.ext_iff',
    Point3.mul_x, Point3.mul_y, Point3.mul_z]
  refine ⟨?_, ?_, ?_⟩ <;> ring

theorem applyPlace_eq_add (p q : Point3 K) :
    m.applyPlace p = m.applyDirection (p - q) + m.applyPlace q := by
  simp only [applyPlace, applyDirection, apply, Point4.dropW, dot_withW, Scalar.zero_eq,
    Scalar.one_eq, Point3.ext_iff', Point3.add_x, Point3.add_y, Point3.add_z, Point3.sub_x,
    Point3.sub_y, Point3.sub_z]
  refine ⟨?_, ?_, ?_⟩ <;> ring

variable {n}

/-- Places stay places where the last row is 0, 0, 0, 1. -/
theorem apply_withW_one (h : n.row 3 = ⟨0, 0, 0, 1⟩) (p : Point3 K) :
    n.apply (p.withW 1.0) = (n.applyPlace p).withW 1.0 := by
  have hlast : dot (n.row 3) (p.withW 1.0) = 1.0 := by
    rw [h, Scalar.one_eq]
    change 0 * p.x + 0 * p.y + 0 * p.z + 1 * 1 = (1 : K)
    ring
  exact congrArg (Point4.mk _ _ _) hlast

/-- A product acts on places as its factors do if the second keeps them places. -/
theorem applyPlace_mul (h : n.row 3 = ⟨0, 0, 0, 1⟩) (p : Point3 K) :
    (m * n).applyPlace p = m.applyPlace (n.applyPlace p) := by
  rw [applyPlace, apply_mul, apply_withW_one h]
  rfl

/-- Directions stay directions there, so a product acts on them as well as its factors do. -/
theorem applyDirection_mul (h : n.row 3 = ⟨0, 0, 0, 1⟩) (p : Point3 K) :
    (m * n).applyDirection p = m.applyDirection (n.applyDirection p) := by
  have hlast : dot (n.row 3) (p.withW 0.0) = 0.0 := by
    rw [h, dot_withW, Scalar.zero_eq]
    ring
  have hdirection : n.apply (p.withW 0.0) = (n.applyDirection p).withW 0.0 :=
    congrArg (Point4.mk _ _ _) hlast
  rw [applyDirection, apply_mul, hdirection]
  rfl

/-! ## Shifts and turns -/

/-- The rows act on places and directions alike, the shift as often as the last coordinate says. -/
theorem apply_ofBlockRows (x y z shift : Point3 K) (p : Point4 K) :
    (ofBlockRows x y z shift).apply p
      = ((⟨dot x p.dropW, dot y p.dropW, dot z p.dropW⟩ : Point3 K) + shift * p.w).withW p.w :=
  congrArg (Point4.mk _ _ _) (dot_lastRow p)

theorem applyPlace_ofBlockRows (x y z shift p : Point3 K) :
    (ofBlockRows x y z shift).applyPlace p = ⟨dot x p, dot y p, dot z p⟩ + shift := by
  have hshift : shift * (1.0 : K) = shift := by
    simp only [Scalar.one_eq, Point3.ext_iff', Point3.mul_x, Point3.mul_y, Point3.mul_z, mul_one,
      and_self]
  rw [applyPlace, apply_ofBlockRows]
  exact congrArg (Point3.mk (dot x p) (dot y p) (dot z p) + ·) hshift

theorem applyDirection_ofBlockRows (x y z shift p : Point3 K) :
    (ofBlockRows x y z shift).applyDirection p = ⟨dot x p, dot y p, dot z p⟩ := by
  have hshift : (⟨dot x p, dot y p, dot z p⟩ : Point3 K) + shift * (0.0 : K)
      = ⟨dot x p, dot y p, dot z p⟩ := by
    simp only [Scalar.zero_eq, Point3.ext_iff', Point3.add_x, Point3.add_y, Point3.add_z,
      Point3.mul_x, Point3.mul_y, Point3.mul_z, mul_zero, add_zero, and_self]
  rw [applyDirection, apply_ofBlockRows]
  exact hshift

theorem applyPlace_shift (delta p : Point3 K) : (shift delta).applyPlace p = p + delta := by
  have hcoordinates : (⟨dot ⟨1, 0, 0⟩ p, dot ⟨0, 1, 0⟩ p, dot ⟨0, 0, 1⟩ p⟩ : Point3 K) = p := by
    simp [Point3.dot_eq]
  rw [shift, if_neg Bool.false_ne_true, applyPlace_ofBlockRows, Scalar.one_eq, Scalar.zero_eq,
    hcoordinates]

theorem apply_turn (u : Point3 K) (d : Point2 K) (p : Point4 K) :
    (turn u d).apply p = (p.dropW.turnedAbout u d).withW p.w := by
  rw [turn, apply_ofBlockRows]
  refine congrArg (Point3.withW · p.w) ?_
  simp only [noShift, Point3.turnedAbout, Point3.ext_iff', Point3.dot_eq, Point3.add_x,
    Point3.add_y, Point3.add_z, Point3.mul_x, Point3.mul_y, Point3.mul_z, Point3.cross_x,
    Point3.cross_y, Point3.cross_z, Scalar.one_eq, Scalar.zero_eq]
  refine ⟨?_, ?_, ?_⟩ <;> ring

theorem applyPlace_turn (axis : Axis) (d : Point2 K) (p : Point3 K) :
    (turn (unit axis) d).applyPlace p = p.turned axis d := by
  rw [← Point3.turnedAbout_unit, applyPlace, apply_turn]
  rfl

theorem applyDirection_turn (axis : Axis) (d : Point2 K) (p : Point3 K) :
    (turn (unit axis) d).applyDirection p = p.turned axis d := by
  rw [← Point3.turnedAbout_unit, applyDirection, apply_turn]
  rfl

end Matrix4

end SolidModel
