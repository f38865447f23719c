import Mathlib
import SolidModel.Point.Polyline
import SolidModel.Proofs.Outcome
import SolidModel.Proofs.Plane.Exact

/-!
# Exact roots and turns

Over an ordered field the functions of `Trig` may be exact too: a root squares to its number, and
the cosine and sine of an angle are a point of the unit circle. The laws are stated for any such
field, and the real numbers obey them; they are graded, so that a statement may say which of them it
rests on.

No angle is infinite here, so nothing that only turns points is ever refused. Each construction
that turns points is given as what it makes of them.
-/

namespace SolidModel

/-- The laws of exact roots. -/
class Trig.HasRoots (K : Type) [Field K] [LinearOrder K] [Trig K] : Prop where
  sqrt_nonneg : ∀ x : K, 0 ≤ x → 0 ≤ Trig.sqrt x
  sqrt_mul_sqrt : ∀ x : K, 0 ≤ x → Trig.sqrt x * Trig.sqrt x = x

/-- Besides, the cosine and the sine of an angle are a point of the unit circle. -/
class Trig.IsCircular (K : Type) [Field K] [LinearOrder K] [Trig K] : Prop
    extends Trig.HasRoots K where
  cos_mul_cos_add_sin_mul_sin : ∀ a : K, Trig.cos a * Trig.cos a + Trig.sin a * Trig.sin a = 1

/-- Besides, half a turn is where it should be. -/
class Trig.HasHalfTurn (K : Type) [Field K] [LinearOrder K] [Trig K] : Prop
    extends Trig.IsCircular K where
  cos_straight : Trig.cos (180 : K) = -1
  withinTurn_straight : Trig.withinTurn (180 : K) = 180

/-- Besides, the angle zero is where it should be. -/
class Trig.IsExact (K : Type) [Field K] [LinearOrder K] [Trig K] : Prop
    extends Trig.HasHalfTurn K where
  cos_zero : Trig.cos (0 : K) = 1

/-- Angles that differ by whole turns have the same cosine and the same sine. -/
class Trig.IsPeriodic (K : Type) [Trig K] : Prop where
  cos_withinTurn : ∀ a : K, Trig.cos (Trig.withinTurn a) = Trig.cos a
  sin_withinTurn : ∀ a : K, Trig.sin (Trig.withinTurn a) = Trig.sin a

/-- An angle and its opposite have the same cosine and opposite sines. -/
class Trig.HasParity (K : Type) [Neg K] [Trig K] : Prop where
  cos_neg : ∀ a : K, Trig.cos (-a) = Trig.cos a
  sin_neg : ∀ a : K, Trig.sin (-a) = -Trig.sin a

/-! ## The real numbers -/

/-- Roots, and sines and cosines of degrees, of real numbers. -/
noncomputable instance realTrig : Trig ℝ where
  sqrt := Real.sqrt
  sin a := Real.sin (a * (Real.pi / 180))
  cos a := Real.cos (a * (Real.pi / 180))
  tan a := Real.tan (a * (Real.pi / 180))
  withinTurn a := a - 360 * ⌊a / 360⌋

instance : Trig.IsExact ℝ where
  sqrt_nonneg x _ := Real.sqrt_nonneg x
  sqrt_mul_sqrt _ hx := Real.mul_self_sqrt hx
  cos_mul_cos_add_sin_mul_sin a := by
    rw [← sq, ← sq]
    exact Real.cos_sq_add_sin_sq _
  cos_straight := by
    have hpi : 180 * (Real.pi / 180) = Real.pi := by ring
    change Real.cos (180 * _) = -1
    rw [hpi, Real.cos_pi]
  withinTurn_straight := by
    have hfloor : ⌊(180 : ℝ) / 360⌋ = 0 := by norm_num [Int.floor_eq_zero_iff]
    change (180 : ℝ) - 360 * (⌊(180 : ℝ) / 360⌋ : ℝ) = 180
    rw [hfloor, Int.cast_zero, mul_zero, sub_zero]
  cos_zero := by
    change Real.cos (0 * _) = 1
    rw [zero_mul, Real.cos_zero]

instance : Trig.IsPeriodic ℝ where
  cos_withinTurn a := by
    have hturn : (a - 360 * ⌊a / 360⌋) * (Real.pi / 180)
        = a * (Real.pi / 180) - ⌊a / 360⌋ * (2 * Real.pi) := by ring
    change Real.cos ((a - 360 * ⌊a / 360⌋) * _) = Real.cos _
    rw [hturn, Real.cos_sub_int_mul_two_pi]
  sin_withinTurn a := by
    have hturn : (a - 360 * ⌊a / 360⌋) * (Real.pi / 180)
        = a * (Real.pi / 180) - ⌊a / 360⌋ * (2 * Real.pi) := by ring
    change Real.sin ((a - 360 * ⌊a / 360⌋) * _) = Real.sin _
    rw [hturn, Real.sin_sub_int_mul_two_pi]

instance : Trig.HasParity ℝ where
  cos_neg a := by
    change Real.cos (-a * (Real.pi / 180)) = Real.cos (a * (Real.pi / 180))
    rw [neg_mul, Real.cos_neg]
  sin_neg a := by
    change Real.sin (-a * (Real.pi / 180)) = -Real.sin (a * (Real.pi / 180))
    rw [neg_mul, Real.sin_neg]

variable {K : Type} [Field K] [LinearOrder K] [FloorRing K]

/-! ## Nothing is refused -/

theorem Scalar.isInfinite_eq_false (x : K) : Scalar.isInfinite x = false := by
  simp [Scalar.isInfinite, Scalar.zero_eq]

variable [Trig K]

/-- The unit vector at an angle. -/
def Angle.unit (degrees : K) : Point2 K := ⟨Trig.cos degrees, Trig.sin degrees⟩

theorem Angle.direction_eq_ok (degrees : K) : direction degrees = .ok (unit degrees) := by
  simp only [direction, cos, sin, apply, Scalar.isInfinite_eq_false]
  rfl

omit [Field K] [LinearOrder K] [FloorRing K] in
/-- Whole turns do not count. -/
theorem Angle.unit_withinTurn [Trig.IsPeriodic K] (degrees : K) :
    unit (Trig.withinTurn degrees) = unit degrees := by
  rw [unit, Trig.IsPeriodic.cos_withinTurn, Trig.IsPeriodic.sin_withinTurn, unit]

theorem Point2.rotated_eq_ok (p : Point2 K) (degrees : K) :
    p.rotated degrees = .ok (p.turned (Angle.unit degrees)) := by
  rw [Point2.rotated, Angle.direction_eq_ok]
  rfl

theorem Point3.rotated_eq_ok (p : Point3 K) (axis : Axis) (degrees : K) :
    p.rotated axis degrees = .ok (p.turned axis (Angle.unit degrees)) := by
  rw [Point3.rotated, Angle.direction_eq_ok]
  rfl

namespace Polyline

theorem rotated_eq_ok (points : List (Point2 K)) (degrees : K) :
    rotated points degrees = .ok (points.map (·.turned (Angle.unit degrees))) :=
  Outcome.mapM_eq_ok fun p _ ↦ p.rotated_eq_ok degrees

theorem rotatedAbout_eq_ok (points : List (Point3 K)) (axis : Axis) (degrees : K) :
    rotatedAbout points axis degrees = .ok (points.map (·.turned axis (Angle.unit degrees))) :=
  Outcome.mapM_eq_ok fun p _ ↦ p.rotated_eq_ok axis degrees

end Polyline

/-! ## Roots -/

section Roots

variable [Trig.HasRoots K]

open Trig.HasRoots

variable [IsStrictOrderedRing K]

theorem Trig.sqrt_eq {x y : K} (hy : 0 ≤ y) (h : y * y = x) :
    sqrt x = y := by
  have hx : 0 ≤ x := h ▸ mul_self_nonneg y
  rw [← mul_self_inj (sqrt_nonneg x hx) hy, sqrt_mul_sqrt x hx, h]

namespace Point2

theorem length_mul_length (p : Point2 K) :
    VectorOps.length p * VectorOps.length p = VectorOps.dot p p :=
  sqrt_mul_sqrt _ (add_nonneg (mul_self_nonneg _) (mul_self_nonneg _))

theorem length_nonneg (p : Point2 K) : 0 ≤ VectorOps.length p :=
  sqrt_nonneg _ (add_nonneg (mul_self_nonneg _) (mul_self_nonneg _))

theorem length_mul (p : Point2 K) (t : K) :
    VectorOps.length (p * t) = VectorOps.length p * |t| := by
  refine Trig.sqrt_eq (mul_nonneg p.length_nonneg (abs_nonneg t)) ?_
  rw [mul_mul_mul_comm, p.length_mul_length, abs_mul_abs_self, VectorOps.squaredLength, dot_eq,
    dot_eq, mul_x, mul_y]
  ring

theorem length_div_length {p : Point2 K} (h : 0 < VectorOps.length p) :
    VectorOps.length (p / VectorOps.length p) = 1 := by
  have hmul : p / VectorOps.length p = p * (VectorOps.length p)⁻¹ := by
    simp only [ext_iff', div_x, div_y, mul_x, mul_y, div_eq_mul_inv, and_self]
  rw [hmul, p.length_mul, abs_of_pos (inv_pos.mpr h), mul_inv_cancel₀ h.ne']

end Point2

namespace VectorOps

theorem length_mul_length {v : Point3 K} : length v * length v = dot v v :=
  sqrt_mul_sqrt _ (add_nonneg (add_nonneg (mul_self_nonneg _) (mul_self_nonneg _))
    (mul_self_nonneg _))

theorem length_nonneg {v : Point3 K} : 0 ≤ length v :=
  sqrt_nonneg _ (add_nonneg (add_nonneg (mul_self_nonneg _) (mul_self_nonneg _))
    (mul_self_nonneg _))

end VectorOps

end Roots

/-! ## Special angles -/

section Circular

variable [Trig.IsCircular K]

open Trig.IsCircular (cos_mul_cos_add_sin_mul_sin)

theorem Trig.sin_eq_zero {a : K} (h : cos a * cos a = 1) : sin a = 0 := by
  have hunit := cos_mul_cos_add_sin_mul_sin a
  rw [h, add_eq_left] at hunit
  exact mul_self_eq_zero.mp hunit

theorem Angle.dot_unit (degrees : K) : VectorOps.dot (unit degrees) (unit degrees) = 1 :=
  cos_mul_cos_add_sin_mul_sin degrees

theorem Point2.length_turned (p : Point2 K) (degrees : K) :
    VectorOps.length (p.turned (Angle.unit degrees)) = VectorOps.length p := by
  have hdot := dot_turned p (Angle.unit degrees)
  rw [Angle.dot_unit, mul_one] at hdot
  exact congrArg Trig.sqrt hdot

end Circular

theorem Angle.unit_straight [Trig.HasHalfTurn K] : (unit 180 : Point2 K) = ⟨-1, 0⟩ := by
  have hcos : Trig.cos (180 : K) = -1 := Trig.HasHalfTurn.cos_straight
  rw [unit, Trig.sin_eq_zero (by rw [hcos, neg_one_mul, neg_neg]), hcos]

theorem Angle.unit_zero [Trig.IsExact K] : (unit 0 : Point2 K) = ⟨1, 0⟩ := by
  have hcos : Trig.cos (0 : K) = 1 := Trig.IsExact.cos_zero
  rw [unit, Trig.sin_eq_zero (by rw [hcos, mul_one]), hcos]

end SolidModel
