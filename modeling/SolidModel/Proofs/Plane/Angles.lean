import Mathlib
import SolidModel.Proofs.Plane.Area
import SolidModel.Proofs.Space.Turns

/-!
# Sines and cosines of real angles

Over the real numbers a whole turn changes no direction, and what two directions span is the sine
of the angle between them, so steps of one size around the origin all span the same.
-/

namespace SolidModel

open Polyline (edgeArea)

/-! ## Special values and signs -/

namespace Trig

variable {a : ℝ}

theorem sin_quarter : sin (90 : ℝ) = 1 := by
  have hquarter : (90 : ℝ) * (Real.pi / 180) = Real.pi / 2 := by ring
  change Real.sin (90 * (Real.pi / 180)) = 1
  rw [hquarter, Real.sin_pi_div_two]

theorem sin_neg (a : ℝ) : sin (-a) = -sin a := HasParity.sin_neg a

theorem sin_two_mul (a : ℝ) : sin (2 * a) = 2 * sin a * cos a := by
  change Real.sin (2 * a * (Real.pi / 180)) = _
  rw [mul_assoc, Real.sin_two_mul]
  rfl

theorem cos_two_mul (a : ℝ) : cos (2 * a) = 1 - 2 * (sin a * sin a) := by
  change Real.cos (2 * a * (Real.pi / 180)) = 1 - 2 * (Real.sin _ * Real.sin _)
  rw [mul_assoc, Real.cos_two_mul, Real.cos_sq']
  ring

private theorem sin_add_sin_sub_sin (a b : ℝ) :
    sin (2 * a) + sin (2 * b) - sin (2 * (a + b)) = 4 * (sin a * sin b * sin (a + b)) := by
  have ha := Real.sin_sq_add_cos_sq (a * (Real.pi / 180))
  have hb := Real.sin_sq_add_cos_sq (b * (Real.pi / 180))
  have hsin : sin (a + b) = sin a * cos b + cos a * sin b := by
    change Real.sin ((a + b) * (Real.pi / 180)) = _
    rw [add_mul, Real.sin_add]
    rfl
  have hcos : cos (a + b) = cos a * cos b - sin a * sin b := by
    change Real.cos ((a + b) * (Real.pi / 180)) = _
    rw [add_mul, Real.cos_add]
    rfl
  rw [sin_two_mul, sin_two_mul, sin_two_mul, hsin, hcos]
  linear_combination (-2 * sin b * cos b) * ha - 2 * sin a * cos a * hb

theorem tan_eq (a : ℝ) : tan a = sin a / cos a := Real.tan_eq_sin_div_cos _

theorem sin_pos (hpos : 0 < a) (hlt : a < 180) : 0 < sin a := by
  refine Real.sin_pos_of_pos_of_lt_pi (by positivity) ?_
  calc a * (Real.pi / 180) < 180 * (Real.pi / 180) := by gcongr
    _ = Real.pi := by ring

theorem cos_pos (hpos : 0 < a) (hlt : a < 90) : 0 < cos a := by
  refine Real.cos_pos_of_mem_Ioo ⟨?_, ?_⟩
  · have := Real.pi_pos
    exact (neg_neg_of_pos (by positivity)).trans (by positivity)
  · calc a * (Real.pi / 180) < 90 * (Real.pi / 180) := by gcongr
      _ = Real.pi / 2 := by ring

end Trig

/-! ## Directions -/

namespace Angle

theorem unit_sub_full (a : ℝ) : unit (a - 360) = unit a := by
  have hturn : (a - 360) * (Real.pi / 180) = a * (Real.pi / 180) - 2 * Real.pi := by ring
  change Point2.mk (Real.cos ((a - 360) * (Real.pi / 180))) (Real.sin ((a - 360) * (Real.pi / 180)))
    = ⟨Real.cos (a * (Real.pi / 180)), Real.sin (a * (Real.pi / 180))⟩
  rw [hturn, Real.cos_sub_two_pi, Real.sin_sub_two_pi]

theorem unit_full : unit (360 : ℝ) = unit 0 := by
  rw [← unit_sub_full 360, sub_self]

theorem unit_neg_full : unit (-360 : ℝ) = unit 0 := by
  rw [← zero_sub, unit_sub_full]

theorem unit_neg_quarter : unit (-90 : ℝ) = ⟨0, -1⟩ := by
  have hturn : (-90 : ℝ) * (Real.pi / 180) = -(Real.pi / 2) := by ring
  change Point2.mk (Real.cos (-90 * (Real.pi / 180))) (Real.sin (-90 * (Real.pi / 180))) = _
  rw [hturn, Real.cos_neg, Real.sin_neg, Real.cos_pi_div_two, Real.sin_pi_div_two]

theorem turned_unit (a b : ℝ) : (unit a).turned (unit b) = unit (a + b) := by
  have hsum : (a + b) * (Real.pi / 180) = a * (Real.pi / 180) + b * (Real.pi / 180) := by ring
  change Point2.mk
      (Real.cos (a * (Real.pi / 180)) * Real.cos (b * (Real.pi / 180))
        - Real.sin (a * (Real.pi / 180)) * Real.sin (b * (Real.pi / 180)))
      (Real.cos (a * (Real.pi / 180)) * Real.sin (b * (Real.pi / 180))
        + Real.sin (a * (Real.pi / 180)) * Real.cos (b * (Real.pi / 180)))
    = ⟨Real.cos ((a + b) * (Real.pi / 180)), Real.sin ((a + b) * (Real.pi / 180))⟩
  rw [hsum, Real.cos_add, Real.sin_add, add_comm (Real.sin _ * _)]

theorem dot_unit_unit (a b : ℝ) : VectorOps.dot (unit a) (unit b) = Trig.cos (b - a) := by
  change Real.cos (a * (Real.pi / 180)) * Real.cos (b * (Real.pi / 180))
    + Real.sin (a * (Real.pi / 180)) * Real.sin (b * (Real.pi / 180))
    = Real.cos ((b - a) * (Real.pi / 180))
  rw [sub_mul, Real.cos_sub]
  ring

/-- The chord between two directions is twice the sine of half the angle between them. -/
theorem length_unit_sub_unit (a b : ℝ) :
    VectorOps.length (unit b - unit a) = 2 * |Trig.sin ((b - a) / 2)| := by
  have hsquare : VectorOps.dot (unit b - unit a) (unit b - unit a)
      = VectorOps.dot (unit a) (unit a) + VectorOps.dot (unit b) (unit b)
        - 2 * VectorOps.dot (unit a) (unit b) := by
    simp only [Point2.dot_eq, Point2.sub_x, Point2.sub_y]
    ring
  have hcos : Trig.cos (b - a) = 1 - 2 * (Trig.sin ((b - a) / 2) * Trig.sin ((b - a) / 2)) := by
    rw [← Trig.cos_two_mul, mul_div_cancel₀ _ two_ne_zero]
  refine Trig.sqrt_eq (by positivity) ?_
  rw [mul_mul_mul_comm, abs_mul_abs_self, VectorOps.squaredLength, hsquare, dot_unit, dot_unit,
    dot_unit_unit, hcos]
  ring

theorem edgeArea_unit (a b : ℝ) : edgeArea (unit a) (unit b) = Trig.sin (b - a) := by
  change Real.cos (a * (Real.pi / 180)) * Real.sin (b * (Real.pi / 180))
    - Real.cos (b * (Real.pi / 180)) * Real.sin (a * (Real.pi / 180))
    = Real.sin ((b - a) * (Real.pi / 180))
  rw [sub_mul, Real.sin_sub]
  ring

theorem doubleArea_unit (a b c : ℝ) : Point2.doubleArea (unit a) (unit b) (unit c)
    = 4 * (Trig.sin ((b - a) / 2) * Trig.sin ((c - b) / 2) * Trig.sin ((c - a) / 2)) := by
  have hedges : Point2.doubleArea (unit a) (unit b) (unit c)
      = edgeArea (unit a) (unit b) + edgeArea (unit b) (unit c) - edgeArea (unit a) (unit c) := by
    simp only [Point2.doubleArea_eq, edgeArea]
    ring
  have hsum : (c - a) / 2 = (b - a) / 2 + (c - b) / 2 := by ring
  have hdouble (x : ℝ) : 2 * (x / 2) = x := mul_div_cancel₀ x two_ne_zero
  rw [hedges, edgeArea_unit, edgeArea_unit, edgeArea_unit, hsum, ← Trig.sin_add_sin_sub_sin,
    ← hsum, hdouble, hdouble, hdouble]

end Angle

variable {K : Type} [Field K] [LinearOrder K] [FloorRing K]

theorem Polyline.edgeArea_turned (p d e : Point2 K) :
    edgeArea (p.turned d) (p.turned e) = VectorOps.dot p p * edgeArea d e := by
  simp only [edgeArea, Point2.turned, Point2.dot_eq]
  ring

theorem Point2.doubleArea_turned (p d e f : Point2 K) :
    doubleArea (p.turned d) (p.turned e) (p.turned f) = VectorOps.dot p p * doubleArea d e f := by
  simp only [doubleArea_eq, turned, dot_eq]
  ring

end SolidModel
