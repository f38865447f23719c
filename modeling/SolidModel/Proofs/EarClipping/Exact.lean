import Mathlib
import SolidModel.Triangulation.EarClipping
import SolidModel.Proofs.Plane.Hull

/-!
# The tests of the clipper with exact numbers

A corner is reflex if its area is positive, and a sliver if its area is below the tolerance. The
barycentric test finds the points of the closed triangle, unless the triangle is a sliver.
-/

namespace SolidModel

open Point2

variable {K : Type} [Field K] [LinearOrder K] [FloorRing K]
variable {a b t p : Point2 K} {ring : List (Vertex K)} {c : Corner K}

/-- On a triangle that is not a sliver the barycentric test is exact. -/
theorem Point2.inTriangle_iff [IsStrictOrderedRing K]
    (hD : doubleArea a t b ≤ -Scalar.areaEpsilon) : inTriangle p a t b = true ↔ InHull a t b p := by
  have hε : (0 : K) < Scalar.areaEpsilon := Scalar.areaEpsilon_pos
  have hneg : doubleArea a t b < 0 := by linarith
  have hsliver : ¬|doubleArea a t b| < Scalar.areaEpsilon := by
    rw [abs_of_neg hneg, not_lt]
    linarith
  have harea : (t.y - b.y) * (a.x - b.x) + (b.x - t.x) * (a.y - b.y) = doubleArea a t b := by
    rw [doubleArea_eq]
    ring
  have halpha : (t.y - b.y) * (p.x - b.x) + (b.x - t.x) * (p.y - b.y) = doubleArea t b p := by
    rw [doubleArea_eq]
    ring
  have hbeta : (b.y - a.y) * (p.x - b.x) + (a.x - b.x) * (p.y - b.y) = doubleArea b a p := by
    rw [doubleArea_eq]
    ring
  -- the shares of the corners are quotients of areas
  have hshare : ∀ d : K, 1 / doubleArea a t b * d < 0 ↔ 0 < d := by
    intro d
    rw [one_div_mul_eq_div, div_neg_iff]
    constructor
    · rintro (h | h)
      · exact h.1
      · exact absurd h.2 hneg.not_gt
    · exact fun h ↦ .inl ⟨h, hneg⟩
  have hrest : 1 - 1 / doubleArea a t b * doubleArea t b p - 1 / doubleArea a t b * doubleArea b a p
      = 1 / doubleArea a t b * doubleArea a t p := by
    have hne : doubleArea a t b ≠ 0 := hneg.ne
    have hsum := doubleArea_add_add a t b p
    field_simp
    linarith
  rw [inTriangle, inHull_iff hneg, harea, halpha, hbeta]
  norm_num only
  rw [Scalar.magnitude_eq_abs, if_neg hsliver, hrest]
  simp only [hshare, Bool.if_false_left, Bool.and_eq_true, Bool.not_eq_true',
    decide_eq_false_iff_not, decide_eq_true_iff, ← not_lt]
  tauto

namespace Corner

theorem isReflex_iff :
    c.isReflex = true ↔ 0 < doubleArea c.before.point c.tip.point c.after.point :=
  isCounterClockwise_iff

theorem isEar_iff : c.isEar ring = true ↔
    doubleArea c.before.point c.tip.point c.after.point ≤ 0 ∧
      (c.isSliver = true ∨ c.isFree ring = true) := by
  rw [isEar, Bool.and_eq_true, Bool.or_eq_true, Bool.not_eq_true', ← Bool.not_eq_true,
    isReflex_iff, not_lt]

theorem doubleArea_nonpos_of_isEar (h : c.isEar ring = true) :
    doubleArea c.before.point c.tip.point c.after.point ≤ 0 := (isEar_iff.mp h).1

theorem not_isSliver_iff [IsStrictOrderedRing K]
    (hD : doubleArea c.before.point c.tip.point c.after.point ≤ 0) :
    ¬c.isSliver = true
      ↔ doubleArea c.before.point c.tip.point c.after.point ≤ -Scalar.areaEpsilon := by
  rw [Corner.isSliver, isSliver_iff, abs_of_nonpos hD, not_lt, le_neg]

end Corner

end SolidModel
