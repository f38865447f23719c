import Mathlib
import SolidModel.Curve.Chain
import SolidModel.Profile
import SolidModel.Proofs.Plane.Angles

/-!
# The arms of a smooth star

Outer and inner knots take turns around a star, and an arm is the curve from one knot to the next.
Knots, control points and arms are all counted on around the star without end. So the arm of the
first knot is no special case: its first control point goes on from the arm before it, which is the
last arm of a turn.

What is made of the knots by one rule for all of them has the symmetry of the star: two knots
further on, it is turned by the angle between two rays, and a whole turn further on, it is the same
again. This is `Symmetric`. It holds of the knots, and each step from the knots to the arms keeps
it.
-/

namespace SolidModel

open VectorOps

/-! ## Turning curves -/

namespace CubicBezier

variable {K : Type} [Field K] [LinearOrder K] [FloorRing K]

/-- The curve turned about the origin by the angle whose unit vector is `d`. -/
def turned (b : CubicBezier (Point2 K)) (d : Point2 K) : CubicBezier (Point2 K) :=
  ⟨b.start.turned d, b.control1.turned d, b.control2.turned d, b.finish.turned d, b.segments⟩

theorem pointAt_turned (b : CubicBezier (Point2 K)) (d : Point2 K) (t : K) :
    (b.turned d).pointAt t = (b.pointAt t).turned d := by
  simp only [pointAt, turned, Point2.turned_add, Point2.turned_mul]

end CubicBezier

namespace Profile.BezierStar

/-! ## Knots, controls and arms -/

variable (s : BezierStar ℝ)

/-- How many knots there are. -/
def knotCount : ℕ := 2 * s.count.toNat

/-- The turn from one knot to the next but one. -/
noncomputable def turn : Point2 ℝ := Angle.unit (-360.0 / (s.count : ℝ))

/-- How far a knot is from the centre. -/
def radiusAt (i : ℕ) : ℝ := if i % 2 = 0 then s.outerRadius else s.innerRadius

/-- The knots, counted on around the star. -/
noncomputable def knotAt (i : ℕ) : Point2 ℝ :=
  Angle.unit (-180.0 * (i : ℝ) / s.count) * s.radiusAt i

/-- The way from one knot to the next but one. -/
noncomputable def chordAt (i : ℕ) : Point2 ℝ := s.knotAt (i + 2) - s.knotAt i

/-- The control point before the next knot. -/
noncomputable def controlAt (i : ℕ) : Point2 ℝ :=
  s.knotAt (i + 1) - s.chordAt i / length (s.chordAt i) * s.handleAt (i + 1)

/-- The way from that control point to the next knot. -/
noncomputable def approachAt (i : ℕ) : Point2 ℝ := s.knotAt (i + 1) - s.controlAt i

/-- The control point after a knot, in line with the one before it. That one belongs to the knot
before, which for the first knot is the last one of a turn. -/
noncomputable def departureAt (i : ℕ) : Point2 ℝ :=
  s.knotAt i + s.approachAt (i + (s.knotCount - 1)) / length (s.approachAt (i + (s.knotCount - 1)))
    * s.handleAt i

/-- The curve from a knot to the next. -/
noncomputable def armAt (i : ℕ) : CubicBezier (Point2 ℝ) :=
  ⟨s.knotAt i, s.departureAt i, s.controlAt i, s.knotAt (i + 1), s.segments⟩

/-! ## Symmetry -/

/-- The points have the symmetry of the star. -/
structure Symmetric (f : ℕ → Point2 ℝ) : Prop where
  add_two : ∀ i, f (i + 2) = (f i).turned s.turn
  periodic : Function.Periodic f s.knotCount

variable {s}

theorem turn_eq : s.turn = Angle.unit (-360 / (s.count : ℝ)) := by
  rw [turn, Scalar.fullTurn_eq]

theorem knotAt_eq (i : ℕ) :
    s.knotAt i = Angle.unit (-180 * (i : ℝ) / s.count) * s.radiusAt i := by
  have hhalf : (180.0 : ℝ) = 180 := by norm_num
  rw [knotAt, hhalf]

theorem handleAt_congr {i j : ℕ} (h : i % 2 = j % 2) : s.handleAt i = s.handleAt j := by
  rw [handleAt, handleAt, h]

theorem radiusAt_congr {i j : ℕ} (h : i % 2 = j % 2) : s.radiusAt i = s.radiusAt j := by
  rw [radiusAt, radiusAt, h]

private theorem add_knotCount_mod_two (i : ℕ) : (i + s.knotCount) % 2 = i % 2 :=
  Nat.add_mul_mod_self_left i 2 _

namespace Symmetric

variable {f g : ℕ → Point2 ℝ}

theorem shift (hf : s.Symmetric f) (k : ℕ) : s.Symmetric fun i ↦ f (i + k) where
  add_two i := by rw [Nat.add_right_comm, hf.add_two]
  periodic i := by
    have hturn := hf.periodic (i + k)
    rwa [Nat.add_right_comm] at hturn

theorem add (hf : s.Symmetric f) (hg : s.Symmetric g) : s.Symmetric fun i ↦ f i + g i where
  add_two i := by rw [hf.add_two, hg.add_two, Point2.turned_add]
  periodic i := by
    change f (i + _) + g (i + _) = f i + g i
    rw [hf.periodic, hg.periodic]

theorem sub (hf : s.Symmetric f) (hg : s.Symmetric g) : s.Symmetric fun i ↦ f i - g i where
  add_two i := by rw [hf.add_two, hg.add_two, Point2.turned_sub]
  periodic i := by
    change f (i + _) - g (i + _) = f i - g i
    rw [hf.periodic, hg.periodic]

/-- Handles in the directions of vectors, each as long as the handles at its knot. -/
theorem handle (hf : s.Symmetric f) (k : ℕ) :
    s.Symmetric fun i ↦ f i / length (f i) * s.handleAt (i + k) where
  add_two i := by
    rw [hf.add_two, turn, Point2.length_turned, Nat.add_right_comm,
      handleAt_congr (Nat.add_mod_right (i + k) 2), Point2.turned_mul, Point2.turned_div]
  periodic i := by
    change f (i + _) / length (f (i + _)) * s.handleAt (i + _ + k) = _
    rw [hf.periodic, Nat.add_right_comm, handleAt_congr (add_knotCount_mod_two (i + k))]

end Symmetric

theorem symmetric_knotAt (h : 1 ≤ s.count) : s.Symmetric s.knotAt where
  add_two i := by
    have hangle : -180 * ((i + 2 : ℕ) : ℝ) / s.count = -180 * i / s.count + -360 / s.count := by
      push_cast
      ring
    rw [knotAt_eq, knotAt_eq, radiusAt_congr (Nat.add_mod_right i 2), hangle, ← Angle.turned_unit,
      Point2.turned_mul, turn_eq]
  periodic i := by
    have hne : (s.count : ℝ) ≠ 0 := by exact_mod_cast (by omega : s.count ≠ 0)
    have hangle : -180 * ((i + s.knotCount : ℕ) : ℝ) / s.count = -180 * i / s.count - 360 := by
      rw [knotCount]
      push_cast [Scalar.cast_toNat h]
      field_simp
      ring
    rw [knotAt_eq, knotAt_eq, radiusAt_congr (add_knotCount_mod_two i), hangle,
      Angle.unit_sub_full]

theorem symmetric_chordAt (h : 1 ≤ s.count) : s.Symmetric s.chordAt :=
  ((symmetric_knotAt h).shift 2).sub (symmetric_knotAt h)

theorem symmetric_controlAt (h : 1 ≤ s.count) : s.Symmetric s.controlAt :=
  ((symmetric_knotAt h).shift 1).sub ((symmetric_chordAt h).handle 1)

theorem symmetric_approachAt (h : 1 ≤ s.count) : s.Symmetric s.approachAt :=
  ((symmetric_knotAt h).shift 1).sub (symmetric_controlAt h)

theorem symmetric_departureAt (h : 1 ≤ s.count) : s.Symmetric s.departureAt :=
  (symmetric_knotAt h).add (((symmetric_approachAt h).shift (s.knotCount - 1)).handle 0)

theorem armAt_add_two (h : 1 ≤ s.count) (i : ℕ) : s.armAt (i + 2) = (s.armAt i).turned s.turn := by
  rw [armAt, (symmetric_knotAt h).add_two, (symmetric_departureAt h).add_two,
    (symmetric_controlAt h).add_two, Nat.add_right_comm, (symmetric_knotAt h).add_two]
  rfl

theorem armAt_add_knotCount (h : 1 ≤ s.count) (i : ℕ) : s.armAt (i + s.knotCount) = s.armAt i := by
  rw [armAt, (symmetric_knotAt h).periodic, (symmetric_departureAt h).periodic,
    (symmetric_controlAt h).periodic, Nat.add_right_comm, (symmetric_knotAt h).periodic]
  rfl

/-! ## Lengths -/

theorem length_chordAt (h : 2 ≤ s.count) (i : ℕ) :
    length (s.chordAt i) = 2 * |s.radiusAt i| * Trig.sin (180 / (s.count : ℝ)) := by
  have hcount : (2 : ℝ) ≤ s.count := by exact_mod_cast h
  have hangle : (-180 * ((i + 2 : ℕ) : ℝ) / s.count - -180 * (i : ℝ) / s.count) / 2
      = -(180 / s.count) := by
    push_cast
    ring
  have hpos : 0 < Trig.sin (180 / (s.count : ℝ)) :=
    Trig.sin_pos (by positivity) (by rw [div_lt_iff₀] <;> linarith)
  have hchord : s.chordAt i
      = (Angle.unit (-180 * ((i + 2 : ℕ) : ℝ) / s.count) - Angle.unit (-180 * (i : ℝ) / s.count))
        * s.radiusAt i := by
    rw [chordAt, knotAt_eq, knotAt_eq, radiusAt_congr (Nat.add_mod_right i 2)]
    simp only [Point2.ext_iff', Point2.sub_x, Point2.sub_y, Point2.mul_x, Point2.mul_y, sub_mul,
      and_self]
  rw [hchord, Point2.length_mul, Angle.length_unit_sub_unit, hangle, Trig.sin_neg, abs_neg,
    abs_of_pos hpos]
  ring

theorem approachAt_eq (i : ℕ) :
    s.approachAt i = s.chordAt i / length (s.chordAt i) * s.handleAt (i + 1) := by
  simp only [approachAt, controlAt, Point2.ext_iff', Point2.sub_x, Point2.sub_y, sub_sub_cancel,
    and_self]

theorem length_approachAt {i : ℕ} (h : 0 < length (s.chordAt i)) :
    length (s.approachAt i) = |s.handleAt (i + 1)| := by
  rw [approachAt_eq, Point2.length_mul, Point2.length_div_length h, one_mul]

end Profile.BezierStar

end SolidModel
