import Mathlib
import SolidModel.Matrix4.Placement
import SolidModel.Proofs.Space.Turns
import SolidModel.Proofs.Space.VectorArea

/-!
# Frames along a path

A frame carries the plane of a profile into space by two columns, whatever shift comes with them.
Between two points that do not coincide there always is one. Its two columns are unit vectors at a
right angle, and their vector product points onward: it is the viewing direction itself where the
frame is built from that, and a vertical vector on the same side where a fixed turn takes its place,
see `exists_placement`. So a frame keeps all distances and never turns a profile over.
-/

namespace SolidModel

open VectorOps (dot)

variable {K : Type} [Field K] [LinearOrder K] [FloorRing K]

namespace Scalar

theorem epsilon_pos [IsStrictOrderedRing K] : (0 : K) < epsilon := by
  norm_num [epsilon]

end Scalar

namespace Point3

variable {f n s : Point3 K} {r : K}

theorem dot_comm (p q : Point3 K) : dot p q = dot q p := by
  simp only [dot_eq]
  ring

theorem neg_dot (p q : Point3 K) : dot (-p) q = -dot p q := by
  simp only [dot_eq, neg_x, neg_y, neg_z]
  ring

private theorem dot_div_div (p : Point3 K) (r : K) : dot (p / r) (p / r) = dot p p / (r * r) := by
  rw [dot_div, dot_comm, dot_div, div_div]

theorem cross_cross_eq_self (hs : dot s s = 1) (hsf : dot s f = 0) : s.cross (f.cross s) = f := by
  rw [cross_cross, hs, hsf, ext_iff']
  simp

theorem cross_cross_eq_neg (hs : dot s s = 1) (hsf : dot s f = 0) : s.cross (s.cross f) = -f := by
  rw [cross_cross, hs, hsf, ext_iff']
  simp

theorem dot_cross_self_left (p q : Point3 K) : dot p (p.cross q) = 0 := by
  simp only [dot_eq, cross_x, cross_y, cross_z]
  ring

theorem dot_cross_self_right (p q : Point3 K) : dot q (p.cross q) = 0 := by
  simp only [dot_eq, cross_x, cross_y, cross_z]
  ring

theorem dot_cross_cross_self (hf : dot f f = 1) (hs : dot s s = 1) (hfs : dot f s = 0) :
    dot (f.cross s) (f.cross s) = 1 := by
  have hsquares : dot (f.cross s) (f.cross s) = dot f f * dot s s - dot f s * dot f s := by
    simp only [dot_eq, cross_x, cross_y, cross_z]
    ring
  rw [hsquares, hf, hs, hfs]
  ring

/-! ## Main axes -/

private theorem signOf_div [IsStrictOrderedRing K] (hr : 0 < r) (x : K) :
    signOf (x / r) = signOf x := by
  have h : 0 ≤ x / r ↔ 0 ≤ x := by rw [le_div_iff₀ hr, zero_mul]
  simp only [signOf, h]

private theorem mainAxis_div [IsStrictOrderedRing K] (hr : 0 < r) (n : Point3 K) :
    mainAxis (n / r) = mainAxis n := by
  simp only [mainAxis, div_x, div_y, div_z, abs_div, abs_of_pos hr, div_le_div_iff_of_pos_right hr,
    signOf_div hr]

private theorem mainAxis_of_steep (hx : |n.x| < |n.z|) (hy : |n.y| < |n.z|) :
    mainAxis n = ⟨0, 0, signOf n.z⟩ := by
  rw [mainAxis, if_neg fun h ↦ hx.not_ge h.2, if_neg hy.not_ge]

/-! ## Two columns -/

/-- Two unit vectors at a right angle that turn counter-clockwise, the first toward the second,
about the main axis of a direction. -/
structure IsFrame (x y direction : Point3 K) : Prop where
  dot_x : dot x x = 1
  dot_y : dot y y = 1
  dot_x_y : dot x y = 0
  turns : 0 < dot (mainAxis direction) (x.cross y)

theorem carry_sub_carry (x y : Point3 K) (p q : Point2 K) :
    x * p.x + y * p.y - (x * q.x + y * q.y) = x * (p - q).x + y * (p - q).y := by
  simp only [ext_iff', add_x, add_y, add_z, sub_x, sub_y, sub_z, mul_x, mul_y, mul_z,
    Point2.sub_x, Point2.sub_y]
  refine ⟨?_, ?_, ?_⟩ <;> ring

theorem IsFrame.dot_carry {x y : Point3 K} (h : IsFrame x y n) (p : Point2 K) :
    dot (x * p.x + y * p.y) (x * p.x + y * p.y) = dot p p := by
  have hsquares : dot (x * p.x + y * p.y) (x * p.x + y * p.y)
      = dot x x * (p.x * p.x) + 2 * dot x y * (p.x * p.y) + dot y y * (p.y * p.y) := by
    simp only [dot_eq, add_x, add_y, add_z, mul_x, mul_y, mul_z]
    ring
  rw [hsquares, h.dot_x, h.dot_y, h.dot_x_y, Point2.dot_eq]
  ring

theorem IsFrame.length_carry [Trig K] {x y : Point3 K} (h : IsFrame x y n) (p : Point2 K) :
    VectorOps.length (x * p.x + y * p.y) = VectorOps.length p :=
  congrArg Trig.sqrt (h.dot_carry p)

end Point3

namespace VectorOps

open Point3

variable [Trig K] {v : Point3 K}

theorem normalized_eq_ok (h : ¬length v < Scalar.epsilon) : normalized v = .ok (v / length v) := by
  rw [normalized, if_neg h]

theorem normalized_eq_ok_iff {w : Point3 K} :
    normalized v = .ok w ↔ ¬length v < Scalar.epsilon ∧ v / length v = w := by
  rw [normalized]
  split
  next h => simp [h]
  next h => simp [h]

variable [IsStrictOrderedRing K]

theorem length_pos (h : ¬length v < Scalar.epsilon) : 0 < length v :=
  Scalar.epsilon_pos.trans_le (not_lt.mp h)

theorem div_length_mul_length (h : ¬length v < Scalar.epsilon) :
    v / length v * length v = v := by
  simp only [ext_iff', mul_x, mul_y, mul_z, div_x, div_y, div_z,
    div_mul_cancel₀ _ (length_pos h).ne', and_self]

variable [Trig.HasRoots K]

theorem dot_div_length (h : ¬length v < Scalar.epsilon) :
    dot (v / length v) (v / length v) = 1 := by
  have hne : dot v v ≠ 0 := by
    rw [← length_mul_length]
    exact (mul_pos (length_pos h) (length_pos h)).ne'
  rw [dot_div_div, length_mul_length, div_self hne]

theorem length_unit (axis : Axis) : length (Matrix4.unit axis : Point3 K) = 1 := by
  refine Trig.sqrt_eq zero_le_one ?_
  cases axis <;>
  · simp only [squaredLength, dot_eq, Matrix4.unit, Scalar.zero_eq, Scalar.one_eq]
    ring

end VectorOps

namespace Point3

variable [Trig K]

/-- The unit vector from one point toward another. -/
def toward (p q : Point3 K) : Point3 K := (q - p) / VectorOps.length (q - p)

/-- The unit vector across two directions. -/
def across (p q : Point3 K) : Point3 K := p.cross q / VectorOps.length (p.cross q)

theorem dot_across_left (p q : Point3 K) : dot p (p.across q) = 0 := by
  rw [across, dot_div, dot_cross_self_left, zero_div]

theorem dot_across_right (p q : Point3 K) : dot q (p.across q) = 0 := by
  rw [across, dot_div, dot_cross_self_right, zero_div]

end Point3

namespace Matrix4

open Point3

/-! ## Columns -/

theorem dot_lastRow (p : Point4 K) : dot ⟨0.0, 0.0, 0.0, 1.0⟩ p = p.w := by
  change 0.0 * p.x + 0.0 * p.y + 0.0 * p.z + 1.0 * p.w = p.w
  rw [Scalar.zero_eq, Scalar.one_eq]
  ring

/-- The columns are where the axes go, and the shift is where the origin goes. -/
theorem apply_ofColumns (x y z shift : Point3 K) (p : Point4 K) :
    (ofColumns x y z shift).apply p
      = (x * p.x + y * p.y + z * p.z + shift * p.w).withW p.w :=
  congrArg (Point4.mk _ _ _) (dot_lastRow p)

theorem applyDirection_ofColumns (x y z shift : Point3 K) (p : Point2 K) :
    (ofColumns x y z shift).applyDirection (p.atHeight 0.0) = x * p.x + y * p.y := by
  rw [applyDirection, apply_ofColumns]
  simp [Point3.ext_iff', Point3.withW, Point4.dropW, Point2.atHeight, Scalar.zero_eq]

private theorem turn_x_straight :
    turn (unit .x) (⟨-1, 0⟩ : Point2 K) = ofColumns (unit .x) (-unit .y) (-unit .z) noShift := by
  have htwo : (1 : K) - -1 = 2 := by norm_num
  have hback : (-1 : K) + 2 = 1 := by norm_num
  simp [turn, unit, ofBlockRows, ofColumns, noShift, ofRows, Point3.withW, Scalar.zero_eq,
    Scalar.one_eq, htwo, hback]

/-! ## Frames between two points -/

variable [Trig K]

theorem forward_eq_ok {eye center : Point3 K}
    (h : ¬VectorOps.length (center - eye) < Scalar.epsilon) :
    forward eye center = .ok (eye.toward center) := by
  rw [forward, if_neg h, VectorOps.normalized_eq_ok h]
  rfl

theorem not_short_of_forward {eye center f : Point3 K} (h : forward eye center = .ok f) :
    ¬VectorOps.length (center - eye) < Scalar.epsilon := by
  intro hshort
  rw [forward, if_pos hshort] at h
  cases h

/-- Off the upward direction, the frame is built from the viewing direction. -/
theorem placement_of_tilted {eye center up f : Point3 K} (hf : forward eye center = .ok f)
    (h : ¬VectorOps.length (up.cross f) < Scalar.epsilon) :
    placement eye center up
      = .ok (ofColumns (up.across f) (f.cross (up.across f)) f eye) := by
  simp only [placement, hf, bind, Except.bind, if_neg h, VectorOps.normalized_eq_ok h]
  rfl

variable [IsStrictOrderedRing K]

theorem rotation_eq_ok {u : Point3 K} (hu : VectorOps.length u = 1) (degrees : K)
    (inverse : Bool) :
    rotation u degrees inverse
      = .ok (turn u (Angle.unit (Trig.withinTurn (if inverse then -degrees else degrees)))) := by
  have hlong : ¬(1 : K) < Scalar.epsilon := by norm_num [Scalar.epsilon]
  have hclose : Scalar.close (1 : K) 1.0 = true := by
    rw [Scalar.close_iff]
    norm_num [Scalar.epsilon]
  have hback : degrees * -1.0 = -degrees := by rw [Scalar.one_eq, mul_neg_one]
  simp only [rotation, hu, if_neg hlong, hclose, if_true, hback, Angle.direction_eq_ok]
  rfl

section Roots

variable [Trig.HasRoots K]

theorem axisRotation_eq_ok (axis : Axis) (degrees : K) :
    axisRotation axis degrees
      = .ok (turn (unit axis) (Angle.unit (Trig.withinTurn degrees))) :=
  rotation_eq_ok (VectorOps.length_unit axis) degrees false

theorem axisRotation_x_straight : axisRotation .x (180.0 : K)
    = .ok (turn (unit .x) (Angle.unit (Trig.withinTurn 180))) := by
  have hstraight : (180.0 : K) = 180 := by norm_num
  rw [axisRotation_eq_ok, hstraight]

/-- Along it the frame is not turned, against it by half a turn about the first axis. -/
theorem placement_of_steep {eye center up f : Point3 K} (hf : forward eye center = .ok f)
    (h : VectorOps.length (up.cross f) < Scalar.epsilon) :
    placement eye center up = .ok ((if dot up f < 0 then
      turn (unit .x) (Angle.unit (Trig.withinTurn 180)) else identity).shiftedTo
        (eye.withW 1.0)) := by
  simp only [placement, hf, bind, Except.bind, if_pos h, axisRotation_x_straight, Scalar.zero_eq]
  split <;> rfl

private theorem steep_of_length_cross_lt {f : Point3 K} (hunit : dot f f = 1)
    (h : VectorOps.length ((vertical : Point3 K).cross f) < Scalar.epsilon) :
    |f.x| < |f.z| ∧ |f.y| < |f.z| := by
  have hsmall : VectorOps.length ((vertical : Point3 K).cross f) *
      VectorOps.length ((vertical : Point3 K).cross f) < 1 / 2 := by
    have hhalf : (Scalar.epsilon : K) < 1 / 2 := by norm_num [Scalar.epsilon]
    have hnonneg := VectorOps.length_nonneg (v := (vertical : Point3 K).cross f)
    nlinarith [h.trans hhalf]
  rw [VectorOps.length_mul_length] at hsmall
  simp only [dot_eq, vertical, cross_x, cross_y, cross_z, Scalar.zero_eq, Scalar.one_eq]
    at hsmall hunit
  constructor
  · refine sq_lt_sq.mp ?_
    nlinarith [sq_nonneg f.y]
  · refine sq_lt_sq.mp ?_
    nlinarith [sq_nonneg f.x]

end Roots

/-- **Between two points that do not coincide there is a frame, and its columns turn
counter-clockwise about the way from the one to the other.** -/
theorem exists_placement [Trig.HasHalfTurn K] {eye center : Point3 K}
    (h : ¬VectorOps.length (center - eye) < Scalar.epsilon) :
    ∃ x y z, placement eye center = .ok (ofColumns x y z eye) ∧ IsFrame x y (center - eye) := by
  have hforward := forward_eq_ok h
  have hunit : dot (eye.toward center) (eye.toward center) = 1 := VectorOps.dot_div_length h
  have haxis : mainAxis (eye.toward center) = mainAxis (center - eye) :=
    mainAxis_div (VectorOps.length_pos h) (center - eye)
  generalize eye.toward center = f at hunit hforward haxis
  by_cases hsteep : VectorOps.length ((vertical : Point3 K).cross f) < Scalar.epsilon
  · -- here the frame is not built from the direction, but both are on one side of the horizontal
    obtain ⟨hx, hy⟩ := steep_of_length_cross_lt hunit hsteep
    have hplaced := placement_of_steep hforward hsteep
    have hdot : dot vertical f = f.z := by
      simp [dot_eq, vertical, Scalar.zero_eq, Scalar.one_eq]
    rw [hdot, Trig.HasHalfTurn.withinTurn_straight, Angle.unit_straight, turn_x_straight]
      at hplaced
    rw [mainAxis_of_steep hx hy] at haxis
    split at hplaced
    next hneg =>
      refine ⟨unit .x, -unit .y, -unit .z, hplaced, ?_, ?_, ?_, ?_⟩ <;>
        simp [← haxis, dot_eq, unit, signOf, hneg.not_ge, Scalar.zero_eq, Scalar.one_eq]
    next hpos =>
      refine ⟨unit .x, unit .y, unit .z, hplaced, ?_, ?_, ?_, ?_⟩ <;>
        simp [← haxis, dot_eq, unit, signOf, not_lt.mp hpos, Scalar.zero_eq, Scalar.one_eq]
  · have hs : dot (vertical.across f) (vertical.across f) = 1 := VectorOps.dot_div_length hsteep
    have hfs := dot_across_right vertical f
    refine ⟨_, _, _, placement_of_tilted hforward hsteep, hs, dot_cross_cross_self hunit hs hfs,
      dot_cross_self_right _ _, ?_⟩
    rw [cross_cross_eq_self hs ((dot_comm _ _).trans hfs), ← haxis]
    refine dot_mainAxis_pos ?_
    rintro rfl
    simp [dot_eq] at hunit

end Matrix4

end SolidModel
