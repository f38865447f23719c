import Mathlib
import SolidModel.Proofs.Plane.Angles
import SolidModel.Proofs.Space.Rigid

/-!
# Turns about a vector

The matrix of a turn takes a vector apart by the axis: what lies along the axis stays, and what lies
across it turns in the plane across, as a point of the plane turns about the origin. So turns about
one axis compose as turns of the plane do, and the matrices with them. Over the real numbers that is
the addition of angles.

The axis has to be of length one here. An axis that is only close to it is not made so.
-/

namespace SolidModel

open VectorOps (dot)

variable {K : Type} [Field K] [LinearOrder K] [FloorRing K]

/-! ## Along and across an axis -/

namespace Point3

variable {u : Point3 K}

section Unit

variable (hu : dot u u = 1)
include hu

private theorem turnedAbout_self (d : Point2 K) : u.turnedAbout u d = u := by
  simp only [turnedAbout, hu, ext_iff', add_x, add_y, add_z, mul_x, mul_y, mul_z, cross_x, cross_y,
    cross_z]
  refine ⟨?_, ?_, ?_⟩ <;> ring

private theorem dot_turnedAbout (p : Point3 K) (d : Point2 K) :
    dot u (p.turnedAbout u d) = dot u p := by
  have hsplit : dot u (p.turnedAbout u d)
      = dot u p * d.x + dot u (u.cross p) * d.y + dot u u * (dot u p * (1 - d.x)) := by
    simp only [turnedAbout, dot_eq, add_x, add_y, add_z, mul_x, mul_y, mul_z]
    ring
  rw [hsplit, dot_cross_self_left, hu]
  ring

private theorem cross_turnedAbout (p : Point3 K) (d : Point2 K) :
    u.cross (p.turnedAbout u d) = u.cross p * d.x + (u * dot u p - p) * d.y := by
  have hsplit : u.cross (p.turnedAbout u d) = u.cross p * d.x + u.cross (u.cross p) * d.y := by
    simp only [turnedAbout, ext_iff', add_x, add_y, add_z, mul_x, mul_y, mul_z, cross_x, cross_y,
      cross_z]
    refine ⟨?_, ?_, ?_⟩ <;> ring
  rw [hsplit, Point3.cross_cross, hu]
  simp only [ext_iff', mul_x, mul_y, mul_z, sub_x, sub_y, sub_z, add_x, add_y, add_z, mul_one,
    and_self]

/-- **Turns about one axis compose as turns of the plane do.** -/
theorem turnedAbout_turnedAbout (p : Point3 K) (d e : Point2 K) :
    (p.turnedAbout u d).turnedAbout u e = p.turnedAbout u (d.turned e) := by
  rw [turnedAbout, dot_turnedAbout hu, cross_turnedAbout hu]
  simp only [turnedAbout, Point2.turned, ext_iff', add_x, add_y, add_z, sub_x, sub_y, sub_z, mul_x,
    mul_y, mul_z]
  refine ⟨?_, ?_, ?_⟩ <;> ring

end Unit

end Point3

namespace Matrix4

open Point3

variable {m n : Matrix4 K} {u : Point3 K}

/-! ## Matrices by what they do -/

/-- A matrix that stores its rows is known by what it does to points. -/
private theorem eq_of_apply (hm : m.transposed = false) (hn : n.transposed = false)
    (h : ∀ p, m.apply p = n.apply p) : m = n := by
  have hstored {m : Matrix4 K} (hm : m.transposed = false) : ofTable m.table false = m := by
    obtain ⟨r0, r1, r2, r3, flag⟩ := m
    obtain rfl : flag = false := hm
    rfl
  have htable : m.table = n.table := by
    refine Matrix.mulVec_injective (funext fun v ↦ ?_)
    have hget : v = (Point4.ofGet v).get := funext fun i ↦ (Point4.get_ofGet v i).symm
    rw [hget, ← get_apply_eq_mulVec, ← get_apply_eq_mulVec, h]
  rw [← hstored hm, ← hstored hn, htable]

/-! ## Products of turns -/

theorem turn_one (u : Point3 K) : turn u (⟨1, 0⟩ : Point2 K) = identity := by
  simp [turn, identity, ofBlockRows, noShift, ofRows, Point3.withW, Scalar.zero_eq, Scalar.one_eq]

theorem turn_mul_turn (hu : dot u u = 1) (d e : Point2 K) :
    turn u d * turn u e = turn u (e.turned d) := by
  refine eq_of_apply rfl rfl fun p ↦ ?_
  rw [apply_mul, apply_turn, apply_turn, apply_turn, ← turnedAbout_turnedAbout hu]
  rfl

/-! ## Turns are rigid -/

theorem row_last_turn (u : Point3 K) (d : Point2 K) : (turn u d).row 3 = ⟨0, 0, 0, 1⟩ :=
  row_last_ofBlockRows _ _ _ _

private theorem block_turn_transpose (u : Point3 K) (d : Point2 K) :
    (turn u d).block.transpose = (turn u ⟨d.x, -d.y⟩).block := by
  rw [turn, ← block_ofColumns]
  refine congrArg block ?_
  simp only [turn, ofColumns, ofBlockRows, ofRows, withW, Matrix4.mk.injEq, Point4.mk.injEq,
    Scalar.one_eq, and_true, true_and]
  refine ⟨⟨?_, ?_⟩, ⟨?_, ?_⟩, ?_, ?_⟩ <;> ring

theorem det_block_turn (u : Point3 K) (d : Point2 K) : (turn u d).block.det
    = (d.x * d.x + d.y * d.y * dot u u) * (d.x + (1 - d.x) * dot u u) := by
  rw [turn, det_block_ofBlockRows, Scalar.one_eq]
  simp only [dot_eq, cross_x, cross_y, cross_z]
  ring

/-- **Turns are rigid.** -/
theorem isRigid_turn (hu : dot u u = 1) {d : Point2 K} (hd : dot d d = 1) :
    (turn u d).IsRigid where
  block_mem := by
    have hback : (⟨d.x, -d.y⟩ : Point2 K).turned d = ⟨1, 0⟩ := by
      rw [Point2.ext_iff', ← hd, Point2.dot_eq]
      constructor <;> simp only [Point2.turned] <;> ring
    -- the turn the other way undoes the turn, and it is the transpose
    have hproduct : (turn u d).block * (turn u ⟨d.x, -d.y⟩).block = 1 := by
      rw [← block_mul (row_last_turn _ _), turn_mul_turn hu, hback, turn_one]
      exact block_axes noShift
    rw [Matrix.mem_specialOrthogonalGroup_iff, Matrix.mem_orthogonalGroup_iff, block_turn_transpose]
    refine ⟨hproduct, ?_⟩
    rw [det_block_turn, hu, mul_one, mul_one, ← Point2.dot_eq, hd]
    ring
  row_last := row_last_turn u d

/-! ## Angles -/

section Real

variable {u : Point3 ℝ} (hu : dot u u = 1)
include hu

theorem turn_unit_mul_turn_unit (a b : ℝ) :
    turn u (Angle.unit a) * turn u (Angle.unit b) = turn u (Angle.unit (a + b)) := by
  rw [turn_mul_turn hu, Angle.turned_unit, add_comm]

private theorem turn_unit_mul_turn_neg (a : ℝ) :
    turn u (Angle.unit a) * turn u (Angle.unit (-a)) = identity := by
  rw [turn_unit_mul_turn_unit hu, add_neg_cancel, Angle.unit_zero, turn_one]

private theorem turn_neg_mul_turn_unit (a : ℝ) :
    turn u (Angle.unit (-a)) * turn u (Angle.unit a) = identity := by
  rw [turn_unit_mul_turn_unit hu, neg_add_cancel, Angle.unit_zero, turn_one]

end Real

/-- **Turns about an axis are a group.** About an axis of length one angles add up, the inverse turn
undoes the turn on either side, and the axis stays, be it a place or a direction. About a coordinate
axis, places and directions go where the turn of points takes them. -/
theorem rotations_compose :
    (∀ u : Point3 ℝ, VectorOps.length u = 1 → ∀ a b : ℝ, ∃ A B both back,
      rotation u a = .ok A ∧ rotation u b = .ok B ∧ rotation u (a + b) = .ok both ∧
      rotation u a true = .ok back ∧
      A * B = both ∧ A * back = identity ∧ back * A = identity ∧
      ∀ w, A.apply (u.withW w) = u.withW w) ∧
    ∀ (axis : Axis) (a : ℝ) (p : Point3 ℝ), ∃ A q,
      axisRotation axis a = .ok A ∧ p.rotated axis a = .ok q ∧
      ∀ w, A.apply (p.withW w) = q.withW w := by
  refine ⟨fun u hlength a b ↦ ?_, fun axis a p ↦ ?_⟩
  · have hu : dot u u = 1 := by
      rw [← VectorOps.length_mul_length, hlength, one_mul]
    have hturn (c : ℝ) : rotation u c = .ok (turn u (Angle.unit c)) := by
      rw [rotation_eq_ok hlength, if_neg Bool.false_ne_true, Angle.unit_withinTurn]
    have hback : rotation u a true = .ok (turn u (Angle.unit (-a))) := by
      rw [rotation_eq_ok hlength, if_pos rfl, Angle.unit_withinTurn]
    refine ⟨_, _, _, _, hturn a, hturn b, hturn (a + b), hback, turn_unit_mul_turn_unit hu a b,
      turn_unit_mul_turn_neg hu a, turn_neg_mul_turn_unit hu a, fun w ↦ ?_⟩
    rw [apply_turn]
    exact congrArg (Point3.withW · w) (turnedAbout_self hu _)
  · refine ⟨_, _, axisRotation_eq_ok axis a, p.rotated_eq_ok axis a, fun w ↦ ?_⟩
    rw [Angle.unit_withinTurn, apply_turn]
    exact congrArg (Point3.withW · w) (turnedAbout_unit p axis _)

/-- About an oblique axis, two turns that make three quarters of a turn are a quarter turn back. -/
theorem rotations_compose_quarterBack :
    VectorOps.length (⟨3 / 5, 0, 4 / 5⟩ : Point3 ℝ) = 1 ∧ ∃ A B : Matrix4 ℝ,
      rotation ⟨3 / 5, 0, 4 / 5⟩ 200 = .ok A ∧ rotation ⟨3 / 5, 0, 4 / 5⟩ 70 = .ok B ∧
      A * B = ofBlockRows ⟨9 / 25, 4 / 5, 12 / 25⟩ ⟨-4 / 5, 0, 3 / 5⟩ ⟨12 / 25, -3 / 5, 16 / 25⟩
        noShift := by
  have hlength : VectorOps.length (⟨3 / 5, 0, 4 / 5⟩ : Point3 ℝ) = 1 := by
    refine Trig.sqrt_eq zero_le_one ?_
    norm_num [VectorOps.squaredLength, dot_eq]
  have hback : Angle.unit (200 + 70 : ℝ) = ⟨0, -1⟩ := by
    rw [← Angle.unit_sub_full, ← Angle.unit_neg_quarter]
    norm_num
  obtain ⟨A, B, both, -, hA, hB, hboth, -, hproduct, -⟩ :=
    rotations_compose.1 ⟨3 / 5, 0, 4 / 5⟩ hlength 200 70
  refine ⟨hlength, A, B, hA, hB, ?_⟩
  rw [rotation_eq_ok hlength, if_neg Bool.false_ne_true, Angle.unit_withinTurn, hback] at hboth
  rw [hproduct, ← Except.ok.inj hboth, turn]
  norm_num

end Matrix4

end SolidModel
