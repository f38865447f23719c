import Mathlib
import SolidModel.Proofs.Space.Rotations

/-!
# Axes of any length

A turn is meant about the direction of its axis, so it should not matter how long the axis is. It is
brought to length one first; but an axis whose length is close to one is taken as it is. Then the
points along the axis are stretched, those across it are drawn with it, and the matrix is no
rotation: its determinant says so, see `block_turn_mul_mem_iff`. How far it is from one is bounded
by the tolerance, since along and across the axis the two errors are at right angles.
-/

namespace SolidModel

open VectorOps (dot length)

variable {K : Type} [Field K] [LinearOrder K] [FloorRing K]

/-! ## Directions of the plane -/

namespace Point2

variable {d : Point2 K}

private theorem eq_of_x_eq_one (hd : dot d d = 1) (hx : d.x = 1) : d = ⟨1, 0⟩ := by
  rw [dot_eq, hx, one_mul, add_eq_left] at hd
  exact ext_iff'.mpr ⟨hx, mul_self_eq_zero.mp hd⟩

variable [IsStrictOrderedRing K]

private theorem abs_x_le_one (hd : dot d d = 1) : |d.x| ≤ 1 := by
  rw [abs_le_one_iff_mul_self_le_one, ← hd, dot_eq]
  exact le_add_of_nonneg_right (mul_self_nonneg d.y)

private theorem abs_y_le_one (hd : dot d d = 1) : |d.y| ≤ 1 := by
  rw [abs_le_one_iff_mul_self_le_one, ← hd, dot_eq]
  exact le_add_of_nonneg_left (mul_self_nonneg d.x)

private theorem one_sub_x_bounds (hd : dot d d = 1) : 0 ≤ 1 - d.x ∧ 1 - d.x ≤ 2 := by
  obtain ⟨hlow, hhigh⟩ := abs_le.mp (abs_x_le_one hd)
  constructor <;> linarith

end Point2

/-! ## Lengths of multiples -/

namespace Point3

theorem dot_mul_mul (p : Point3 K) (r : K) : dot (p * r) (p * r) = dot p p * (r * r) := by
  rw [dot_mul, dot_comm, dot_mul, mul_assoc]

private theorem dot_cross_cross_add {n : Point3 K} (hn : dot n n = 1) (p : Point3 K) :
    dot (n.cross p) (n.cross p) + dot n p * dot n p = dot p p := by
  have hsquares : dot (n.cross p) (n.cross p) = dot n n * dot p p - dot n p * dot n p := by
    simp only [dot_eq, cross_x, cross_y, cross_z]
    ring
  rw [hsquares, hn]
  ring

section Lengths

variable [IsStrictOrderedRing K] [Trig K] [Trig.HasRoots K]

theorem length_mul (p : Point3 K) {r : K} (hr : 0 ≤ r) : length
    (p * r) = length p * r := by
  refine Trig.sqrt_eq (mul_nonneg VectorOps.length_nonneg hr) ?_
  rw [mul_mul_mul_comm, VectorOps.length_mul_length]
  exact (dot_mul_mul p r).symm

private theorem length_le_of_dot_le {p : Point3 K} {r : K} (hr : 0 ≤ r) (h : dot p p ≤ r * r) :
    length p ≤ r := by
  rw [← VectorOps.length_mul_length] at h
  exact (mul_self_le_mul_self_iff VectorOps.length_nonneg hr).mpr h

/-- What is changed along a unit vector and across it, each by a share of itself. -/
private theorem length_along_add_across_le {n : Point3 K} (hn : dot n n = 1) {s t bound : K}
    (hs : |s| ≤ bound) (ht : |t| ≤ bound) (p : Point3 K) :
    length (n.cross p * s + n * (dot n p * t)) ≤ bound * length p := by
  have hsplit : dot (n.cross p * s + n * (dot n p * t)) (n.cross p * s + n * (dot n p * t))
      = dot (n.cross p) (n.cross p) * (s * s) + dot n n * (dot n p * dot n p) * (t * t)
        + 2 * dot n (n.cross p) * (s * (dot n p * t)) := by
    simp only [dot_eq, add_x, add_y, add_z, mul_x, mul_y, mul_z]
    ring
  have hsquare {x : K} (hx : |x| ≤ bound) : x * x ≤ bound * bound := by
    rw [← abs_mul_abs_self x]
    exact mul_self_le_mul_self (abs_nonneg x) hx
  have hs' := hsquare hs
  have ht' := hsquare ht
  refine length_le_of_dot_le (mul_nonneg ((abs_nonneg s).trans hs) VectorOps.length_nonneg) ?_
  calc dot (n.cross p * s + n * (dot n p * t)) (n.cross p * s + n * (dot n p * t))
      = dot (n.cross p) (n.cross p) * (s * s) + dot n p * dot n p * (t * t) := by
        rw [hsplit, hn, dot_cross_self_left]
        ring
    _ ≤ dot (n.cross p) (n.cross p) * (bound * bound) + dot n p * dot n p * (bound * bound) := by
        have hacross : 0 ≤ dot (n.cross p) (n.cross p) := by
          rw [← VectorOps.length_mul_length]
          exact mul_self_nonneg _
        have halong := mul_self_nonneg (dot n p)
        gcongr
    _ = bound * length p * (bound * length p) := by
        rw [← add_mul, dot_cross_cross_add hn, mul_mul_mul_comm, VectorOps.length_mul_length,
          mul_comm]

private theorem mul_div_length (p : Point3 K) {r : K} (hr : 0 < r) :
    p * r / length (p * r) = p / length p := by
  rw [length_mul p hr.le]
  simp only [ext_iff', div_x, div_y, div_z, mul_x, mul_y, mul_z, mul_div_mul_right _ _ hr.ne',
    and_self]

end Lengths

end Point3

namespace Matrix4

open Point3

/-! ## Turns about a vector that is no unit vector -/

section Turn

variable {n : Point3 K} {d : Point2 K} {r : K}

private theorem turn_mul_eq_turn (hd : dot d d = 1) (h : r = 1 ∨ d.x = 1) :
    turn (n * r) d = turn n d := by
  rcases h with rfl | hx
  · refine congrArg (turn · d) ?_
    simp only [ext_iff', mul_x, mul_y, mul_z, mul_one, and_self]
  · rw [Point2.eq_of_x_eq_one hd hx, turn_one, turn_one]

private theorem turnedAbout_mul_sub (n p : Point3 K) (d : Point2 K) (r : K) :
    p.turnedAbout (n * r) d - p.turnedAbout n d
      = n.cross p * (d.y * (r - 1)) + n * (dot n p * ((1 - d.x) * (r * r - 1))) := by
  simp only [turnedAbout, ext_iff', dot_eq, add_x, add_y, add_z, sub_x, sub_y, sub_z, mul_x, mul_y,
    mul_z, cross_x, cross_y, cross_z]
  refine ⟨?_, ?_, ?_⟩ <;> ring

variable [IsStrictOrderedRing K]

private theorem det_block_turn_mul_eq_one_iff (hn : dot n n = 1) (hd : dot d d = 1) (hr : 0 < r) :
    (turn (n * r) d).block.det = 1 ↔ r = 1 ∨ d.x = 1 := by
  obtain ⟨hlow, hhigh⟩ := Point2.one_sub_x_bounds hd
  have hsquare : d.y * d.y = (1 - d.x) * (2 - (1 - d.x)) := by
    rw [← sub_eq_of_eq_add' (hd.symm.trans (Point2.dot_eq d d))]
    ring
  rw [det_block_turn, dot_mul_mul, hn, one_mul, hsquare]
  generalize hx : d.x = c at hlow hhigh ⊢
  -- one less the determinant has three factors, and the last one is positive
  have hrest : 0 < (1 - c) ^ 2 - 3 * (1 - c) + 3 + (1 - c) * (2 - (1 - c)) * (r * r) := by
    have hlast : 0 ≤ (1 - c) * (2 - (1 - c)) * (r * r) :=
      mul_nonneg (mul_nonneg hlow (sub_nonneg.mpr hhigh)) (mul_self_nonneg r)
    nlinarith [sq_nonneg (2 * (1 - c) - 3)]
  have hfactors : (c * c + (1 - c) * (2 - (1 - c)) * (r * r)) * (c + (1 - c) * (r * r)) - 1
      = (r * r - 1) * (1 - c)
        * ((1 - c) ^ 2 - 3 * (1 - c) + 3 + (1 - c) * (2 - (1 - c)) * (r * r)) := by
    ring
  rw [← sub_eq_zero, hfactors, mul_eq_zero, mul_eq_zero, or_iff_left hrest.ne', sub_eq_zero,
    sub_eq_zero, mul_self_eq_one_iff, or_iff_left (by linarith : r ≠ -1), eq_comm (a := (1 : K))]

/-- **Only unit vectors turn without deforming.** -/
theorem block_turn_mul_mem_iff (hn : dot n n = 1) (hd : dot d d = 1) (hr : 0 < r) :
    (turn (n * r) d).block ∈ Matrix.specialOrthogonalGroup (Fin 3) K ↔ r = 1 ∨ d.x = 1 := by
  constructor
  · intro hmem
    have hdet := (Matrix.mem_specialOrthogonalGroup_iff.mp hmem).2
    exact (det_block_turn_mul_eq_one_iff hn hd hr).mp hdet
  · intro h
    rw [turn_mul_eq_turn hd h]
    exact (isRigid_turn hn hd).block_mem

private theorem turn_mul_eq_turn_iff (hn : dot n n = 1) (hd : dot d d = 1) (hr : 0 < r) :
    turn (n * r) d = turn n d ↔ r = 1 ∨ d.x = 1 := by
  refine ⟨fun h ↦ (block_turn_mul_mem_iff hn hd hr).mp ?_, turn_mul_eq_turn hd⟩
  rw [h]
  exact (isRigid_turn hn hd).block_mem

/-- **Close to a unit vector** a turn is close to that about the unit vector. -/
theorem length_turnedAbout_mul_sub_le [Trig K] [Trig.HasRoots K] (hn : dot n n = 1)
    (hd : dot d d = 1) (hr : |r - 1| < Scalar.epsilon) (p : Point3 K) :
    length (p.turnedAbout (n * r) d - p.turnedAbout n d) ≤ 5 * Scalar.epsilon * length p := by
  have hpos : (0 : K) ≤ Scalar.epsilon := Scalar.epsilon_pos.le
  have hsmall : (Scalar.epsilon : K) ≤ 1 / 2 := by norm_num [Scalar.epsilon]
  obtain ⟨hlow, hhigh⟩ := Point2.one_sub_x_bounds hd
  obtain ⟨hr0, hr1⟩ := abs_lt.mp hr
  have hsine := Point2.abs_y_le_one hd
  have hsum : |r + 1| ≤ 5 / 2 := abs_le.mpr ⟨by linarith, by linarith⟩
  rw [turnedAbout_mul_sub]
  refine length_along_add_across_le hn ?_ ?_ p
  · calc |d.y * (r - 1)| = |d.y| * |r - 1| := abs_mul _ _
      _ ≤ 1 * Scalar.epsilon := by gcongr
      _ ≤ 5 * Scalar.epsilon := by linarith
  · calc |(1 - d.x) * (r * r - 1)| = (1 - d.x) * (|r - 1| * |r + 1|) := by
          rw [abs_mul, abs_of_nonneg hlow, ← abs_mul]
          ring_nf
      _ ≤ 2 * (Scalar.epsilon * (5 / 2)) := by gcongr
      _ = 5 * Scalar.epsilon := by ring

end Turn

/-! ## Rotations -/

section Rotation

variable [Trig K] {axis : Point3 K}

/-- The direction of an angle, which whole turns do not change, as a rotation takes it. -/
def angleTaken (degrees : K) (inverse : Bool) : Point2 K :=
  Angle.unit (Trig.withinTurn (if inverse then -degrees else degrees))

/-- The length to which an axis is brought: one, unless it is close to that already. -/
def lengthTaken (axis : Point3 K) : K :=
  if |length axis - 1| < Scalar.epsilon then length axis else 1

/-- The length of the axis is one, or not taken for one. -/
def IsPlain (axis : Point3 K) : Prop := |length axis - 1| < Scalar.epsilon → length axis = 1

theorem lengthTaken_eq_one_iff : lengthTaken axis = 1 ↔ IsPlain axis := by
  rw [lengthTaken, IsPlain]
  split
  next hclose => exact ⟨fun h _ ↦ h, fun h ↦ h hclose⟩
  next hfar => exact ⟨fun _ h ↦ absurd h hfar, fun _ ↦ rfl⟩

variable [IsStrictOrderedRing K]

private theorem abs_lengthTaken_sub_one_lt (axis : Point3 K) :
    |lengthTaken axis - 1| < Scalar.epsilon := by
  rw [lengthTaken]
  split
  next hclose => exact hclose
  next =>
    rw [sub_self, abs_zero]
    exact Scalar.epsilon_pos

private theorem lengthTaken_pos (h : ¬length axis < Scalar.epsilon) : 0 < lengthTaken axis := by
  rw [lengthTaken]
  split
  · exact VectorOps.length_pos h
  · exact one_pos

/-- **A rotation is a turn** about the direction of its axis, at the length that the axis is
brought to. -/
theorem rotation_eq_ok_iff {degrees : K} {inverse : Bool} {m : Matrix4 K} :
    rotation axis degrees inverse = .ok m ↔ ¬length axis < Scalar.epsilon ∧
      turn (axis / length axis * lengthTaken axis) (angleTaken degrees inverse) = m := by
  have hback : degrees * -1.0 = -degrees := by rw [Scalar.one_eq, mul_neg_one]
  have hclose : Scalar.close (length axis) 1.0 = true ↔ |length axis - 1| < Scalar.epsilon := by
    rw [Scalar.close_iff, Scalar.one_eq]
  rw [rotation, Outcome.guard_eq_ok_iff]
  refine and_congr_right fun h ↦ ?_
  have haxis : (if Scalar.close (length axis) 1.0 then axis else axis / length axis)
      = axis / length axis * lengthTaken axis := by
    simp only [lengthTaken, hclose]
    split
    · exact (VectorOps.div_length_mul_length h).symm
    · simp only [ext_iff', mul_x, mul_y, mul_z, mul_one, and_self]
  simp only [haxis, hback, Angle.direction_eq_ok]
  exact Outcome.pure_eq_ok_iff

end Rotation

/-- **There is one rotation for a direction and an angle**, and every axis in that direction gives
it, except those whose length is close to one without being one, at angles that turn at all. These
are taken as they are: what they give is no rotation, but takes no point further from where the
rotation takes it than five times the tolerance times its distance from the origin. -/
theorem rotation_along [IsStrictOrderedRing K] [Trig K] [Trig.IsCircular K] (axis : Point3 K)
    (degrees : K) (inverse : Bool) :
    ((∃ A, rotation axis degrees inverse = .ok A) ↔ Scalar.epsilon ≤ length axis) ∧
    (Scalar.epsilon ≤ length axis → ∃ R : Matrix4 K, R.IsRigid ∧
      ∀ k : K, 0 < k → Scalar.epsilon ≤ length (axis * k) → ∃ A,
        rotation (axis * k) degrees inverse = .ok A ∧
        (A.block ∈ Matrix.specialOrthogonalGroup (Fin 3) K ↔ A = R) ∧
        (A = R ↔ IsPlain (axis * k) ∨ (angleTaken degrees inverse).x = 1) ∧
        ∀ p, length (A.applyPlace p - R.applyPlace p) ≤ 5 * Scalar.epsilon * length p) := by
  refine ⟨⟨fun ⟨A, hA⟩ ↦ not_lt.mp (rotation_eq_ok_iff.mp hA).1,
    fun h ↦ ⟨_, rotation_eq_ok_iff.mpr ⟨not_lt.mpr h, rfl⟩⟩⟩, fun hlong ↦ ?_⟩
  have hn : dot (axis / length axis) (axis / length axis) = 1 :=
    VectorOps.dot_div_length (not_lt.mpr hlong)
  have hd : dot (angleTaken degrees inverse) (angleTaken degrees inverse) = 1 :=
    Angle.dot_unit _
  refine ⟨turn (axis / length axis) (angleTaken degrees inverse), isRigid_turn hn hd,
    fun k hk hklong ↦ ?_⟩
  have hpos := lengthTaken_pos (not_lt.mpr hklong)
  refine ⟨_, rotation_eq_ok_iff.mpr ⟨not_lt.mpr hklong, rfl⟩, ?_⟩
  rw [mul_div_length axis hk, block_turn_mul_mem_iff hn hd hpos, turn_mul_eq_turn_iff hn hd hpos,
    lengthTaken_eq_one_iff]
  refine ⟨Iff.rfl, Iff.rfl, fun p ↦ ?_⟩
  rw [applyPlace, apply_turn, applyPlace, apply_turn]
  exact length_turnedAbout_mul_sub_le hn hd (abs_lengthTaken_sub_one_lt _) p

/-- A quarter turn about an axis of length five is one about the unit vector along it. -/
theorem rotation_along_steep :
    Scalar.epsilon ≤ length (⟨3, 0, 4⟩ : Point3 ℝ) ∧
      Scalar.epsilon ≤ length ((⟨3, 0, 4⟩ : Point3 ℝ) * (1 / 5 : ℝ)) ∧
      ∃ R : Matrix4 ℝ, R.IsRigid ∧ rotation (⟨3, 0, 4⟩ : Point3 ℝ) 90 = .ok R ∧
        rotation ((⟨3, 0, 4⟩ : Point3 ℝ) * (1 / 5 : ℝ)) 90 = .ok R := by
  have hfive : length (⟨3, 0, 4⟩ : Point3 ℝ) = 5 :=
    Trig.sqrt_eq (by norm_num) (by norm_num [VectorOps.squaredLength, dot_eq])
  have hone : length ((⟨3, 0, 4⟩ : Point3 ℝ) * (1 / 5 : ℝ)) = 1 := by
    rw [Point3.length_mul _ (by norm_num), hfive]
    norm_num
  have hself : (⟨3, 0, 4⟩ : Point3 ℝ) * (1 : ℝ) = ⟨3, 0, 4⟩ := by
    simp only [ext_iff', mul_x, mul_y, mul_z, mul_one, and_self]
  have hlong : Scalar.epsilon ≤ length (⟨3, 0, 4⟩ : Point3 ℝ) := by
    rw [hfive]
    norm_num [Scalar.epsilon]
  have hunit : Scalar.epsilon ≤ length ((⟨3, 0, 4⟩ : Point3 ℝ) * (1 / 5 : ℝ)) := by
    rw [hone]
    norm_num [Scalar.epsilon]
  refine ⟨hlong, hunit, ?_⟩
  obtain ⟨R, hR, hall⟩ := (rotation_along (⟨3, 0, 4⟩ : Point3 ℝ) 90 false).2 hlong
  obtain ⟨A, hA, -, hAR, -⟩ := hall 1 one_pos (by rwa [hself])
  obtain ⟨B, hB, -, hBR, -⟩ := hall (1 / 5) (by norm_num) hunit
  have hplain : IsPlain (⟨3, 0, 4⟩ : Point3 ℝ) := by
    intro hclose
    rw [hfive] at hclose
    norm_num [Scalar.epsilon] at hclose
  rw [hself] at hA hAR
  obtain rfl := hAR.mpr (.inl hplain)
  obtain rfl := hBR.mpr (.inl fun _ ↦ hone)
  exact ⟨_, hR, hA, hB⟩

/-- Half a turn about an axis that is nearly a unit vector is no rotation, and not what the unit
vector gives. -/
theorem exists_rotation_not_mem :
    ∃ A : Matrix4 ℝ, rotation (⟨250001 / 250000, 0, 0⟩ : Point3 ℝ) 180 = .ok A ∧
      A.block ∉ Matrix.specialOrthogonalGroup (Fin 3) ℝ ∧
      rotation (⟨1, 0, 0⟩ : Point3 ℝ) 180 ≠ .ok A := by
  have hlength {x : ℝ} (hx : 0 ≤ x) : length (⟨x, 0, 0⟩ : Point3 ℝ) = x :=
    Trig.sqrt_eq hx (by simp [VectorOps.squaredLength, dot_eq])
  have hlong : length (⟨250001 / 250000, 0, 0⟩ : Point3 ℝ) = 250001 / 250000 :=
    hlength (by norm_num)
  have hone : length (⟨1, 0, 0⟩ : Point3 ℝ) = 1 := hlength zero_le_one
  have hu : dot (⟨1, 0, 0⟩ : Point3 ℝ) ⟨1, 0, 0⟩ = 1 := by norm_num [dot_eq]
  have hdirection : (⟨250001 / 250000, 0, 0⟩ : Point3 ℝ) / (250001 / 250000 : ℝ) = ⟨1, 0, 0⟩ := by
    norm_num [ext_iff']
  have htaken : lengthTaken (⟨250001 / 250000, 0, 0⟩ : Point3 ℝ) = 250001 / 250000 := by
    rw [lengthTaken, hlong, if_pos]
    norm_num [Scalar.epsilon, abs_lt]
  have hangle : angleTaken (180 : ℝ) false = ⟨-1, 0⟩ := by
    rw [angleTaken, if_neg Bool.false_ne_true, Trig.HasHalfTurn.withinTurn_straight,
      Angle.unit_straight]
  have hmem : (turn ((⟨1, 0, 0⟩ : Point3 ℝ) * (250001 / 250000 : ℝ)) (⟨-1, 0⟩ : Point2 ℝ)).block
      ∉ Matrix.specialOrthogonalGroup (Fin 3) ℝ := by
    rw [block_turn_mul_mem_iff hu (by norm_num [Point2.dot_eq]) (by norm_num)]
    norm_num
  refine ⟨_, rotation_eq_ok_iff.mpr ⟨?_, rfl⟩, ?_, fun h ↦ ?_⟩
  · rw [hlong]
    norm_num [Scalar.epsilon]
  · rwa [hlong, htaken, hangle, hdirection]
  · rw [rotation_eq_ok hone, hlong, htaken, hangle, hdirection] at h
    rw [← Except.ok.inj h] at hmem
    exact hmem (isRigid_turn hu (Angle.dot_unit _)).block_mem

end Matrix4

end SolidModel
