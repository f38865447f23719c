import Mathlib
import SolidModel.Proofs.Space.Rotations

/-!
# Looking from one point to another

A placement brings the origin to the eye, and a view brings the eye to the origin. Both are rigid
whatever the upward direction. Off it their blocks are made of the viewing direction and two unit
vectors across; along it no turn, or half a turn about the first axis, takes their place.

Off the upward direction the local vertical of a placement points ahead, and in a view what is ahead
lies on the negative local vertical. Along it a view takes the turns that a placement takes, and so
looks along the positive local vertical where the upward direction is the vertical. What it makes of
its direction in each case is `ahead`, and `ahead_eq_iff` says when that is where it should be.
-/

namespace SolidModel

open VectorOps (dot)

namespace Matrix4

open Point3

variable {K : Type} [Field K] [LinearOrder K] [FloorRing K]
variable {m : Matrix4 K} {eye center up f : Point3 K}

/-! ## What a matrix sees -/

/-- The matrix keeps places places, brings the eye to the origin and turns the direction `f`, in
which it looks, to `seen`. -/
structure Sees (eye f seen : Point3 K) (m : Matrix4 K) : Prop where
  row_last : m.row 3 = ⟨0, 0, 0, 1⟩
  applyPlace_eye : m.applyPlace eye = 0
  applyDirection : m.applyDirection f = seen

private theorem sees_shift (eye f : Point3 K) : Sees eye f f (shift (-eye)) where
  row_last := row_last_ofBlockRows _ _ _ _
  applyPlace_eye := by
    rw [applyPlace_shift]
    exact add_neg_cancel eye
  applyDirection := by
    rw [shift, if_neg Bool.false_ne_true, applyDirection_ofBlockRows]
    simp [dot_eq, Scalar.zero_eq, Scalar.one_eq]

theorem Sees.turned {seen : Point3 K} (h : Sees eye f seen m) (d : Point2 K) :
    Sees eye f (seen.turned .x d) (turn (unit .x) d * m) where
  row_last := row_last_iff.mpr fun p ↦ by
    rw [apply_mul, row_last_iff.mp (row_last_turn _ d), row_last_iff.mp h.row_last]
  applyPlace_eye := by
    rw [applyPlace_mul _ h.row_last, h.applyPlace_eye, applyPlace_turn]
    simp [ext_iff', Point3.turned]
  applyDirection := by
    rw [applyDirection_mul _ h.row_last, h.applyDirection, applyDirection_turn]

theorem Sees.apply_eye {seen : Point3 K} (h : Sees eye f seen m) :
    m.apply (eye.withW 1) = ⟨0, 0, 0, 1⟩ := by
  have hplace := apply_withW_one h.row_last eye
  rwa [h.applyPlace_eye, Scalar.one_eq] at hplace

private theorem mul_withW_eq_iff {seen : Point3 K} {r : K} (hr : r ≠ 0) :
    (seen * r).withW 1 = ⟨0, 0, -r, 1⟩ ↔ seen = ⟨0, 0, -1⟩ := by
  have hneg : seen.z * r = -r ↔ seen.z = -1 := by
    rw [← neg_one_mul r, mul_left_inj' hr]
  simp only [withW, Point4.mk.injEq, ext_iff', mul_x, mul_y, mul_z, hneg, mul_eq_zero, hr, or_false,
    and_true]

/-! ## What is made -/

variable [Trig K]

private theorem length_cross_comm (p q : Point3 K) :
    VectorOps.length (p.cross q) = VectorOps.length (q.cross p) := by
  refine congrArg Trig.sqrt ?_
  simp only [VectorOps.squaredLength, dot_eq, cross_x, cross_y, cross_z]
  ring

theorem view_of_tilted (hf : forward eye center = .ok f)
    (h : ¬VectorOps.length (f.cross up) < Scalar.epsilon) :
    view eye center up = .ok (ofBlockRows (f.across up) ((f.across up).cross f) (-f)
      ⟨-dot (f.across up) eye, -dot ((f.across up).cross f) eye, dot f eye⟩) := by
  simp only [view, hf, bind, Except.bind, if_neg h, VectorOps.normalized_eq_ok h]
  rfl

theorem not_short_of_placement (h : placement eye center up = .ok m) :
    ¬VectorOps.length (center - eye) < Scalar.epsilon := by
  obtain ⟨f, hf, -⟩ := Outcome.bind_eq_ok_iff.mp h
  exact not_short_of_forward hf

theorem not_short_of_view (h : view eye center up = .ok m) :
    ¬VectorOps.length (center - eye) < Scalar.epsilon := by
  obtain ⟨f, hf, -⟩ := Outcome.bind_eq_ok_iff.mp h
  exact not_short_of_forward hf

private theorem applyDirection_of_placement (h : placement eye center up = .ok m)
    (htilted : Scalar.epsilon ≤ VectorOps.length (up.cross (eye.toward center))) :
    m.applyDirection ⟨0, 0, 1⟩ = eye.toward center := by
  have hf := forward_eq_ok (not_short_of_placement h)
  obtain rfl := Except.ok.inj ((placement_of_tilted hf htilted.not_gt).symm.trans h)
  rw [applyDirection, apply_ofColumns]
  simp [withW, Point4.dropW, Scalar.zero_eq]

/-! ## The eye and what is ahead -/

/-- What a view makes of the direction in which it looks, by the direction of half a turn. -/
def ahead (half : Point2 K) (up f : Point3 K) : Point3 K :=
  if VectorOps.length (f.cross up) < Scalar.epsilon then
    if dot up f < 0 then f.turned .x half else f
  else ⟨0, 0, -1⟩

/-- What is ahead lies on the negative local vertical off the upward direction. Along it, it does so
only for those who look straight down the vertical, or straight up it with the upward direction
against them. -/
private theorem ahead_eq_iff (up f : Point3 K) : ahead ⟨-1, 0⟩ up f = ⟨0, 0, -1⟩ ↔
    Scalar.epsilon ≤ VectorOps.length (f.cross up) ∨
      f = ⟨0, 0, if dot up f < 0 then 1 else -1⟩ := by
  rw [ahead]
  by_cases hsteep : VectorOps.length (f.cross up) < Scalar.epsilon
  · rw [if_pos hsteep, or_iff_right hsteep.not_ge]
    split
    · simp [ext_iff', Point3.turned]
    · rfl
  · rw [if_neg hsteep]
    exact iff_of_true rfl (.inl (not_lt.mp hsteep))

private theorem sees_tilted (hunit : dot f f = 1) (eye up : Point3 K) :
    Sees eye f ⟨0, 0, -1⟩ (ofBlockRows (f.across up) ((f.across up).cross f) (-f)
      ⟨-dot (f.across up) eye, -dot ((f.across up).cross f) eye, dot f eye⟩) where
  row_last := row_last_ofBlockRows _ _ _ _
  applyPlace_eye := by
    rw [applyPlace_ofBlockRows, neg_dot]
    simp [ext_iff']
  applyDirection := by
    have hacross : dot (f.across up) f = 0 := (dot_comm _ _).trans (dot_across_left f up)
    have hproduct : dot ((f.across up).cross f) f = 0 :=
      (dot_comm _ _).trans (dot_cross_self_right (f.across up) f)
    rw [applyDirection_ofBlockRows, hacross, hproduct, neg_dot, hunit]

variable [IsStrictOrderedRing K]

theorem Sees.apply_center {seen : Point3 K} (h : Sees eye (eye.toward center) seen m)
    (hlong : ¬VectorOps.length (center - eye) < Scalar.epsilon) :
    m.apply (center.withW 1) = (seen * VectorOps.length (center - eye)).withW 1 := by
  have hplace : m.applyPlace center = seen * VectorOps.length (center - eye) := by
    calc m.applyPlace center
        = m.applyDirection (center - eye) + m.applyPlace eye := applyPlace_eq_add m center eye
      _ = m.applyDirection (eye.toward center * VectorOps.length (center - eye)) + 0 := by
        rw [toward, VectorOps.div_length_mul_length hlong, h.applyPlace_eye]
      _ = seen * VectorOps.length (center - eye) := by
        rw [applyDirection_scaled, h.applyDirection]
        exact add_zero _
  rw [← Scalar.one_eq, apply_withW_one h.row_last, hplace]

section Roots

variable [Trig.HasRoots K]

theorem view_of_steep (hf : forward eye center = .ok f)
    (h : VectorOps.length (f.cross up) < Scalar.epsilon) :
    view eye center up = .ok (if dot up f < 0 then
      turn (unit .x) (Angle.unit (Trig.withinTurn 180)) * shift (-eye) else shift (-eye)) := by
  simp only [view, hf, bind, Except.bind, if_pos h, axisRotation_x_straight, Scalar.zero_eq]
  split <;> rfl

private theorem apply_origin_of_placement (h : placement eye center up = .ok m) :
    m.apply ⟨0, 0, 0, 1⟩ = eye.withW 1 := by
  have hf := forward_eq_ok (not_short_of_placement h)
  by_cases hsteep : VectorOps.length (up.cross (eye.toward center)) < Scalar.epsilon
  · obtain rfl := Except.ok.inj ((placement_of_steep hf hsteep).symm.trans h)
    rw [apply_origin_shiftedTo, Scalar.one_eq]
  · obtain rfl := Except.ok.inj ((placement_of_tilted hf hsteep).symm.trans h)
    rw [apply_ofColumns]
    simp [withW]

theorem exists_view (h : ¬VectorOps.length (center - eye) < Scalar.epsilon) (up : Point3 K) :
    ∃ m, view eye center up = .ok m ∧
      Sees eye (eye.toward center)
        (ahead (Angle.unit (Trig.withinTurn 180)) up (eye.toward center)) m := by
  have hf := forward_eq_ok h
  rw [ahead]
  split
  next hsteep =>
    refine ⟨_, view_of_steep hf hsteep, ?_⟩
    split
    next hneg => exact (sees_shift eye _).turned _
    next hpos => exact sees_shift eye _
  next htilted =>
    exact ⟨_, view_of_tilted hf htilted, sees_tilted (VectorOps.dot_div_length h) eye up⟩

/-- **What a view sees ahead.** Every view brings its eye to the origin. It brings the place it
looks at to the negative local vertical, as far away as it is, wherever the viewing direction is off
the upward direction; where it is along it, only in the two cases that the turn happens to suit. -/
theorem view_center_iff (hcos : Trig.cos (180 : K) = -1) (hsin : Trig.sin (180 : K) = 0)
    (hturn : Trig.withinTurn (180 : K) = 180) (h : Scalar.epsilon ≤ VectorOps.length (center - eye))
    (up : Point3 K) :
    ∃ m, view eye center up = .ok m ∧ m.apply (eye.withW 1) = ⟨0, 0, 0, 1⟩ ∧
      (m.apply (center.withW 1) = ⟨0, 0, -VectorOps.length (center - eye), 1⟩ ↔
        Scalar.epsilon ≤ VectorOps.length ((eye.toward center).cross up) ∨
        eye.toward center = ⟨0, 0, if dot up (eye.toward center) < 0 then 1 else -1⟩) := by
  have hstraight : Angle.unit (Trig.withinTurn (180 : K)) = ⟨-1, 0⟩ := by
    rw [hturn, Angle.unit, hcos, hsin]
  obtain ⟨m, hm, hsees⟩ := exists_view h.not_gt up
  refine ⟨m, hm, hsees.apply_eye, ?_⟩
  rw [hsees.apply_center h.not_gt, mul_withW_eq_iff (Scalar.epsilon_pos.trans_le h).ne',
    hstraight, ahead_eq_iff]

end Roots

/-! ## Views of the real numbers -/

/-- From above, with the second axis up, the origin is five below. -/
theorem view_center_iff_fromAbove :
    Trig.cos (180 : ℝ) = -1 ∧ Trig.sin (180 : ℝ) = 0 ∧ Trig.withinTurn (180 : ℝ) = 180 ∧
    Scalar.epsilon ≤ VectorOps.length ((⟨0, 0, 0⟩ : Point3 ℝ) - ⟨0, 0, 5⟩) ∧
    ∃ m, view (⟨0, 0, 5⟩ : Point3 ℝ) ⟨0, 0, 0⟩ ⟨0, 1, 0⟩ = .ok m ∧
      m.apply ⟨0, 0, 5, 1⟩ = ⟨0, 0, 0, 1⟩ ∧ m.apply ⟨0, 0, 0, 1⟩ = ⟨0, 0, -5, 1⟩ := by
  have hcos : Trig.cos (180 : ℝ) = -1 := Trig.HasHalfTurn.cos_straight
  have hsin : Trig.sin (180 : ℝ) = 0 := Trig.sin_eq_zero (by rw [hcos, neg_one_mul, neg_neg])
  have hturn : Trig.withinTurn (180 : ℝ) = 180 := Trig.HasHalfTurn.withinTurn_straight
  have hlength : VectorOps.length ((⟨0, 0, 0⟩ : Point3 ℝ) - ⟨0, 0, 5⟩) = 5 :=
    Trig.sqrt_eq (by norm_num) (by norm_num [VectorOps.squaredLength, dot_eq])
  have hlong : Scalar.epsilon ≤ VectorOps.length ((⟨0, 0, 0⟩ : Point3 ℝ) - ⟨0, 0, 5⟩) := by
    rw [hlength]
    norm_num [Scalar.epsilon]
  have htoward : (⟨0, 0, 5⟩ : Point3 ℝ).toward ⟨0, 0, 0⟩ = ⟨0, 0, -1⟩ := by
    rw [toward, hlength, ext_iff']
    norm_num
  have htilted : VectorOps.length ((⟨0, 0, -1⟩ : Point3 ℝ).cross ⟨0, 1, 0⟩) = 1 :=
    Trig.sqrt_eq zero_le_one (by norm_num [VectorOps.squaredLength, dot_eq])
  obtain ⟨m, hm, heye, hcenter⟩ := view_center_iff hcos hsin hturn hlong ⟨0, 1, 0⟩
  refine ⟨hcos, hsin, hturn, hlong, m, hm, heye, ?_⟩
  rw [hlength, htoward, htilted] at hcenter
  exact hcenter.mpr (.inl (by norm_num [Scalar.epsilon]))

/-- Straight up, a view looks along the positive local vertical. -/
theorem exists_view_upward :
    VectorOps.length ((⟨0, 0, 3⟩ : Point3 ℝ) - ⟨0, 0, 0⟩) = 3 ∧
    ∃ m, view (⟨0, 0, 0⟩ : Point3 ℝ) ⟨0, 0, 3⟩ = .ok m ∧
      m.apply ⟨0, 0, 3, 1⟩ = ⟨0, 0, 3, 1⟩ ∧ m.apply ⟨0, 0, 3, 1⟩ ≠ ⟨0, 0, -3, 1⟩ := by
  have hlength : VectorOps.length ((⟨0, 0, 3⟩ : Point3 ℝ) - ⟨0, 0, 0⟩) = 3 :=
    Trig.sqrt_eq (by norm_num) (by norm_num [VectorOps.squaredLength, dot_eq])
  have hlong : ¬VectorOps.length ((⟨0, 0, 3⟩ : Point3 ℝ) - ⟨0, 0, 0⟩) < Scalar.epsilon := by
    rw [hlength]
    norm_num [Scalar.epsilon]
  have htoward : (⟨0, 0, 0⟩ : Point3 ℝ).toward ⟨0, 0, 3⟩ = vertical := by
    rw [toward, hlength, ext_iff', vertical]
    norm_num
  have hsteep : VectorOps.length ((vertical : Point3 ℝ).cross vertical) = 0 :=
    Trig.sqrt_eq le_rfl (by norm_num [VectorOps.squaredLength, dot_eq, vertical])
  obtain ⟨m, hm, hsees⟩ := exists_view hlong vertical
  have hahead (half : Point2 ℝ) : ahead half (vertical : Point3 ℝ) vertical = ⟨0, 0, 1⟩ := by
    rw [ahead, hsteep, if_pos Scalar.epsilon_pos, if_neg] <;>
      norm_num [dot_eq, vertical]
  have hcenter := hsees.apply_center hlong
  rw [hlength, htoward, hahead] at hcenter
  have hplace : m.apply ⟨0, 0, 3, 1⟩ = ⟨0, 0, 3, 1⟩ := by
    refine hcenter.trans ?_
    norm_num [withW]
  refine ⟨hlength, m, hm, hplace, ?_⟩
  rw [hplace]
  norm_num

/-! ## Rigid motions -/

section Circular

variable [Trig.IsCircular K]

/-- Whatever half a turn is. -/
theorem isRigid_axisTurn (axis : Axis) (degrees : K) :
    (turn (unit axis) (Angle.unit degrees)).IsRigid := by
  have hunit : dot (unit axis : Point3 K) (unit axis) = 1 := by
    rw [← VectorOps.length_mul_length, VectorOps.length_unit, one_mul]
  exact isRigid_turn hunit (Angle.dot_unit degrees)

private theorem isRigid_of_placement (h : placement eye center up = .ok m) : m.IsRigid := by
  have hlong := not_short_of_placement h
  have hf := forward_eq_ok hlong
  have hunit : dot (eye.toward center) (eye.toward center) = 1 := VectorOps.dot_div_length hlong
  generalize eye.toward center = f at hf hunit
  by_cases hsteep : VectorOps.length (up.cross f) < Scalar.epsilon
  · obtain rfl := Except.ok.inj ((placement_of_steep hf hsteep).symm.trans h)
    have hidentity : (identity : Matrix4 K).IsRigid := isRigid_axes noShift
    split
    · exact (isRigid_axisTurn .x _).shiftedTo eye
    · exact hidentity.shiftedTo eye
  · obtain rfl := Except.ok.inj ((placement_of_tilted hf hsteep).symm.trans h)
    have hs : dot (up.across f) (up.across f) = 1 := VectorOps.dot_div_length hsteep
    have hfs := dot_across_right up f
    have hcolumns := isRigid_ofColumns hs (dot_cross_cross_self hunit hs hfs)
      (dot_cross_self_right f (up.across f)) eye
    -- the product of the first two columns comes to `f` again
    rwa [cross_cross_eq_self hs ((dot_comm _ _).trans hfs)] at hcolumns

private theorem isRigid_of_view (h : view eye center up = .ok m) : m.IsRigid := by
  have hlong := not_short_of_view h
  have hf := forward_eq_ok hlong
  have hunit : dot (eye.toward center) (eye.toward center) = 1 := VectorOps.dot_div_length hlong
  generalize eye.toward center = f at hf hunit
  by_cases hsteep : VectorOps.length (f.cross up) < Scalar.epsilon
  · obtain rfl := Except.ok.inj ((view_of_steep hf hsteep).symm.trans h)
    have hshift : (shift (-eye)).IsRigid := isRigid_axes (-eye)
    split
    · exact (isRigid_axisTurn .x _).mul hshift
    · exact hshift
  · obtain rfl := Except.ok.inj ((view_of_tilted hf hsteep).symm.trans h)
    have hs : dot (f.across up) (f.across up) = 1 := VectorOps.dot_div_length hsteep
    have hsf : dot (f.across up) f = 0 := (dot_comm _ _).trans (dot_across_left f up)
    have hrows := isRigid_ofBlockRows hs (dot_cross_cross_self hs hunit hsf)
      (dot_cross_self_left (f.across up) f)
      ⟨-dot (f.across up) eye, -dot ((f.across up).cross f) eye, dot f eye⟩
    -- the product of the first two rows comes to `f` reversed
    rwa [cross_cross_eq_neg hs hsf] at hrows

/-- **Placements and views are rigid motions**, whatever the upward direction. The placement brings
the origin to the eye and the view brings the eye to the origin. Off the upward direction, the local
vertical of the placement points ahead, and the view turns what is ahead to the negative local
vertical. -/
theorem isRigid_placement_view (eye center up : Point3 K) :
    (∀ m, placement eye center up = .ok m → m.IsRigid ∧ m.apply ⟨0, 0, 0, 1⟩ = eye.withW 1 ∧
      (Scalar.epsilon ≤ VectorOps.length (up.cross (eye.toward center)) →
        m.applyDirection ⟨0, 0, 1⟩ = eye.toward center)) ∧
    ∀ m, view eye center up = .ok m → m.IsRigid ∧ m.apply (eye.withW 1) = ⟨0, 0, 0, 1⟩ ∧
      (Scalar.epsilon ≤ VectorOps.length (up.cross (eye.toward center)) →
        m.applyDirection (eye.toward center) = ⟨0, 0, -1⟩) := by
  refine ⟨fun m hm ↦ ⟨isRigid_of_placement hm, apply_origin_of_placement hm,
    applyDirection_of_placement hm⟩, fun m hm ↦ ⟨isRigid_of_view hm, ?_⟩⟩
  obtain ⟨n, hn, hsees⟩ := exists_view (not_short_of_view hm) up
  obtain rfl := Except.ok.inj (hn.symm.trans hm)
  refine ⟨hsees.apply_eye, fun htilted ↦ ?_⟩
  rw [length_cross_comm] at htilted
  rw [hsees.applyDirection, ahead, if_neg htilted.not_gt]

end Circular

/-- Along the first axis, with a long and oblique upward direction. -/
theorem isRigid_placement_view_oblique :
    Scalar.epsilon ≤ VectorOps.length ((⟨1, 0, 2⟩ : Point3 ℝ).cross ⟨1, 0, 0⟩) ∧ ∃ m n,
      placement (⟨1, 2, 3⟩ : Point3 ℝ) ⟨5, 2, 3⟩ ⟨1, 0, 2⟩ = .ok m ∧
      view (⟨1, 2, 3⟩ : Point3 ℝ) ⟨5, 2, 3⟩ ⟨1, 0, 2⟩ = .ok n ∧
      m.IsRigid ∧ m.apply ⟨0, 0, 0, 1⟩ = ⟨1, 2, 3, 1⟩ ∧ m.applyDirection ⟨0, 0, 1⟩ = ⟨1, 0, 0⟩ ∧
      n.IsRigid ∧ n.apply ⟨1, 2, 3, 1⟩ = ⟨0, 0, 0, 1⟩ ∧
      n.applyDirection ⟨1, 0, 0⟩ = ⟨0, 0, -1⟩ := by
  have hlength : VectorOps.length ((⟨5, 2, 3⟩ : Point3 ℝ) - ⟨1, 2, 3⟩) = 4 :=
    Trig.sqrt_eq (by norm_num) (by norm_num [VectorOps.squaredLength, dot_eq])
  have hlong : ¬VectorOps.length ((⟨5, 2, 3⟩ : Point3 ℝ) - ⟨1, 2, 3⟩) < Scalar.epsilon := by
    rw [hlength]
    norm_num [Scalar.epsilon]
  have htoward : (⟨1, 2, 3⟩ : Point3 ℝ).toward ⟨5, 2, 3⟩ = ⟨1, 0, 0⟩ := by
    rw [toward, hlength, ext_iff']
    norm_num
  have hcross : VectorOps.length ((⟨1, 0, 2⟩ : Point3 ℝ).cross ⟨1, 0, 0⟩) = 2 :=
    Trig.sqrt_eq zero_le_two (by norm_num [VectorOps.squaredLength, dot_eq])
  have htilted : Scalar.epsilon ≤ VectorOps.length ((⟨1, 0, 2⟩ : Point3 ℝ).cross ⟨1, 0, 0⟩) := by
    rw [hcross]
    norm_num [Scalar.epsilon]
  have hforward := forward_eq_ok hlong
  rw [htoward] at hforward
  obtain ⟨n, hn, -⟩ := exists_view hlong ⟨1, 0, 2⟩
  obtain ⟨hplacement, hview⟩ := isRigid_placement_view (⟨1, 2, 3⟩ : Point3 ℝ) ⟨5, 2, 3⟩ ⟨1, 0, 2⟩
  rw [htoward] at hplacement hview
  have hm := placement_of_tilted hforward htilted.not_gt
  obtain ⟨hrigid, horigin, hahead⟩ := hplacement _ hm
  obtain ⟨hrigid', heye, hahead'⟩ := hview n hn
  exact ⟨htilted, _, n, hm, hn, hrigid, horigin, hahead htilted, hrigid', heye, hahead' htilted⟩

end Matrix4

end SolidModel
