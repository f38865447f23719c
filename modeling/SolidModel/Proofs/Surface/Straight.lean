import Mathlib
import SolidModel.Proofs.EarClipping.Area
import SolidModel.Proofs.Plane.QuarterTurn
import SolidModel.Proofs.Space.Frames
import SolidModel.Proofs.Surface.Prism
import SolidModel.Proofs.Surface.Sweep

/-!
# A straight sweep is a prism

A prism lifts its profile, a loft joins it to itself higher up, and a sweep straight up places it
at either end of its path by a frame and lays it down again to cap it. Upward the frame is not
turned, so the rings are the lifted profile, and laid down along the path they are the profile. All
three then cut the same caps, and they are refused together. They are not the same surface to the
last face, since a sweep makes its second cap behind the wall.

No angle but zero is turned by, and no roots are taken but those of squares. Only these are asked
to be exact.
-/

namespace SolidModel

open Outcome

variable {K : Type} [Field K] [LinearOrder K] [FloorRing K]
variable {height : K}

/-- The way straight up from the origin. -/
def upward (height : K) : List (Point3 K) := [⟨0, 0, 0⟩, ⟨0, 0, height⟩]

namespace Polyhedron

variable {profile : List (Point2 K)}

/-! ## Caps of one profile -/

/-- Both caps of a prism or loft between equal profiles are cut in one way. -/
theorem capped_self {cut : Triangulation} (hcut : Triangulation.ofLoop profile = .ok cut)
    (procedure : Procedure K) : capped profile profile height procedure = .ok {
      value := {
        points := Polyline.atHeight profile 0 ++ Polyline.atHeight profile height
        faces := prismFaces profile.length cut cut
        procedure := some procedure }
      notices := cut.notices ++ cut.notices } := by
  rw [capped, hcut, Scalar.zero_eq]
  rfl

private theorem perm_prismFaces (n : ℕ) (bottom top : Triangulation) :
    (cap 0 bottom.reversed ++ walls 0 n n ++ cap n top).Perm (prismFaces n bottom top) := by
  rw [prismFaces, List.append_assoc, List.append_assoc]
  exact List.perm_append_comm.append_left _

/-! ## Rings along the vertical -/

private theorem applyDirection_upright (shift : Point3 K) (p : Point2 K) :
    (Matrix4.ofColumns (Matrix4.unit .x) (Matrix4.unit .y) (Matrix4.unit .z) shift).applyDirection
      (p.atHeight 0.0) = p.atHeight 0 := by
  rw [Matrix4.applyDirection_ofColumns]
  simp [Point3.ext_iff', Matrix4.unit, Point2.atHeight, Scalar.zero_eq, Scalar.one_eq]

private theorem projected_atHeight [IsStrictOrderedRing K] (hpos : 0 < height)
    (profile : List (Point2 K)) (z : K) :
    Polyline.projected (Polyline.atHeight profile z) ⟨0, 0, height⟩ = profile := by
  have hpoint (p : Point2 K) : Point3.projected ⟨0, 0, height⟩ (p.atHeight z) = p := by
    simp [Point3.projected, Point2.atHeight, Scalar.zero_eq, hpos.le, hpos.ne']
  rw [Polyline.projected, Polyline.atHeight, List.map_map]
  exact (List.map_congr_left fun p _ ↦ hpoint p).trans (List.map_id _)

section Exact

variable [Trig K] (hsqrt : ∀ x : K, 0 ≤ x → Trig.sqrt (x * x) = x) (hcos : Trig.cos (0 : K) = 1)
  (hsin : Trig.sin (0 : K) = 0) (hheight : Scalar.epsilon ≤ height)

include hcos hsin in
private theorem rotated_zero (profile : List (Point2 K)) :
    Polyline.rotated profile 0 = .ok profile := by
  have hpoint (p : Point2 K) : p.turned (Angle.unit 0) = p := by
    simp [Point2.turned, Angle.unit, hcos, hsin]
  rw [Polyline.rotated_eq_ok]
  exact congrArg Except.ok ((List.map_congr_left fun p _ ↦ hpoint p).trans (List.map_id _))

include hsqrt in
private theorem length_vertical {z : K} (hz : 0 ≤ z) :
    VectorOps.length (⟨0, 0, z⟩ : Point3 K) = z := by
  have hdot : VectorOps.squaredLength (⟨0, 0, z⟩ : Point3 K) = z * z := by
    simp [VectorOps.squaredLength, Point3.dot_eq]
  rw [VectorOps.length, hdot, hsqrt z hz]

variable [IsStrictOrderedRing K]

include hsqrt hheight

private theorem not_length_vertical_lt :
    ¬VectorOps.length (⟨0, 0, height⟩ : Point3 K) < Scalar.epsilon := by
  rw [length_vertical hsqrt (Scalar.epsilon_pos.le.trans hheight)]
  exact not_lt.mpr hheight

private theorem forward_upward :
    Matrix4.forward (⟨0, 0, 0⟩ : Point3 K) ⟨0, 0, height⟩ = .ok Matrix4.vertical := by
  have hsub : (⟨0, 0, height⟩ : Point3 K) - ⟨0, 0, 0⟩ = ⟨0, 0, height⟩ := sub_zero _
  have hne : height ≠ 0 := (Scalar.epsilon_pos.trans_le hheight).ne'
  have hdiv : (⟨0, 0, height⟩ : Point3 K) / height = Matrix4.vertical := by
    simp [Point3.ext_iff', Matrix4.vertical, Scalar.zero_eq, Scalar.one_eq, hne]
  rw [Matrix4.forward, hsub, if_neg (not_length_vertical_lt hsqrt hheight), VectorOps.normalized,
    if_neg (not_length_vertical_lt hsqrt hheight),
    length_vertical hsqrt (Scalar.epsilon_pos.le.trans hheight), hdiv]

private theorem placement_upward :
    Matrix4.placement (⟨0, 0, 0⟩ : Point3 K) ⟨0, 0, height⟩
    = .ok (Matrix4.ofColumns (Matrix4.unit .x) (Matrix4.unit .y) (Matrix4.unit .z) ⟨0, 0, 0⟩) := by
  have hcross : (Matrix4.vertical : Point3 K).cross Matrix4.vertical = ⟨0, 0, 0⟩ := by
    simp [Point3.ext_iff', Matrix4.vertical, Scalar.zero_eq, Scalar.one_eq]
  have hshort : VectorOps.length (⟨0, 0, 0⟩ : Point3 K) < Scalar.epsilon := by
    rw [length_vertical hsqrt le_rfl]
    exact Scalar.epsilon_pos
  have hdot : ¬VectorOps.dot (Matrix4.vertical : Point3 K) Matrix4.vertical < 0.0 := by
    simp [Point3.dot_eq, Matrix4.vertical, Scalar.zero_eq, Scalar.one_eq]
  simp only [Matrix4.placement, forward_upward hsqrt hheight, bind, Except.bind, hcross,
    if_pos hshort, if_neg hdot]
  rfl

private theorem checkPath_upward : checkPath (upward height) false = .ok
    () := by
  have hsub : (⟨0, 0, height⟩ : Point3 K) - ⟨0, 0, 0⟩ = ⟨0, 0, height⟩ := sub_zero _
  have hapart : coincide (⟨0, 0, 0⟩ : Point3 K) ⟨0, 0, height⟩ = false := by
    rw [coincide, hsub]
    exact decide_eq_false (not_length_vertical_lt hsqrt hheight)
  simp [checkPath, upward, List.findIdx?_cons, hapart, pure, Except.pure]

include hcos hsin

private theorem ring_upward (profile : List (Point2 K)) (z : K) :
    Station.ring ⟨⟨0, 0, 0⟩, ⟨0, 0, z⟩, ⟨0, 0, height⟩⟩ profile 0
      = .ok (Polyline.atHeight profile z) := by
  have hlift (p : Point2 K) : p.atHeight 0 + (⟨0, 0, z⟩ : Point3 K) = p.atHeight z := by
    simp [Point3.ext_iff', Point2.atHeight]
  rw [Station.ring, placement_upward hsqrt hheight, rotated_zero hcos hsin]
  refine congrArg Except.ok (List.map_congr_left fun p _ ↦ ?_)
  rw [← hlift p, ← applyDirection_upright ⟨0, 0, 0⟩ p]
  rfl

private theorem sweptRings_upward (profile : List (Point2 K)) :
    sweptRings profile (stations (upward height) false) 0
      = .ok [Polyline.atHeight profile 0, Polyline.atHeight profile height] := by
  have hstations : (stations (upward height) false).zipIdx
      = [(⟨⟨0, 0, 0⟩, ⟨0, 0, 0⟩, ⟨0, 0, height⟩⟩, 0),
        (⟨⟨0, 0, 0⟩, ⟨0, 0, height⟩, ⟨0, 0, height⟩⟩, 1)] := rfl
  rw [sweptRings, hstations]
  simp only [List.mapM_cons, List.mapM_nil, zero_mul, ring_upward hsqrt hcos hsin hheight]
  rfl

/-- A sweep straight up, in terms of the caps of its profile. -/
theorem sweep_upward (h3 : 3 ≤ profile.length) : sweep profile
    (upward height) = do
    let first ← Triangulation.ofLoop profile
    let last ← Triangulation.ofLoop profile
    return {
      value := {
        points := Polyline.atHeight profile 0 ++ Polyline.atHeight profile height
        faces := cap 0 first.reversed ++ walls 0 profile.length profile.length ++
          cap profile.length last
        procedure := some (.sweep 0.0 false) }
      notices := first.notices ++ last.notices } := by
  have hpos : 0 < height := Scalar.epsilon_pos.trans_le hheight
  have hstep : (0.0 : K) / Scalar.ofNat ((upward height).length - 1) = 0 := by
    rw [Scalar.zero_eq, zero_div]
  have hstart : startDirection (upward height) = ⟨0, 0, height⟩ := sub_zero _
  have hend : endDirection (upward height) = ⟨0, 0, height⟩ := sub_zero _
  have hplace : ((upward height).length - 1) * profile.length = profile.length := one_mul _
  have hstrips : ((List.range ((upward height).length - 1)).flatMap fun k ↦
      walls (k * profile.length) ((k + 1) * profile.length) profile.length)
      = walls 0 profile.length profile.length := by
    simp [upward]
  rw [sweep, if_neg (not_lt.mpr h3), checkPath_upward hsqrt hheight]
  simp only [Bool.false_eq_true, if_false, hstep, sweptRings_upward hsqrt hcos hsin hheight,
    hstart, hend, hplace, hstrips, Triangulation.ofPlanarLoop, bind, Except.bind, pure, Except.pure,
    List.headD_cons, List.getLastD_cons, List.getLastD_nil, projected_atHeight hpos,
    List.flatten_cons, List.flatten_nil, List.append_nil]

/-- **A straight sweep, a loft and a prism.** Whatever the profile, they are refused together, or
made together: then they have the same points, a prism and a loft have the same faces in order, and
a sweep has them in another order. -/
theorem straight_constructions (profile : List (Point2 K)) :
    (∃ kind ∈ [FaultKind.value, FaultKind.triangulation],
      RefusedAs kind (linearExtrude profile height) ∧ RefusedAs kind (loft profile profile height) ∧
        RefusedAs kind (sweep profile [⟨0, 0, 0⟩, ⟨0, 0, height⟩])) ∨
    ∃ prism lofted swept, linearExtrude profile height = .ok prism ∧
      loft profile profile height = .ok lofted ∧
      sweep profile [⟨0, 0, 0⟩, ⟨0, 0, height⟩] = .ok swept ∧
      lofted.value.points = prism.value.points ∧ swept.value.points = prism.value.points ∧
      lofted.value.faces = prism.value.faces ∧ swept.value.faces.Perm prism.value.faces := by
  by_cases h3 : 3 ≤ profile.length
  · have hpos : ¬height ≤ 0.0 := by
      rw [Scalar.zero_eq]
      exact (Scalar.epsilon_pos.trans_le hheight).not_ge
    have hprism : linearExtrude profile height
        = capped profile profile height (.extrusion height) := by
      rw [linearExtrude, linearExtrudeBy, if_neg (not_lt.mpr h3), if_neg hpos]
    have hloft : loft profile profile height = capped profile profile height (.loft height) := by
      rw [loft, if_neg (not_lt.mpr h3), if_neg (not_not.mpr rfl), if_neg hpos]
    have hsweep := sweep_upward hsqrt hcos hsin hheight h3
    rw [upward] at hsweep
    rw [hprism, hloft, hsweep]
    rcases EarClipping.refusedAs_or_eq_ok h3 with hrefused | ⟨cut, hcut⟩
    · exact .inl ⟨.triangulation, by simp, hrefused.bind _, hrefused.bind _, hrefused.bind _⟩
    · rw [capped_self hcut, capped_self hcut, hcut]
      exact .inr ⟨_, _, _, rfl, rfl, rfl, rfl, rfl, rfl, perm_prismFaces _ _ _⟩
  · have hshort : profile.length < 3 := not_le.mp h3
    exact .inl ⟨.value, by simp, ⟨.extrusionPoints profile.length, if_pos hshort, rfl⟩,
      ⟨.loftPoints profile.length, if_pos hshort, rfl⟩,
      ⟨.sweepPoints profile.length, if_pos hshort, rfl⟩⟩

end Exact

open scoped QuarterTurn in
/-- The square, raised by five in three ways. -/
theorem straight_constructions_square :
    ∃ prism lofted swept, linearExtrude square 5 = .ok prism ∧ loft square square 5 = .ok lofted ∧
      sweep square [⟨0, 0, 0⟩, ⟨0, 0, 5⟩] = .ok swept ∧
      lofted.value.points = prism.value.points ∧ swept.value.points = prism.value.points ∧
      lofted.value.faces = prism.value.faces ∧ swept.value.faces.Perm prism.value.faces := by
  have hheight : Scalar.epsilon ≤ (5 : ℚ) := by decide +kernel
  have hcos : Trig.cos (0 : ℚ) = 1 := by decide +kernel
  have hsin : Trig.sin (0 : ℚ) = 0 := by decide +kernel
  rcases straight_constructions (fun _ ↦ QuarterTurn.root_mul_self) hcos hsin hheight square with
    ⟨kind, -, ⟨fault, hrefused, -⟩, -⟩ | hmade
  · obtain ⟨made, hmade⟩ := exists_eq_ok_of_isSome
      (e := linearExtrude square 5) (by decide +kernel)
    cases hmade.symm.trans hrefused
  · exact hmade

end Polyhedron

end SolidModel
