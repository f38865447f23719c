import Mathlib
import SolidModel.Proofs.Plane.Angles
import SolidModel.Proofs.Space.Frames
import SolidModel.Proofs.Surface.RevolvedRings
import SolidModel.Proofs.Surface.Revolution
import SolidModel.Proofs.Surface.Volume

/-!
# The volume within a solid of revolution

Every wall of a revolution leads from a ring to the one a step further, and so all of them add the
same: what the two directions span, times the first moment of the profile about the axis. After a
full turn that is also true of the wall which leads back to the first ring. The caps of a partial
turn lie in planes through the axis, and so through the origin, and add nothing.
-/

namespace SolidModel

open VectorOps (dot)
open Polyline (edgeArea)

variable {K : Type} [Field K] [LinearOrder K] [FloorRing K]
variable {profile : List (Point2 K)}

/-- Six times the first moment of the area of a loop about the second axis. -/
def Polyline.sixfoldMoment (loop : List (Point2 K)) : K :=
  edgeSum (fun e ↦ (e.1.x + e.2.x) * edgeArea e.1 e.2) loop

namespace Polyhedron

variable [Trig K] {places : List (Point3 K)} {degrees step a b : K} {lower upper m : ℕ}

/-! ## Walls -/

private theorem quadProduct_revolvedPoint (a b : K) (p q : Point2 K) :
    quadProduct (revolvedPoint a p) (revolvedPoint b p) (revolvedPoint b q) (revolvedPoint a q)
      = (p.x + q.x) * edgeArea p q * edgeArea (Angle.unit a) (Angle.unit b) := by
  simp only [quadProduct, Point3.dot_eq, Point3.cross_x, Point3.cross_y, Point3.cross_z,
    revolvedPoint, edgeArea, Angle.unit]
  ring

/-- A wall between two rings adds what their directions span, times the moment of the profile. -/
theorem sum_spanned_wall (hlower : StandsAt places lower (revolvedRing profile a))
    (hupper : StandsAt places upper (revolvedRing profile b)) :
    ((revolvedWalls lower upper profile.length).map (Face.spanned places)).sum
      = Polyline.sixfoldMoment profile * edgeArea (Angle.unit a) (Angle.unit b) := by
  rw [sum_spanned_revolvedWalls hlower hupper]
  simp only [quadProduct_revolvedPoint]
  exact Polyline.edgeSum_mul_right _ _ _

theorem standsAt_turnedRings (profile : List (Point2 K)) (step : K) {k count : ℕ} (hk : k < count) :
    StandsAt (turnedRings profile step count).flatten (k * profile.length)
      (revolvedRing profile (step * k)) := by
  refine standsAt_flatten (fun ring hring ↦ ?_) ?_
  · obtain ⟨i, -, rfl⟩ := List.mem_map.mp hring
    exact List.length_map _
  · rw [turnedRings, List.getElem?_map, List.getElem?_range hk]
    rfl

/-! ## Caps -/

/-- A cap through the axis adds nothing. -/
private theorem sum_tripleProduct_revolvedRing [IsStrictOrderedRing K] [Trig.IsExact K]
    {loop : List (Point2 K)} {t : Triangulation} (h : Triangulation.ofLoop loop = .ok t)
    (hlength : loop.length = profile.length) (degrees : K) :
    (t.triangles.map fun s ↦ tripleProduct (s.points (revolvedRing profile degrees))).sum = 0 := by
  have hplane : ∀ p ∈ revolvedRing profile degrees, dot (turnedNormal degrees) p = 0 := by
    intro p hp
    obtain ⟨q, -, rfl⟩ := List.mem_map.mp hp
    simp only [Point3.dot_eq, turnedNormal, revolvedPoint]
    ring
  have hunit : dot (turnedNormal degrees) (turnedNormal degrees) = 1 := by
    refine Eq.trans ?_ (Angle.dot_unit degrees)
    simp only [Point3.dot_eq, Point2.dot_eq, turnedNormal, Angle.unit]
    ring
  have hcap := sum_tripleProduct_points h (by rw [hlength, revolvedRing, List.length_map]) hplane
  rwa [hunit, one_mul, zero_mul] at hcap

/-! ## Full and partial turns -/

variable {profile : List (Point2 ℝ)} {step degrees : ℝ} {segments : ℤ}

theorem sum_spanned_revolvedStrips (profile : List (Point2 ℝ)) (step : ℝ) (m : ℕ) :
    ((revolvedStrips profile.length (m + 1)).map
        (Face.spanned (turnedRings profile step (m + 1)).flatten)).sum
      = m * (Polyline.sixfoldMoment profile * Trig.sin step) := by
  have hwall : ∀ k ∈ List.range m,
      ((revolvedWalls (k * profile.length) ((k + 1) * profile.length) profile.length).map
          (Face.spanned (turnedRings profile step (m + 1)).flatten)).sum
        = Polyline.sixfoldMoment profile * Trig.sin step := by
    intro k hk
    have hlt : k < m := List.mem_range.mp hk
    have hstep : step * ((k + 1 : ℕ) : ℝ) - step * k = step := by
      push_cast
      ring
    rw [sum_spanned_wall (standsAt_turnedRings profile step (by omega : k < m + 1))
      (standsAt_turnedRings profile step (by omega : k + 1 < m + 1)), Angle.edgeArea_unit, hstep]
  rw [revolvedStrips, Nat.add_sub_cancel, List.map_flatMap, Polyline.sum_flatMap,
    List.map_congr_left hwall, List.map_const', List.length_range, List.sum_replicate,
    nsmul_eq_mul]

private theorem sum_spanned_lastWall (profile : List (Point2 ℝ)) {m : ℕ}
    (hfull : step * (m + 1) = 360) :
    ((revolvedWalls (m * profile.length) 0 profile.length).map
        (Face.spanned (turnedRings profile step (m + 1)).flatten)).sum
      = Polyline.sixfoldMoment profile * Trig.sin step := by
  have hfirst := standsAt_turnedRings profile step (Nat.succ_pos m)
  have hback : step * ((0 : ℕ) : ℝ) = 0 := by rw [Nat.cast_zero, mul_zero]
  have hstep : 360 - step * m = step := by linarith
  rw [Nat.zero_mul, hback] at hfirst
  rw [sum_spanned_wall (standsAt_turnedRings profile step (Nat.lt_succ_self m)) hfirst,
    ← Angle.unit_full, Angle.edgeArea_unit, hstep]

namespace Revolvable

/-- After a full turn there are as many walls as segments. -/
theorem volume_full (h : Revolvable profile 360 segments) {made : Noted (Polyhedron ℝ)}
    (hmade : rotateExtrude profile 360 segments = .ok made) :
    made.value.volume = (segments : ℝ) * Trig.sin (360 / (segments : ℝ))
      * (Polyline.sixfoldMoment profile / 6) := by
  obtain ⟨m, hm⟩ : ∃ m, segments.toNat = m + 1 :=
    Nat.exists_eq_add_of_le' (by have := h.three_le; omega)
  have hsegments : (segments : ℝ) = m + 1 := by
    rw [← Scalar.cast_toNat h.one_le, hm, Nat.cast_succ]
  have hfull := div_mul_toNat (360 : ℝ) h.one_le
  rw [hm, Nat.cast_succ] at hfull
  rw [h.rotateExtrude_full, Except.ok.injEq] at hmade
  rw [← hmade, volume_eq, hm, Nat.add_sub_cancel, List.map_append, List.sum_append,
    sum_spanned_revolvedStrips, sum_spanned_lastWall profile hfull, hsegments]
  ring

/-- After a part of a turn there are too, and the caps do not count. -/
theorem volume_part (h : Revolvable profile degrees segments) (hpart : degrees < 360)
    {made : Noted (Polyhedron ℝ)} (hmade : rotateExtrude profile degrees segments = .ok made) :
    made.value.volume = (segments : ℝ) * Trig.sin (degrees / (segments : ℝ))
      * (Polyline.sixfoldMoment profile / 6) := by
  rw [h.rotateExtrude_part hpart] at hmade
  simp only [Outcome.bind_eq_ok_iff, Outcome.pure_eq_ok_iff] at hmade
  obtain ⟨first, hfirst, last, hlast, rfl⟩ := hmade
  have hstretched : (Polyline.stretched profile (capStretch degrees)).length = profile.length :=
    List.length_map _
  have hring (a : ℝ) : (revolvedRing profile a).length = profile.length := List.length_map _
  have hfirstFills := EarClipping.fills_of_ofLoop hfirst
  have hlastFills := EarClipping.fills_of_ofLoop hlast
  rw [hstretched] at hlastFills
  have hstart := standsAt_turnedRings profile (degrees / (segments : ℝ))
    (Nat.succ_pos segments.toNat)
  have hend := standsAt_turnedRings profile (degrees / (segments : ℝ))
    (Nat.lt_succ_self segments.toNat)
  rw [Nat.zero_mul] at hstart
  rw [volume_eq, List.map_append, List.sum_append, sum_spanned_revolvedStrips, List.map_append,
    List.sum_append, sum_spanned_cap hstart ((hring _).symm ▸ hfirstFills),
    sum_spanned_cap_reversed hend ((hring _).symm ▸ hlastFills),
    sum_tripleProduct_revolvedRing hfirst rfl, sum_tripleProduct_revolvedRing hlast hstretched,
    Scalar.cast_toNat h.one_le]
  ring

end Revolvable

/-- **The volume within a solid of revolution is the first moment of its profile, times the sine of
a step for every segment**, whether the turn is full or a part of one. -/
theorem volume_of_rotateExtrude {made : Noted (Polyhedron ℝ)}
    (h : rotateExtrude profile degrees segments = .ok made) :
    (∀ f ∈ made.value.triangles, (f.points made.value.points).length = 3) ∧
      made.value.volume = (segments : ℝ) * Trig.sin (degrees / (segments : ℝ))
        * (Polyline.sixfoldMoment profile / 6) := by
  have hargs := revolvable_of_rotateExtrude h
  refine ⟨(closed_of_rotateExtrude h).length_points, ?_⟩
  rcases hargs.le_full.lt_or_eq with hpart | rfl
  · exact hargs.volume_part hpart h
  · exact hargs.volume_full h

/-- A clockwise triangle on the axis. -/
def wedge : List (Point2 ℝ) := [⟨0, 0⟩, ⟨0, 1⟩, ⟨1, 0⟩]

/-- A block over a square, and three quarters of a pyramid over one. -/
theorem volume_of_rotateExtrude_quarters :
    (∃ made, rotateExtrude tablet 360 4 = .ok made ∧ made.value.volume = -2) ∧
      ∃ made, rotateExtrude wedge 270 3 = .ok made ∧ made.value.volume = -1 / 2 := by
  have hε : (0 : ℝ) < Scalar.epsilon := Scalar.epsilon_pos
  have htablet : Revolvable tablet 360 4 := by
    refine ⟨by decide, by norm_num, le_rfl, by norm_num, ?_⟩
    simp only [tablet, List.forall_mem_cons]
    exact ⟨by linarith, by linarith, by linarith, by linarith, List.forall_mem_nil _⟩
  have hwedge : Revolvable wedge 270 3 := by
    refine ⟨by decide, by norm_num, by norm_num, by norm_num, ?_⟩
    simp only [wedge, List.forall_mem_cons]
    exact ⟨by linarith, by linarith, by linarith, List.forall_mem_nil _⟩
  have hfull := htablet.rotateExtrude_full
  obtain ⟨first, hfirst⟩ : ∃ t, Triangulation.ofLoop wedge = .ok t :=
    EarClipping.exists_ofLoop_triangle (by norm_num [Point2.doubleArea_eq])
  obtain ⟨last, hlast⟩ :
      ∃ t, Triangulation.ofLoop (Polyline.stretched wedge (capStretch 270)) = .ok t := by
    have hpos := capStretch_pos (270 : ℝ)
    refine EarClipping.exists_ofLoop_triangle ?_
    simp only [Point2.doubleArea_eq]
    linarith
  have hpart := hwedge.rotateExtrude_part (by norm_num)
  rw [hfirst, hlast] at hpart
  refine ⟨⟨_, hfull, ?_⟩, _, hpart, ?_⟩
  · have hquarter : (360 : ℝ) / (4 : ℤ) = 90 := by norm_num
    rw [(volume_of_rotateExtrude hfull).2, hquarter, Trig.sin_quarter]
    norm_num [tablet, Polyline.sixfoldMoment, Polyline.edgeSum_cons, edgeArea]
  · have hquarter : (270 : ℝ) / (3 : ℤ) = 90 := by norm_num
    rw [(volume_of_rotateExtrude hpart).2, hquarter, Trig.sin_quarter]
    norm_num [wedge, Polyline.sixfoldMoment, Polyline.edgeSum_cons, edgeArea]

end Polyhedron

end SolidModel
