import Mathlib
import SolidModel.Proofs.EarClipping.Fan
import SolidModel.Proofs.Profile.Clockwise
import SolidModel.Proofs.Surface.Prism

/-!
# Prisms over regular polygons

The doubled area of three points of a circle is a product of the sines of half the angles between
them. Points in the order of a circle are less than a full turn apart, so none of these sines is
zero, and all of them have the sign of the direction. A regular polygon is therefore in convex
position, however small it is and however many sides it has, and is triangulated. What is left to
refuse a cylinder are the checks of its arguments.
-/

namespace SolidModel

open Outcome
open VectorOps (dot)

namespace Profile

open Polyline (IsConvex)

variable {radius : ℝ} {segments : ℤ} {loop : List (Point2 ℝ)}

/-! ## Points of a circle -/

private theorem doubleArea_arcPoint (start : Point2 ℝ) (segments : ℤ) (i j k : ℕ) :
    Point2.doubleArea (arcPoint start 360 segments i) (arcPoint start 360 segments j)
        (arcPoint start 360 segments k)
      = -(4 * dot start start * (Trig.sin (((j : ℝ) - i) * (180 / segments))
          * Trig.sin (((k : ℝ) - j) * (180 / segments))
          * Trig.sin (((k : ℝ) - i) * (180 / segments)))) := by
  have hhalf (m n : ℕ) : ((n : ℝ) * (-360 / segments) - m * (-360 / segments)) / 2
      = -((n - m) * (180 / segments)) := by ring
  simp only [arcPoint, Point2.doubleArea_turned, Angle.doubleArea_unit, hhalf, Trig.sin_neg]
  ring

/-- Half the angle between two points of a circle is less than half a turn. -/
private theorem sin_half_pos {i j : ℕ} (hij : i < j) (hj : j < segments.toNat) :
    0 < Trig.sin (((j : ℝ) - i) * (180 / segments)) := by
  have hij : (0 : ℝ) < j - i := sub_pos.mpr (Nat.cast_lt.mpr hij)
  have hj : (j : ℝ) < segments := by exact_mod_cast Int.lt_toNat.mp hj
  have hi : (0 : ℝ) ≤ i := i.cast_nonneg
  have hsegments : (0 : ℝ) < segments := by linarith
  refine Trig.sin_pos (by positivity) ?_
  rw [mul_div_assoc', div_lt_iff₀ hsegments]
  linarith

/-- **The points of a circle are in convex position.** -/
theorem isConvex_arcPoints (hradius : 0 < radius) :
    IsConvex ((List.range segments.toNat).map (arcPoint ⟨radius, 0⟩ 360 segments)) := by
  refine List.triplewise_map.mpr (List.triplewise_iff_getElem.mpr fun i j k hij hjk hk ↦ ?_)
  rw [List.length_range] at hk
  simp only [List.getElem_range]
  have hdot : 0 < dot (⟨radius, 0⟩ : Point2 ℝ) ⟨radius, 0⟩ := by
    rw [Point2.dot_eq]
    positivity
  have h₁ := sin_half_pos hij (hjk.trans hk)
  have h₂ := sin_half_pos hjk hk
  have h₃ := sin_half_pos (hij.trans hjk) hk
  rw [doubleArea_arcPoint, neg_lt_zero]
  positivity

/-! ## Circles and circumscribed polygons -/

private theorem refusedAs_circle (h : radius ≤ 0 ∨ segments < 3) :
    RefusedAs .value (circle radius segments) := by
  rw [circle, Scalar.zero_eq]
  by_cases hradius : radius ≤ 0
  · rw [if_pos hradius]
    exact ⟨_, rfl, rfl⟩
  · refine .of_guard hradius ?_
    rw [if_pos (h.resolve_left hradius)]
    exact ⟨_, rfl, rfl⟩

theorem isConvex_of_circle (h : circle radius segments = .ok loop) :
    (loop.length : ℤ) = segments ∧ 3 ≤ loop.length ∧ IsConvex loop := by
  obtain ⟨hradius, hsegments⟩ := accepted_of_circle h
  rw [circle_eq_ok hradius hsegments] at h
  obtain rfl := Except.ok.inj h
  rw [List.length_map, List.length_range]
  exact ⟨Int.toNat_of_nonneg (by omega), by omega, isConvex_arcPoints hradius⟩

private theorem isConvex_of_circumscribedPolygon
    (h : circumscribedPolygon segments radius = .ok loop) : 3 ≤ loop.length ∧ IsConvex loop := by
  rw [circumscribedPolygon_eq (three_le_of_circumscribedPolygon h)] at h
  exact (isConvex_of_circle h).2

end Profile

namespace Polyhedron

/-! ## Prisms -/

theorem exists_linearExtrude_of_isConvex {K : Type} [Field K] [LinearOrder K]
    [IsStrictOrderedRing K] [FloorRing K] {profile : List (Point2 K)} {height : K}
    (h3 : 3 ≤ profile.length) (h : Polyline.IsConvex profile) (hheight : 0 < height) :
    ∃ made, linearExtrude profile height = .ok made := by
  obtain ⟨t, ht, -⟩ := EarClipping.ofLoop_of_isConvex h3 h
  have hheight : ¬height ≤ 0.0 := by rwa [Scalar.zero_eq, not_le]
  rw [linearExtrude, linearExtrudeBy, if_neg (not_lt.mpr h3), if_neg hheight]
  simp only [capped, ht]
  exact ⟨_, rfl⟩

variable {radius height : ℝ} {segments : ℤ}

private theorem refusedAs_cylinder (h : radius ≤ 0 ∨ height ≤ 0 ∨ segments < 3) :
    RefusedAs .value (cylinder radius height segments) := by
  by_cases hcircle : radius ≤ 0 ∨ segments < 3
  · exact (Profile.refusedAs_circle hcircle).bind _
  · rw [not_or, not_le, not_lt] at hcircle
    obtain ⟨hradius, hsegments⟩ := hcircle
    have hheight : height ≤ 0 := (h.resolve_left hradius.not_ge).resolve_right hsegments.not_gt
    obtain ⟨profile, hprofile⟩ :=
      (Profile.makesClockwise_circle radius segments).accepts_iff.mpr ⟨hradius, hsegments⟩
    have h3 := (Profile.isConvex_of_circle hprofile).2.1
    refine .of_eq_ok hprofile (.bind (.of_guard (not_lt.mpr h3) ?_) _)
    rw [Scalar.zero_eq, if_pos hheight]
    exact ⟨_, rfl, rfl⟩

theorem exists_cylinder (h : ¬(radius ≤ 0 ∨ height ≤ 0 ∨ segments < 3)) :
    ∃ made, cylinder radius height segments = .ok made ∧
      (made.value.points.length : ℤ) = 2 * segments := by
  rw [not_or, not_or, not_le, not_le, not_lt] at h
  obtain ⟨hradius, hheight, hsegments⟩ := h
  obtain ⟨profile, hprofile⟩ :=
    (Profile.makesClockwise_circle radius segments).accepts_iff.mpr ⟨hradius, hsegments⟩
  obtain ⟨hlength, h3, hconvex⟩ := Profile.isConvex_of_circle hprofile
  obtain ⟨made, hmade⟩ := exists_linearExtrude_of_isConvex h3 hconvex hheight
  have hcylinder : cylinder radius height segments = .ok { made with
      value := { made.value with procedure := some (.cylinder radius height segments) } } := by
    simp only [cylinder, bind_eq_ok_iff, pure_eq_ok_iff]
    exact ⟨profile, hprofile, made, hmade, rfl⟩
  refine ⟨_, hcylinder, ?_⟩
  rw [(isPrism_of_linearExtrude hmade).length_points, Nat.cast_mul, hlength]
  rfl

/-- **Regular polygons are never refused for their shape.** A cylinder is refused exactly if one of
its measures is, and otherwise has two points for each segment. Circumscribed polygons of any
number of sides are extruded to any height, and the polygons themselves are triangulated whenever
they are made. -/
theorem regular_extrusions :
    (∀ (radius height : ℝ) (segments : ℤ),
      (RefusedAs .value (cylinder radius height segments)
        ↔ radius ≤ 0 ∨ height ≤ 0 ∨ segments < 3) ∧
      (¬(radius ≤ 0 ∨ height ≤ 0 ∨ segments < 3) →
        ∃ made, cylinder radius height segments = .ok made ∧
          (made.value.points.length : ℤ) = 2 * segments)) ∧
    (∀ (sides : ℤ) (radius height : ℝ), 3 ≤ sides → 0 < radius → 0 < height →
      ∃ profile made, Profile.circumscribedPolygon sides radius = .ok profile ∧
        linearExtrude profile height = .ok made) ∧
    ∀ (sides : ℤ) (radius : ℝ) (profile : List (Point2 ℝ)),
      Profile.inscribedPolygon sides radius = .ok profile ∨
        Profile.circumscribedPolygon sides radius = .ok profile →
      ∃ t, Triangulation.ofLoop profile = .ok t := by
  refine ⟨fun radius height segments ↦ ⟨⟨fun hrefused ↦ ?_, refusedAs_cylinder⟩, exists_cylinder⟩,
    ?_, ?_⟩
  · by_contra h
    obtain ⟨made, hmade, -⟩ := exists_cylinder h
    exact hrefused.ne_ok hmade
  · intro sides radius height hsides hradius hheight
    obtain ⟨profile, hprofile⟩ :=
      (Profile.makesClockwise_circumscribedPolygon sides radius).accepts_iff.mpr ⟨hsides, hradius⟩
    obtain ⟨h3, hconvex⟩ := Profile.isConvex_of_circumscribedPolygon hprofile
    obtain ⟨made, hmade⟩ := exists_linearExtrude_of_isConvex h3 hconvex hheight
    exact ⟨profile, made, hprofile, hmade⟩
  · intro sides radius profile h
    obtain ⟨h3, hconvex⟩ : 3 ≤ profile.length ∧ Polyline.IsConvex profile :=
      h.elim (fun h ↦ (Profile.isConvex_of_circle h).2) Profile.isConvex_of_circumscribedPolygon
    obtain ⟨t, ht, -⟩ := EarClipping.ofLoop_of_isConvex h3 hconvex
    exact ⟨t, ht⟩

/-- Tiny triangles, whose areas are far below the tolerance. -/
theorem regular_extrusions_tiny :
    (∃ made, cylinder (1 / 10000 : ℝ) 1 3 = .ok made ∧ (made.value.points.length : ℤ) = 6) ∧
    RefusedAs .value (cylinder (1 / 10000 : ℝ) 1 2) ∧
    ∃ profile made, Profile.circumscribedPolygon 3 (1 / 10000 : ℝ) = .ok profile ∧
      linearExtrude profile 1 = .ok made ∧ ∃ t, Triangulation.ofLoop profile = .ok t := by
  obtain ⟨hcylinder, hpolygon, htriangles⟩ := regular_extrusions
  obtain ⟨profile, made, hprofile, hmade⟩ :=
    hpolygon 3 (1 / 10000) 1 le_rfl (by norm_num) one_pos
  refine ⟨?_, (hcylinder (1 / 10000) 1 2).1.mpr (by norm_num), profile, made, hprofile, hmade,
    htriangles 3 (1 / 10000) profile (.inr hprofile)⟩
  exact (hcylinder (1 / 10000) 1 3).2 (by norm_num)

end Polyhedron

end SolidModel
