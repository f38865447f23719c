import Mathlib
import SolidModel.Proofs.EarClipping.Area
import SolidModel.Proofs.Space.VectorArea

/-!
# Planar loops in space are triangulated clockwise

The clipper sees a planar loop laid into a coordinate plane, where areas are components of vector
areas. So whatever it returns adds up to the vector area of the loop, and seen from the side of
the normal no triangle runs counter-clockwise. A loop that runs counter-clockwise itself, by its
vector area, is refused.
-/

namespace SolidModel

open VectorOps (dot)

variable {K : Type} [Field K] [LinearOrder K] [FloorRing K]
variable {loop : List (Point3 K)} {n : Point3 K} {k : K} {t : Triangulation}

theorem Triangle.points_map {α β : Type} (f : α → β) (s : Triangle) (places : List α) :
    s.points (places.map f) = (s.points places).map f := by
  rw [Triangle.points, Triangle.points, List.map_filterMap]
  simp only [List.getElem?_map]

theorem Triangle.mem_of_mem_points {α : Type} {s : Triangle} {places : List α} {p : α}
    (hp : p ∈ s.points places) : p ∈ places := by
  obtain ⟨i, -, hi⟩ := List.mem_filterMap.mp hp
  exact List.mem_of_getElem? hi

namespace EarClipping

open Outcome

private theorem sum_vectorArea_points (h : Triangulation.ofPlanarLoop loop n = .ok t) :
    (t.triangles.map fun s ↦ Polyline.vectorArea (s.points loop)).sum
      = Polyline.vectorArea loop := by
  have hlen : loop.length = (Polyline.projected loop n).length := by
    rw [Polyline.projected, List.length_map]
  rw [Polyline.vectorArea, Polyline.doubledVectorArea,
    ← edgeSum_of_ofLoop Polyline.alternates_cross hlen h]
  refine Eq.trans ?_ (map_list_sum (Point3.mulHom (0.5 : K)) _).symm
  rw [List.map_map]
  rfl

private theorem dot_cross_points_nonpos [IsStrictOrderedRing K] (hn : n ≠ 0)
    (hplane : ∀ p ∈ loop, dot n p = k) (h : Triangulation.ofPlanarLoop loop n = .ok t) :
    ∀ s ∈ t.triangles, ∃ a b c, s.points loop = [a, b, c] ∧
      dot n ((b - a).cross (c - a)) ≤ 0 := by
  intro s hs
  obtain ⟨a', b', c', hpoints, harea⟩ := signedArea_points_nonpos h s hs
  rw [Polyline.projected, Triangle.points_map] at hpoints
  obtain ⟨a, b, c, habc⟩ : ∃ a b c, s.points loop = [a, b, c] :=
    List.length_eq_three.mp (by simpa using congrArg List.length hpoints)
  rw [← hpoints, habc] at harea
  have hcorners : ∀ p ∈ [a, b, c], dot n p = k := fun p hp ↦
    hplane p (Triangle.mem_of_mem_points (habc ▸ hp))
  refine ⟨a, b, c, habc, ?_⟩
  rw [← Polyline.doubledVectorArea_triangle, ← not_lt,
    ← Polyline.doubledArea_projected_pos_iff hn hcorners, ← Polyline.signedArea_pos_iff]
  exact not_lt.mpr harea

/-- **Planar loops are triangulated clockwise**, seen from the side of the normal: no triangle
runs the other way, their vector areas add up to that of the loop, and a loop whose vector area
is on the side of the normal is refused. -/
theorem vectorAreas_of_ofPlanarLoop [IsStrictOrderedRing K] (hn : n ≠ 0)
    (hplane : ∀ p ∈ loop, dot n p = k) :
    (∀ t, Triangulation.ofPlanarLoop loop n = .ok t →
      (∀ s ∈ t.triangles, ∃ a b c, s.points loop = [a, b, c] ∧
        dot n ((b - a).cross (c - a)) ≤ 0) ∧
      (t.triangles.map fun s ↦ Polyline.vectorArea (s.points loop)).sum
        = Polyline.vectorArea loop) ∧
    (0 < dot n (Polyline.vectorArea loop) →
      RefusedAs .triangulation (Triangulation.ofPlanarLoop loop n)) := by
  refine ⟨fun t h ↦ ⟨dot_cross_points_nonpos hn hplane h, sum_vectorArea_points h⟩, fun h ↦ ?_⟩
  refine refusedAs_of_signedArea_pos ?_
  rw [Polyline.vectorArea, Point3.dot_mul, Scalar.half_eq, mul_pos_iff_of_pos_right one_half_pos] at h
  exact Polyline.signedArea_pos_iff.mpr ((Polyline.doubledArea_projected_pos_iff hn hplane).mpr h)

/-- The notched loop on a slanted plane. -/
def slanted : List (Point3 ℚ) :=
  notched.map fun p ↦ ⟨p.x, p.y, 5 - 2 * p.x - 3 * p.y⟩

/-- Its normal, which is best aligned with the second axis. -/
def slantedNormal : Point3 ℚ := ⟨2, 3, 1⟩

/-- The slanted loop is triangulated seen from above, and refused seen from below. -/
theorem vectorAreas_of_ofPlanarLoop_slanted :
    Triangulation.ofPlanarLoop slanted slantedNormal = .ok notchedTriangles ∧
      (notchedTriangles.triangles.map fun s ↦ Polyline.vectorArea (s.points slanted)).sum
        = ⟨-20, -30, -10⟩ ∧
      RefusedAs .triangulation (Triangulation.ofPlanarLoop slanted (-slantedNormal)) := by
  have h : Triangulation.ofPlanarLoop slanted slantedNormal = .ok notchedTriangles :=
    Outcome.eq_ok_of_toOption (by decide +kernel)
  have habove : ∀ p ∈ slanted, dot slantedNormal p = 5 := by decide +kernel
  have hbelow : ∀ p ∈ slanted, dot (-slantedNormal) p = -5 := by decide +kernel
  have harea : Polyline.vectorArea slanted = ⟨-20, -30, -10⟩ := by decide +kernel
  refine ⟨h, ?_, ?_⟩
  · exact ((vectorAreas_of_ofPlanarLoop (by decide) habove).1 _ h).2.trans harea
  · exact (vectorAreas_of_ofPlanarLoop (by decide +kernel) hbelow).2 (by decide +kernel)

end EarClipping

end SolidModel
