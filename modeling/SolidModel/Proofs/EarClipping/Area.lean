import Mathlib
import SolidModel.Polyhedron.Extrusion
import SolidModel.Proofs.EarClipping.Success
import SolidModel.Proofs.EarClipping.Sums
import SolidModel.Proofs.Outcome
import SolidModel.Proofs.Plane.Area

/-!
# The area of what is triangulated

The direction of a loop is judged at its leftmost vertex alone, which says little about a loop
that crosses itself. Still no loop of positive area gets through, whatever its shape: no ear turns
counter-clockwise, so each has an area of at most zero, and together they have the area of the
loop. A loop of positive area is thus refused, at the first look or for want of ears.

An outline around holes is not clipped but has its area checked, so it is refused as well.
-/

namespace SolidModel

variable {K : Type} [Field K] [LinearOrder K] [FloorRing K]
variable {loop : List (Point2 K)} {t : Triangulation}

namespace Polyline

variable [IsStrictOrderedRing K]

theorem signedArea_pos_iff :
    0 < signedArea loop ↔ 0 < doubledArea loop := by
  rw [signedArea_eq, div_pos_iff_of_pos_right two_pos]

theorem three_le_length (h : 0 < signedArea loop) : 3 ≤ loop.length := by
  rw [signedArea_pos_iff, doubledArea] at h
  rcases loop with _ | ⟨a, _ | ⟨b, _ | ⟨c, rest⟩⟩⟩
  · exact absurd h (lt_irrefl _)
  · rw [edgeSum_cons] at h
    simp [edgeArea] at h
  · rw [edgeSum_pair alternates_edgeArea] at h
    exact absurd h (lt_irrefl _)
  · simp

end Polyline

namespace EarClipping

open Outcome

/-! ## The triangles -/

theorem signedArea_points_nonpos [IsStrictOrderedRing K] (h : Triangulation.ofLoop loop = .ok t) :
    ∀ s ∈ t.triangles, ∃ a b c, s.points loop = [a, b, c] ∧
      Polyline.signedArea [a, b, c] ≤ 0 := by
  obtain ⟨-, ears, hclip, rfl⟩ := clipping_of_ofLoop h
  intro s hs
  obtain ⟨c, hc, rfl⟩ := List.mem_map.mp hs
  obtain ⟨hb, ht, ha⟩ := hclip.mem_ring hc
  refine ⟨c.before.point, c.tip.point, c.after.point,
    points_triangle_numbered (by simp [vertices, hb, ht, ha]), ?_⟩
  rw [Polyline.signedArea_eq, Polyline.doubledArea_triangle]
  linarith [hclip.isEar c hc]

private theorem sum_signedArea_points (h : Triangulation.ofLoop loop = .ok t) :
    (t.triangles.map fun s ↦ Polyline.signedArea (s.points loop)).sum
      = Polyline.signedArea loop := by
  have hsum := edgeSum_of_ofLoop Polyline.alternates_edgeArea rfl h
  calc (t.triangles.map fun s ↦ Polyline.signedArea (s.points loop)).sum
      = (t.triangles.map fun s ↦ Polyline.doubledArea (s.points loop)).sum / 2 := by
        simp only [Polyline.signedArea_eq, div_eq_mul_inv, List.sum_map_mul_right]
    _ = Polyline.signedArea loop := by
        rw [Polyline.signedArea_eq]
        exact congrArg (· / 2) hsum

/-! ## Refusals -/

theorem signedArea_nonpos_of_ofLoop [IsStrictOrderedRing K]
    (h : Triangulation.ofLoop loop = .ok t) : Polyline.signedArea loop ≤ 0 := by
  have hle := List.sum_le_card_nsmul (t.triangles.map fun s ↦ Polyline.signedArea (s.points loop)) 0
  rw [sum_signedArea_points h, nsmul_zero] at hle
  refine hle fun x hx ↦ ?_
  obtain ⟨s, hs, rfl⟩ := List.mem_map.mp hx
  obtain ⟨a, b, c, hpoints, harea⟩ := signedArea_points_nonpos h s hs
  rwa [hpoints]

/-- Three points or more are refused only because of their shape. -/
theorem refusedAs_or_eq_ok (h3 : 3 ≤ loop.length) :
    RefusedAs .triangulation (Triangulation.ofLoop loop) ∨
      ∃ t, Triangulation.ofLoop loop = .ok t := by
  have hring : 3 ≤ (Vertex.numbered loop).length := by rwa [Vertex.length_numbered]
  obtain ⟨first, others, -, hears⟩ := ears_eq hring
  cases hfound : ears (Vertex.numbered loop) with
  | ok found => exact .inr ⟨ofEars found, by rw [Triangulation.ofLoop, hfound]; rfl⟩
  | error fault =>
    refine .inl ⟨fault, ofLoop_eq_error hfound, ?_⟩
    rw [hears] at hfound
    split at hfound
    · cases hfound
      rfl
    · obtain ⟨left, rfl⟩ := exists_noEar_of_clip hfound
      rfl

theorem exists_ofLoop_triangle {a b c : Point2 K} (h : Point2.doubleArea a b c ≤ 0) :
    ∃ t, Triangulation.ofLoop [a, b, c] = .ok t := by
  have hcorners : Vertex.corners (Vertex.numbered [a, b, c])
      = [⟨⟨2, c⟩, ⟨0, a⟩, ⟨1, b⟩⟩, ⟨⟨0, a⟩, ⟨1, b⟩, ⟨2, c⟩⟩, ⟨⟨1, b⟩, ⟨2, c⟩, ⟨0, a⟩⟩] := rfl
  have hturns : ∀ d ∈ Vertex.corners (Vertex.numbered [a, b, c]), ¬d.isReflex = true := by
    rw [hcorners]
    simp only [List.forall_mem_cons, Corner.isReflex_iff, not_lt]
    refine ⟨?_, h, ?_, List.forall_mem_nil _⟩
    · rwa [Point2.doubleArea_rotate]
    · rwa [← Point2.doubleArea_rotate]
  have hlength : 3 ≤ (Vertex.numbered [a, b, c]).length := by
    rw [Vertex.length_numbered]
    rfl
  have hear : (⟨⟨2, c⟩, ⟨0, a⟩, ⟨1, b⟩⟩ : Corner K).isEar (Vertex.numbered [a, b, c]) = true := by
    refine Corner.isEar_iff.mpr ⟨?_, .inr rfl⟩
    rwa [Point2.doubleArea_rotate]
  have hclip : clip 1 (Vertex.numbered [a, b, c]) = .ok [⟨⟨2, c⟩, ⟨0, a⟩, ⟨1, b⟩⟩] := by
    simp only [clip, hcorners, List.find?_cons_of_pos hear]
    rfl
  refine ⟨ofEars [⟨⟨2, c⟩, ⟨0, a⟩, ⟨1, b⟩⟩], ?_⟩
  rw [Triangulation.ofLoop, ears_eq_clip hlength hturns]
  exact congrArg (Except.map ofEars) hclip

theorem refusedAs_of_signedArea_pos [IsStrictOrderedRing K] (h : 0 < Polyline.signedArea loop) :
    RefusedAs .triangulation (Triangulation.ofLoop loop) := by
  rcases refusedAs_or_eq_ok (Polyline.three_le_length h) with hrefused | ⟨t, ht⟩
  · exact hrefused
  · exact absurd (signedArea_nonpos_of_ofLoop ht) h.not_ge

end EarClipping

namespace Polyhedron

open Outcome

variable {outline : List (Point2 K)} {height : K} {holes : List (List (Point2 K))}

private theorem holeLoop_eq_ok {hole : List (Point2 K)} (h : 3 ≤ hole.length) :
    holeLoop hole = .ok (if Polyline.signedArea hole < 0.0 then hole.reverse else hole) := by
  rw [holeLoop, if_neg (not_lt.mpr h)]
  split <;> rfl

variable [IsStrictOrderedRing K]

private theorem refusedAs_triangulate (cut : RegionCutter K) (h : 0 < Polyline.signedArea outline)
    (hholes : ∀ hole ∈ holes, 3 ≤ hole.length) :
    RefusedAs .triangulation (Region.triangulate cut outline holes) := by
  have hcheck : Region.checkLoops (outline :: holes) = .ok () := by
    refine forM_eq_ok_iff.mpr fun loop hloop ↦ if_neg (not_lt.mpr ?_)
    rcases List.mem_cons.mp hloop with rfl | hloop
    · exact Polyline.three_le_length h
    · exact hholes loop hloop
  refine .of_eq_ok hcheck ?_
  rw [if_pos (by rwa [Scalar.zero_eq])]
  exact ⟨.notClockwise, rfl, rfl⟩

theorem refusedAs_linearExtrudeBy (cut : RegionCutter K) (h : 0 < Polyline.signedArea outline)
    (hheight : 0 < height) (hholes : ∀ hole ∈ holes, 3 ≤ hole.length) :
    RefusedAs .triangulation (linearExtrudeBy cut outline height holes) := by
  refine .of_guard (not_lt.mpr (Polyline.three_le_length h))
    (.of_guard (by rwa [Scalar.zero_eq, not_le]) ?_)
  cases holes with
  | nil => exact (EarClipping.refusedAs_of_signedArea_pos h).bind _
  | cons hole rest =>
    have hloops := mapM_eq_ok (f := holeLoop) fun hole hhole ↦ holeLoop_eq_ok (hholes hole hhole)
    refine RefusedAs.bind (.of_eq_ok hloops (.bind (refusedAs_triangulate cut h ?_) _)) _
    intro loop hloop
    obtain ⟨hole, hhole, rfl⟩ := List.mem_map.mp hloop
    split
    · rw [List.length_reverse]
      exact hholes hole hhole
    · exact hholes hole hhole

end Polyhedron

namespace EarClipping

open Outcome Polyhedron

/-- **Triangles have area at most zero and add up to the loop.** So no loop of positive area is
triangulated, whatever its shape, and none is extruded, with holes or without. -/
theorem areas_of_ofLoop [IsStrictOrderedRing K] (loop : List (Point2 K)) :
    (∀ t, Triangulation.ofLoop loop = .ok t →
      (∀ s ∈ t.triangles, ∃ a b c, s.points loop = [a, b, c] ∧
        Polyline.signedArea [a, b, c] ≤ 0) ∧
      (t.triangles.map fun s ↦ Polyline.signedArea (s.points loop)).sum
        = Polyline.signedArea loop) ∧
    (0 < Polyline.signedArea loop →
      RefusedAs .triangulation (Triangulation.ofLoop loop) ∧
      ∀ (cut : RegionCutter K) (height : K) (holes : List (List (Point2 K))), 0 < height →
        (∀ hole ∈ holes, 3 ≤ hole.length) →
        RefusedAs .triangulation (linearExtrudeBy cut loop height holes)) := by
  refine ⟨fun t h ↦ ⟨signedArea_points_nonpos h, sum_signedArea_points h⟩, fun h ↦ ?_⟩
  exact ⟨refusedAs_of_signedArea_pos h,
    fun cut height holes hheight hholes ↦ refusedAs_linearExtrudeBy cut h hheight hholes⟩

/-- A loop that crosses itself, with more area on the counter-clockwise side. Its leftmost vertex
does turn clockwise. -/
def crossed : List (Point2 ℚ) := [⟨0, 0⟩, ⟨1, 1⟩, ⟨4, -2⟩, ⟨4, 4⟩, ⟨1, 0⟩]

/-- The notched loop is cut up, and the crossed one is refused, also as an outline. -/
theorem areas_of_ofLoop_notched :
    (notchedTriangles.triangles.map fun s ↦ Polyline.signedArea (s.points notched)).sum = -10 ∧
      RefusedAs .triangulation (Triangulation.ofLoop crossed) ∧
      RefusedAs .triangulation (linearExtrude crossed 1 [[⟨2, 0⟩, ⟨3, 0⟩, ⟨3, 1⟩]]) := by
  have h : Triangulation.ofLoop notched = .ok notchedTriangles :=
    Outcome.eq_ok_of_toOption (by decide +kernel)
  have harea : Polyline.signedArea notched = -10 := by decide +kernel
  obtain ⟨hrefused, hextrude⟩ := (areas_of_ofLoop crossed).2 (by decide +kernel)
  exact ⟨(((areas_of_ofLoop notched).1 _ h).2).trans harea, hrefused,
    hextrude _ 1 _ (by decide) (by decide)⟩

end EarClipping

end SolidModel
