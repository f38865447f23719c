import Mathlib
import SolidModel.Profile
import SolidModel.Proofs.Space.Turns

/-!
# What the generators of profiles make

Over exact numbers no turn is refused, so a generator fails only at the checks of its arguments.
For each generator it is stated which arguments pass, and which points it then makes, each of them
from its number alone.
-/

namespace SolidModel

namespace Profile

open Outcome

variable {K : Type} [Field K] [LinearOrder K] [FloorRing K] [Trig K]
variable {start : Point2 K} {degrees radius width height : K} {segments count : ℤ}
variable {loop : List (Point2 K)}

/-! ## Arcs and circles -/

/-- The point that is passed after so many of the steps of an arc. -/
def arcPoint (start : Point2 K) (degrees : K) (segments : ℤ) (i : ℕ) : Point2 K :=
  start.turned (Angle.unit (i * (-degrees / segments)))

private theorem mapM_rotated (start : Point2 K) (degrees : K) (segments : ℤ) (count : ℕ) :
    ((List.range count).mapM fun i ↦
        start.rotated (Scalar.ofNat i * (-degrees / Scalar.ofInt segments)))
      = .ok ((List.range count).map (arcPoint start degrees segments)) := by
  refine mapM_eq_ok fun i _ ↦ ?_
  rw [Point2.rotated_eq_ok, Scalar.ofNat_eq, Scalar.ofInt_eq, arcPoint]

private theorem arc_full_eq_ok [IsStrictOrderedRing K] (h : 1 ≤ segments) :
    arc start 360.0 segments
      = .ok ((List.range segments.toNat).map (arcPoint start 360 segments)) := by
  have hdegrees : (0.0 : K) < 360.0 ∧ (360.0 : K) ≤ 360.0 := by norm_num
  rw [arc, if_neg (not_not.mpr hdegrees), if_neg (not_lt.mpr h)]
  simp only [beq_self_eq_true, if_true]
  rw [mapM_rotated, Scalar.fullTurn_eq]

private theorem arc_quarter_eq_ok [IsStrictOrderedRing K] (h : 1 ≤ segments) :
    arc start 90.0 segments
      = .ok ((List.range (segments.toNat + 1)).map (arcPoint start 90 segments)) := by
  have hdegrees : (0.0 : K) < 90.0 ∧ (90.0 : K) ≤ 360.0 := by norm_num
  have hpart : ((90.0 : K) == 360.0) = false := beq_eq_false_iff_ne.mpr (by norm_num)
  have hquarter : (90.0 : K) = 90 := by norm_num
  rw [arc, if_neg (not_not.mpr hdegrees), if_neg (not_lt.mpr h)]
  simp only [hpart, Bool.false_eq_true, if_false]
  rw [mapM_rotated, hquarter]

theorem one_le_of_arc (h : arc start degrees segments = .ok loop) : 1 ≤ segments := by
  simp only [arc, guard_eq_ok_iff, not_lt] at h
  exact h.2.1

theorem circle_eq_ok [IsStrictOrderedRing K] (hradius : 0 < radius) (hsegments : 3 ≤ segments) :
    circle radius segments
      = .ok ((List.range segments.toNat).map (arcPoint ⟨radius, 0⟩ 360 segments)) := by
  have hradius : ¬radius ≤ 0.0 := by rwa [Scalar.zero_eq, not_le]
  rw [circle, if_neg hradius, if_neg (not_lt.mpr hsegments), Scalar.zero_eq]
  exact arc_full_eq_ok (by omega)

theorem accepted_of_circle (h : circle radius segments = .ok loop) :
    0 < radius ∧ 3 ≤ segments := by
  simp only [circle, guard_eq_ok_iff, Scalar.zero_eq, not_le, not_lt] at h
  exact ⟨h.1, h.2.1⟩

/-- A circumscribed polygon is an inscribed one of a larger circle. -/
theorem circumscribedPolygon_eq (h : 3 ≤ count) :
    circumscribedPolygon count radius
      = circle (radius / Trig.cos (180 / (count : K))) count := by
  have hhalf : (180.0 : K) = 180 := by norm_num
  rw [circumscribedPolygon, if_neg (not_lt.mpr h), Angle.cos, Angle.apply,
    Scalar.isInfinite_eq_false, hhalf, Scalar.ofInt_eq]
  rfl

theorem three_le_of_circumscribedPolygon (h : circumscribedPolygon count radius = .ok loop) :
    3 ≤ count := by
  simp only [circumscribedPolygon, guard_eq_ok_iff, not_lt] at h
  exact h.1

/-! ## Stars -/

theorem polar_eq_ok (degrees radius : K) :
    polar degrees radius = .ok (Angle.unit degrees * radius) := by
  rw [polar, Angle.direction_eq_ok]
  rfl

/-- The point on a ray of a star, counted from the first ray; between two rays there are halves. -/
def rayPoint (count : ℤ) (radius : K) (ray : K) : Point2 K :=
  Angle.unit (-360.0 / count * ray) * radius

theorem starPoints_eq_ok (count : ℤ) (onRay between : K) :
    starPoints count onRay between = .ok ((List.range count.toNat).flatMap fun i : ℕ ↦
      [rayPoint count onRay i, rayPoint count between (i + 1 / 2)]) := by
  have hblock (i : ℕ) : (do
      let p ← polar (-360.0 / Scalar.ofInt count * Scalar.ofNat i) onRay
      let q ← polar (-360.0 / Scalar.ofInt count * (Scalar.ofNat i + 0.5)) between
      return [p, q] : Except (Fault K) (List (Point2 K)))
        = .ok [rayPoint count onRay i, rayPoint count between (i + 1 / 2)] := by
    rw [polar_eq_ok, polar_eq_ok, Scalar.ofNat_eq, Scalar.ofInt_eq, Scalar.half_eq]
    rfl
  have hblocks := mapM_eq_ok (l := List.range count.toNat) fun i _ ↦ hblock i
  rw [starPoints, hblocks, List.flatMap_def]
  rfl

theorem star_eq_ok {inner outer : K} (h : 2 ≤ count) :
    star count inner outer = .ok ((List.range count.toNat).flatMap fun i : ℕ ↦
      [rayPoint count inner i, rayPoint count outer (i + 1 / 2)]) := by
  rw [star, if_neg (not_lt.mpr h), starPoints_eq_ok]

theorem two_le_of_star {inner outer : K} (h : star count inner outer = .ok loop) : 2 ≤ count := by
  simp only [star, guard_eq_ok_iff, not_lt] at h
  exact h.1

/-! ## Rectangles with round corners -/

/-- A quarter of a circle about a centre. -/
def cornerArc (start centre : Point2 K) (segments : ℤ) : List (Point2 K) :=
  Polyline.shifted ((List.range (segments.toNat + 1)).map (arcPoint start 90 segments)) centre

/-- The four corners in a row, clockwise from the upper right one. -/
def cornerArcs (width height radius : K) (segments : ℤ) : List (Point2 K) :=
  cornerArc ⟨0, radius⟩ ⟨width - radius, height - radius⟩ segments ++
    cornerArc ⟨radius, 0⟩ ⟨width - radius, radius⟩ segments ++
    cornerArc ⟨0, -radius⟩ ⟨radius, radius⟩ segments ++
    cornerArc ⟨-radius, 0⟩ ⟨radius, height - radius⟩ segments

/-- What the sides, the radius and the segments of a corner have to be. -/
structure RectangleFits (width height radius : K) (segments : ℤ) : Prop where
  width_pos : 0 < width
  height_pos : 0 < height
  radius_pos : 0 < radius
  two_mul_radius_le : 2 * radius ≤ min width height
  one_le : 1 ≤ segments

omit [Trig K] in
private theorem least_eq_min (x y : K) : Scalar.least x y = min x y := by
  rw [Scalar.least, min_def]
  split_ifs with h h' h'
  · exact absurd h' (not_le.mpr h)
  · rfl
  · rfl
  · exact absurd (not_lt.mp h) h'

theorem roundedRect_eq_ok [IsStrictOrderedRing K] (h : RectangleFits width height radius segments)
    (center : Bool) :
    roundedRect width height radius segments center
      = .ok (if center then Polyline.shifted (cornerArcs width height radius segments)
          ⟨-width / 2, -height / 2⟩ else cornerArcs width height radius segments) := by
  obtain ⟨hwidth, hheight, hradius, hfits, hsegments⟩ := h
  have htwo : (2.0 : K) = 2 := by norm_num
  have hsides : ¬(width ≤ 0.0 ∨ height ≤ 0.0) := by
    rw [Scalar.zero_eq, not_or, not_le, not_le]
    exact ⟨hwidth, hheight⟩
  have hround : ¬(radius ≤ 0.0 ∨ Scalar.least width height < 2.0 * radius) := by
    rw [Scalar.zero_eq, htwo, least_eq_min, not_or, not_le, not_lt]
    exact ⟨hradius, hfits⟩
  rw [roundedRect, if_neg hsides, if_neg hround]
  simp only [arc_quarter_eq_ok hsegments, Scalar.zero_eq, htwo]
  rfl

theorem rectangleFits_of_roundedRect {center : Bool}
    (h : roundedRect width height radius segments center = .ok loop) :
    RectangleFits width height radius segments := by
  have htwo : (2.0 : K) = 2 := by norm_num
  simp only [roundedRect, guard_eq_ok_iff, bind_eq_ok_iff, Scalar.zero_eq, htwo, least_eq_min,
    not_or, not_le, not_lt] at h
  obtain ⟨⟨hwidth, hheight⟩, ⟨hradius, hfits⟩, -, ⟨quarter, hquarter, -⟩, -⟩ := h
  exact ⟨hwidth, hheight, hradius, hfits, one_le_of_arc hquarter⟩

end Profile

end SolidModel
