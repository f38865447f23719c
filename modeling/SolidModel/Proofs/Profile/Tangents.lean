import Mathlib
import SolidModel.Proofs.Plane.Segment
import SolidModel.Proofs.Profile.Clockwise

/-!
# Polygons around a circle

Half way between two directions lies the direction of half the sum of their angles, shortened by the
cosine of half the angle between them. So every edge of a regular polygon touches one circle, which
is smaller than that of the corners by this cosine; a circumscribed polygon has its corners moved
out by as much. The edge that closes the loop is no exception, since the points of a full turn
repeat after as many steps as it has sides.

With an even number of sides every edge has an opposite one, half a turn further on, which is the
edge itself reflected in the origin. Both touch the circle, so they are its diameter apart.
-/

namespace SolidModel

open VectorOps (dot length lerp)

/-! ## Edges that touch a circle -/

variable {K : Type} [Field K] [LinearOrder K] [FloorRing K]

namespace Point2

theorem dot_mul_left (p q : Point2 K) (s : K) : dot (p * s) q = dot p q * s := by
  simp only [dot_eq, mul_x, mul_y]
  ring

theorem dot_mul_right (p q : Point2 K) (s : K) : dot p (q * s) = dot p q * s := by
  simp only [dot_eq, mul_x, mul_y]
  ring

end Point2

namespace Polyline

variable {e f : Point2 K × Point2 K} {radius distance : K}

/-- The point half way along an edge. -/
def halfway (e : Point2 K × Point2 K) : Point2 K := lerp e.1 e.2 0.5

variable [Trig K]

/-- The edge touches the circle of a radius about the origin: half way along it is on the circle,
and at a right angle to the way there. -/
structure Touches (radius : K) (e : Point2 K × Point2 K) : Prop where
  length_halfway : length (halfway e) = radius
  dot_halfway : dot (halfway e) (e.2 - e.1) = 0
  ne : e.1 ≠ e.2

/-- Two edges run in opposite directions and are a distance apart: no point of the line through the
one is closer to the line through the other, and half way along both they are as close as that. -/
structure Faces (distance : K) (e f : Point2 K × Point2 K) : Prop where
  opposite : f.2 - f.1 = -(e.2 - e.1)
  length_halfway : length (halfway f - halfway e) = distance
  le_length : ∀ s t : K, distance ≤ length (lerp f.1 f.2 t - lerp e.1 e.2 s)

variable [Trig.HasRoots K]

theorem Touches.faces_neg [IsStrictOrderedRing K] (h : Touches radius e) : Faces (2 * radius) e
    (-e.1, -e.2) := by
  have hradius : 0 ≤ radius := h.length_halfway ▸ Point2.length_nonneg _
  have hsquare : dot (halfway e) (halfway e) = radius * radius := by
    rw [← Point2.length_mul_length, h.length_halfway]
  -- between the lines one goes straight across and then along the edge
  have hacross (s t : K) :
      dot (lerp (-e.1) (-e.2) t - lerp e.1 e.2 s) (lerp (-e.1) (-e.2) t - lerp e.1 e.2 s)
        = 4 * dot (halfway e) (halfway e) + 4 * (s + t - 1) * dot (halfway e) (e.2 - e.1)
          + (s + t - 1) ^ 2 * dot (e.2 - e.1) (e.2 - e.1) := by
    simp only [halfway, Point2.dot_eq, Point2.lerp_x, Point2.lerp_y, Point2.sub_x, Point2.sub_y,
      Point2.neg_x, Point2.neg_y]
    ring
  rw [hsquare, h.dot_halfway] at hacross
  refine ⟨?_, ?_, fun s t ↦ ?_⟩
  · simp only [Point2.ext_iff', Point2.sub_x, Point2.sub_y, Point2.neg_x, Point2.neg_y]
    constructor <;> ring
  · refine Trig.sqrt_eq (by positivity) ?_
    rw [VectorOps.squaredLength, halfway, halfway, hacross]
    ring
  · refine (mul_self_le_mul_self_iff (by positivity) (Point2.length_nonneg _)).mpr ?_
    have hdot : 0 ≤ dot (e.2 - e.1) (e.2 - e.1) :=
      Point2.length_mul_length (e.2 - e.1) ▸ mul_self_nonneg _
    have hsquares : 0 ≤ (s + t - 1) ^ 2 * dot (e.2 - e.1) (e.2 - e.1) := by positivity
    rw [Point2.length_mul_length, hacross]
    linarith

/-- With everything about it the edge is moved out from the origin. -/
theorem Touches.mul [IsStrictOrderedRing K] (h : Touches radius e) {s : K} (hs : 0 < s) :
    Touches (radius * s) (e.1 * s, e.2 * s) := by
  have hhalfway : halfway (e.1 * s, e.2 * s) = halfway e * s := by
    simp only [halfway, Point2.ext_iff', Point2.lerp_x, Point2.lerp_y, Point2.mul_x, Point2.mul_y]
    constructor <;> ring
  have hchord : e.2 * s - e.1 * s = (e.2 - e.1) * s := by
    simp only [Point2.ext_iff', Point2.sub_x, Point2.sub_y, Point2.mul_x, Point2.mul_y]
    constructor <;> ring
  refine ⟨?_, ?_, fun heq : e.1 * s = e.2 * s ↦ h.ne ?_⟩
  · rw [hhalfway, Point2.length_mul, h.length_halfway, abs_of_pos hs]
  · rw [hhalfway, hchord, Point2.dot_mul_left, Point2.dot_mul_right, h.dot_halfway, zero_mul,
      zero_mul]
  · simpa [Point2.ext_iff', hs.ne'] using heq

end Polyline

/-! ## Edges of a regular polygon -/

namespace Angle

open Polyline (halfway edgeArea Touches)

private theorem halfway_unit (a b : ℝ) :
    halfway (unit (a - b), unit (a + b)) = unit a * Trig.cos b := by
  rw [halfway, Scalar.half_eq, Point2.ext_iff']
  constructor
  · change Real.cos ((a - b) * (Real.pi / 180))
        + (Real.cos ((a + b) * (Real.pi / 180)) - Real.cos ((a - b) * (Real.pi / 180))) * (1 / 2)
      = Real.cos (a * (Real.pi / 180)) * Real.cos (b * (Real.pi / 180))
    rw [sub_mul, add_mul, Real.cos_sub, Real.cos_add]
    ring
  · change Real.sin ((a - b) * (Real.pi / 180))
        + (Real.sin ((a + b) * (Real.pi / 180)) - Real.sin ((a - b) * (Real.pi / 180))) * (1 / 2)
      = Real.sin (a * (Real.pi / 180)) * Real.cos (b * (Real.pi / 180))
    rw [sub_mul, add_mul, Real.sin_sub, Real.sin_add]
    ring

private theorem dot_unit_chord (a b : ℝ) : dot (unit a) (unit (a + b) - unit (a - b)) = 0 := by
  have hsub (p q r : Point2 ℝ) : dot p (q - r) = dot p q - dot p r := by
    simp only [Point2.dot_eq, Point2.sub_x, Point2.sub_y]
    ring
  rw [hsub, dot_unit_unit, dot_unit_unit, add_sub_cancel_left, sub_sub_cancel_left,
    Trig.HasParity.cos_neg, sub_self]

private theorem unit_sub_straight (a : ℝ) : unit (a - 180) = -unit a := by
  have hturn : (a - 180) * (Real.pi / 180) = a * (Real.pi / 180) - Real.pi := by ring
  change Point2.mk (Real.cos ((a - 180) * (Real.pi / 180))) (Real.sin ((a - 180) * (Real.pi / 180)))
    = -⟨Real.cos (a * (Real.pi / 180)), Real.sin (a * (Real.pi / 180))⟩
  rw [hturn, Real.cos_sub_pi, Real.sin_sub_pi]
  rfl

/-- The chord touches a circle that is smaller by the cosine of half the angle. -/
private theorem touches_chord (a b : ℝ) (hcos : 0 < Trig.cos b) (hsin : Trig.sin b ≠ 0) :
    Touches (Trig.cos b) (unit (a - b), unit (a + b)) := by
  refine ⟨?_, ?_, fun heq : unit (a - b) = unit (a + b) ↦ hsin ?_⟩
  · have hunit : length (unit a) = 1 := Trig.sqrt_eq zero_le_one (by
      rw [one_mul, VectorOps.squaredLength, dot_unit])
    rw [halfway_unit, Point2.length_mul, hunit, one_mul, abs_of_pos hcos]
  · rw [halfway_unit, Point2.dot_mul_left, dot_unit_chord, zero_mul]
  · have hspan : Trig.sin (2 * b) = 0 := by
      have hangle : a + b - (a - b) = 2 * b := by ring
      rw [← hangle, ← edgeArea_unit, heq, edgeArea]
      ring
    rw [Trig.sin_two_mul] at hspan
    simpa [hcos.ne'] using hspan

end Angle

namespace Profile

open Polyline

variable {sides : ℤ} {radius : ℝ}

private theorem arcPoint_east (radius degrees : ℝ) (segments : ℤ) (i : ℕ) :
    arcPoint ⟨radius, 0⟩ degrees segments i = Angle.unit (i * (-degrees / segments)) * radius := by
  simp only [arcPoint, Point2.ext_iff', Point2.turned, Point2.mul_x, Point2.mul_y]
  constructor <;> ring

private theorem touches_arcPoint (hsides : 3 ≤ sides) (hradius : 0 < radius) (i : ℕ) :
    Touches (Trig.cos (180 / (sides : ℝ)) * radius)
      (arcPoint ⟨radius, 0⟩ 360 sides i, arcPoint ⟨radius, 0⟩ 360 sides (i + 1)) := by
  have hthree : (3 : ℝ) ≤ sides := by exact_mod_cast hsides
  have hsin : 0 < Trig.sin (180 / (sides : ℝ)) := by
    refine Trig.sin_pos (by positivity) ?_
    rw [div_lt_iff₀ (by linarith)]
    linarith
  have htouches := (Angle.touches_chord ((i + 1 / 2) * (-360 / (sides : ℝ)))
    (-(180 / (sides : ℝ))) (by rw [Trig.HasParity.cos_neg]; exact cos_halfStep_pos hsides)
    (by rw [Trig.sin_neg, neg_ne_zero]; exact hsin.ne')).mul hradius
  have hfirst : (i + 1 / 2) * (-360 / (sides : ℝ)) - -(180 / (sides : ℝ))
      = i * (-360 / (sides : ℝ)) := by ring
  have hsecond : (i + 1 / 2) * (-360 / (sides : ℝ)) + -(180 / (sides : ℝ))
      = (i + 1 : ℕ) * (-360 / (sides : ℝ)) := by
    rw [Nat.cast_succ]
    ring
  rwa [Trig.HasParity.cos_neg, hfirst, hsecond, ← arcPoint_east, ← arcPoint_east] at htouches

private theorem arcPoint_add_half {i half : ℕ} (start : Point2 ℝ) (hsides : 1 ≤ sides)
    (hhalf : sides.toNat = half + half) :
    arcPoint start 360 sides (i + half) = -arcPoint start 360 sides i := by
  have hne : (sides : ℝ) ≠ 0 := by exact_mod_cast (by omega : sides ≠ 0)
  have hcast : (sides : ℝ) = half + half := by
    rw [← Scalar.cast_toNat hsides, hhalf, Nat.cast_add]
  have hturn : ((i + half : ℕ) : ℝ) * (-360 / sides) = i * (-360 / sides) - 180 := by
    have hquotient : (half : ℝ) * (-360 / sides) = -180 := by
      rw [mul_div_assoc', div_eq_iff hne, hcast]
      ring
    rw [Nat.cast_add, add_mul, hquotient, ← sub_eq_add_neg]
  rw [arcPoint, hturn, Angle.unit_sub_straight, arcPoint]
  simp only [Point2.ext_iff', Point2.turned, Point2.neg_x, Point2.neg_y]
  constructor <;> ring

private theorem cyclicPairs_circle (radius : ℝ) (hsides : 1 ≤ sides) :
    cyclicPairs ((List.range sides.toNat).map (arcPoint ⟨radius, 0⟩ 360 sides))
      = (List.range sides.toNat).map fun i ↦
        (arcPoint ⟨radius, 0⟩ 360 sides i, arcPoint ⟨radius, 0⟩ 360 sides (i + 1)) :=
  cyclicPairs_map_range (periodic_arcPoint _ hsides).eq

private theorem touches_circle (hsides : 3 ≤ sides) (hradius : 0 < radius) :
    ∀ e ∈ cyclicPairs ((List.range sides.toNat).map (arcPoint ⟨radius, 0⟩ 360 sides)),
      Touches (Trig.cos (180 / (sides : ℝ)) * radius) e := by
  rw [cyclicPairs_circle radius (by omega)]
  intro e he
  obtain ⟨i, -, rfl⟩ := List.mem_map.mp he
  exact touches_arcPoint hsides hradius i

private theorem faces_circle {half : ℕ} (hsides : 3 ≤ sides) (hradius : 0 < radius)
    (hhalf : sides.toNat = half + half) :
    List.Forall₂ (Faces (2 * (Trig.cos (180 / (sides : ℝ)) * radius)))
      (cyclicPairs ((List.range sides.toNat).map (arcPoint ⟨radius, 0⟩ 360 sides)))
      ((cyclicPairs ((List.range sides.toNat).map
        (arcPoint ⟨radius, 0⟩ 360 sides))).rotateLeft half) := by
  have hturn := periodic_arcPoint ⟨radius, 0⟩ (by omega : 1 ≤ sides)
  have hagain : Function.Periodic (fun i ↦ (arcPoint ⟨radius, 0⟩ 360 sides i,
      arcPoint ⟨radius, 0⟩ 360 sides (i + 1))) sides.toNat := fun i ↦
    congrArg₂ Prod.mk (hturn i) (add_right_comm i _ 1 ▸ hturn (i + 1))
  rw [cyclicPairs_circle radius (by omega), rotateLeft_map_range hagain,
    List.forall₂_map_left_iff, List.forall₂_map_right_iff, List.forall₂_same]
  intro i _
  rw [add_right_comm, arcPoint_add_half _ (by omega) hhalf, arcPoint_add_half _ (by omega) hhalf]
  exact (touches_arcPoint hsides hradius i).faces_neg

/-- **A circumscribed polygon touches its circle** with every edge, also the one that closes the
loop. If the number of its sides is even, every edge faces the one half way around the loop, a
diameter of the circle away. -/
theorem touches_of_circumscribedPolygon (hsides : 3 ≤ sides) (hradius : 0 < radius) :
    ∃ loop, circumscribedPolygon sides radius = .ok loop ∧ (loop.length : ℤ) = sides ∧
      (∀ e ∈ cyclicPairs loop, Touches radius e) ∧
      (Even sides → List.Forall₂ (Faces (2 * radius)) (cyclicPairs loop)
        ((cyclicPairs loop).rotateLeft (loop.length / 2))) := by
  have hcos := cos_halfStep_pos hsides
  have houter : 0 < radius / Trig.cos (180 / (sides : ℝ)) := div_pos hradius hcos
  have hinner : Trig.cos (180 / (sides : ℝ)) * (radius / Trig.cos (180 / (sides : ℝ))) = radius :=
    mul_div_cancel₀ radius hcos.ne'
  refine ⟨_, (circumscribedPolygon_eq hsides).trans (circle_eq_ok houter hsides), ?_, ?_,
    fun heven ↦ ?_⟩
  · rw [List.length_map, List.length_range]
    omega
  · intro e he
    exact hinner ▸ touches_circle hsides houter e he
  · obtain ⟨half, hhalf⟩ := heven
    have hfaces := faces_circle hsides houter (by omega : sides.toNat = half.toNat + half.toNat)
    have hlength : sides.toNat / 2 = half.toNat := by omega
    rw [List.length_map, List.length_range, hlength]
    rwa [hinner] at hfaces

/-- A hexagon of the size of a nut for a thread of eight: its flats are thirteen apart. -/
theorem touches_of_circumscribedPolygon_hexagon :
    (3 : ℤ) ≤ 6 ∧ (0 : ℝ) < 13 / 2 ∧
    ∃ loop : List (Point2 ℝ), circumscribedPolygon 6 (13 / 2) = .ok loop ∧ loop.length = 6 ∧
      (∀ e ∈ cyclicPairs loop, Touches (13 / 2) e) ∧
      List.Forall₂ (Faces 13) (cyclicPairs loop) ((cyclicPairs loop).rotateLeft 3) := by
  have hradius : (0 : ℝ) < 13 / 2 := by norm_num
  obtain ⟨loop, hloop, hlength, htouches, hfaces⟩ :=
    touches_of_circumscribedPolygon (by decide : (3 : ℤ) ≤ 6) hradius
  have hsix : loop.length = 6 := by exact_mod_cast hlength
  refine ⟨by decide, hradius, loop, hloop, hsix, htouches, ?_⟩
  have hacross : (2 : ℝ) * (13 / 2) = 13 := by norm_num
  rw [hsix, hacross] at hfaces
  exact hfaces (by decide)

end Profile

end SolidModel
