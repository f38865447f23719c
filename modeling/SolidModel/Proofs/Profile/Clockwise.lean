import Mathlib
import SolidModel.Proofs.Loop.Series
import SolidModel.Proofs.Plane.Angles
import SolidModel.Proofs.Profile.Generators

/-!
# Profiles run clockwise

All round profiles step around a centre through equal angles, backwards, so that every edge adds
the same negative amount to the area. A circle or a star consists of nothing else. A rectangle with
round corners is cut along the chords of its four corners: what is cut off are quarter circles, and
what is left is an octagon.

The areas come out in closed form, and each of them is below zero for all measures that the
generator accepts.
-/

namespace SolidModel

open VectorOps (dot)

namespace Polyline

variable {K : Type} [Field K] [LinearOrder K] [FloorRing K]

private theorem doubledArea_cutChord {a b : Point2 K} {arc : List (Point2 K)}
    (harc : ∃ middle, arc = a :: middle ++ [b]) (rest : List (Point2 K)) :
    doubledArea (arc ++ rest) = doubledArea arc + doubledArea (rest ++ [a, b]) := by
  obtain ⟨middle, rfl⟩ := harc
  have hrest : b :: rest ++ [a] ~r rest ++ [a, b] := by
    have hrot := List.isRotated_concat b (rest ++ [a])
    rw [List.append_assoc] at hrot
    exact hrot.symm
  rw [List.append_assoc, List.singleton_append, doubledArea_cut, doubledArea_of_isRotated hrest]

private theorem edgeArea_mul (p q : Point2 K) (r s : K) :
    edgeArea (p * r) (q * s) = edgeArea p q * (r * s) := by
  simp only [edgeArea, Point2.mul_x, Point2.mul_y]
  ring

end Polyline

namespace Profile

open Polyline

/-! ## Circles and polygons -/

section Arcs

variable {segments : ℤ}

private theorem edgeArea_arcPoint (start : Point2 ℝ) (degrees : ℝ) (segments : ℤ) (i : ℕ) :
    edgeArea (arcPoint start degrees segments i) (arcPoint start degrees segments (i + 1))
      = -(dot start start * Trig.sin (degrees / segments)) := by
  have hstep : ((i + 1 : ℕ) : ℝ) * (-degrees / segments) - i * (-degrees / segments)
      = -(degrees / segments) := by
    rw [Nat.cast_succ]
    ring
  rw [arcPoint, arcPoint, edgeArea_turned, Angle.edgeArea_unit, hstep, Trig.sin_neg, mul_neg]

theorem arcPoint_zero (start : Point2 ℝ) (degrees : ℝ) (segments : ℤ) :
    arcPoint start degrees segments 0 = start := by
  rw [arcPoint, Nat.cast_zero, zero_mul, Angle.unit_zero]
  simp [Point2.turned]

private theorem arcPoint_toNat (start : Point2 ℝ) (degrees : ℝ) (h : 1 ≤ segments) :
    arcPoint start degrees segments segments.toNat = start.turned (Angle.unit (-degrees)) := by
  have hne : (segments : ℝ) ≠ 0 := by
    exact_mod_cast (by omega : segments ≠ 0)
  rw [arcPoint, Scalar.cast_toNat h, mul_div_cancel₀ _ hne]

theorem periodic_arcPoint (start : Point2 ℝ) (h : 1 ≤ segments) :
    Function.Periodic (arcPoint start 360 segments) segments.toNat := by
  intro i
  have hne : (segments : ℝ) ≠ 0 := by exact_mod_cast (by omega : segments ≠ 0)
  have hturn : ((i + segments.toNat : ℕ) : ℝ) * (-360 / segments)
      = i * (-360 / segments) - 360 := by
    rw [Nat.cast_add, Scalar.cast_toNat h]
    field_simp
    ring
  rw [arcPoint, hturn, Angle.unit_sub_full, arcPoint]

theorem doubledArea_circle (radius : ℝ) (h : 1 ≤ segments) :
    doubledArea ((List.range segments.toNat).map (arcPoint ⟨radius, 0⟩ 360 segments))
      = -(segments * radius ^ 2 * Trig.sin (360 / (segments : ℝ))) := by
  rw [doubledArea, List.map_eq_flatMap,
    edgeSum_flatMap_range _ (fun _ ↦ []) (periodic_arcPoint _ h).eq
    (g := -(radius ^ 2 * Trig.sin (360 / (segments : ℝ))))]
  · rw [nsmul_eq_mul, Scalar.cast_toNat h]
    ring
  · intro i
    have hdot : dot (⟨radius, 0⟩ : Point2 ℝ) ⟨radius, 0⟩ = radius ^ 2 := by
      rw [Point2.dot_eq]
      ring
    simp [edgeArea_arcPoint, hdot]

end Arcs

/-! ## Stars -/

private theorem edgeArea_rayPoint (count : ℤ) (r s a b : ℝ) :
    edgeArea (rayPoint count r a) (rayPoint count s b)
      = Trig.sin (-360 / count * (b - a)) * (r * s) := by
  rw [rayPoint, rayPoint, Scalar.fullTurn_eq, edgeArea_mul, Angle.edgeArea_unit, mul_sub]

theorem doubledArea_star {count : ℤ} (inner outer : ℝ) (h : 1 ≤ count) :
    doubledArea ((List.range count.toNat).flatMap fun i : ℕ ↦
        [rayPoint count inner i, rayPoint count outer (i + 1 / 2)])
      = -(2 * count * inner * outer * Trig.sin (180 / (count : ℝ))) := by
  have hne : (count : ℝ) ≠ 0 := by
    exact_mod_cast (by omega : count ≠ 0)
  have hturn : rayPoint count inner (count.toNat : ℕ) = rayPoint count inner (0 : ℕ) := by
    rw [rayPoint, Scalar.cast_toNat h, div_mul_cancel₀ _ hne, Scalar.fullTurn_eq,
      Angle.unit_neg_full, rayPoint, Nat.cast_zero, mul_zero]
  have hhalf (a : ℝ) : Trig.sin (-360 / (count : ℝ) * (a + 1 / 2 - a))
      = -Trig.sin (180 / (count : ℝ)) := by
    rw [← Trig.sin_neg]
    ring_nf
  have hrest (i : ℕ) : Trig.sin (-360 / (count : ℝ) * ((i + 1 : ℕ) - (i + 1 / 2)))
      = -Trig.sin (180 / (count : ℝ)) := by
    rw [← hhalf 0, Nat.cast_succ]
    ring_nf
  rw [doubledArea, edgeSum_flatMap_range (fun i : ℕ ↦ rayPoint count inner i)
    (fun i ↦ [rayPoint count outer (i + 1 / 2)]) hturn
    (g := -(2 * inner * outer * Trig.sin (180 / (count : ℝ))))]
  · rw [nsmul_eq_mul, Scalar.cast_toNat h]
    ring
  · intro i
    simp only [List.cons_append, List.nil_append, links_cons_cons, links_singleton, List.map_cons,
      List.map_nil, List.sum_cons, List.sum_nil, edgeArea_rayPoint, hhalf, hrest]
    ring

/-! ## Rectangles with round corners -/

section Corners

variable {segments : ℤ}

private theorem arcPoint_quarter (start : Point2 ℝ) (h : 1 ≤ segments) :
    arcPoint start 90 segments segments.toNat = ⟨start.y, -start.x⟩ := by
  rw [arcPoint_toNat _ _ h, Angle.unit_neg_quarter]
  simp [Point2.turned]

private theorem exists_quarterArc (start : Point2 ℝ) (h : 1 ≤ segments) :
    ∃ middle, (List.range (segments.toNat + 1)).map (arcPoint start 90 segments)
      = start :: middle ++ [⟨start.y, -start.x⟩] := by
  obtain ⟨n, hn⟩ : ∃ n, segments.toNat = n + 1 :=
    Nat.exists_eq_add_of_le' (by omega : 1 ≤ segments.toNat)
  refine ⟨(List.range n).map fun i ↦ arcPoint start 90 segments (i + 1), ?_⟩
  rw [List.range_succ, List.map_append, List.map_singleton, arcPoint_quarter start h, hn,
    List.range_succ_eq_map, List.map_cons, arcPoint_zero, List.map_map]
  rfl

private theorem exists_cornerArc (start centre : Point2 ℝ) (h : 1 ≤ segments) :
    ∃ middle, cornerArc start centre segments
      = (start + centre) :: middle ++ [⟨start.y, -start.x⟩ + centre] := by
  obtain ⟨middle, hmiddle⟩ := exists_quarterArc start h
  refine ⟨shifted middle centre, ?_⟩
  rw [cornerArc, hmiddle]
  simp [shifted]

/-- A corner, closed by its chord, is made of triangles about the centre less the one over the
chord. -/
private theorem doubledArea_cornerArc (start centre : Point2 ℝ) (h : 1 ≤ segments) :
    doubledArea (cornerArc start centre segments)
      = dot start start * (1 - segments * Trig.sin (90 / (segments : ℝ))) := by
  obtain ⟨middle, hmiddle⟩ := exists_quarterArc start h
  have hsteps := sum_links_range (f := fun e ↦ edgeArea e.1 e.2) (arcPoint start 90 segments)
    (edgeArea_arcPoint start 90 segments) segments.toNat
  have hback : edgeArea ⟨start.y, -start.x⟩ start = dot start start := by
    rw [edgeArea, Point2.dot_eq]
    ring
  rw [cornerArc, doubledArea_shifted, hmiddle, doubledArea, edgeSum_concat, ← hmiddle, hsteps,
    hback, nsmul_eq_mul, Scalar.cast_toNat h]
  ring

private theorem doubledArea_cornerArcs (width height radius : ℝ) (h : 1 ≤ segments) :
    doubledArea (cornerArcs width height radius segments)
      = -(2 * (width * height
          - (4 - 2 * segments * Trig.sin (90 / (segments : ℝ))) * radius ^ 2)) := by
  rw [cornerArcs, List.append_assoc, List.append_assoc,
    doubledArea_cutChord (exists_cornerArc _ _ h), List.append_assoc,
    doubledArea_cutChord (exists_cornerArc _ _ h), List.append_assoc, List.append_assoc,
    doubledArea_cutChord (exists_cornerArc _ _ h), List.append_assoc,
    doubledArea_cutChord (exists_cornerArc _ _ h)]
  simp only [doubledArea_cornerArc _ _ h, Point2.dot_eq]
  simp only [doubledArea, edgeSum_cons, List.cons_append, List.nil_append, links_cons_cons,
    links_singleton, List.map_cons, List.map_nil, List.sum_cons, List.sum_nil, edgeArea,
    Point2.add_x, Point2.add_y]
  ring

end Corners

/-! ## All generators -/

/-- The generator accepts its arguments exactly under the condition, and the loop that it then
makes has the area, which is below zero. -/
structure MakesClockwise (accepted : Prop) (area : ℝ)
    (outcome : Except (Fault ℝ) (List (Point2 ℝ))) : Prop where
  accepts_iff : (∃ loop, outcome = .ok loop) ↔ accepted
  signedArea_eq : ∀ loop, outcome = .ok loop → signedArea loop = area
  signedArea_neg : ∀ loop, outcome = .ok loop → signedArea loop < 0

theorem MakesClockwise.of_accepted {accepted : Prop} {area : ℝ}
    {outcome : Except (Fault ℝ) (List (Point2 ℝ))}
    (haccepted : ∀ loop, outcome = .ok loop → accepted)
    (hmakes : accepted → ∃ loop, outcome = .ok loop ∧ signedArea loop = area ∧ area < 0) :
    MakesClockwise accepted area outcome := by
  have harea : ∀ loop, outcome = .ok loop → signedArea loop = area ∧ area < 0 := by
    intro loop hloop
    obtain ⟨made, hmade, harea⟩ := hmakes (haccepted loop hloop)
    obtain rfl : made = loop := Except.ok.inj (hmade.symm.trans hloop)
    exact harea
  refine ⟨⟨fun ⟨loop, hloop⟩ ↦ haccepted loop hloop, fun h ↦ ?_⟩, fun loop hloop ↦ ?_,
    fun loop hloop ↦ ?_⟩
  · obtain ⟨loop, hloop, -⟩ := hmakes h
    exact ⟨loop, hloop⟩
  · exact (harea loop hloop).1
  · exact (harea loop hloop).1.trans_lt (harea loop hloop).2

theorem makesClockwise_circle (radius : ℝ) (segments : ℤ) :
    MakesClockwise (0 < radius ∧ 3 ≤ segments)
      (-(segments / 2) * radius ^ 2 * Trig.sin (360 / (segments : ℝ)))
      (circle radius segments) := by
  refine .of_accepted (fun _ ↦ accepted_of_circle) fun ⟨hradius, hsegments⟩ ↦ ?_
  have hthree : (3 : ℝ) ≤ segments := by exact_mod_cast hsegments
  refine ⟨_, circle_eq_ok hradius hsegments, ?_, ?_⟩
  · rw [Polyline.signedArea_eq, doubledArea_circle radius (by omega)]
    ring
  · have hsin : 0 < Trig.sin (360 / (segments : ℝ)) := by
      refine Trig.sin_pos (by positivity) ?_
      rw [div_lt_iff₀ (by linarith)]
      linarith
    rw [neg_mul, neg_mul, neg_neg_iff_pos]
    positivity

theorem cos_halfStep_pos {sides : ℤ} (h : 3 ≤ sides) : 0 < Trig.cos (180 / (sides : ℝ)) := by
  have hthree : (3 : ℝ) ≤ sides := by exact_mod_cast h
  refine Trig.cos_pos (by positivity) ?_
  rw [div_lt_iff₀ (by linarith)]
  linarith

theorem makesClockwise_circumscribedPolygon (sides : ℤ) (radius : ℝ) :
    MakesClockwise (3 ≤ sides ∧ 0 < radius)
      (-(sides * radius ^ 2 * Trig.tan (180 / (sides : ℝ))))
      (circumscribedPolygon sides radius) := by
  have hcos (h : 3 ≤ sides) := cos_halfStep_pos h
  refine .of_accepted (fun loop hloop ↦ ?_) fun ⟨hsides, hradius⟩ ↦ ?_
  · have hsides := three_le_of_circumscribedPolygon hloop
    rw [circumscribedPolygon_eq hsides] at hloop
    exact ⟨hsides, (div_pos_iff_of_pos_right (hcos hsides)).mp (accepted_of_circle hloop).1⟩
  · have hcircle := makesClockwise_circle (radius / Trig.cos (180 / (sides : ℝ))) sides
    obtain ⟨loop, hloop⟩ := hcircle.accepts_iff.mpr ⟨div_pos hradius (hcos hsides), hsides⟩
    have harea : signedArea loop = -(sides * radius ^ 2 * Trig.tan (180 / (sides : ℝ))) := by
      have hdouble : 360 / (sides : ℝ) = 2 * (180 / (sides : ℝ)) := by ring
      have hne := (hcos hsides).ne'
      rw [hcircle.signedArea_eq loop hloop, hdouble, Trig.sin_two_mul, Trig.tan_eq]
      field_simp
    exact ⟨loop, (circumscribedPolygon_eq hsides).trans hloop, harea,
      harea ▸ hcircle.signedArea_neg loop hloop⟩

theorem makesClockwise_star (count : ℤ) {inner outer : ℝ} (hinner : 0 < inner)
    (houter : 0 < outer) :
    MakesClockwise (2 ≤ count) (-count * inner * outer * Trig.sin (180 / (count : ℝ)))
      (star count inner outer) := by
  refine .of_accepted (fun _ ↦ two_le_of_star) fun h ↦ ?_
  have htwo : (2 : ℝ) ≤ count := by exact_mod_cast h
  refine ⟨_, star_eq_ok h, ?_, ?_⟩
  · rw [Polyline.signedArea_eq, doubledArea_star inner outer (by omega)]
    ring
  · have hsin : 0 < Trig.sin (180 / (count : ℝ)) := by
      refine Trig.sin_pos (by positivity) ?_
      rw [div_lt_iff₀ (by linarith)]
      linarith
    rw [neg_mul, neg_mul, neg_mul, neg_neg_iff_pos]
    positivity

theorem makesClockwise_roundedRect (width height radius : ℝ) (segments : ℤ) (center : Bool) :
    MakesClockwise (RectangleFits width height radius segments)
      (-(width * height - (4 - 2 * segments * Trig.sin (90 / (segments : ℝ))) * radius ^ 2))
      (roundedRect width height radius segments center) := by
  refine .of_accepted (fun _ ↦ rectangleFits_of_roundedRect) fun h ↦ ?_
  refine ⟨_, roundedRect_eq_ok h center, ?_, ?_⟩
  · have harea : signedArea (cornerArcs width height radius segments)
        = -(width * height
          - (4 - 2 * segments * Trig.sin (90 / (segments : ℝ))) * radius ^ 2) := by
      rw [Polyline.signedArea_eq, doubledArea_cornerArcs _ _ _ h.one_le]
      ring
    cases center with
    | false => exact harea
    | true => exact (signedArea_shifted _ _).trans harea
  · obtain ⟨-, -, hradius, hfits, hsegments⟩ := h
    have hone : (1 : ℝ) ≤ segments := by exact_mod_cast hsegments
    have hsin : 0 < Trig.sin (90 / (segments : ℝ)) := by
      refine Trig.sin_pos (by positivity) ?_
      rw [div_lt_iff₀ (by linarith)]
      linarith
    -- the rectangle is at least as large as the square around one circle of its corners
    have hsides : 2 * radius * (2 * radius) ≤ width * height :=
      mul_le_mul (hfits.trans (min_le_left _ _)) (hfits.trans (min_le_right _ _)) (by positivity)
        (by linarith [hfits.trans (min_le_left _ _)])
    have hround : 0 < segments * Trig.sin (90 / (segments : ℝ)) * radius ^ 2 := by positivity
    rw [neg_lt_zero]
    linarith

theorem signedArea_chamfer (size oversize : ℝ) :
    signedArea (chamfer size oversize) = -(((size + oversize) ^ 2 + 2 * oversize ^ 2) / 2) := by
  rw [Polyline.signedArea_eq, chamfer, Scalar.zero_eq]
  simp only [doubledArea, edgeSum_cons, List.cons_append, List.nil_append, links_cons_cons,
    links_singleton, List.map_cons, List.map_nil, List.sum_cons, List.sum_nil, edgeArea]
  ring

/-- **The generators make clockwise loops** of whatever positive measures they accept, and refuse
all others. -/
theorem clockwise_generators :
    (∀ (radius : ℝ) (segments : ℤ), MakesClockwise (0 < radius ∧ 3 ≤ segments)
      (-(segments / 2) * radius ^ 2 * Trig.sin (360 / (segments : ℝ)))
      (circle radius segments)) ∧
    (∀ (sides : ℤ) (radius : ℝ), MakesClockwise (3 ≤ sides ∧ 0 < radius)
      (-(sides * radius ^ 2 * Trig.tan (180 / (sides : ℝ)))) (circumscribedPolygon sides radius)) ∧
    (∀ (sides : ℤ) (radius : ℝ), MakesClockwise (0 < radius ∧ 3 ≤ sides)
      (-(sides / 2) * radius ^ 2 * Trig.sin (360 / (sides : ℝ))) (inscribedPolygon sides radius)) ∧
    (∀ (count : ℤ) (inner outer : ℝ), 0 < inner → 0 < outer → MakesClockwise (2 ≤ count)
      (-count * inner * outer * Trig.sin (180 / (count : ℝ))) (star count inner outer)) ∧
    (∀ (width height radius : ℝ) (segments : ℤ) (center : Bool),
      MakesClockwise (RectangleFits width height radius segments)
        (-(width * height - (4 - 2 * segments * Trig.sin (90 / (segments : ℝ))) * radius ^ 2))
        (roundedRect width height radius segments center)) ∧
    ∀ size oversize : ℝ, 0 < size → 0 < oversize → MakesClockwise True
      (-(((size + oversize) ^ 2 + 2 * oversize ^ 2) / 2)) (.ok (chamfer size oversize)) := by
  refine ⟨makesClockwise_circle, makesClockwise_circumscribedPolygon,
    fun sides radius ↦ makesClockwise_circle radius sides,
    fun count _ _ ↦ makesClockwise_star count, makesClockwise_roundedRect,
    fun size oversize hsize hoversize ↦ ?_⟩
  refine .of_accepted (fun _ _ ↦ trivial) fun _ ↦ ⟨_, rfl, signedArea_chamfer size oversize, ?_⟩
  rw [neg_lt_zero]
  positivity

/-- The star of two rays, a rectangle that is all corners on its short sides, each of them a single
chord, and a cutter for a chamfer smaller than its oversize, whose section crosses itself. -/
theorem clockwise_generators_narrow :
    (∃ loop, star 2 1 3 = .ok loop ∧ signedArea loop = (-6 : ℝ)) ∧
    (∃ loop, roundedRect 4 2 1 1 true = .ok loop ∧ signedArea loop = (-6 : ℝ)) ∧
    signedArea (chamfer 1 2) = (-17 / 2 : ℝ) := by
  obtain ⟨-, -, -, hstar, hrect, hchamfer⟩ := clockwise_generators
  have hrays := hstar 2 1 3 (by norm_num) (by norm_num)
  have hfits : RectangleFits (4 : ℝ) 2 1 1 :=
    ⟨by norm_num, by norm_num, by norm_num, by norm_num, le_rfl⟩
  have hround := hrect 4 2 1 1 true
  obtain ⟨rays, hraysMade⟩ := hrays.accepts_iff.mpr le_rfl
  obtain ⟨round, hroundMade⟩ := hround.accepts_iff.mpr hfits
  refine ⟨⟨rays, hraysMade, ?_⟩, ⟨round, hroundMade, ?_⟩, ?_⟩
  · rw [hrays.signedArea_eq rays hraysMade]
    norm_num [Trig.sin_quarter]
  · rw [hround.signedArea_eq round hroundMade]
    norm_num [Trig.sin_quarter]
  · rw [(hchamfer 1 2 one_pos two_pos).signedArea_eq _ rfl]
    norm_num

end Profile

end SolidModel
