import Mathlib
import SolidModel.Proofs.Curve.Samples

/-!
# Curves by repeated interpolation

The point of a Bezier curve at a parameter is found without any coefficients. Between every two
neighbours among the control points stands the point that shares their distance as the parameter
says; these points are one fewer, and after as many rounds as the curve has degrees a single one is
left. The sums by which the curves are computed are this point.

Read from the other end, every round shares the same distances the other way round. So a curve with
its control points swapped end for end has the same samples in reverse order, where one parameter
takes the place of what it lacks to one. A quadratic curve is also a cubic one, whose control points
stand two thirds of the way from the ends to the control point there is.
-/

namespace SolidModel

open VectorOps (lerp)

/-- Vectors whose coordinates are also subtracted. -/
class VectorOps.HasDifferences (K : outParam Type) (P : Type) [Add K] [Mul K] [Sub K]
    [VectorOps K P] [HasCoordinates K P] : Prop where
  coordinate_sub : ∀ i (p q : P), HasCoordinates.coordinate i (p - q)
    = HasCoordinates.coordinate i p - HasCoordinates.coordinate i q

variable {K P : Type} [Field K] [LinearOrder K] [FloorRing K]

instance : VectorOps.HasDifferences K (Point2 K) where
  coordinate_sub i _ _ := by cases i <;> rfl

instance : VectorOps.HasDifferences K (Point3 K) where
  coordinate_sub i _ _ := by rcases i with _ | _ | _ <;> rfl

/-! ## Equal steps -/

namespace Bezier

variable {curve : K → P} {segments : ℤ}

/-- A curve at equal steps of its parameter, which is what either kind of curve returns. -/
def sampled (curve : K → P) (segments : ℤ) : Except (Fault K) (List P) := do
  checkSegments segments
  return (parameters segments).map curve

theorem sampled_eq_ok (curve : K → P) (h : 1 ≤ segments) :
    sampled curve segments
      = .ok ((List.range (segments.toNat + 1)).map fun i : ℕ ↦ curve (i / segments)) := by
  rw [sampled, checkSegments_eq_ok_iff.mpr h, parameters_eq_map, List.map_map]
  rfl

/-- The call returns the points of a curve at equal steps of its parameter, both ends included. -/
def Samples (curve : K → P) (segments : ℤ) (outcome : Except (Fault K) (List P)) : Prop :=
  ∃ points, outcome = .ok points ∧ (points.length : ℤ) = segments + 1 ∧
    ∀ i : ℕ, (i : ℤ) ≤ segments → points[i]? = some (curve (i / segments))

theorem samples_sampled (curve : K → P) (h : 1 ≤ segments) :
    Samples curve segments (sampled curve segments) := by
  refine ⟨_, sampled_eq_ok curve h, ?_, fun i hi ↦ ?_⟩
  · rw [List.length_map, List.length_range]
    omega
  · rw [List.getElem?_map, List.getElem?_range (by omega), Option.map_some]

/-- What a parameter lacks to one is the parameter of the sample that is as far from the end. -/
private theorem sampled_one_sub (curve : K → P) (segments : ℤ) :
    sampled (fun t ↦ curve (1 - t)) segments = (sampled curve segments).map List.reverse := by
  by_cases h : 1 ≤ segments
  · rw [sampled_eq_ok _ h, sampled_eq_ok _ h, Except.map]
    refine congrArg Except.ok (List.ext_getElem (by simp) fun i hi _ ↦ ?_)
    have hi : i ≤ segments.toNat := by simpa [Nat.lt_succ_iff] using hi
    have hne : (segments : K) ≠ 0 := by exact_mod_cast (by omega : segments ≠ 0)
    have hback : ((segments.toNat - i : ℕ) : K) / segments = 1 - i / segments := by
      rw [Nat.cast_sub hi, Scalar.cast_toNat h, sub_div, div_self hne]
    simp [hback]
  · rw [sampled, sampled, checkSegments, if_pos (by omega)]
    rfl

end Bezier

/-! ## Rounds of interpolation -/

variable [VectorOps K P]

namespace VectorOps.HasCoordinates

variable [HasCoordinates K P] [HasDifferences K P]

theorem coordinate_lerp (i) (p q : P) (t : K) :
    coordinate i (lerp p q t) = coordinate i p + (coordinate i q - coordinate i p) * t := by
  rw [lerp, coordinate_add, coordinate_mul, HasDifferences.coordinate_sub]

private theorem lerp_one_sub (p q : P) (t : K) : lerp p q (1 - t) = lerp q p t := by
  refine ext _ _ fun i ↦ ?_
  rw [coordinate_lerp, coordinate_lerp]
  ring

end VectorOps.HasCoordinates

namespace Bezier

/-- One point from a row of them, by rounds in which the points between every two neighbours take
their place, all at the same share of the way. -/
def interpolated : (n : ℕ) → (Fin (n + 1) → P) → K → P
  | 0, controls, _ => controls 0
  | n + 1, controls, t =>
    interpolated n (fun i ↦ lerp (controls i.castSucc) (controls i.succ) t) t

variable [VectorOps.HasCoordinates K P] [VectorOps.HasDifferences K P]

private theorem interpolated_rev (n : ℕ) (controls : Fin (n + 1) → P) (t : K) :
    interpolated n (controls ∘ Fin.rev) t = interpolated n controls (1 - t) := by
  induction n with
  | zero => rfl
  | succ n ih =>
    have hround : (fun i ↦ lerp ((controls ∘ Fin.rev) i.castSucc) ((controls ∘ Fin.rev) i.succ) t)
        = (fun i ↦ lerp (controls i.castSucc) (controls i.succ) (1 - t)) ∘ Fin.rev := by
      funext i
      rw [Function.comp_apply, Function.comp_apply, Function.comp_apply, Fin.rev_castSucc,
        Fin.rev_succ, VectorOps.HasCoordinates.lerp_one_sub]
    rw [interpolated, hround, ih, interpolated]

end Bezier

open Bezier VectorOps.HasCoordinates

namespace QuadraticBezier

/-- The points that a quadratic curve is drawn by. -/
def controls (b : QuadraticBezier P) : Fin 3 → P := ![b.start, b.control, b.finish]

/-- The curve from its finish to its start. -/
def reversed (b : QuadraticBezier P) : QuadraticBezier P :=
  { b with start := b.finish, finish := b.start }

/-- The same curve as a cubic one. -/
def elevated (b : QuadraticBezier P) : CubicBezier P where
  start := b.start
  control1 := b.start + (b.control - b.start) * (2.0 / 3.0 : K)
  control2 := b.finish + (b.control - b.finish) * (2.0 / 3.0 : K)
  finish := b.finish
  segments := b.segments

private theorem controls_reversed (b : QuadraticBezier P) :
    b.reversed.controls = b.controls ∘ Fin.rev := by
  funext i
  fin_cases i <;> rfl

variable [VectorOps.HasCoordinates K P] [VectorOps.HasDifferences K P]

theorem pointAt_eq (b : QuadraticBezier P) (t : K) : b.pointAt t = interpolated 2 b.controls t := by
  change _ = lerp (lerp b.start b.control t) (lerp b.control b.finish t) t
  refine ext _ _ fun i ↦ ?_
  simp only [pointAt, coordinate_lerp, coordinate_add, coordinate_mul]
  norm_num
  ring

theorem points_eq (b : QuadraticBezier P) :
    b.points = sampled (interpolated 2 b.controls) b.segments :=
  congrArg (sampled · b.segments) (funext b.pointAt_eq)

private theorem pointAt_elevated (b : QuadraticBezier P) (t : K) :
    b.elevated.pointAt t = b.pointAt t := by
  refine ext _ _ fun i ↦ ?_
  simp only [pointAt, CubicBezier.pointAt, elevated, coordinate_add, coordinate_mul,
    VectorOps.HasDifferences.coordinate_sub]
  norm_num
  ring

end QuadraticBezier

namespace CubicBezier

/-- The points that a cubic curve is drawn by. -/
def controls (b : CubicBezier P) : Fin 4 → P := ![b.start, b.control1, b.control2, b.finish]

/-- The curve from its finish to its start. -/
def reversed (b : CubicBezier P) : CubicBezier P where
  start := b.finish
  control1 := b.control2
  control2 := b.control1
  finish := b.start
  segments := b.segments

private theorem controls_reversed (b : CubicBezier P) :
    b.reversed.controls = b.controls ∘ Fin.rev := by
  funext i
  fin_cases i <;> rfl

variable [VectorOps.HasCoordinates K P] [VectorOps.HasDifferences K P]

theorem pointAt_eq (b : CubicBezier P) (t : K) : b.pointAt t = interpolated 3 b.controls t := by
  change _ = lerp (lerp (lerp b.start b.control1 t) (lerp b.control1 b.control2 t) t)
    (lerp (lerp b.control1 b.control2 t) (lerp b.control2 b.finish t) t) t
  refine ext _ _ fun i ↦ ?_
  simp only [pointAt, coordinate_lerp, coordinate_add, coordinate_mul]
  norm_num
  ring

theorem points_eq (b : CubicBezier P) :
    b.points = sampled (interpolated 3 b.controls) b.segments :=
  congrArg (sampled · b.segments) (funext b.pointAt_eq)

end CubicBezier

namespace Bezier

variable [VectorOps.HasCoordinates K P] [VectorOps.HasDifferences K P]

private theorem sampled_reversed {n : ℕ} {controls reversed : Fin (n + 1) → P}
    (h : reversed = controls ∘ Fin.rev) (segments : ℤ) :
    sampled (interpolated n reversed) segments
      = (sampled (interpolated n controls) segments).map List.reverse := by
  rw [← sampled_one_sub, h]
  exact congrArg (sampled · segments) (funext fun t ↦ interpolated_rev n controls t)

/-- **The samples of a curve are found by repeated interpolation** between its control points, at
equal steps. Hence the curve drawn from its other end has them in reverse order, and a quadratic
curve has those of the cubic one that it is. -/
theorem samples_interpolated :
    (∀ b : QuadraticBezier P, 1 ≤ b.segments →
      Samples (interpolated 2 b.controls) b.segments b.points ∧
      b.reversed.points = b.points.map List.reverse ∧ b.points = b.elevated.points) ∧
    ∀ b : CubicBezier P, 1 ≤ b.segments →
      Samples (interpolated 3 b.controls) b.segments b.points ∧
      b.reversed.points = b.points.map List.reverse := by
  refine ⟨fun b h ↦ ⟨?_, ?_, ?_⟩, fun b h ↦ ⟨?_, ?_⟩⟩
  · rw [b.points_eq]
    exact samples_sampled _ h
  · rw [b.points_eq, b.reversed.points_eq]
    exact sampled_reversed b.controls_reversed b.segments
  · exact (congrArg (sampled · b.segments) (funext b.pointAt_elevated)).symm
  · rw [b.points_eq]
    exact samples_sampled _ h
  · rw [b.points_eq, b.reversed.points_eq]
    exact sampled_reversed b.controls_reversed b.segments

/-- An arch in the plane. -/
def arch : QuadraticBezier (Point2 ℚ) := ⟨⟨0, 0⟩, ⟨1, 2⟩, ⟨2, 0⟩, 4⟩

/-- A bend in space, along three edges of a cube. -/
def bend : CubicBezier (Point3 ℚ) := ⟨⟨0, 0, 0⟩, ⟨8, 0, 0⟩, ⟨8, 8, 0⟩, ⟨8, 8, 8⟩, 2⟩

theorem samples_interpolated_arch :
    (1 ≤ arch.segments ∧ ∃ points, arch.points = .ok points ∧ points.length = 5 ∧
      points[1]? = some ⟨1 / 2, 3 / 4⟩ ∧ arch.reversed.points = .ok points.reverse ∧
      arch.elevated.points = .ok points) ∧
    1 ≤ bend.segments ∧ ∃ points, bend.points = .ok points ∧ points.length = 3 ∧
      points[1]? = some ⟨7, 4, 1⟩ ∧ bend.reversed.points = .ok points.reverse := by
  obtain ⟨⟨points, hpoints, hlength, hsamples⟩, hreversed, helevated⟩ :=
    (samples_interpolated (P := Point2 ℚ)).1 arch (by decide)
  obtain ⟨⟨joints, hjoints, hjointsLength, hjointsSamples⟩, hjointsReversed⟩ :=
    (samples_interpolated (P := Point3 ℚ)).2 bend (by decide)
  refine ⟨⟨by decide, points, hpoints, Int.ofNat_inj.mp hlength, ?_, ?_, ?_⟩,
    by decide, joints, hjoints, Int.ofNat_inj.mp hjointsLength, ?_, ?_⟩
  · rw [hsamples 1 (by decide)]
    decide +kernel
  · rw [hreversed, hpoints, Except.map]
  · rw [← helevated, hpoints]
  · rw [hjointsSamples 1 (by decide)]
    decide +kernel
  · rw [hjointsReversed, hjoints, Except.map]

end Bezier

end SolidModel
