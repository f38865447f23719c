import Mathlib
import SolidModel.Polyhedron.Sweep
import SolidModel.Proofs.EarClipping.Area
import SolidModel.Proofs.Surface.RevolvedRings
import SolidModel.Proofs.Surface.Rings

/-!
# Profiles that run the other way

A construction takes its profile to be clockwise and does not look. It is only the clipper that
does, at the caps: a counter-clockwise profile carried into space is still counter-clockwise there,
seen from where its cap faces, and so a construction that closes its surface by caps refuses it.
One that closes its surface on itself, a full turn or a closed sweep, has no caps, and makes a
surface of such a profile as of any other, with all faces the wrong way round.

What the path of a sweep has to be for all its rings to be placed is stated on its own, see
`Traceable`.
-/

namespace SolidModel

variable {K : Type} [Field K] [LinearOrder K] [IsStrictOrderedRing K] [FloorRing K]
variable {profile : List (Point2 K)}

namespace Polyhedron

open Outcome Point3

/-! ## Caps -/

variable {lower upper : List (Point2 K)} {height : K}

theorem refusedAs_capped (procedure : Procedure K) (h3 : 3 ≤ lower.length)
    (h : 0 < Polyline.signedArea lower ∨ 0 < Polyline.signedArea upper) :
    RefusedAs .triangulation (capped lower upper height procedure) := by
  rcases EarClipping.refusedAs_or_eq_ok h3 with hlower | ⟨bottom, hbottom⟩
  · exact hlower.bind _
  · have hupper := h.resolve_left (EarClipping.signedArea_nonpos_of_ofLoop hbottom).not_gt
    exact .of_eq_ok hbottom ((EarClipping.refusedAs_of_signedArea_pos hupper).bind _)

theorem refusedAs_loft (hlength : upper.length = lower.length) (hheight : 0 < height)
    (h : 0 < Polyline.signedArea lower ∨ 0 < Polyline.signedArea upper) :
    RefusedAs .triangulation (loft lower upper height) := by
  have h3 : 3 ≤ lower.length :=
    h.elim Polyline.three_le_length fun h ↦ hlength ▸ Polyline.three_le_length h
  exact .of_guard (not_lt.mpr h3) (.of_guard (not_not.mpr hlength)
    (.of_guard (by rwa [Scalar.zero_eq, not_le]) (refusedAs_capped _ h3 h)))

variable [Trig K] [Trig.IsExact K]

/-! ## Solids of revolution -/

section Revolution

variable {degrees : K} {segments : ℤ} (hsegments : 3 ≤ segments)
  (haxis : ∀ p ∈ profile, -Scalar.epsilon ≤ p.x)
include hsegments haxis

/-- The first cap of a partial turn is the profile itself. -/
theorem refusedAs_rotateExtrude (h : 0 < Polyline.signedArea profile) (hpos : 0 < degrees)
    (hpart : degrees < 360) : RefusedAs .triangulation (rotateExtrude profile degrees segments) := by
  have hmade : Revolvable profile degrees segments :=
    ⟨Polyline.three_le_length h, hpos, hpart.le, hsegments, haxis⟩
  rw [hmade.rotateExtrude_part hpart]
  exact (EarClipping.refusedAs_of_signedArea_pos h).bind _

omit [Trig.IsExact K] in
theorem exists_rotateExtrude (h3 : 3 ≤ profile.length) :
    ∃ made, rotateExtrude profile 360 segments = .ok made :=
  ⟨_, Revolvable.rotateExtrude_full ⟨h3, by norm_num, le_rfl, hsegments, haxis⟩⟩

end Revolution

/-! ## Sweeps -/

/-- A path that passes its check, no ring of which is placed between two coinciding points. -/
def Traceable (path : List (Point3 K)) (closed : Bool) : Prop :=
  checkPath path closed = .ok () ∧
    ∀ s ∈ stations path closed, coincide s.before s.after = false

section Sweep

variable {path : List (Point3 K)} {closed : Bool} {twist : K}

theorem refusedAs_sweep (h : 0 < Polyline.signedArea profile) (hpath : Traceable path false) :
    RefusedAs .triangulation (sweep profile path twist false) := by
  have hlong : 2 ≤ path.length := length_le_of_checkPath hpath.1
  obtain ⟨p, q, rest, rfl⟩ : ∃ p q rest, path = p :: q :: rest := by
    match path, hlong with
    | p :: q :: rest, _ => exact ⟨p, q, rest, rfl⟩
  obtain ⟨rings, hrings⟩ := exists_sweptRings hpath.2 profile
    (twist / Scalar.ofNat ((p :: q :: rest).length - 1))
  have hring : 0 < Polyline.signedArea (Polyline.projected (rings.headD []) (q - p)) := by
    rw [← sign_eq_one_iff, sign_signedArea_headD hrings, sign_pos h]
  refine .of_guard (not_lt.mpr (Polyline.three_le_length h)) (.of_eq_ok hpath.1
    (.of_eq_ok hrings ?_))
  -- the cap over the first ring is refused, whatever becomes of the other
  simp only [Bool.false_eq_true, if_false]
  exact (EarClipping.refusedAs_of_signedArea_pos hring).bind _

theorem exists_sweep (h3 : 3 ≤ profile.length) (hpath : Traceable path true) :
    ∃ made, sweep profile path twist true = .ok made := by
  obtain ⟨rings, hrings⟩ := exists_sweptRings hpath.2 profile (twist / Scalar.ofNat path.length)
  exact ⟨_, sweep_closed_eq_ok_iff.mpr ⟨h3, hpath.1, rings, hrings, rfl⟩⟩

end Sweep

/-! ## All constructions -/

/-- **A counter-clockwise profile is refused where it is capped, and nowhere else.** -/
theorem refusedAs_of_counterClockwise (h : 0 < Polyline.signedArea profile) :
    (∀ height, 0 < height → RefusedAs .triangulation (linearExtrude profile height)) ∧
    (∀ other height, other.length = profile.length → 0 < height →
      RefusedAs .triangulation (loft profile other height) ∧
      RefusedAs .triangulation (loft other profile height)) ∧
    (∀ degrees segments, 0 < degrees → degrees ≤ 360 → 3 ≤ segments →
      (∀ p ∈ profile, -Scalar.epsilon ≤ p.x) →
      if degrees < 360 then RefusedAs .triangulation (rotateExtrude profile degrees segments)
      else ∃ made, rotateExtrude profile degrees segments = .ok made) ∧
    ∀ path twist closed, Traceable path closed →
      if closed then ∃ made, sweep profile path twist closed = .ok made
      else RefusedAs .triangulation (sweep profile path twist closed) := by
  refine ⟨fun height hheight ↦ ?_, fun other height hlength hheight ↦ ⟨?_, ?_⟩, ?_, ?_⟩
  · exact refusedAs_linearExtrudeBy _ h hheight (by simp)
  · exact refusedAs_loft hlength hheight (.inl h)
  · exact refusedAs_loft hlength.symm hheight (.inr h)
  · intro degrees segments hpos hle hsegments haxis
    split
    next hpart => exact refusedAs_rotateExtrude hsegments haxis h hpos hpart
    next hfull =>
      obtain rfl : degrees = 360 := hle.antisymm (not_lt.mp hfull)
      exact exists_rotateExtrude hsegments haxis (Polyline.three_le_length h)
  · intro path twist closed hpath
    cases closed with
    | true => exact exists_sweep (Polyline.three_le_length h) hpath
    | false => exact refusedAs_sweep h hpath

/-- A counter-clockwise square beside the axis. -/
def outward : List (Point2 ℝ) := [⟨3, 0⟩, ⟨4, 0⟩, ⟨4, 1⟩, ⟨3, 1⟩]

private theorem signedArea_outward : Polyline.signedArea outward = 1 := by
  rw [Polyline.signedArea_eq]
  norm_num [outward, Polyline.doubledArea, Polyline.edgeSum_cons, Polyline.edgeArea]

private theorem outward_offAxis : ∀ p ∈ outward, -Scalar.epsilon ≤ p.x := by
  have hpos : (0 : ℝ) < Scalar.epsilon := Scalar.epsilon_pos
  simp only [outward, List.forall_mem_cons, List.not_mem_nil, false_imp_iff, implies_true, and_true]
  refine ⟨?_, ?_, ?_, ?_⟩ <;> linarith

/-- The corners of a triangle with sides 3, 4 and 5. -/
def corners : List (Point3 ℝ) := [⟨0, 0, 0⟩, ⟨3, 0, 0⟩, ⟨0, 4, 0⟩]

private theorem coincide_corners :
    ∀ p ∈ corners, ∀ q ∈ corners, p ≠ q → coincide p q = false := by
  intro p hp q hq h
  rw [coincide_eq_false_iff]
  simp only [corners, List.mem_cons, List.not_mem_nil, or_false] at hp hq
  rcases hp with rfl | rfl | rfl <;> rcases hq with rfl | rfl | rfl <;>
    first
      | exact absurd rfl h
      | norm_num [dot_eq, Scalar.epsilon]

theorem traceable_corners (closed : Bool) : Traceable corners closed := by
  have hapart := coincide_corners
  norm_num [corners] at hapart
  cases closed <;>
    simp [Traceable, checkPath, stations, corners, List.rotateLeft, List.rotateRight,
      List.findIdx?_cons, hapart, pure, Except.pure]

/-- The square is refused along two sides of the triangle and in a quarter turn. -/
theorem refusedAs_of_counterClockwise_outward :
    RefusedAs .triangulation (linearExtrude outward 1) ∧
      RefusedAs .triangulation (loft outward.reverse outward 1) ∧
      RefusedAs .triangulation (rotateExtrude outward 90 3) ∧
      RefusedAs .triangulation (sweep outward corners 30 false) := by
  have h : 0 < Polyline.signedArea outward := by
    rw [signedArea_outward]
    exact one_pos
  obtain ⟨hextrude, hloft, hrevolve, hsweep⟩ := refusedAs_of_counterClockwise h
  have hpart := hrevolve 90 3 (by norm_num) (by norm_num) le_rfl outward_offAxis
  rw [if_pos (by norm_num)] at hpart
  exact ⟨hextrude 1 one_pos, (hloft _ 1 (List.length_reverse) one_pos).2, hpart,
    hsweep corners 30 false (traceable_corners false)⟩

/-- In a full turn, and all around the triangle, it is not. -/
theorem exists_made_outward :
    0 < Polyline.signedArea outward ∧ (∃ made, rotateExtrude outward 360 4 = .ok made) ∧
      ∃ made, sweep outward corners 0 true = .ok made := by
  refine ⟨?_, exists_rotateExtrude (by norm_num) outward_offAxis (by decide),
    exists_sweep (by decide) (traceable_corners true)⟩
  rw [signedArea_outward]
  exact one_pos

end Polyhedron

end SolidModel
