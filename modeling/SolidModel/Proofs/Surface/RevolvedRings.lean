import Mathlib
import SolidModel.Polyhedron.Revolution
import SolidModel.Proofs.EarClipping.Planar
import SolidModel.Proofs.Space.Turns

/-!
# The rings of a revolution

Every ring of a revolution is the profile set upright and turned by its own angle. A partial turn is
closed by two caps, which the clipper sees laid down by their normals: the first by one that points
along a coordinate axis, the last by that normal turned with the ring. So the coordinate plane that
the last cap is laid into depends on the angle. But whichever it is, the cap comes out as the
profile itself, stretched across by the larger one of sine and cosine without their signs; the
first cap is the case of no turn at all, see `projected_revolvedRing`. What the clipper does with
the caps is thus decided by the profile.
-/

namespace SolidModel

variable {K : Type} [Field K] [LinearOrder K] [FloorRing K]
variable {profile : List (Point2 K)}

/-! ## Stretched loops -/

namespace Polyline

/-- The loop with its first coordinates multiplied by a number. -/
def stretched (loop : List (Point2 K)) (m : K) : List (Point2 K) :=
  loop.map fun p ↦ ⟨p.x * m, p.y⟩

private theorem stretched_one (loop : List (Point2 K)) : stretched loop 1 = loop := by
  simp [stretched]

private theorem signedArea_stretched (loop : List (Point2 K)) (m : K) :
    signedArea (stretched loop m) = signedArea loop * m := by
  have hedge (p q : Point2 K) :
      edgeArea ⟨p.x * m, p.y⟩ ⟨q.x * m, q.y⟩ = edgeArea p q * m := by
    simp only [edgeArea]
    ring
  rw [signedArea_eq, signedArea_eq, stretched, doubledArea_map hedge, div_mul_eq_mul_div]

/-- Any three points of a stretched loop turn the way they did. -/
private theorem sign_signedArea_points_stretched [IsStrictOrderedRing K] {m : K} (hm : 0 < m)
    (loop : List (Point2 K)) (s : Triangle) :
    SignType.sign (signedArea (s.points (stretched loop m)))
      = SignType.sign (signedArea (s.points loop)) := by
  rw [stretched, Triangle.points_map, ← stretched, signedArea_stretched, sign_mul, sign_pos hm,
    mul_one]

end Polyline

namespace Polyhedron

open Outcome Point3
open Polyline (signedArea)

variable {degrees step : K} {segments : ℤ} {count : ℕ}

/-- What a revolution asks of its arguments. -/
structure Revolvable (profile : List (Point2 K)) (degrees : K) (segments : ℤ) : Prop where
  three_le_length : 3 ≤ profile.length
  pos : 0 < degrees
  le_full : degrees ≤ 360
  three_le : 3 ≤ segments
  beside : ∀ p ∈ profile, -Scalar.epsilon ≤ p.x

theorem Revolvable.one_le (h : Revolvable profile degrees segments) : 1 ≤ segments :=
  le_trans (by norm_num) h.three_le

theorem Revolvable.find?_eq_none (h : Revolvable profile degrees segments) :
    profile.find? (fun p ↦ decide (p.x < -Scalar.epsilon)) = none :=
  List.find?_eq_none.mpr fun p hp ↦ by simpa using h.beside p hp

theorem div_mul_toNat (degrees : K) (h : 1 ≤ segments) :
    degrees / segments * (segments.toNat : ℕ) = degrees := by
  have hne : (segments : K) ≠ 0 := by
    exact_mod_cast (by omega : segments ≠ 0)
  rw [Scalar.cast_toNat h, div_mul_cancel₀ _ hne]

variable [Trig K]

/-! ## Rings -/

/-- A point of the profile set upright and turned about the vertical axis. -/
def revolvedPoint (degrees : K) (p : Point2 K) : Point3 K :=
  ⟨p.x * Trig.cos degrees, p.x * Trig.sin degrees, p.y⟩

/-- The profile set upright and turned about the vertical axis. -/
def revolvedRing (profile : List (Point2 K)) (degrees : K) : List (Point3 K) :=
  profile.map (revolvedPoint degrees)

private theorem rotatedAbout_upright (profile : List (Point2 K)) (degrees : K) :
    Polyline.rotatedAbout (Polyline.upright profile) .z degrees
      = .ok (revolvedRing profile degrees) := by
  rw [Polyline.rotatedAbout_eq_ok, Polyline.upright, List.map_map, revolvedRing]
  refine congrArg Except.ok (List.map_congr_left fun p _ ↦ ?_)
  simp [Point2.upright, Point3.turned, Angle.unit, revolvedPoint, Scalar.zero_eq]

/-- The rings of a turn in equal steps, the first of them not turned. -/
def turnedRings (profile : List (Point2 K)) (step : K) (count : ℕ) : List (List (Point3 K)) :=
  (List.range count).map fun k : ℕ ↦ revolvedRing profile (step * k)

theorem revolvedRings_eq_ok (profile : List (Point2 K)) (step : K) (count : ℕ) :
    revolvedRings profile step count = .ok (turnedRings profile step count) :=
  mapM_eq_ok fun k _ ↦ by rw [rotatedAbout_upright, Scalar.ofNat_eq]

private theorem headD_turnedRings (profile : List (Point2 K)) (step : K) (count : ℕ) :
    (turnedRings profile step (count + 1)).headD [] = revolvedRing profile 0 := by
  rw [turnedRings, List.range_succ_eq_map, List.map_cons, List.headD_cons, Nat.cast_zero, mul_zero]

private theorem getLastD_turnedRings (profile : List (Point2 K)) (degrees : K) (h : 1 ≤ segments) :
    (turnedRings profile (degrees / segments) (segments.toNat + 1)).getLastD []
      = revolvedRing profile degrees := by
  rw [turnedRings, List.range_succ, List.map_append, List.map_singleton, List.getLastD_concat,
    div_mul_toNat degrees h]

/-! ## Caps laid down -/

/-- How much a cap is stretched when it is laid down. -/
def capStretch (degrees : K) : K := max |Trig.cos degrees| |Trig.sin degrees|

/-- The direction that a cap faces after a turn. -/
def turnedNormal (degrees : K) : Point3 K := ⟨Trig.sin degrees, -Trig.cos degrees, 0⟩

private theorem rotated_startNormal (degrees : K) :
    (startNormal : Point3 K).rotated .z degrees = .ok (turnedNormal degrees) := by
  rw [Point3.rotated_eq_ok]
  simp [startNormal, turnedNormal, Point3.turned, Angle.unit, Scalar.zero_eq, Scalar.one_eq]

/-- A cap laid down by its normal is the profile, stretched, in whichever coordinate plane. -/
theorem projected_revolvedRing [IsStrictOrderedRing K] (profile : List (Point2 K)) (degrees : K) :
    Polyline.projected (revolvedRing profile degrees) (turnedNormal degrees)
      = Polyline.stretched profile (capStretch degrees) := by
  rw [Polyline.projected, revolvedRing, List.map_map, Polyline.stretched]
  refine List.map_congr_left fun p _ ↦ ?_
  simp only [Function.comp_apply, Point3.projected, revolvedPoint, turnedNormal, capStretch,
    Scalar.magnitude_eq_abs, Scalar.zero_eq, abs_neg, abs_zero, abs_nonneg, and_true, if_true]
  generalize Trig.cos degrees = c
  generalize Trig.sin degrees = s
  -- the first coordinate decides if the sine is not the smaller one, the second otherwise
  split_ifs with hwide hs hc
  · rw [max_eq_right hwide, abs_of_nonneg hs]
  · rw [max_eq_right hwide, abs_of_neg (not_le.mp hs), mul_neg]
  · rw [max_eq_left (le_of_not_ge hwide), abs_of_nonpos (neg_nonneg.mp hc), mul_neg]
  · rw [max_eq_left (le_of_not_ge hwide), abs_of_pos (neg_neg_iff_pos.mp (not_le.mp hc))]

section Exact

variable [Trig.IsExact K]

private theorem turnedNormal_zero : (turnedNormal 0 : Point3 K) = startNormal := by
  have hunit : (⟨Trig.cos 0, Trig.sin 0⟩ : Point2 K) = ⟨1, 0⟩ := Angle.unit_zero
  rw [Point2.mk.injEq] at hunit
  rw [turnedNormal, startNormal, hunit.1, hunit.2, Scalar.zero_eq, Scalar.one_eq]

variable [IsStrictOrderedRing K]

private theorem capStretch_zero : capStretch (0 : K) = 1 := by
  have hunit : (⟨Trig.cos 0, Trig.sin 0⟩ : Point2 K) = ⟨1, 0⟩ := Angle.unit_zero
  rw [Point2.mk.injEq] at hunit
  rw [capStretch, hunit.1, hunit.2, abs_one, abs_zero, max_eq_left zero_le_one]

private theorem projected_revolvedRing_zero (profile : List (Point2 K)) :
    Polyline.projected (revolvedRing profile 0) startNormal = profile := by
  rw [← turnedNormal_zero, projected_revolvedRing, capStretch_zero, Polyline.stretched_one]

/-- Sine and cosine are not both small. -/
theorem sqrt_half_le_capStretch (degrees : K) :
    Trig.sqrt (1 / 2) ≤ capStretch degrees := by
  have hunit : Trig.cos degrees * Trig.cos degrees + Trig.sin degrees * Trig.sin degrees = 1 :=
    Trig.IsCircular.cos_mul_cos_add_sin_mul_sin degrees
  have hcos : |Trig.cos degrees| * |Trig.cos degrees| ≤ capStretch degrees * capStretch degrees :=
    mul_self_le_mul_self (abs_nonneg _) (le_max_left _ _)
  have hsin : |Trig.sin degrees| * |Trig.sin degrees| ≤ capStretch degrees * capStretch degrees :=
    mul_self_le_mul_self (abs_nonneg _) (le_max_right _ _)
  rw [abs_mul_abs_self] at hcos hsin
  have hstretch : 0 ≤ capStretch degrees := (abs_nonneg _).trans (le_max_left _ _)
  have hhalf : (0 : K) ≤ 1 / 2 := by norm_num
  refine (mul_self_le_mul_self_iff (Trig.HasRoots.sqrt_nonneg _ hhalf) hstretch).mpr ?_
  rw [Trig.HasRoots.sqrt_mul_sqrt _ hhalf]
  linarith

theorem capStretch_pos (degrees : K) : 0 < capStretch degrees := by
  have hhalf : (0 : K) < 1 / 2 := by norm_num
  have hroot := Trig.HasRoots.sqrt_mul_sqrt (1 / 2 : K) hhalf.le
  refine lt_of_lt_of_le ((Trig.HasRoots.sqrt_nonneg _ hhalf.le).lt_of_ne fun hzero ↦ ?_)
    (sqrt_half_le_capStretch degrees)
  rw [← hzero, mul_zero] at hroot
  exact hhalf.ne hroot

end Exact

/-! ## Revolutions that are made -/

theorem revolvable_of_rotateExtrude {made : Noted (Polyhedron K)}
    (h : rotateExtrude profile degrees segments = .ok made) :
    Revolvable profile degrees segments := by
  simp only [rotateExtrude, guard_eq_ok_iff, not_not, not_lt, Scalar.zero_eq,
    Scalar.fullTurn_eq] at h
  obtain ⟨hlength, ⟨hpos, hle⟩, hsegments, h⟩ := h
  refine ⟨hlength, hpos, hle, hsegments, ?_⟩
  split at h
  · obtain ⟨_, hthrow, -⟩ := bind_eq_ok_iff.mp h
    cases hthrow
  next hcross =>
    intro p hp
    simpa using List.find?_eq_none.mp hcross p hp

namespace Revolvable

theorem rotateExtrude_full (h : Revolvable profile 360 segments) :
    rotateExtrude profile 360 segments = .ok {
      value := {
        points := (turnedRings profile (360 / segments) segments.toNat).flatten
        faces := revolvedStrips profile.length segments.toNat ++
          revolvedWalls ((segments.toNat - 1) * profile.length) 0 profile.length
        procedure := some (.revolution 360 segments) }
      notices := [] } := by
  have hfull : ((360 : K) == 360) = true := beq_self_eq_true _
  rw [rotateExtrude, Scalar.fullTurn_eq, Scalar.zero_eq, if_neg (not_lt.mpr h.three_le_length),
    if_neg (not_not.mpr ⟨h.pos, h.le_full⟩), if_neg (not_lt.mpr h.three_le), h.find?_eq_none]
  simp only [hfull, if_true, revolvedRings_eq_ok, Scalar.ofInt_eq]
  rfl

/-- **A part of a turn is capped by the profile, and by the profile stretched.** -/
theorem rotateExtrude_part [IsStrictOrderedRing K] [Trig.IsExact K]
    (h : Revolvable profile degrees segments) (hpart : degrees < 360) :
    rotateExtrude profile degrees segments = (do
      let first ← Triangulation.ofLoop profile
      let last ← Triangulation.ofLoop (Polyline.stretched profile (capStretch degrees))
      return {
        value := {
          points := (turnedRings profile (degrees / segments) (segments.toNat + 1)).flatten
          faces := revolvedStrips profile.length (segments.toNat + 1) ++
            (cap 0 first ++ cap (segments.toNat * profile.length) last.reversed)
          procedure := some (.revolution degrees segments) }
        notices := first.notices ++ last.notices }) := by
  have hopen : (degrees == 360) = false := beq_eq_false_iff_ne.mpr hpart.ne
  rw [rotateExtrude, Scalar.fullTurn_eq, Scalar.zero_eq, if_neg (not_lt.mpr h.three_le_length),
    if_neg (not_not.mpr ⟨h.pos, h.le_full⟩), if_neg (not_lt.mpr h.three_le), h.find?_eq_none]
  have hfirst : Triangulation.ofPlanarLoop ((turnedRings profile (degrees / segments)
      (segments.toNat + 1)).headD []) startNormal = Triangulation.ofLoop profile := by
    rw [Triangulation.ofPlanarLoop, headD_turnedRings, projected_revolvedRing_zero]
  have hlast : Triangulation.ofPlanarLoop ((turnedRings profile (degrees / segments)
      (segments.toNat + 1)).getLastD []) (turnedNormal degrees)
      = Triangulation.ofLoop (Polyline.stretched profile (capStretch degrees)) := by
    rw [Triangulation.ofPlanarLoop, getLastD_turnedRings profile degrees h.one_le,
      projected_revolvedRing]
  rw [← hfirst, ← hlast]
  simp only [hopen, Bool.false_eq_true, if_false, revolvedRings_eq_ok, Scalar.ofInt_eq,
    rotated_startNormal]
  rfl

end Revolvable

/-! ## The caps of a partial turn -/

/-- **What the clipper sees of a partial turn is the profile, whatever the angle.** The first cap
laid down is the profile as it is, and the last one is the profile stretched by the larger one of
sine and cosine without their signs; so any three points turn the same way in both of them, and
these two are all that is triangulated. -/
theorem caps_of_rotateExtrude [IsStrictOrderedRing K] [Trig.IsExact K] (hpos : 0 < degrees)
    (hpart : degrees < 360) (hsegments : 3 ≤ segments) (profile : List (Point2 K)) :
    ∃ rings normal,
      revolvedRings profile (degrees / Scalar.ofInt segments) (segments.toNat + 1) = .ok rings ∧
      startNormal.rotated .z degrees = .ok normal ∧
      Polyline.projected (rings.headD []) startNormal = profile ∧
      Polyline.projected (rings.getLastD []) normal
        = Polyline.stretched profile (max |Trig.cos degrees| |Trig.sin degrees|) ∧
      Trig.sqrt (1 / 2) ≤ max |Trig.cos degrees| |Trig.sin degrees| ∧
      (∀ s : Triangle,
        SignType.sign (signedArea (s.points (Polyline.projected (rings.headD []) startNormal)))
          = SignType.sign (signedArea (s.points profile)) ∧
        SignType.sign (signedArea (s.points (Polyline.projected (rings.getLastD []) normal)))
          = SignType.sign (signedArea (s.points profile))) ∧
      (3 ≤ profile.length → (∀ p ∈ profile, -Scalar.epsilon ≤ p.x) →
        rotateExtrude profile degrees segments = do
          let first ← Triangulation.ofLoop profile
          let last ← Triangulation.ofLoop
            (Polyline.stretched profile (max |Trig.cos degrees| |Trig.sin degrees|))
          return {
            value := {
              points := rings.flatten
              faces := revolvedStrips profile.length (segments.toNat + 1) ++
                (cap 0 first ++ cap (segments.toNat * profile.length) last.reversed)
              procedure := some (.revolution degrees segments) }
            notices := first.notices ++ last.notices }) := by
  refine ⟨turnedRings profile (degrees / segments) (segments.toNat + 1), turnedNormal degrees,
    revolvedRings_eq_ok _ _ _, rotated_startNormal degrees, ?_⟩
  have hone : 1 ≤ segments := le_trans (by norm_num) hsegments
  rw [headD_turnedRings, projected_revolvedRing_zero, getLastD_turnedRings profile degrees hone,
    projected_revolvedRing]
  refine ⟨rfl, rfl, sqrt_half_le_capStretch degrees, fun s ↦ ⟨rfl, ?_⟩, fun hlength hbeside ↦ ?_⟩
  · exact Polyline.sign_signedArea_points_stretched (capStretch_pos degrees) profile s
  · exact Revolvable.rotateExtrude_part ⟨hlength, hpos, hpart.le, hsegments, hbeside⟩ hpart

/-- A clockwise square on the axis. -/
def tablet : List (Point2 ℝ) := [⟨0, 0⟩, ⟨0, 1⟩, ⟨1, 1⟩, ⟨1, 0⟩]

/-- At an eighth of a turn, where the coordinate plane changes, the stretch is the least. -/
theorem caps_of_rotateExtrude_tablet :
    (0 : ℝ) < 45 ∧ (45 : ℝ) < 360 ∧ ∃ rings normal,
      revolvedRings tablet (45 / Scalar.ofInt 8) 9 = .ok rings ∧
      startNormal.rotated .z 45 = .ok normal ∧
      Polyline.projected (rings.headD []) startNormal = tablet ∧
      Polyline.projected (rings.getLastD []) normal
        = Polyline.stretched tablet (Real.sqrt 2 / 2) := by
  have hangle : (45 : ℝ) * (Real.pi / 180) = Real.pi / 4 := by ring
  have hcos : (Trig.cos 45 : ℝ) = Real.sqrt 2 / 2 := by
    change Real.cos (45 * (Real.pi / 180)) = _
    rw [hangle, Real.cos_pi_div_four]
  have hsin : (Trig.sin 45 : ℝ) = Real.sqrt 2 / 2 := by
    change Real.sin (45 * (Real.pi / 180)) = _
    rw [hangle, Real.sin_pi_div_four]
  have hpos : (0 : ℝ) < 45 := by norm_num
  have hpart : (45 : ℝ) < 360 := by norm_num
  obtain ⟨rings, normal, hrings, hnormal, hfirst, hlast, -⟩ :=
    caps_of_rotateExtrude hpos hpart (by norm_num : (3 : ℤ) ≤ 8) tablet
  rw [hcos, hsin, max_self, abs_of_nonneg (by positivity)] at hlast
  exact ⟨hpos, hpart, rings, normal, hrings, hnormal, hfirst, hlast⟩

end Polyhedron

end SolidModel
