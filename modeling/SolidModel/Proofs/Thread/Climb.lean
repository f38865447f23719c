import Mathlib
import SolidModel.Proofs.Plane.QuarterTurn
import SolidModel.Proofs.Thread.Crests
import SolidModel.Proofs.Thread.Heights

/-!
# How a thread climbs

From the second section on a thread is a helix: each section stands one step farther around and one
step higher than the one before it. The first two stand at the same height, one step of angle apart,
so that the height of a section lags one step behind its angle.

The number of steps is rounded down, and the rise of a step makes up for it. So a turn climbs no
less than the pitch, and less than it would with the pitch of one more step: threads of one pitch
and of different lengths do not climb alike, but they do the better the longer they are.
-/

namespace SolidModel

variable {K : Type} [Field K] [LinearOrder K] [FloorRing K]

namespace ThreadSpec

/-- How far around the section behind `k` others stands. -/
def angleBehind (t : ThreadSpec K) (k : ℕ) : K :=
  if t.leftHand then -(k * 360.0 / t.segments) else k * 360.0 / t.segments

theorem angleAt_planned (t : ThreadSpec K) (k : ℕ) :
    (Thread.planned t).angleAt k = t.angleBehind (k + 1) := by
  have hangle : 360.0 / (t.segments : K) * ((k + 1 : ℕ) : K)
      = (k + 1 : ℕ) * 360.0 / t.segments := by
    rw [Scalar.fullTurn_eq]
    ring
  rw [Thread.Plan.angleAt, angleBehind, Scalar.ofNat_eq, ← hangle]
  rfl

end ThreadSpec

namespace Thread

variable [Trig K]

/-- All sections in their places: the first one at angle and height zero, and each of the others as
many steps around as there are sections before it, and one step less up. A turn of such steps climbs
the pitch at least, and less than what the pitch is in the ratio of one more step. -/
structure Climbs (t : ThreadSpec K) (rings : List (List (Point3 K))) : Prop where
  length_eq : (rings.length : ℤ) = t.stepCount
  first : rings[0]? = some ((t.sectionOf (t.shareBehind 0)).placedAt (Angle.unit 0) 0)
  later : ∀ k, 1 ≤ k → k < rings.length → rings[k]? =
    some ((t.sectionOf (t.shareBehind k)).placedAt (Angle.unit (t.angleBehind k)) ((k - 1) * t.rise))
  pitch_le_turn : t.pitch ≤ t.rise * t.segments
  turn_lt : t.rise * t.segments < t.pitch * ((t.stepCount + 1) / t.stepCount)

variable {t : ThreadSpec K}

/-- **How a thread climbs.** Its points are those of its sections, in their places on the helix. -/
theorem climbs_of_shell [IsStrictOrderedRing K] {p : Polyhedron K} (h : shell t = .ok p) :
    ∃ rings, p.points = rings.flatten ∧ Climbs t rings := by
  obtain ⟨hfits, -, rfl⟩ := (shell_eq_ok_iff t).mp h
  have htwo := hfits.two_le
  have hlength := length_rings_planned hfits
  refine ⟨(planned t).rings, rfl, ?_⟩
  constructor
  case length_eq =>
    rw [hlength]
    omega
  case first =>
    rw [rings_eq, List.getElem?_cons_zero, ThreadSpec.shareBehind]
  case later =>
    intro k hk hlast
    obtain ⟨k, rfl⟩ : ∃ k', k = k' + 1 := Nat.exists_eq_add_of_le' hk
    have hrange : k < t.stepCount.toNat - 1 := by omega
    rw [rings_eq, List.getElem?_cons_succ, List.getElem?_map, List.getElem?_range hrange,
      Option.map_some, t.angleAt_planned, ThreadSpec.shareBehind, Nat.cast_succ,
      add_sub_cancel_right, mul_comm]
  case pitch_le_turn => exact hfits.pitch_le_turn
  case turn_lt => exact hfits.turn_lt_mul

/-- A left-hand thread that leaves room for another four tenths of a step. -/
def stretchedThread : ThreadSpec ℚ := ⟨2, 3, 1, 23 / 10, 4, 360, 0, true⟩

open scoped QuarterTurn in
/-- It has six sections, and a turn of it climbs a fifteenth more than the pitch. -/
theorem climbs_of_shell_stretchedThread : stretchedThread.stepCount = 6 ∧
    stretchedThread.rise * stretchedThread.segments = 16 / 15 ∧
      ∃ p rings, shell stretchedThread = .ok p ∧ p.points = rings.flatten ∧
        Climbs stretchedThread rings := by
  have hfits : Fits stretchedThread := ⟨by decide, by decide, by decide, by decide +kernel⟩
  have hmade := (shell_eq_ok_iff stretchedThread).mpr ⟨hfits, by decide +kernel, rfl⟩
  obtain ⟨rings, hpoints, hclimbs⟩ := climbs_of_shell hmade
  exact ⟨by decide +kernel, by decide +kernel, _, rings, hmade, hpoints, hclimbs⟩

end Thread

end SolidModel
